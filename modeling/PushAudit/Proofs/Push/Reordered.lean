import PushAudit.Proofs.Push.Audit
import PushAudit.Proofs.Report.Reordered

namespace PushAudit.Push

section

variable {results results' : List (String × Fetched)}

theorem retrieved_perm (h : results.Perm results') : (retrieved results).Perm (retrieved results') :=
  (h.filterMap _).flatten

theorem unretrieved_perm (h : results.Perm results') : (unretrieved results).Perm (unretrieved results') :=
  (h.filter _).map _

theorem violations_perm {files files' : List ChangedFile} (h : files.Perm files') :
    (violations files).Perm (violations files') :=
  (h.filterMap _).flatMap_right _

end

structure Outcome.Reordered (o o' : Outcome) : Prop where
  repository : o.repository = o'.repository
  report : Report.Reordered o.report o'.report
  failed : o.failed.Perm o'.failed
  issue : ∃ s, o.issue = o.report.issue s ∧ o'.issue = o'.report.issue s
  title : o.issue.title = o'.issue.title
  labels : o.issue.labels = o'.issue.labels

theorem subject_of_headCommit {e : Event} {c : Commit} (h : e.headCommit = some c) (commits : List Commit)
    (unknownAuthor : String) : subject { e with commits } unknownAuthor = subject e unknownAuthor := by
  simp only [subject, headline, h, Option.some_or, Option.getD_some]

theorem outcome_reordered {e : Event} {c : Commit} (hhead : e.headCommit = some c) (commits : List Commit)
    (unknownAuthor : String) {f f' : Findings} (hviolations : f.violations.Perm f'.violations)
    (hfailed : f.failed.Perm f'.failed) :
    Outcome.Reordered (outcome e unknownAuthor f) (outcome { e with commits } unknownAuthor f') := by
  have hreport := Report.reordered_ofViolations hviolations
  have hsubject := subject_of_headCommit hhead commits unknownAuthor
  refine ⟨rfl, hreport, hfailed, ⟨subject e unknownAuthor, rfl, ?_⟩, ?_, hreport.labels_eq⟩
  · rw [outcome, hsubject]
  · simp only [outcome, Report.issue, hsubject]
    exact hreport.title_eq _

/-- The order in which the commits of a push are listed decides the order of what is reported, and
nothing else, where the push names the commit that its issue is about. -/
theorem audit_reordered (e : Event) (service : Query → Fetched) (branches : List String) (unknownAuthor : String)
    {c : Commit} (hhead : e.headCommit = some c) (hwatched : branchName e.ref ∈ branches)
    {commits : List Commit} (hcommits : e.commits.Perm commits) :
    ∃ o o', ((audit e branches unknownAuthor).run service).value = some o ∧
      ((audit { e with commits } branches unknownAuthor).run service).value = some o' ∧
      Outcome.Reordered o o' := by
  obtain ⟨hvalue, -⟩ := audit_run_watched service e branches unknownAuthor hwatched
  obtain ⟨hvalue', -⟩ := audit_run_watched service { e with commits } branches unknownAuthor hwatched
  have hresults := hcommits.map fun c => (c.id, service ⟨e.repository.location, c.id⟩)
  have hviolations := violations_perm (retrieved_perm hresults)
  exact ⟨_, _, hvalue, hvalue',
    outcome_reordered hhead commits unknownAuthor hviolations (unretrieved_perm hresults)⟩

def threeFetched (q : Query) : Fetched :=
  if q.commit = "c1" then .ok [⟨"a.js", some "+eval(x)"⟩, ⟨"b.js", some "+// TODO"⟩]
  else if q.commit = "c2" then .ok [⟨"b.js", some "+eval(x)"⟩, ⟨"logo.png", none⟩]
  else .error (.invalidId q.commit)

def threeCommits : Event where
  ref := "refs/heads/main"
  after := none
  pusher := none
  repository := ⟨"app", some ⟨none, some "acme"⟩⟩
  commits := [⟨"c1", "one", none⟩, ⟨"x", "two", none⟩, ⟨"c2", "three", none⟩]
  headCommit := some ⟨"c2", "three", none⟩

/-- Three commits in two orders. The issue's text is not the same. -/
theorem audit_reordered_sample :
    ∃ o o', ((audit threeCommits ["main"] "unknown").run threeFetched).value = some o ∧
      ((audit { threeCommits with commits := threeCommits.commits.reverse } ["main"] "unknown").run
        threeFetched).value = some o' ∧
      Outcome.Reordered o o' ∧ o.report.counts = ⟨3, 2, 0, 1⟩ ∧ o.failed = ["x"] ∧
      o.issue.body ≠ o'.issue.body := by
  obtain ⟨o, o', ho, ho', hreordered⟩ := audit_reordered threeCommits threeFetched ["main"] "unknown" rfl
    (by decide +kernel) (List.reverse_perm _).symm
  have hshown : ((audit threeCommits ["main"] "unknown").run threeFetched).value.map
      (fun o => (o.report.counts, o.failed)) = some (⟨3, 2, 0, 1⟩, ["x"]) := by
    decide +kernel
  have hbody : ((audit threeCommits ["main"] "unknown").run threeFetched).value.map (·.issue.body) ≠
      ((audit { threeCommits with commits := threeCommits.commits.reverse } ["main"] "unknown").run
        threeFetched).value.map (·.issue.body) := by
    decide +kernel
  rw [ho, Option.map_some, Option.some.injEq, Prod.mk.injEq] at hshown
  rw [ho, ho', Option.map_some, Option.map_some, ne_eq, Option.some.injEq] at hbody
  exact ⟨o, o', ho, ho', hreordered, hshown.1, hshown.2, hbody⟩

end PushAudit.Push
