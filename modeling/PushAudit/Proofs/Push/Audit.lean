import PushAudit.Proofs.Push.Findings

namespace PushAudit.Push

/-- The commit that an issue must be about. Only a push that names no commit at all is reported
under the bare id after it. -/
inductive IsHeadline (e : Event) : Commit → Prop
  | head {c : Commit} (h : e.headCommit = some c) : IsHeadline e c
  | last {cs : List Commit} {c : Commit} (hh : e.headCommit = none) (h : e.commits = cs ++ [c]) :
      IsHeadline e c
  | bare (hh : e.headCommit = none) (h : e.commits = []) : IsHeadline e ⟨e.after.getD "", "", none⟩

inductive IsCredit (c : Commit) (unknownAuthor : String) : String → Prop
  | author {p : Person} {name : String} (hp : c.author = some p) (hn : p.name = some name)
      (h : ∃ x ∈ name.toList, ¬ Text.isBlank x) : IsCredit c unknownAuthor name
  | unknown (h : ∀ p name, c.author = some p → p.name = some name → ∀ x ∈ name.toList, Text.isBlank x) :
      IsCredit c unknownAuthor unknownAuthor

theorem headline_isHeadline (e : Event) : IsHeadline e (headline e) := by
  cases hh : e.headCommit with
  | some c => exact .head (by simp [headline, hh])
  | none =>
      cases hl : e.commits.getLast? with
      | none =>
          have hb : headline e = ⟨e.after.getD "", "", none⟩ := by simp [headline, hh, hl]
          exact hb ▸ .bare hh (List.getLast?_eq_none_iff.mp hl)
      | some c =>
          obtain ⟨cs, hcs⟩ := List.getLast?_eq_some_iff.mp hl
          have hb : headline e = c := by simp [headline, hh, hl]
          exact hb ▸ .last hh hcs

theorem authorName_isCredit (c : Commit) (unknownAuthor : String) :
    IsCredit c unknownAuthor (c.authorName.getD unknownAuthor) := by
  cases hn : c.authorName with
  | some name =>
      obtain ⟨hb, ht⟩ := Option.filter_eq_some_iff.mp hn
      obtain ⟨p, hp, hpn⟩ := Option.bind_eq_some_iff.mp hb
      exact .author hp hpn (by simpa [Text.isBlankText] using ht)
  | none =>
      refine .unknown fun p name hp hpn => ?_
      have ht := Option.filter_eq_none_iff.mp hn name (by rw [hp]; exact hpn)
      simpa [Text.isBlankText] using ht

theorem fetchAll_run (service : Query → Fetched) (repository : Location) (cs : List Commit) :
    (fetchAll repository cs).run service =
      ⟨cs.map fun c => (c.id, service ⟨repository, c.id⟩), cs.map fun c => ⟨repository, c.id⟩, []⟩ := by
  induction cs with
  | nil => rfl
  | cons c cs ih =>
      rw [fetchAll, Script.run_bind, Script.run_bind, ih]
      simp only [Script.run_pure, List.map_cons, List.append_nil]
      rfl

theorem audit_run_watched (service : Query → Fetched) (e : Event) (branches : List String)
    (unknownAuthor : String) (h : branchName e.ref ∈ branches) :
    let results := e.commits.map fun c => (c.id, service ⟨e.repository.location, c.id⟩)
    let t := (audit e branches unknownAuthor).run service
    t.value = some (outcome e unknownAuthor ⟨violations (retrieved results), unretrieved results⟩) ∧
      t.asked = e.commits.map fun c => ⟨e.repository.location, c.id⟩ := by
  have hw : isWatched e.ref branches := by simpa [isWatched] using h
  have hf := fetchAll_run service e.repository.location e.commits
  simp only [audit, hw, if_true, Script.run_bind, Script.run_log, Script.run_notes, Script.run_pure, hf,
    findings_eq, List.nil_append, List.append_nil, and_self]

theorem audit_run_unwatched (service : Query → Fetched) (e : Event) (branches : List String)
    (unknownAuthor : String) (h : branchName e.ref ∉ branches) :
    let t := (audit e branches unknownAuthor).run service
    t.value = none ∧ t.asked = [] := by
  have hw : isWatched e.ref branches = false := by simpa [isWatched] using h
  simp only [audit, hw, Bool.false_eq_true, if_false, Script.run_bind, Script.run_log, Script.run_pure,
    List.append_nil, and_self]

/-- A push to an unwatched branch has no outcome and fetches nothing. Any other push fetches each of
its commits once, in their order, reports what a scan of the patches of all fetched commits reports,
lists the commits that failed, and drafts its issue from that same report. -/
theorem audit_reports_retrieved_patches (e : Event) (service : Query → Fetched) (branches : List String)
    (unknownAuthor : String) :
    let query (c : Commit) : Query := ⟨e.repository.location, c.id⟩
    let results := e.commits.map fun c => (c.id, service (query c))
    let patches := (retrieved results).filterMap fun f => f.patch.map (Fragment.mk f.name)
    let t := (audit e branches unknownAuthor).run service
    (branchName e.ref ∉ branches → t.value = none ∧ t.asked = []) ∧
      (branchName e.ref ∈ branches → ∃ o c author,
        t.value = some o ∧ t.asked = e.commits.map query ∧
        o.repository = e.repository.location ∧
        o.report = Report.ofFragments patches ∧ o.failed = unretrieved results ∧
        IsHeadline e c ∧ IsCredit c unknownAuthor author ∧
        o.issue.title = o.report.title c.id ∧ o.issue.body = o.report.body ⟨c.id, c.message, author⟩ ∧
        o.issue.labels = o.report.labels) := by
  refine ⟨audit_run_unwatched service e branches unknownAuthor, fun h => ?_⟩
  obtain ⟨hv, ha⟩ := audit_run_watched service e branches unknownAuthor h
  exact ⟨_, headline e, (headline e).authorName.getD unknownAuthor, hv, ha, rfl, rfl, rfl,
    headline_isHeadline e, authorName_isCredit _ _, rfl, rfl, rfl⟩

end PushAudit.Push
