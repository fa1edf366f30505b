import PushAudit.Proofs.Push.Audit
import PushAudit.Proofs.Report.Coverage
import PushAudit.Proofs.Report.Verdict

namespace PushAudit

def Counts.ofSeverity (c : Counts) : Severity → Nat
  | .low => c.low
  | .medium => c.medium
  | .high => c.high

theorem Counts.ofViolations_append (vs ws : List Violation) :
    let c := ofViolations vs
    let d := ofViolations ws
    ofViolations (vs ++ ws) = ⟨c.total + d.total, c.high + d.high, c.medium + d.medium, c.low + d.low⟩ := by
  intro c d
  simp only [ofViolations, List.length_append, List.countP_append, c, d]

theorem Rule.nodup_map_issue_catalog : (catalog.map (·.issue)).Nodup := by decide

theorem Rule.map_issue_violations (file text : String) :
    (violations file text).map (·.issue) = (applying text).map (·.issue) := by
  rw [violations, List.map_map]
  rfl

theorem Rule.nodup_map_issue_violations (file text : String) : ((violations file text).map (·.issue)).Nodup := by
  have hsublist : (applying text).Sublist catalog := List.filter_sublist
  rw [map_issue_violations]
  exact (hsublist.map _).nodup nodup_map_issue_catalog

namespace Report

open Diff (afterMark?)

def readNumber? (label : String) (text : List Char) : Option (Nat × List Char) :=
  (afterMark? label.toList text).map fun rest =>
    (Nat.ofDigitChars 10 (rest.takeWhile Char.isDigit) 0, rest.dropWhile Char.isDigit)

def readCounts? (summary : String) : Option Counts := do
  let (total, rest) ← readNumber? "❌ Found " summary.toList
  let (high, rest) ← readNumber? " violation(s): " rest
  let (medium, rest) ← readNumber? " high, " rest
  let (low, rest) ← readNumber? " medium, " rest
  if rest = " low".toList then return ⟨total, high, medium, low⟩ else none

theorem readNumber?_append (label : String) (n : Nat) {rest : List Char} (h : rest.head? = some ' ') :
    readNumber? label (label.toList ++ ((toString n).toList ++ rest)) = some (n, rest) := by
  obtain ⟨more, rfl⟩ := List.head?_eq_some_iff.mp h
  have hdigits : ∀ c ∈ Nat.toDigits 10 n, c.isDigit = true :=
    fun c hc => Nat.isDigit_of_mem_toDigits (by decide) (by decide) hc
  have hn : (toString n).toList = Nat.toDigits 10 n := Nat.toList_repr
  have hblank : Char.isDigit ' ' = false := rfl
  rw [readNumber?, Diff.afterMark?_eq_some_iff.mpr rfl, Option.map_some, hn,
    List.takeWhile_append_of_pos hdigits, List.dropWhile_append_of_pos hdigits, List.takeWhile_cons,
    List.dropWhile_cons, hblank, if_neg Bool.false_ne_true, if_neg Bool.false_ne_true, List.append_nil,
    Nat.ofDigitChars_ten_toDigits]

theorem head?_label_append (label : String) (h : label.toList.head? = some ' ') (rest : List Char) :
    (label.toList ++ rest).head? = some ' ' := by
  rw [List.head?_append, h, Option.some_or]

theorem readCounts?_failedSummary (c : Counts) : readCounts? (failedSummary c) = some c := by
  have hsummary : (failedSummary c).toList = "❌ Found ".toList ++ ((toString c.total).toList ++
      (" violation(s): ".toList ++ ((toString c.high).toList ++ (" high, ".toList ++
        ((toString c.medium).toList ++ (" medium, ".toList ++ ((toString c.low).toList ++ " low".toList))))))) := by
    unfold failedSummary
    simp only [String.toList_append, List.append_assoc]
  have hhigh := head?_label_append " violation(s): " (by decide)
  have hmedium := head?_label_append " high, " (by decide)
  have hlow := head?_label_append " medium, " (by decide)
  have hend : " low".toList.head? = some ' ' := by decide
  simp only [readCounts?, hsummary, readNumber?_append _ _ (hhigh _), readNumber?_append _ _ (hmedium _),
    readNumber?_append _ _ (hlow _), readNumber?_append _ _ hend, Option.bind_eq_bind, Option.bind_some,
    if_true]
  rfl

/-- All that a report says in numbers is counted in its violations, and its summary tells it. -/
structure Tallied (r : Report) : Prop extends r.Coherent where
  ofSeverity_eq : ∀ s, r.counts.ofSeverity s = r.violations.countP (·.severity = s)
  passed_iff_nil : r.passed = true ↔ r.violations = []
  readCounts?_summary : readCounts? r.summary = if r.passed then none else some r.counts

theorem tallied_ofViolations (vs : List Violation) : (ofViolations vs).Tallied where
  toCoherent := coherent_ofViolations vs
  ofSeverity_eq s := by cases s <;> rfl
  passed_iff_nil := (coherent_ofViolations vs).passed_iff_nil
  readCounts?_summary := by
    have hpassed : readCounts? passedSummary = none := by decide +kernel
    rw [(coherent_ofViolations vs).summary_eq]
    split
    · exact hpassed
    · exact readCounts?_failedSummary _

/-- The violations are found fragment by fragment. In none of them is an issue found twice. -/
structure ByFragment (fs : List Fragment) (r : Report) : Prop where
  violations_eq : r.violations = fs.flatMap fun f => (ofFragments [f]).violations
  file_eq : ∀ f ∈ fs, ∀ v ∈ (ofFragments [f]).violations, v.file = f.file
  nodup : ∀ f ∈ fs, ((ofFragments [f]).violations.map (·.issue)).Nodup
  rule : ∀ v ∈ r.violations, ∃ rule ∈ Rule.catalog, v.issue = rule.issue ∧ v.severity = rule.severity

/-- A report with the fragments that it is made from. -/
inductive MadeFrom : List Fragment → Report → Prop
  | scan (fs : List Fragment) : MadeFrom fs (ofFragments fs)
  | push {e : Push.Event} {service : Push.Query → Push.Fetched} {branches : List String}
      {unknownAuthor : String} {o : Push.Outcome}
      (h : ((Push.audit e branches unknownAuthor).run service).value = some o) :
      MadeFrom (Push.fragments (Push.retrieved
        (e.commits.map fun c => (c.id, service ⟨e.repository.location, c.id⟩)))) o.report

inductive Made : Report → Prop
  | violations (vs : List Violation) : Made (ofViolations vs)
  | fragments {fs : List Fragment} {r : Report} (h : MadeFrom fs r) : Made r

theorem MadeFrom.eq {fs : List Fragment} {r : Report} (h : MadeFrom fs r) : r = ofFragments fs := by
  cases h with
  | scan => rfl
  | @push e service branches unknownAuthor o h =>
      by_cases hwatched : Push.branchName e.ref ∈ branches
      · obtain ⟨hvalue, -⟩ := Push.audit_run_watched service e branches unknownAuthor hwatched
        obtain rfl := Option.some.inj (hvalue.symm.trans h)
        rfl
      · obtain ⟨hvalue, -⟩ := Push.audit_run_unwatched service e branches unknownAuthor hwatched
        rw [hvalue] at h
        simp at h

theorem violations_ofFragments_singleton (f : Fragment) :
    (ofFragments [f]).violations = Rule.violations f.file f.text := List.append_nil _

theorem byFragment_ofFragments (fs : List Fragment) : ByFragment fs (ofFragments fs) where
  violations_eq := by
    simp only [violations_ofFragments_singleton]
    rfl
  file_eq f _ v hv := by
    rw [violations_ofFragments_singleton, Rule.mem_violations_iff] at hv
    obtain ⟨rule, -, -, rfl⟩ := hv
    rfl
  nodup f _ := by
    rw [violations_ofFragments_singleton]
    exact Rule.nodup_map_issue_violations f.file f.text
  rule v hv := by
    obtain ⟨f, -, hv⟩ := List.mem_flatMap.mp hv
    obtain ⟨rule, hrule, -, rfl⟩ := Rule.mem_violations_iff.mp hv
    exact ⟨rule, hrule, rfl, rfl⟩

theorem Made.tallied {r : Report} (h : Made r) : r.Tallied := by
  cases h with
  | violations vs => exact tallied_ofViolations vs
  | fragments h =>
      rw [h.eq]
      exact tallied_ofViolations _

/-- Reports add up: the report on two lists of fragments has the violations of the first and then those of
the second, and its numbers are the sums of theirs. In every report that is made the numbers are those of its
violations, and they can be read back from the summary if it did not pass; and no fragment has an issue twice. -/
theorem reports_add_up (p q : List Fragment) :
    let r := ofFragments (p ++ q)
    let s := ofFragments p
    let t := ofFragments q
    (r.violations = s.violations ++ t.violations ∧ r.passed = (s.passed && t.passed) ∧
        r.counts = ⟨s.counts.total + t.counts.total, s.counts.high + t.counts.high,
          s.counts.medium + t.counts.medium, s.counts.low + t.counts.low⟩) ∧
      (∀ made, Made made → made.Tallied) ∧ ∀ fs made, MadeFrom fs made → ByFragment fs made := by
  intro r s t
  have hviolations : r.violations = s.violations ++ t.violations := List.flatMap_append
  refine ⟨⟨hviolations, ?_, ?_⟩, fun made h => h.tallied, fun fs made h => ?_⟩
  · have hempty : (s.violations ++ t.violations).isEmpty = (s.violations.isEmpty && t.violations.isEmpty) := by
      cases s.violations <;> rfl
    exact (congrArg List.isEmpty hviolations).trans hempty
  · have hcounts : r.counts = Counts.ofViolations r.violations := rfl
    rw [hcounts, hviolations]
    exact Counts.ofViolations_append _ _
  · rw [h.eq]
    exact byFragment_ofFragments fs

end Report

end PushAudit
