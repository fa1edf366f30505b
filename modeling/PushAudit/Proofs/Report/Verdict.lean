import PushAudit.Console.Print
import PushAudit.Proofs.Report.Rows

namespace PushAudit

open Console (Format Printed)

/-- All parts of a report from which one can tell whether it passed tell the same. -/
structure Report.Coherent (r : Report) : Prop where
  parts : r.counts.high + r.counts.medium + r.counts.low = r.counts.total
  total : r.counts.total = r.violations.length
  passed_iff : r.passed = true ↔ r.counts.total = 0
  summary_eq : r.summary = if r.passed then passedSummary else failedSummary r.counts
  summary_iff : r.summary = passedSummary ↔ r.passed = true

def Issue.passedTitle : String := "✅ Compliance Check Passed - "

def Issue.failedTitle : String := "🚨 Compliance Violations Detected - "

structure Issue.Coherent (i : Issue) (r : Report) : Prop where
  passedTitle_iff : passedTitle.toList <+: i.title.toList ↔ r.passed = true
  failedTitle_iff : failedTitle.toList <+: i.title.toList ↔ r.passed = false
  labels_eq : i.labels = ["compliance", if r.passed then "passed" else "violation"]
  summary : r.summary.toList <:+: i.body.toList

def Json.field? (name : String) : Json → Option Json
  | record fields => fields.lookup name
  | _ => none

/-- The fields for a verdict that the documents on a scan and on a push have in common. -/
structure Json.States (j : Json) (r : Report) : Prop where
  passed : j.field? "passed" = some (bool r.passed)
  total : (j.field? "counts").bind (field? "total") = some (nat r.counts.total)
  high : (j.field? "counts").bind (field? "high") = some (nat r.counts.high)
  medium : (j.field? "counts").bind (field? "medium") = some (nat r.counts.medium)
  low : (j.field? "counts").bind (field? "low") = some (nat r.counts.low)
  violations : j.field? "violations" = some (list (r.violations.map Violation.document))

namespace Console

inductive StatesScan (r : Report) : Format → String → Prop
  | json {j : Json} (h : j.States r) (hsummary : j.field? "summary" = some (.text r.summary)) :
      StatesScan r .json (line j.print)
  | human {out : String} (h : r.summary.toList <:+: out.toList) : StatesScan r .human out

/-- Output on a push that gives the verdict of a report and of the issue drafted from it. -/
inductive StatesPush (r : Report) (i : Issue) : Format → String → Prop
  | json {j : Json} (h : j.States r) (htitle : j.field? "title" = some (.text i.title))
      (hlabels : j.field? "labels" = some (.texts i.labels)) : StatesPush r i .json (line j.print)
  | human (color : Bool) (skipped : String) :
      StatesPush r i .human (line (styled color bold i.title) ++
        line ("labels: " ++ ", ".intercalate i.labels) ++ skipped ++ i.body)

end Console

namespace Report

theorem failedSummary_ne_passedSummary (c : Counts) : failedSummary c ≠ passedSummary := by
  intro h
  have hmark : "❌ Found ".toList <+: (failedSummary c).toList := by
    unfold failedSummary
    simp only [String.toList_append, List.append_assoc]
    exact List.prefix_append _ _
  rw [h] at hmark
  exact absurd hmark (by decide +kernel)

theorem Coherent.passed_iff_nil {r : Report} (h : r.Coherent) : r.passed = true ↔ r.violations = [] := by
  rw [h.passed_iff, h.total, List.length_eq_zero_iff]

theorem sum_ofViolations (vs : List Violation) :
    (Counts.ofViolations vs).high + (Counts.ofViolations vs).medium + (Counts.ofViolations vs).low =
      vs.length := by
  unfold Counts.ofViolations
  induction vs with
  | nil => rfl
  | cons v vs ih =>
      simp only [List.countP_cons, List.length_cons] at ih ⊢
      cases v.severity <;> simp <;> omega

theorem coherent_ofViolations (vs : List Violation) : (ofViolations vs).Coherent where
  parts := sum_ofViolations vs
  total := rfl
  passed_iff := List.isEmpty_iff.trans List.length_eq_zero_iff.symm
  summary_eq := rfl
  summary_iff := by
    unfold ofViolations
    cases vs with
    | nil => simp
    | cons v vs => simp [failedSummary_ne_passedSummary]

theorem prefix_title_iff (r : Report) (commit : String) :
    (Issue.passedTitle.toList <+: (r.title commit).toList ↔ r.passed = true) ∧
      (Issue.failedTitle.toList <+: (r.title commit).toList ↔ r.passed = false) := by
  have htitle : r.title commit =
      (if r.passed then Issue.passedTitle else Issue.failedTitle) ++ shortId commit := rfl
  rw [htitle, String.toList_append]
  cases r.passed with
  | true =>
      have hne : ¬ Issue.failedTitle.toList <+: Issue.passedTitle.toList ++ (shortId commit).toList :=
        not_prefix_append (by decide +kernel) _
      simpa using hne
  | false =>
      have hne : ¬ Issue.passedTitle.toList <+: Issue.failedTitle.toList ++ (shortId commit).toList :=
        not_prefix_append (by decide +kernel) _
      simpa using hne

theorem summary_infix_body (r : Report) (s : Subject) : r.summary.toList <:+: (r.body s).toList := by
  have hpreamble : r.summary.toList <:+: (r.preamble s).toList := by
    unfold preamble
    simp only [String.toList_append]
    exact ⟨_, _, rfl⟩
  unfold body
  split
  · exact hpreamble
  · apply hpreamble.trans
    simp only [String.toList_append, List.append_assoc]
    exact (List.prefix_append _ _).isInfix

theorem coherent_issue (r : Report) (s : Subject) : (r.issue s).Coherent r where
  passedTitle_iff := (prefix_title_iff r s.commit).1
  failedTitle_iff := (prefix_title_iff r s.commit).2
  labels_eq := rfl
  summary := summary_infix_body r s

theorem states_document (r : Report) (files : Nat) : (r.document files).States r := by
  constructor <;> rfl

end Report

theorem Push.Outcome.states_document (o : Push.Outcome) : o.document.States o.report := by
  constructor <;> rfl

namespace Console

theorem infix_styled (color : Bool) (s : String) : s.toList <:+: (styled color bold s).toList := by
  cases color with
  | false => exact List.infix_rfl
  | true =>
      simp only [styled, if_true, bold, String.toList_append]
      exact ⟨_, _, rfl⟩

theorem summary_infix_summaryLine (color : Bool) (r : Report) (files : Nat) :
    r.summary.toList <:+: (summaryLine color r files).toList := by
  have htext : r.summary.toList <:+: ("— Summary — " ++ r.summary ++ " files=" ++ toString files).toList := by
    simp only [String.toList_append, List.append_assoc]
    exact ((List.prefix_append _ _).isInfix).trans (List.suffix_append _ _).isInfix
  apply htext.trans
  apply (infix_styled color _).trans
  rw [summaryLine, line, String.toList_append]
  exact (List.prefix_append _ _).isInfix

theorem statesScan_printReport (color : Bool) (f : Format) (r : Report) (files : Nat) :
    StatesScan r f (printReport color f r files).out := by
  cases f with
  | json => exact .json (r.states_document files) rfl
  | human =>
      apply StatesScan.human
      apply (summary_infix_summaryLine color r files).trans
      rw [printReport, output, String.toList_append]
      exact (List.suffix_append _ _).isInfix

theorem statesPush_printOutcome (color : Bool) (f : Format) (o : Push.Outcome) :
    StatesPush o.report o.issue f (printOutcome color f o).out := by
  cases f with
  | json => exact .json o.states_document rfl rfl
  | human =>
      have h : StatesPush o.report o.issue .human _ := .human color (failedLine color o.failed ++ line "")
      simpa only [printOutcome, output, usesColor_human, String.append_assoc] using h

end Console

end PushAudit
