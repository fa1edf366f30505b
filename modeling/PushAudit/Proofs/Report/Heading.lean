import PushAudit.Proofs.Report.Layout

namespace PushAudit.Report

open Text (chomp furtherLines lines rowLines)

theorem heading_ne_chomp_bold {label : List Char} (h : "**".toList <+: label) (first : List Char) :
    violationsHeading.toList ≠ chomp (label ++ first) := by
  intro he
  have hbold : "**".toList <+: chomp (label ++ first) :=
    (Text.prefix_chomp_iff (by decide) _).mpr (h.trans (List.prefix_append label first))
  rw [← he] at hbold
  exact absurd hbold (by decide +kernel)

theorem heading_mem_labelled_iff (label : String) (hn : '\n' ∉ label.toList)
    (hb : "**".toList <+: label.toList) (text : String) :
    violationsHeading.toList ∈ rowLines (label ++ text).toList ↔
      violationsHeading.toList ∈ furtherLines text.toList := by
  rw [String.toList_append]
  exact Text.mem_rowLines_append_iff hn (heading_ne_chomp_bold hb) text.toList

theorem heading_not_mem_shortId (id : String) :
    violationsHeading.toList ∉ furtherLines (shortId id).toList := by
  intro h
  have hle := Text.length_le_of_mem_rowLines (List.mem_of_mem_tail h)
  have hshort : (shortId id).toList.length ≤ 7 := by
    rw [shortId, String.toList_ofList, List.length_take]
    exact Nat.min_le_left _ _
  exact absurd (Nat.le_trans hle hshort) (by decide +kernel)

theorem heading_mem_preamble_iff {r : Report} (hr : r.summary = passedSummary) (s : Subject) :
    (∃ row ∈ r.preambleRows s, violationsHeading.toList ∈ rowLines row.toList) ↔
      violationsHeading.toList ∈ furtherLines s.author.toList ∨
        violationsHeading.toList ∈ furtherLines s.message.toList := by
  have htitle : violationsHeading.toList ∉ rowLines titleRow.toList := by decide +kernel
  have hempty : violationsHeading.toList ∉ rowLines "".toList := by decide +kernel
  have hruler : violationsHeading.toList ∉ rowLines ruler.toList := by decide +kernel
  have hsummary : violationsHeading.toList ∉ rowLines passedSummary.toList := by decide +kernel
  have hcommit := heading_mem_labelled_iff commitLabel (by decide) (by decide) (shortId s.commit)
  have hauthor := heading_mem_labelled_iff authorLabel (by decide) (by decide) s.author
  have hmessage := heading_mem_labelled_iff messageLabel (by decide) (by decide) s.message
  rw [iff_false_right (heading_not_mem_shortId s.commit)] at hcommit
  unfold preambleRows
  simp only [List.mem_cons, List.not_mem_nil, exists_eq_or_imp, hr, htitle, hempty, hruler, hsummary,
    hcommit, hauthor, hmessage, exists_eq_left, false_or, or_false]

theorem heading_mem_lines_iff (r : Report) (s : Subject) :
    violationsHeading.toList ∈ lines (r.body s).toList ↔
      ∃ row ∈ r.rows s, violationsHeading.toList ∈ rowLines row.toList := by
  rw [toList_body, Text.lines_unlines_eq_flatMap, List.flatMap_map, List.mem_flatMap]

/-- The heading stands on a line of its own if the report did not pass. Otherwise it does so only
where the author's name or the message bring such a line along. -/
theorem violationsHeading_mem_body_iff (vs : List Violation) (s : Subject) :
    let r := ofViolations vs
    (r.passed = false ↔ vs ≠ []) ∧
      (violationsHeading.toList ∈ lines (r.body s).toList ↔
        r.passed = false ∨ violationsHeading.toList ∈ furtherLines s.author.toList ∨
          violationsHeading.toList ∈ furtherLines s.message.toList) := by
  intro r
  refine ⟨passed_ofViolations_iff, ?_⟩
  rw [heading_mem_lines_iff]
  by_cases hvs : vs = []
  · subst hvs
    have hp : r.passed = true := rfl
    rw [rows_nil, heading_mem_preamble_iff rfl, hp]
    simp
  · have hp : r.passed = false := passed_ofViolations_iff.mpr hvs
    have hmem : violationsHeading ∈ r.rows s := by
      rw [rows_of_ne_nil hvs, violationRows, openingRows]
      simp
    exact iff_of_true ⟨_, hmem, by decide +kernel⟩ (.inl hp)

/-- A change that passed, with the heading in its message. -/
theorem violationsHeading_in_passed_body :
    let r := ofViolations []
    r.passed ∧
      violationsHeading.toList ∈ lines (r.body ⟨"0123456789", "tidy\n\n### Violations", "Ada"⟩).toList := by
  decide +kernel

end PushAudit.Report
