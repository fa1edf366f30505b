import PushAudit.Proofs.Report.Grouping
import PushAudit.Proofs.Report.Layout

namespace PushAudit.Report

theorem not_prefix_append {mark label : List Char} (h : ¬ mark <+: label ∧ ¬ label <+: mark) (text : List Char) :
    ¬ mark <+: label ++ text := by
  intro hm
  rcases List.prefix_or_prefix_of_prefix hm (List.prefix_append label text) with hp | hp
  · exact h.1 hp
  · exact h.2 hp

def isBullet (row : List Char) : Bool := "- ".toList.isPrefixOf row

def isFileHeading (row : List Char) : Bool := "#### ".toList.isPrefixOf row

def IsPlain (row : List Char) : Prop := isBullet row = false ∧ isFileHeading row = false

instance : DecidablePred IsPlain := fun row =>
  inferInstanceAs (Decidable (isBullet row = false ∧ isFileHeading row = false))

theorem isBullet_iff {row : List Char} : isBullet row ↔ "- ".toList <+: row := List.isPrefixOf_iff_prefix

theorem isFileHeading_iff {row : List Char} : isFileHeading row ↔ "#### ".toList <+: row :=
  List.isPrefixOf_iff_prefix

theorem bullet_prefix_bulletLabel (s : Severity) : "- ".toList <+: (bulletLabel s).toList := by
  cases s <;> decide

theorem file_prefix_fileLabel : "#### ".toList <+: fileLabel.toList := by decide

theorem isPlain_empty : IsPlain "".toList := by decide

theorem isPlain_openingRows : ∀ row ∈ openingRows.map String.toList, IsPlain row := by decide

theorem isPlain_closingRows : ∀ row ∈ closingRows.map String.toList, IsPlain row := by decide

theorem isPlain_append {label : List Char}
    (hb : ¬ "- ".toList <+: label ∧ ¬ label <+: "- ".toList)
    (hf : ¬ "#### ".toList <+: label ∧ ¬ label <+: "#### ".toList) (text : List Char) :
    IsPlain (label ++ text) := by
  constructor
  · rw [← Bool.not_eq_true, isBullet_iff]
    exact not_prefix_append hb text
  · rw [← Bool.not_eq_true, isFileHeading_iff]
    exact not_prefix_append hf text

theorem isBullet_bulletRow (v : Violation) : isBullet (bulletRow v).toList := by
  rw [isBullet_iff, bulletRow, String.toList_append]
  exact (bullet_prefix_bulletLabel v.severity).trans (List.prefix_append _ _)

theorem isFileHeading_bulletRow (v : Violation) : isFileHeading (bulletRow v).toList = false := by
  rw [← Bool.not_eq_true, isFileHeading_iff, bulletRow, String.toList_append]
  refine not_prefix_append ?_ _
  cases v.severity <;> decide

theorem isBullet_fileRow (file : String) : isBullet (fileRow file).toList = false := by
  rw [← Bool.not_eq_true, isBullet_iff, fileRow, String.toList_append, String.toList_append,
    List.append_assoc]
  exact not_prefix_append (by decide) _

theorem isFileHeading_fileRow (file : String) : isFileHeading (fileRow file).toList := by
  rw [isFileHeading_iff, fileRow, String.toList_append, String.toList_append, List.append_assoc]
  exact file_prefix_fileLabel.trans (List.prefix_append _ _)

theorem forall_summary {p : String → Prop} (hp : p passedSummary) (hf : ∀ c, p (failedSummary c))
    (vs : List Violation) : p (ofViolations vs).summary := by
  rw [ofViolations]
  split
  · exact hp
  · exact hf _

theorem isPlain_failedSummary (c : Counts) : IsPlain (failedSummary c).toList := by
  unfold failedSummary
  simp only [String.toList_append, List.append_assoc]
  exact isPlain_append (by decide) (by decide +kernel) _

theorem isPlain_summary (vs : List Violation) : IsPlain (ofViolations vs).summary.toList :=
  forall_summary (p := fun text => IsPlain text.toList) (by decide) isPlain_failedSummary vs

theorem isPlain_preambleRows (vs : List Violation) (s : Subject) :
    ∀ row ∈ ((ofViolations vs).preambleRows s).map String.toList, IsPlain row := by
  have htitle : IsPlain titleRow.toList := by decide
  have hruler : IsPlain ruler.toList := by decide
  have hlabelled : ∀ label ∈ [commitLabel, authorLabel, messageLabel], ∀ text,
      IsPlain (label ++ text).toList := by
    intro label hlabel text
    rw [String.toList_append]
    apply isPlain_append
    · revert label
      decide
    · revert label
      decide
  unfold preambleRows
  simp only [List.forall_mem_cons, List.map_cons, List.map_nil, List.not_mem_nil, false_imp_iff, implies_true,
    and_true] at hlabelled ⊢
  exact ⟨htitle, isPlain_empty, hlabelled.1 _, hlabelled.2.1 _, hlabelled.2.2 _, isPlain_empty, hruler,
    isPlain_empty, isPlain_summary vs⟩

/-- None of the texts that a body is made of holds a line feed. -/
structure Unbroken (vs : List Violation) (s : Subject) : Prop where
  commit : '\n' ∉ s.commit.toList
  author : '\n' ∉ s.author.toList
  message : '\n' ∉ s.message.toList
  file : ∀ v ∈ vs, '\n' ∉ v.file.toList
  issue : ∀ v ∈ vs, '\n' ∉ v.issue.toList

theorem newline_not_mem_toString (n : Nat) : '\n' ∉ (toString n).toList := by
  intro h
  have hdigit := Nat.isDigit_of_mem_toDigits (by decide) (by decide) (Nat.toList_repr ▸ h)
  exact absurd hdigit (by decide)

theorem newline_not_mem_failedSummary (c : Counts) : '\n' ∉ (failedSummary c).toList := by
  have htexts : ∀ text ∈ ["❌ Found ", " violation(s): ", " high, ", " medium, ", " low"],
      '\n' ∉ text.toList := by decide
  simp only [List.forall_mem_cons, List.not_mem_nil, false_imp_iff, implies_true, and_true] at htexts
  unfold failedSummary
  simp only [String.toList_append, List.mem_append, not_or, htexts, newline_not_mem_toString, and_true,
    not_false_eq_true]

theorem newline_not_mem_summary (vs : List Violation) : '\n' ∉ (ofViolations vs).summary.toList :=
  forall_summary (p := fun text => '\n' ∉ text.toList) (by decide) newline_not_mem_failedSummary vs

theorem newline_not_mem_labelled {label text : String} (hl : '\n' ∉ label.toList) (ht : '\n' ∉ text.toList) :
    '\n' ∉ (label ++ text).toList := by
  rw [String.toList_append]
  exact List.not_mem_append hl ht

theorem newline_not_mem_preambleRows {vs : List Violation} {s : Subject} (h : Unbroken vs s) :
    ∀ row ∈ (ofViolations vs).preambleRows s, '\n' ∉ row.toList := by
  have hcommit : '\n' ∉ (shortId s.commit).toList := by
    rw [shortId, String.toList_ofList]
    exact fun hm => h.commit (List.mem_of_mem_take hm)
  unfold preambleRows
  simp only [List.forall_mem_cons, List.not_mem_nil, false_imp_iff, implies_true, and_true]
  exact ⟨by decide, by decide, newline_not_mem_labelled (by decide) hcommit,
    newline_not_mem_labelled (by decide) h.author, newline_not_mem_labelled (by decide) h.message,
    by decide, by decide, by decide, newline_not_mem_summary vs⟩

theorem newline_not_mem_sectionRows {vs : List Violation} {file : String} (hf : '\n' ∉ file.toList)
    (hi : ∀ v ∈ vs, '\n' ∉ v.issue.toList) : ∀ row ∈ sectionRows file vs, '\n' ∉ row.toList := by
  rw [sectionRows, List.forall_mem_append, List.forall_mem_map]
  refine ⟨?_, fun v hv => newline_not_mem_labelled ?_ (hi v hv)⟩
  · simp only [List.forall_mem_cons, List.not_mem_nil, false_imp_iff, implies_true, and_true]
    exact ⟨by decide, newline_not_mem_labelled (newline_not_mem_labelled (by decide) hf) (by decide), by decide⟩
  · cases v.severity <;> decide

theorem newline_not_mem_violationRows {vs : List Violation} {s : Subject} (h : Unbroken vs s) :
    ∀ row ∈ violationRows vs, '\n' ∉ row.toList := by
  rw [violationRows, List.forall_mem_append, List.forall_mem_append, List.forall_mem_flatMap, byFile_eq]
  refine ⟨⟨by decide, ?_⟩, by decide +kernel⟩
  rw [List.forall_mem_map]
  intro file hfile
  obtain ⟨v, hv, rfl⟩ := mem_files_iff.mp hfile
  exact newline_not_mem_sectionRows (h.file v hv) fun w hw => h.issue w (List.mem_of_mem_filter hw)

theorem newline_not_mem_rows {vs : List Violation} {s : Subject} (h : Unbroken vs s) :
    ∀ row ∈ (ofViolations vs).rows s, '\n' ∉ row.toList := by
  by_cases hvs : vs = []
  · subst hvs
    rw [rows_nil]
    exact newline_not_mem_preambleRows h
  · rw [rows_of_ne_nil hvs, List.forall_mem_append]
    exact ⟨newline_not_mem_preambleRows h, newline_not_mem_violationRows h⟩

theorem splitOn_body {vs : List Violation} {s : Subject} (h : Unbroken vs s) :
    ((ofViolations vs).body s).toList.splitOn '\n' =
      ((ofViolations vs).rows s).map String.toList ++ ["".toList] := by
  rw [toList_body, Text.splitOn_unlines]
  · rfl
  · rw [List.forall_mem_map]
    exact newline_not_mem_rows h

theorem countP_of_isPlain {rows : List (List Char)} (h : ∀ row ∈ rows, IsPlain row) :
    rows.countP isBullet = 0 ∧ rows.countP isFileHeading = 0 := by
  constructor
  · exact List.countP_eq_zero.mpr fun row hrow => by simp [(h row hrow).1]
  · exact List.countP_eq_zero.mpr fun row hrow => by simp [(h row hrow).2]

theorem countP_bulletRows (vs : List Violation) :
    ((vs.map bulletRow).map String.toList).countP isBullet = vs.length ∧
      ((vs.map bulletRow).map String.toList).countP isFileHeading = 0 := by
  rw [List.map_map]
  constructor
  · rw [← List.length_map (f := String.toList ∘ bulletRow), List.countP_eq_length, List.forall_mem_map]
    exact fun v _ => isBullet_bulletRow v
  · rw [List.countP_eq_zero, List.forall_mem_map]
    exact fun v _ => by simp [isFileHeading_bulletRow v]

theorem countP_sectionRows (file : String) (vs : List Violation) :
    ((sectionRows file vs).map String.toList).countP isBullet = vs.length ∧
      ((sectionRows file vs).map String.toList).countP isFileHeading = 1 := by
  obtain ⟨hb, hf⟩ := countP_bulletRows vs
  rw [sectionRows, List.map_append, List.countP_append, List.countP_append, hb, hf]
  simp only [List.map_cons, List.map_nil, List.countP_cons, List.countP_nil, isPlain_empty.1, isPlain_empty.2,
    isBullet_fileRow, isFileHeading_fileRow]
  simp

theorem countP_sections (groups : List (String × List Violation)) :
    let rows := (groups.flatMap fun (file, vs) => sectionRows file vs).map String.toList
    rows.countP isBullet = (groups.flatMap (·.2)).length ∧ rows.countP isFileHeading = groups.length := by
  induction groups with
  | nil => exact ⟨rfl, rfl⟩
  | cons g groups ih =>
      obtain ⟨hb, hf⟩ := countP_sectionRows g.1 g.2
      simp only [List.flatMap_cons, List.map_append, List.countP_append, List.length_append, List.length_cons]
      rw [hb, hf, ih.1, ih.2]
      exact ⟨rfl, Nat.add_comm _ _⟩

theorem countP_violationRows (vs : List Violation) :
    ((violationRows vs).map String.toList).countP isBullet = vs.length ∧
      ((violationRows vs).map String.toList).countP isFileHeading = (files vs).length := by
  obtain ⟨hob, hof⟩ := countP_of_isPlain isPlain_openingRows
  obtain ⟨hcb, hcf⟩ := countP_of_isPlain isPlain_closingRows
  obtain ⟨hsb, hsf⟩ := countP_sections (byFile vs)
  simp only [violationRows, List.map_append, List.countP_append, hob, hof, hcb, hcf, hsb, hsf, Nat.zero_add,
    Nat.add_zero]
  refine ⟨(flatMap_byFile_perm vs).length_eq, ?_⟩
  rw [byFile_eq, List.length_map]

theorem countP_splitOn_body {vs : List Violation} {s : Subject} (h : Unbroken vs s) :
    let ls := ((ofViolations vs).body s).toList.splitOn '\n'
    ls.countP isBullet = vs.length ∧ ls.countP isFileHeading = (files vs).length := by
  intro ls
  have hls : ls = ((ofViolations vs).rows s).map String.toList ++ ["".toList] := splitOn_body h
  obtain ⟨hpb, hpf⟩ := countP_of_isPlain (isPlain_preambleRows vs s)
  obtain ⟨heb, hef⟩ := countP_of_isPlain (List.forall_mem_singleton.mpr isPlain_empty)
  rw [hls, List.countP_append, List.countP_append, heb, hef]
  by_cases hvs : vs = []
  · subst hvs
    rw [rows_nil, hpb, hpf]
    exact ⟨rfl, rfl⟩
  · obtain ⟨hvb, hvf⟩ := countP_violationRows vs
    rw [rows_of_ne_nil hvs, List.map_append, List.countP_append, List.countP_append, hpb, hpf, hvb, hvf]
    simp

end PushAudit.Report
