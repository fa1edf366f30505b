import Mathlib.Data.List.Basic
import PushAudit.Proofs.Diff.Section
import PushAudit.Proofs.Text.Lines
import PushAudit.Report.Basic

namespace PushAudit.Diff

theorem lines_of_header {text : String} (h : headerMark <+: text.toList) :
    (∀ l ∈ (Text.lines text.toList).head?, headerMark <+: l) ∧ hasHeader (Text.lines text.toList) := by
  obtain ⟨l, ls, hlines, hl⟩ := Text.exists_lines_of_prefix (by decide) (by decide) (by decide) h
  rw [hlines, hasHeader_iff]
  refine ⟨?_, l, List.mem_cons_self, hl⟩
  rintro _ ⟨⟩
  exact hl

/-- A diff that is put after another one is cut as if it stood alone, in whichever section the other one breaks
off. What stands before the first header of all is in no fragment. -/
theorem fragments_append {before after : String} (fallback : String)
    (hend : before = "" ∨ ∃ row, before = row ++ "\n") (hbegin : headerMark <+: after.toList) :
    ((∃ l ∈ Text.lines before.toList, headerMark <+: l) →
        fragments (before ++ after) fallback = fragments before fallback ++ fragments after fallback) ∧
      ((∀ l ∈ Text.lines before.toList, ¬ headerMark <+: l) →
        fragments (before ++ after) fallback = fragments after fallback) := by
  have hends : before.toList = [] ∨ ∃ row, before.toList = row ++ ['\n'] := by
    rcases hend with rfl | ⟨row, rfl⟩
    · exact .inl rfl
    · exact .inr ⟨row.toList, String.toList_append⟩
  obtain ⟨hhead, hafter⟩ := lines_of_header hbegin
  have hlines : Text.lines (before ++ after).toList = Text.lines before.toList ++ Text.lines after.toList := by
    rw [String.toList_append, Text.lines_append hends]
  have hheader : hasHeader (Text.lines (before ++ after).toList) := by
    rw [hlines, hasHeader, List.any_append]
    exact Bool.or_eq_true_iff.mpr (.inr hafter)
  have hboth : fragments (before ++ after) fallback =
      (sections (Text.lines before.toList)).filterMap Section.fragment? ++ fragments after fallback := by
    rw [fragments_eq _ _ hheader, hlines, sections_append hhead, List.filterMap_append,
      fragments_eq after fallback hafter]
  constructor
  · intro hbefore
    rw [hboth, fragments_eq before fallback (hasHeader_iff.mpr hbefore)]
  · intro hnone
    rw [hboth, sections_eq_nil hnone]
    rfl

/-- In front of the diff stands one that breaks off before its second hunk, or a hunk without a header. -/
theorem fragments_append_cutOff :
    let before := "diff --git a/x b/x\r\n@@ -1 +1 @@\n+eval(x)\r\ndiff --git a/y b/y\n+++ b/y\n"
    let stray := "+++ b/y\n@@ -1 +1 @@\n"
    let after := "diff --git a/z b/z\n@@ -1 +1 @@\n+1"
    ((∃ l ∈ Text.lines before.toList, headerMark <+: l) ∧
        fragments (before ++ after) "pushed" = [⟨"x", "@@ -1 +1 @@\n+eval(x)\n"⟩, ⟨"z", "@@ -1 +1 @@\n+1\n"⟩]) ∧
      (∀ l ∈ Text.lines stray.toList, ¬ headerMark <+: l) ∧
        fragments (stray ++ after) "pushed" = [⟨"z", "@@ -1 +1 @@\n+1\n"⟩] := by
  intro before stray after
  have hafter : headerMark <+: after.toList := ⟨"a/z b/z\n@@ -1 +1 @@\n+1".toList, by decide +kernel⟩
  have hrow : before = "" ∨ ∃ row, before = row ++ "\n" :=
    .inr ⟨"diff --git a/x b/x\r\n@@ -1 +1 @@\n+eval(x)\r\ndiff --git a/y b/y\n+++ b/y", rfl⟩
  have hstray : stray = "" ∨ ∃ row, stray = row ++ "\n" := .inr ⟨"+++ b/y\n@@ -1 +1 @@", rfl⟩
  have hheader : ∃ l ∈ Text.lines before.toList, headerMark <+: l :=
    ⟨"diff --git a/x b/x".toList, by decide +kernel, "a/x b/x".toList, rfl⟩
  have hnone : ∀ l ∈ Text.lines stray.toList, ¬ headerMark <+: l := by decide +kernel
  have hboth := (fragments_append "pushed" hrow hafter).1 hheader
  have hlater := (fragments_append "pushed" hstray hafter).2 hnone
  exact ⟨⟨hheader, hboth.trans (by decide +kernel)⟩, hnone, hlater.trans (by decide +kernel)⟩

structure Uncut (text : String) : Prop where
  not_header : ∀ l ∈ Text.lines text.toList, ¬ headerMark <+: l
  not_blank : ¬ Text.isBlankText text.toList

theorem Uncut.fragments_eq {text : String} (h : Uncut text) (name : String) :
    fragments text name = [⟨name, text⟩] := by
  have hheader : ¬ hasHeader (Text.lines text.toList) := by
    rw [hasHeader_iff]
    rintro ⟨l, hl, hmark⟩
    exact h.not_header l hl hmark
  rw [fragments, if_neg hheader, if_neg h.not_blank]

theorem uncut_hunkText {ls : List (List Char)} {s : Section} (hls : ∀ l ∈ ls, '\n' ∉ l) (hs : s ∈ sections ls)
    (hhunk : s.hunk ≠ []) : Uncut (String.ofList (Text.unlines s.hunk)) := by
  obtain ⟨hpart, hheader⟩ := lines_of_mem_sections hs
  have hmem : ∀ l ∈ s.hunk, l ∈ s.lines := fun l hl => s.hunk_suffix.subset hl
  have hlines : Text.lines (String.ofList (Text.unlines s.hunk)).toList = s.hunk.map Text.chomp := by
    rw [String.toList_ofList]
    exact Text.lines_unlines fun l hl => hls l (hpart.subset (hmem l hl))
  constructor
  · rw [hlines]
    exact Text.not_prefix_map_chomp (by decide) fun l hl => hheader l (hmem l hl)
  · obtain ⟨l, ls, hl, t, rfl⟩ := Section.hunk_begins hhunk
    rw [String.toList_ofList, hl, Text.isBlankText, List.all_eq_true]
    exact fun hblank => absurd (hblank '@' (by simp [hunkMark])) (by decide)

theorem uncut_of_mem_fragments {text fallback : String} {f : Fragment} (h : f ∈ fragments text fallback) :
    Uncut f.text := by
  by_cases hheader : hasHeader (Text.lines text.toList)
  · rw [fragments_eq _ _ hheader, List.mem_filterMap] at h
    obtain ⟨s, hs, hf⟩ := h
    obtain ⟨hhunk, name, -, rfl⟩ := Section.fragment?_eq_some_iff.mp hf
    exact uncut_hunkText Text.newline_not_mem_of_mem_lines hs hhunk
  · rw [fragments, if_neg hheader] at h
    split at h
    case isTrue => simp at h
    case isFalse hblank =>
      obtain rfl := List.mem_singleton.mp h
      exact ⟨fun l hl hmark => hheader (hasHeader_iff.mpr ⟨l, hl, hmark⟩), hblank⟩

/-- Fragments that are cut again stay as they are, and so does the report on them. -/
theorem fragments_again (text fallback : String) :
    (∀ f ∈ fragments text fallback, fragments f.text f.file = [f]) ∧
      Report.ofFragments ((fragments text fallback).flatMap fun f => fragments f.text f.file) =
        Report.ofFragments (fragments text fallback) := by
  have heach : ∀ f ∈ fragments text fallback, fragments f.text f.file = [f] :=
    fun f hf => (uncut_of_mem_fragments hf).fragments_eq f.file
  refine ⟨heach, congrArg Report.ofFragments ?_⟩
  rw [List.flatMap_congr heach, List.flatMap_singleton']

/-- The carriage return at the end of the text stays in the fragment, also where this is cut again. -/
theorem fragments_again_of_return :
    let text := "diff --git a/x b/x\r\n+++ b/x\r\n@@ -1 +1 @@\r\n+++ y\r"
    let f : Fragment := ⟨"x", "@@ -1 +1 @@\n+++ y\r\n"⟩
    f ∈ fragments text "pushed" ∧ fragments f.text f.file = [f] := by
  intro text f
  have hf : f ∈ fragments text "pushed" := by decide +kernel
  exact ⟨hf, (fragments_again text "pushed").1 f hf⟩

end PushAudit.Diff
