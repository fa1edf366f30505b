import Mathlib.Data.List.TakeWhile
import PushAudit.Proofs.Diff.Splitting
import PushAudit.Proofs.Rule.Lines
import PushAudit.Push.Audit

namespace PushAudit

open Text (lines unlines)

namespace Diff

/-- A diff that breaks off where the first hunk of a file is to follow. -/
structure Awaits (head file : String) : Prop where
  ended : ∃ row, head = row ++ "\n"
  opened : ∃ s, (sections (lines head.toList)).getLast? = some s ∧ s.hunk = [] ∧ s.name? = some file.toList

structure IsPatch (text : String) : Prop where
  begun : hunkMark <+: text.toList
  not_header : ∀ l ∈ lines text.toList, ¬ headerMark <+: l

theorem IsPatch.uncut {text : String} (h : IsPatch text) : Uncut text where
  not_header := h.not_header
  not_blank := by
    obtain ⟨t, ht⟩ := h.begun
    rw [Text.isBlankText, ← ht, List.all_append]
    exact fun hblank => absurd (Bool.and_eq_true_iff.mp hblank).1 (by decide)

theorem fragment?_append_hunk {s : Section} {more : List (List Char)} (hhunk : s.hunk = []) (hne : more ≠ [])
    (hmore : ∀ l ∈ more.head?, hunkMark <+: l) {name : List Char} (hname : s.name? = some name) :
    (Section.mk s.header (s.lines ++ more)).fragment? =
      some ⟨String.ofList name, String.ofList (unlines more)⟩ := by
  have hlines : ∀ l ∈ s.lines, ¬ hunkMark <+: l := by
    intro l hl
    have hall := List.dropWhile_eq_nil_iff.mp hhunk l hl
    rwa [Bool.not_eq_true', ← Bool.not_eq_true, List.isPrefixOf_iff_prefix] at hall
  obtain ⟨hpreface, -⟩ := Section.preface_hunk_of_lines_eq (List.append_nil s.lines).symm hlines (by simp)
  obtain ⟨hpreface', hhunk'⟩ := Section.preface_hunk_of_lines_eq (s := ⟨s.header, s.lines ++ more⟩) rfl hlines hmore
  rw [Section.fragment?_eq_some_iff, hhunk']
  refine ⟨hne, name, ?_, rfl⟩
  rw [← hname, Section.name?, Section.name?, hpreface, hpreface']

theorem fragments_head_append {head file text : String} (hhead : Awaits head file) (htext : IsPatch text)
    (fallback : String) :
    fragments (head ++ text) fallback =
      fragments head fallback ++ [⟨file, String.ofList (unlines (lines text.toList))⟩] := by
  obtain ⟨⟨row, hrow⟩, s, hs, hhunk, hname⟩ := hhead
  have hlines : lines (head ++ text).toList = lines head.toList ++ lines text.toList := by
    rw [String.toList_append, Text.lines_append (.inr ⟨row.toList, by rw [hrow, String.toList_append]; rfl⟩)]
  obtain ⟨ss, hss, hboth⟩ := sections_append_lines hs htext.not_header
  obtain ⟨l, ls, htextLines, hl⟩ := Text.exists_lines_of_prefix (by decide) (by decide) (by decide) htext.begun
  have hpatch : (Section.mk s.header (s.lines ++ lines text.toList)).fragment? =
      some ⟨file, String.ofList (unlines (lines text.toList))⟩ := by
    have hfirst : ∀ m ∈ (lines text.toList).head?, hunkMark <+: m := by
      rw [htextLines]
      rintro _ ⟨⟩
      exact hl
    rw [fragment?_append_hunk hhunk (htextLines ▸ List.cons_ne_nil l ls) hfirst hname, String.ofList_toList]
  have hopen : s.fragment? = none := by rw [Section.fragment?, hhunk]; rfl
  have hheader : hasHeader (lines head.toList) := by
    obtain ⟨front, hfront, hmark, -⟩ := exists_of_getLast?_sections hs
    exact hasHeader_iff.mpr ⟨s.header, hfront ▸ List.mem_append_right front List.mem_cons_self, hmark⟩
  have hheader' : hasHeader (lines (head ++ text).toList) := by
    rw [hlines, hasHeader, List.any_append]
    exact Bool.or_eq_true_iff.mpr (.inl hheader)
  rw [fragments_eq _ _ hheader', hlines, hboth, fragments_eq _ _ hheader, hss, List.filterMap_append,
    List.filterMap_append, List.filterMap_cons_none hopen, List.filterMap_cons_some hpatch, List.filterMap_nil,
    List.append_nil]

end Diff

namespace Report

/-- How lines end makes no difference to the rules. A patch has the same violations as it stands, be it the whole
of a diff or a file of a commit, and with its lines read, after the head of its file in a diff of several files. -/
theorem violations_reread (file text : String) :
    Rule.violations file (String.ofList (unlines (lines text.toList))) = Rule.violations file text ∧
      ∀ head fallback : String, Diff.Awaits head file → Diff.IsPatch text →
        (ofFragments (Diff.fragments (head ++ text) fallback)).violations =
            (ofFragments (Diff.fragments head fallback)).violations ++ Rule.violations file text ∧
          (ofFragments (Diff.fragments text file)).violations = Rule.violations file text ∧
          Push.violations [⟨file, some text⟩] = Rule.violations file text := by
  have hreread : Rule.violations file (String.ofList (unlines (lines text.toList))) = Rule.violations file text :=
    Rule.violations_congr (fun r hr => Rule.appliesTo_unlines_lines_iff hr text) file
  refine ⟨hreread, fun head fallback hhead htext => ⟨?_, ?_, ?_⟩⟩
  · rw [Diff.fragments_head_append hhead htext, ofFragments, ofViolations, List.flatMap_append,
      List.flatMap_singleton, hreread]
    rfl
  · rw [htext.uncut.fragments_eq file, ofFragments, ofViolations, List.flatMap_singleton]
  · exact List.flatMap_singleton _ _

/-- A password that begins on one line and ends on the next, with a carriage return at the end of the text, in
the second file of a diff. -/
theorem violations_reread_across_lines :
    let head := "diff --git a/x b/x\n@@ -1 +1 @@\n+eval(x)\ndiff --git a/y b/y\r\n"
    let text := "@@ -1 +1 @@\r\n+password = '\r\n+secret'\r"
    let found : List Violation := [⟨"y", "Hardcoded password detected", .high⟩]
    Diff.Awaits head "y" ∧ Diff.IsPatch text ∧ Rule.violations "y" text = found ∧
      (ofFragments (Diff.fragments (head ++ text) "pushed")).violations =
        ⟨"x", "Unsafe eval() usage detected", .high⟩ :: found := by
  intro head text found
  let s : Diff.Section := ⟨"diff --git a/y b/y".toList, []⟩
  have hhead : Diff.Awaits head "y" :=
    ⟨⟨"diff --git a/x b/x\n@@ -1 +1 @@\n+eval(x)\ndiff --git a/y b/y\r", rfl⟩, s, by decide +kernel, rfl,
      by decide +kernel⟩
  have htext : Diff.IsPatch text := ⟨⟨" -1 +1 @@\r\n+password = '\r\n+secret'\r".toList, by decide +kernel⟩,
    by decide +kernel⟩
  obtain ⟨hreread, hplaces⟩ := violations_reread "y" text
  have hfound : Rule.violations "y" text = found := hreread.symm.trans (by decide +kernel)
  refine ⟨hhead, htext, hfound, ?_⟩
  rw [(hplaces head "pushed" hhead htext).1, hfound]
  decide +kernel

end Report

end PushAudit
