import PushAudit.Proofs.Diff.Section
import PushAudit.Proofs.Text.CharClass
import PushAudit.Proofs.Text.Lines

namespace PushAudit.Diff

/-- The changes of one file: a line for the old side, one for the path on the new side, perhaps with
a tab after it, and the hunk lines. These may look like anything but a header. -/
structure Changes where
  oldSide : List Char
  path : List Char
  tab : Bool
  hunkLines : List (List Char)
  newline_not_mem_oldSide : '\n' ∉ oldSide
  newline_not_mem_path : '\n' ∉ path
  path_trimmed : ∃ xs c, path = xs ++ [c] ∧ ¬ Text.isBlank c
  hunk_begins : ∃ l ls, hunkLines = l :: ls ∧ hunkMark <+: l
  newline_not_mem_hunkLine : ∀ l ∈ hunkLines, '\n' ∉ l
  not_header_hunkLine : ∀ l ∈ hunkLines, ¬ headerMark <+: l

/-- What is printed of one file: a header with any title, extended header lines, and the changes
unless there are none to show. -/
structure PrintedFile where
  title : List Char
  extended : List (List Char)
  changes : Option Changes
  newline_not_mem_title : '\n' ∉ title
  newline_not_mem_extended : ∀ l ∈ extended, '\n' ∉ l
  unmarked_extended : ∀ l ∈ extended,
    ¬ headerMark <+: l ∧ ¬ newSideMark <+: l ∧ ¬ hunkMark <+: l

/-- A printed diff. Lines without a header may stand in front if any file follows. -/
structure Printout where
  preamble : List (List Char)
  files : List PrintedFile
  newline_not_mem_preamble : ∀ l ∈ preamble, '\n' ∉ l
  not_header_preamble : ∀ l ∈ preamble, ¬ headerMark <+: l
  preamble_eq_nil : files = [] → preamble = []

def Changes.side (c : Changes) : List Char := "b/".toList ++ c.path ++ if c.tab then ['\t'] else []

def Changes.lines (c : Changes) : List (List Char) :=
  ("---".toList ++ c.oldSide) :: (newSideMark ++ c.side) :: c.hunkLines

def PrintedFile.header (f : PrintedFile) : List Char := headerMark ++ f.title

def PrintedFile.body (f : PrintedFile) : List (List Char) :=
  f.extended ++ (f.changes.map Changes.lines).getD []

def PrintedFile.lines (f : PrintedFile) : List (List Char) := f.header :: f.body

def Printout.lines (d : Printout) : List (List Char) := d.preamble ++ d.files.flatMap PrintedFile.lines

def Printout.print (d : Printout) : String := String.ofList (Text.unlines d.lines)

def Changes.fragment (c : Changes) : Fragment :=
  ⟨String.ofList c.path, String.ofList (Text.unlines (c.hunkLines.map Text.chomp))⟩

def PrintedFile.section (f : PrintedFile) : Section :=
  ⟨Text.chomp f.header, f.body.map Text.chomp⟩

theorem begins_map_chomp {hunkLines : List (List Char)} (h : ∃ l ls, hunkLines = l :: ls ∧ hunkMark <+: l) :
    (∀ l ∈ (hunkLines.map Text.chomp).head?, hunkMark <+: l) ∧ (hunkLines.map Text.chomp).isEmpty = false := by
  obtain ⟨l, ls, rfl, hl⟩ := h
  refine ⟨?_, rfl⟩
  rintro _ ⟨⟩
  exact (Text.prefix_chomp_iff (by decide) l).mpr hl

namespace Changes

theorem side_eq (c : Changes) :
    c.side = "b/".toList ++ c.path ∨ c.side = "b/".toList ++ c.path ++ ['\t'] := by
  rw [side]
  cases c.tab with
  | false => exact .inl (List.append_nil _)
  | true => exact .inr rfl

theorem newline_not_mem_side (c : Changes) : '\n' ∉ c.side := by
  have hp : '\n' ∉ "b/".toList ++ c.path := List.not_mem_append (by decide) c.newline_not_mem_path
  rcases c.side_eq with h | h
  · exact h ▸ hp
  · exact h ▸ List.not_mem_append hp (by decide)

theorem side_eq_concat (c : Changes) : ∃ xs d, c.side = xs ++ [d] ∧ d ≠ '\r' := by
  obtain ⟨xs, d, hp, hd⟩ := c.path_trimmed
  rcases c.side_eq with h | h
  · refine ⟨"b/".toList ++ xs, d, by rw [h, hp, List.append_assoc], ?_⟩
    -- A carriage return is blank, so the path does not end in one.
    rintro rfl
    exact hd (by decide)
  · exact ⟨_, '\t', h, by decide⟩

theorem trimEnd_side (c : Changes) : Text.trimEnd c.side = "b/".toList ++ c.path := by
  obtain ⟨xs, d, hp, hd⟩ := c.path_trimmed
  have htrim : Text.trimEnd ("b/".toList ++ c.path) = "b/".toList ++ c.path := by
    rw [hp, ← List.append_assoc, Text.trimEnd_concat, if_neg hd]
  rcases c.side_eq with h | h
  · rw [h, htrim]
  · rw [h, Text.trimEnd_concat, if_pos (by decide), htrim]

theorem sideName?_side (c : Changes) : sideName? c.side = some c.path := by
  have hmark : afterMark? "b/".toList ("b/".toList ++ c.path) = some c.path :=
    afterMark?_eq_some_iff.mpr rfl
  have hnull : "b/".toList ++ c.path ≠ "/dev/null".toList := by simp
  rw [sideName?, trimEnd_side]
  simp only [if_neg hnull, hmark, Option.getD_some]

theorem lineName?_side (c : Changes) : Section.lineName? (newSideMark ++ c.side) = some c.path := by
  rw [Section.lineName?, afterMark?_eq_some_iff.mpr rfl, Option.bind_some, sideName?_side]

theorem chomp_side (c : Changes) : Text.chomp (newSideMark ++ c.side) = newSideMark ++ c.side := by
  apply Text.chomp_of_getLast?_ne
  obtain ⟨xs, d, h, hd⟩ := c.side_eq_concat
  rw [h, ← List.append_assoc, List.getLast?_concat]
  simpa using hd

theorem newline_not_mem_lines (c : Changes) : ∀ l ∈ c.lines, '\n' ∉ l := by
  rw [lines, List.forall_mem_cons, List.forall_mem_cons]
  exact ⟨List.not_mem_append (by decide) c.newline_not_mem_oldSide,
    List.not_mem_append (by decide) c.newline_not_mem_side, c.newline_not_mem_hunkLine⟩

theorem not_header_lines (c : Changes) : ∀ l ∈ c.lines, ¬ headerMark <+: l := by
  rw [lines, List.forall_mem_cons, List.forall_mem_cons]
  exact ⟨not_prefix_cons (by decide) _, not_prefix_cons (by decide) _, c.not_header_hunkLine⟩

def preface (c : Changes) : List (List Char) :=
  [Text.chomp ("---".toList ++ c.oldSide), newSideMark ++ c.side]

theorem map_chomp_lines (c : Changes) :
    c.lines.map Text.chomp = c.preface ++ c.hunkLines.map Text.chomp := by
  rw [lines, List.map_cons, List.map_cons, chomp_side]
  rfl

theorem not_prefix_oldSide (c : Changes) {mark : List Char} (hr : '\r' ∉ mark)
    (hm : mark.head?.any (· ≠ '-')) : ¬ mark <+: Text.chomp ("---".toList ++ c.oldSide) :=
  mt (Text.prefix_chomp_iff hr _).mp (not_prefix_cons hm _)

theorem not_hunk_preface (c : Changes) : ∀ l ∈ c.preface, ¬ hunkMark <+: l := by
  rw [preface, List.forall_mem_cons, List.forall_mem_singleton]
  exact ⟨c.not_prefix_oldSide (by decide) (by decide), not_prefix_cons (by decide) _⟩

theorem filterMap_lineName?_preface (c : Changes) : c.preface.filterMap Section.lineName? = [c.path] := by
  have hold := Section.lineName?_of_not_newSide (c.not_prefix_oldSide (by decide) (by decide))
  rw [preface, List.filterMap_cons_none hold, List.filterMap_cons_some c.lineName?_side, List.filterMap_nil]

end Changes

namespace PrintedFile

theorem newline_not_mem_lines (f : PrintedFile) : ∀ l ∈ f.lines, '\n' ∉ l := by
  rw [lines, List.forall_mem_cons, body, List.forall_mem_append]
  refine ⟨List.not_mem_append (by decide) f.newline_not_mem_title, f.newline_not_mem_extended, ?_⟩
  cases f.changes with
  | none => exact List.forall_mem_nil _
  | some c => exact c.newline_not_mem_lines

theorem header_begins (f : PrintedFile) : headerMark <+: Text.chomp f.header :=
  (Text.prefix_chomp_iff (by decide) _).mpr (List.prefix_append _ _)

theorem not_header_body (f : PrintedFile) : ∀ l ∈ f.body, ¬ headerMark <+: l := by
  rw [body, List.forall_mem_append]
  refine ⟨fun l hl => (f.unmarked_extended l hl).1, ?_⟩
  cases f.changes with
  | none => exact List.forall_mem_nil _
  | some c => exact c.not_header_lines

theorem sections_lines_append (f : PrintedFile) {rest : List (List Char)}
    (hrest : ∀ l ∈ rest.head?, headerMark <+: l) :
    sections (f.lines.map Text.chomp ++ rest) = f.section :: sections rest := by
  rw [lines, List.map_cons, List.cons_append,
    sections_cons_append f.header_begins (Text.not_prefix_map_chomp (by decide) f.not_header_body) hrest]
  rfl

theorem filterMap_lineName?_extended (f : PrintedFile) :
    (f.extended.map Text.chomp).filterMap Section.lineName? = [] := by
  have hunmarked : ∀ l ∈ f.extended.map Text.chomp, ¬ newSideMark <+: l :=
    Text.not_prefix_map_chomp (by decide) fun l hl => (f.unmarked_extended l hl).2.1
  rw [List.filterMap_eq_nil_iff]
  exact fun l hl => Section.lineName?_of_not_newSide (hunmarked l hl)

theorem not_hunk_extended (f : PrintedFile) : ∀ l ∈ f.extended.map Text.chomp, ¬ hunkMark <+: l :=
  Text.not_prefix_map_chomp (by decide) fun l hl => (f.unmarked_extended l hl).2.2

theorem fragment?_section_of_none {f : PrintedFile} (h : f.changes = none) : f.section.fragment? = none := by
  have hlines : f.section.lines = f.extended.map Text.chomp ++ [] := by simp [PrintedFile.section, body, h]
  have hhunk : f.section.hunk = [] :=
    (Section.preface_hunk_of_lines_eq hlines f.not_hunk_extended (by simp)).2
  rw [Section.fragment?, hhunk]
  rfl

theorem fragment?_section_of_some {f : PrintedFile} {c : Changes} (h : f.changes = some c) :
    f.section.fragment? = some c.fragment := by
  have hlines : f.section.lines =
      (f.extended.map Text.chomp ++ c.preface) ++ c.hunkLines.map Text.chomp := by
    simp [PrintedFile.section, body, h, c.map_chomp_lines]
  have hpreface : ∀ l ∈ f.extended.map Text.chomp ++ c.preface, ¬ hunkMark <+: l :=
    List.forall_mem_append.mpr ⟨f.not_hunk_extended, c.not_hunk_preface⟩
  obtain ⟨hbegins, hne⟩ := begins_map_chomp c.hunk_begins
  obtain ⟨hpre, hhunk⟩ := Section.preface_hunk_of_lines_eq hlines hpreface hbegins
  have hname : f.section.name? = some c.path := by
    rw [Section.name?, hpre, List.filterMap_append, f.filterMap_lineName?_extended,
      c.filterMap_lineName?_preface]
    rfl
  rw [Section.fragment?, hhunk, hname, hne, if_neg Bool.false_ne_true]
  rfl

theorem fragment?_section (f : PrintedFile) : f.section.fragment? = f.changes.map Changes.fragment := by
  cases h : f.changes with
  | none => exact fragment?_section_of_none h
  | some c => exact fragment?_section_of_some h

end PrintedFile

theorem sections_flatMap_lines (files : List PrintedFile) :
    sections ((files.flatMap PrintedFile.lines).map Text.chomp) = files.map PrintedFile.section := by
  induction files with
  | nil => rfl
  | cons f files ih =>
      have hrest : ∀ l ∈ ((files.flatMap PrintedFile.lines).map Text.chomp).head?, headerMark <+: l := by
        cases files with
        | nil => exact fun l hl => absurd hl (Option.not_mem_none l)
        | cons g files =>
            rintro _ ⟨⟩
            exact g.header_begins
      rw [List.flatMap_cons, List.map_append, f.sections_lines_append hrest, ih, List.map_cons]

namespace Printout

theorem lines_print (d : Printout) : Text.lines d.print.toList = d.lines.map Text.chomp := by
  rw [print, String.toList_ofList]
  apply Text.lines_unlines
  rw [lines, List.forall_mem_append, List.forall_mem_flatMap]
  exact ⟨d.newline_not_mem_preamble, fun f _ => f.newline_not_mem_lines⟩

theorem sections_lines (d : Printout) :
    sections (d.lines.map Text.chomp) = d.files.map PrintedFile.section := by
  have hpreamble := Text.not_prefix_map_chomp (by decide) d.not_header_preamble
  rw [lines, List.map_append, sections_append_of_not_header hpreamble, sections_flatMap_lines]

theorem hasHeader_lines {d : Printout} {f : PrintedFile} (h : f ∈ d.files) :
    hasHeader (d.lines.map Text.chomp) := by
  rw [hasHeader, List.any_eq_true]
  refine ⟨Text.chomp f.header, List.mem_map_of_mem ?_, List.isPrefixOf_iff_prefix.mpr f.header_begins⟩
  exact List.mem_append_right _ (List.mem_flatMap.mpr ⟨f, h, List.mem_cons_self⟩)

theorem print_of_files_eq_nil {d : Printout} (h : d.files = []) : d.print = "" := by
  rw [print, lines, d.preamble_eq_nil h, h]
  rfl

end Printout

/-- Splitting undoes printing: each file with changes comes back in its order, and nothing else. -/
theorem fragments_print (d : Printout) (fallback : String) :
    fragments d.print fallback = d.files.filterMap fun f => f.changes.map Changes.fragment := by
  cases h : d.files with
  | nil => rw [Printout.print_of_files_eq_nil h]; rfl
  | cons f files =>
      have hheader : hasHeader (Text.lines d.print.toList) := by
        rw [d.lines_print]
        exact Printout.hasHeader_lines (h ▸ List.mem_cons_self)
      rw [fragments_eq d.print fallback hheader, d.lines_print, d.sections_lines, List.filterMap_map, h]
      exact List.filterMap_congr fun f _ => f.fragment?_section

/-- A line before the first file, a file of which only the mode changes, and a hunk line that looks like the name of a
side and ends in a carriage return. -/
theorem fragments_print_of_sideLine :
    let text := "changes:\ndiff --git a/run b/run\nnew mode 100755\n" ++
      "diff --git a/x b/x\n--- a/x\n+++ b/x\t\n@@ -1 +1 @@\n+++ y\r\n"
    ∃ d : Printout, d.print = text ∧ fragments d.print "pushed" = [⟨"x", "@@ -1 +1 @@\n+++ y\n"⟩] := by
  intro text
  let c : Changes :=
    ⟨" a/x".toList, "x".toList, true, ["@@ -1 +1 @@".toList, "+++ y\r".toList], by decide, by decide,
      ⟨[], 'x', rfl, by decide⟩, ⟨_, _, rfl, by decide⟩, by decide, by decide⟩
  let run : PrintedFile := ⟨"a/run b/run".toList, ["new mode 100755".toList], none, by decide, by decide, by decide⟩
  let x : PrintedFile := ⟨"a/x b/x".toList, [], some c, by decide, by decide, by decide⟩
  let d : Printout := ⟨["changes:".toList], [run, x], by decide, by decide, by simp⟩
  refine ⟨d, by decide +kernel, ?_⟩
  rw [fragments_print d "pushed"]
  decide +kernel

end PushAudit.Diff
