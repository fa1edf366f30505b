import Mathlib.Data.List.Basic
import PushAudit.Proofs.Diff.Section
import PushAudit.Proofs.Text.Lines

namespace PushAudit.Diff

/-- A mark where it first occurs in a line, with what stands before it and what follows it. -/
structure FirstAt (mark line before rest : List Char) : Prop where
  line_eq : line = before ++ mark ++ rest
  first : ∀ x y, line = x ++ mark ++ y → before.length ≤ x.length

theorem firstAt_iff {mark line before rest : List Char} :
    FirstAt mark line before rest ↔ line.dropInfix? mark = some (before, rest) := by
  rw [List.dropInfix?_eq_some_iff]
  constructor
  · intro h
    refine ⟨⟨mark, h.line_eq, beq_self_eq_true mark⟩, fun x m y hline hm => ?_⟩
    exact h.first x y (eq_of_beq hm ▸ hline)
  · rintro ⟨⟨m, hline, hm⟩, hfirst⟩
    exact ⟨eq_of_beq hm ▸ hline, fun x y h => hfirst x mark y h (beq_self_eq_true mark)⟩

theorem afterMark?_eq_dropPrefix? (mark line : List Char) : afterMark? mark line = line.dropPrefix? mark := by
  ext rest
  rw [afterMark?_eq_some_iff, List.dropPrefix?_eq_some_iff]
  simp

theorem map_dropInfix?_go (mark line acc : List Char) :
    (List.dropInfix?.go mark line acc).map Prod.snd = afterFirst? mark line := by
  induction line generalizing acc with
  | nil =>
      rw [afterFirst?, List.dropInfix?.go, afterMark?]
      cases mark <;> rfl
  | cons c line ih =>
      rw [afterFirst?, List.dropInfix?.go, afterMark?_eq_dropPrefix?]
      cases (c :: line).dropPrefix? mark with
      | none => exact ih _
      | some rest => rfl

theorem afterFirst?_eq_some_iff {mark line rest : List Char} :
    afterFirst? mark line = some rest ↔ ∃ before, FirstAt mark line before rest := by
  rw [← map_dropInfix?_go mark line [], Option.map_eq_some_iff]
  simp only [firstAt_iff, Prod.exists, exists_eq_right]
  rfl

/-- Lines cut at the headers among them. What stands before the first header belongs to no section. -/
structure IsCut (ls front : List (List Char)) (ss : List Section) : Prop where
  lines_eq : ls = front ++ ss.flatMap fun s => s.header :: s.lines
  not_header_front : ∀ l ∈ front, ¬ headerMark <+: l
  header_begins : ∀ s ∈ ss, headerMark <+: s.header
  not_header_lines : ∀ s ∈ ss, ∀ l ∈ s.lines, ¬ headerMark <+: l

theorem sections_flatMap {ss : List Section} (hheader : ∀ s ∈ ss, headerMark <+: s.header)
    (hlines : ∀ s ∈ ss, ∀ l ∈ s.lines, ¬ headerMark <+: l) :
    sections (ss.flatMap fun s => s.header :: s.lines) = ss := by
  induction ss with
  | nil => rfl
  | cons s ss ih =>
      obtain ⟨hs, hheader⟩ := List.forall_mem_cons.mp hheader
      obtain ⟨hl, hlines⟩ := List.forall_mem_cons.mp hlines
      have hrest : ∀ l ∈ (ss.flatMap fun s => s.header :: s.lines).head?, headerMark <+: l := by
        cases ss with
        | nil => simp
        | cons t ss =>
            rintro _ ⟨⟩
            exact hheader t List.mem_cons_self
      rw [List.flatMap_cons, List.cons_append, sections_cons_append hs hl hrest, ih hheader hlines]

theorem IsCut.sections_eq {ls front : List (List Char)} {ss : List Section} (h : IsCut ls front ss) :
    sections ls = ss := by
  rw [h.lines_eq, sections_append_of_not_header h.not_header_front,
    sections_flatMap h.header_begins h.not_header_lines]

theorem exists_isCut (ls : List (List Char)) : ∃ front ss, IsCut ls front ss := by
  induction ls with
  | nil => exact ⟨[], [], rfl, by simp, by simp, by simp⟩
  | cons l ls ih =>
      obtain ⟨front, ss, hcut⟩ := ih
      by_cases hl : headerMark <+: l
      · -- the lines so far begin no section, and so they belong to this header
        exact ⟨[], ⟨l, front⟩ :: ss, congrArg (l :: ·) hcut.lines_eq, List.forall_mem_nil _,
          List.forall_mem_cons.mpr ⟨hl, hcut.header_begins⟩,
          List.forall_mem_cons.mpr ⟨hcut.not_header_front, hcut.not_header_lines⟩⟩
      · exact ⟨l :: front, ss, congrArg (l :: ·) hcut.lines_eq,
          List.forall_mem_cons.mpr ⟨hl, hcut.not_header_front⟩, hcut.header_begins, hcut.not_header_lines⟩

inductive TellsPath : List Char → List Char → Prop
  | newSide {side : List Char} (h : Text.trimEnd side ≠ "/dev/null".toList) :
      TellsPath (newSideMark ++ side) (Text.trimEnd side)

/-- The name in a path of the new side, with or without the letter for that side. -/
inductive IsNameIn : List Char → List Char → Prop
  | prefixed (name : List Char) : IsNameIn ("b/".toList ++ name) name
  | bare {path : List Char} (h : ¬ "b/".toList <+: path) : IsNameIn path path

/-- The name that a header and the lines up to the first hunk give to a section. The last line that tells a
path decides, and the header where there is none. -/
inductive Names (header : List Char) (preface : List (List Char)) : List Char → Prop
  | line {before after : List (List Char)} {l path name : List Char} (hpreface : preface = before ++ l :: after)
      (hpath : TellsPath l path) (hlast : ∀ m ∈ after, ∀ p, ¬ TellsPath m p) (hname : IsNameIn path name) :
      Names header preface name
  | header {title before name : List Char} (hnone : ∀ m ∈ preface, ∀ p, ¬ TellsPath m p)
      (hheader : header = headerMark ++ title) (hfirst : FirstAt " b/".toList title before name) :
      Names header preface name

inductive Section.Yields (s : Section) : Fragment → Prop
  | fragment {preface rest : List (List Char)} {first name : List Char}
      (hlines : s.lines = preface ++ first :: rest) (hpreface : ∀ l ∈ preface, ¬ hunkMark <+: l)
      (hfirst : hunkMark <+: first) (hname : Names s.header preface name) :
      s.Yields ⟨String.ofList name, String.ofList (Text.unlines (first :: rest))⟩

/-- The fragments that sections come to, in their order. -/
inductive Emits : List Section → List Fragment → Prop
  | nil : Emits [] []
  | fragment {s : Section} {f : Fragment} {ss : List Section} {fs : List Fragment} (h : s.Yields f)
      (hs : Emits ss fs) : Emits (s :: ss) (f :: fs)
  | nothing {s : Section} {ss : List Section} {fs : List Fragment} (h : ∀ f, ¬ s.Yields f)
      (hs : Emits ss fs) : Emits (s :: ss) fs

theorem tellsPath_iff {l path : List Char} : TellsPath l path ↔
    ∃ side, l = newSideMark ++ side ∧ path = Text.trimEnd side ∧ path ≠ "/dev/null".toList := by
  constructor
  · rintro ⟨h⟩
    exact ⟨_, rfl, rfl, h⟩
  · rintro ⟨side, rfl, rfl, h⟩
    exact .newSide h

theorem isNameIn_iff {path name : List Char} :
    IsNameIn path name ↔ (afterMark? "b/".toList path).getD path = name := by
  constructor
  · intro h
    cases h with
    | prefixed => rw [afterMark?_eq_some_iff.mpr rfl, Option.getD_some]
    | bare h => rw [afterMark?_eq_none h, Option.getD_none]
  · rintro rfl
    cases h : afterMark? "b/".toList path with
    | some name =>
        obtain rfl := afterMark?_eq_some_iff.mp h
        exact .prefixed name
    | none =>
        refine .bare fun hp => ?_
        have hsome := isSome_afterMark?_iff.mpr hp
        rw [h] at hsome
        simp at hsome

theorem lineName?_eq_some_iff {l name : List Char} :
    Section.lineName? l = some name ↔ ∃ path, TellsPath l path ∧ IsNameIn path name := by
  rw [Section.lineName?, Option.bind_eq_some_iff]
  simp only [afterMark?_eq_some_iff, tellsPath_iff, isNameIn_iff, sideName?]
  constructor
  · rintro ⟨side, hl, h⟩
    split at h
    case isTrue => simp at h
    case isFalse hne => exact ⟨_, ⟨side, hl, rfl, hne⟩, Option.some.inj h⟩
  · rintro ⟨_, ⟨side, hl, rfl, hne⟩, h⟩
    exact ⟨side, hl, by rw [if_neg hne, h]⟩

theorem lineName?_eq_none_iff {l : List Char} : Section.lineName? l = none ↔ ∀ path, ¬ TellsPath l path := by
  rw [Option.eq_none_iff_forall_ne_some]
  constructor
  · intro h path hpath
    exact h _ (lineName?_eq_some_iff.mpr ⟨path, hpath, isNameIn_iff.mpr rfl⟩)
  · intro h name hname
    obtain ⟨path, hpath, -⟩ := lineName?_eq_some_iff.mp hname
    exact h path hpath

theorem headerName?_eq_some_iff {header name : List Char} : headerName? header = some name ↔
    ∃ title before, header = headerMark ++ title ∧ FirstAt " b/".toList title before name := by
  rw [headerName?, Option.bind_eq_some_iff]
  simp only [afterMark?_eq_some_iff, afterFirst?_eq_some_iff, exists_and_left]

theorem getLast?_lineNames_eq_some_iff {preface : List (List Char)} {name : List Char} :
    (preface.filterMap Section.lineName?).getLast? = some name ↔ ∃ before l after,
      preface = before ++ l :: after ∧ Section.lineName? l = some name ∧
        ∀ m ∈ after, Section.lineName? m = none := by
  rw [List.getLast?_filterMap, List.findSome?_eq_some_iff]
  constructor
  · rintro ⟨after, l, before, h, hl, hafter⟩
    refine ⟨before.reverse, l, after.reverse, ?_, hl, by simpa using hafter⟩
    rw [← List.reverse_reverse preface, h]
    simp
  · rintro ⟨before, l, after, rfl, hl, hafter⟩
    exact ⟨after.reverse, l, before.reverse, by simp, hl, by simpa using hafter⟩

theorem names_iff {s : Section} {name : List Char} : Names s.header s.preface name ↔ s.name? = some name := by
  rw [Section.name?, Option.or_eq_some_iff, getLast?_lineNames_eq_some_iff, List.getLast?_eq_none_iff,
    List.filterMap_eq_nil_iff, headerName?_eq_some_iff]
  simp only [lineName?_eq_none_iff, lineName?_eq_some_iff]
  constructor
  · intro h
    cases h with
    | line hpreface hpath hlast hname => exact .inl ⟨_, _, _, hpreface, ⟨_, hpath, hname⟩, hlast⟩
    | header hnone hheader hfirst => exact .inr ⟨hnone, _, _, hheader, hfirst⟩
  · rintro (⟨before, l, after, hpreface, ⟨path, hpath, hname⟩, hlast⟩ | ⟨hnone, title, before, hheader, hfirst⟩)
    · exact .line hpreface hpath hlast hname
    · exact .header hnone hheader hfirst

theorem yields_iff {s : Section} {f : Fragment} : s.Yields f ↔ s.fragment? = some f := by
  rw [Section.fragment?_eq_some_iff]
  constructor
  · intro h
    cases h with
    | @fragment preface rest first name hlines hpreface hfirst hname =>
        have hbegins : ∀ l ∈ (first :: rest).head?, hunkMark <+: l := by
          rintro _ ⟨⟩
          exact hfirst
        obtain ⟨rfl, hhunk⟩ := Section.preface_hunk_of_lines_eq hlines hpreface hbegins
        rw [hhunk]
        exact ⟨List.cons_ne_nil _ _, name, names_iff.mp hname, rfl⟩
  · rintro ⟨hhunk, name, hname, rfl⟩
    obtain ⟨first, rest, hfirst, hmark⟩ := Section.hunk_begins hhunk
    have hlines : s.lines = s.preface ++ first :: rest := by
      rw [← hfirst]
      exact List.takeWhile_append_dropWhile.symm
    rw [hfirst]
    exact .fragment hlines not_prefix_of_mem_takeWhile hmark (names_iff.mpr hname)

theorem emits_iff {ss : List Section} {fs : List Fragment} :
    Emits ss fs ↔ ss.filterMap Section.fragment? = fs := by
  constructor
  · intro h
    induction h with
    | nil => rfl
    | fragment h _ ih => rw [List.filterMap_cons_some (yields_iff.mp h), ih]
    | nothing h _ ih =>
        have hnone := Option.eq_none_iff_forall_ne_some.mpr fun f hf => h f (yields_iff.mpr hf)
        rw [List.filterMap_cons_none hnone, ih]
  · rintro rfl
    induction ss with
    | nil => exact .nil
    | cons s ss ih =>
        cases h : s.fragment? with
        | some f =>
            rw [List.filterMap_cons_some h]
            exact .fragment (yields_iff.mpr h) ih
        | none =>
            rw [List.filterMap_cons_none h]
            refine .nothing (fun f hf => ?_) ih
            rw [yields_iff.mp hf] at h
            simp at h

/-- Reading a diff line by line comes to cutting it at its headers and taking each section by itself: its
fragment holds the lines from the first hunk on, under the name that the lines before them tell last, or else
the header. A section without a hunk or without a name comes to nothing. -/
theorem fragments_eq_iff (text fallback : String) (h : ∃ l ∈ Text.lines text.toList, headerMark <+: l)
    (fs : List Fragment) :
    fragments text fallback = fs ↔ ∃ front ss, IsCut (Text.lines text.toList) front ss ∧ Emits ss fs := by
  rw [fragments_eq text fallback (hasHeader_iff.mpr h)]
  constructor
  · intro hfs
    obtain ⟨front, ss, hcut⟩ := exists_isCut (Text.lines text.toList)
    rw [hcut.sections_eq] at hfs
    exact ⟨front, ss, hcut, emits_iff.mpr hfs⟩
  · rintro ⟨front, ss, hcut, hemits⟩
    rw [hcut.sections_eq]
    exact emits_iff.mp hemits

/-- Lines before the first header, two paths told one after the other and the second of them with the letter of
its side twice, a hunk that begins before its old side, and a section without a name. -/
theorem fragments_eq_iff_of_unordered :
    let text := "+++ b/stray\n@@ -1 +1 @@\ndiff --git a/x b/x\r\n+++ b/y\n+++ b/b/z \t\n+++ /dev/null\n" ++
      "@@ -1 +1 @@\r\n+++ b/x\ndiff --git v b/w b/w\n@@ -1 +1 @@\n--- v\ndiff --git w w\n@@ -1 +1 @@\n+1"
    let fs : List Fragment := [⟨"b/z", "@@ -1 +1 @@\n+++ b/x\n"⟩, ⟨"w b/w", "@@ -1 +1 @@\n--- v\n"⟩]
    (∃ l ∈ Text.lines text.toList, headerMark <+: l) ∧ fragments text "pushed" = fs ∧
      ∃ front ss, IsCut (Text.lines text.toList) front ss ∧ Emits ss fs := by
  intro text fs
  have hheader : ∃ l ∈ Text.lines text.toList, headerMark <+: l :=
    ⟨"diff --git w w".toList, by decide +kernel, "w w".toList, rfl⟩
  have hfragments : fragments text "pushed" = fs := by decide +kernel
  exact ⟨hheader, hfragments, (fragments_eq_iff text "pushed" hheader fs).mp hfragments⟩

end PushAudit.Diff
