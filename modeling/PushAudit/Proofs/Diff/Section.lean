import Mathlib.Data.List.Basic
import PushAudit.Diff.Splitter

namespace PushAudit.Diff

theorem afterMark?_eq_some_iff {mark line rest : List Char} :
    afterMark? mark line = some rest ↔ line = mark ++ rest := by
  rw [afterMark?]
  split
  case isTrue h =>
    obtain ⟨t, rfl⟩ := List.isPrefixOf_iff_prefix.mp h
    simp
  case isFalse h =>
    refine ⟨fun h => by simp at h, fun hl => ?_⟩
    exact absurd (List.isPrefixOf_iff_prefix.mpr ⟨rest, hl.symm⟩) h

theorem isSome_afterMark?_iff {mark line : List Char} : (afterMark? mark line).isSome ↔ mark <+: line := by
  simp only [Option.isSome_iff_exists, afterMark?_eq_some_iff]
  exact ⟨fun ⟨t, h⟩ => ⟨t, h.symm⟩, fun ⟨t, h⟩ => ⟨t, h.symm⟩⟩

theorem afterMark?_eq_none {mark line : List Char} (h : ¬ mark <+: line) : afterMark? mark line = none := by
  rw [← Option.not_isSome_iff_eq_none, isSome_afterMark?_iff]
  exact h

theorem isSome_afterFirst?_iff {mark line : List Char} :
    (afterFirst? mark line).isSome ↔ mark <:+: line := by
  induction line with
  | nil => rw [afterFirst?, isSome_afterMark?_iff, List.prefix_nil, List.infix_nil]
  | cons c line ih =>
      rw [afterFirst?, Option.isSome_or, Bool.or_eq_true, isSome_afterMark?_iff, ih, List.infix_cons_iff]

theorem isSome_sideName?_iff {side : List Char} :
    (sideName? side).isSome ↔ Text.trimEnd side ≠ "/dev/null".toList := by
  rw [sideName?]
  split <;> simp_all

theorem not_prefix_cons {mark : List Char} {c : Char} (hc : mark.head?.any (· ≠ c)) (l : List Char) :
    ¬ mark <+: c :: l := by
  cases mark with
  | nil => simp at hc
  | cons d mark =>
      rw [List.cons_prefix_cons]
      intro h
      simp [h.1] at hc

theorem takeWhile_append_of_mark {mark : List Char} {ls rest : List (List Char)}
    (h : ∀ l ∈ ls, ¬ mark <+: l) (hrest : ∀ l ∈ rest.head?, mark <+: l) :
    (ls ++ rest).takeWhile (!mark.isPrefixOf ·) = ls := by
  rw [List.takeWhile_append_of_pos]
  · cases rest with
    | nil => rw [List.takeWhile_nil, List.append_nil]
    | cons l rest =>
        have hl : mark.isPrefixOf l := List.isPrefixOf_iff_prefix.mpr (hrest l rfl)
        rw [List.takeWhile_cons, if_neg (by simp [hl]), List.append_nil]
  · intro l hl
    rw [Bool.not_eq_true', ← Bool.not_eq_true, List.isPrefixOf_iff_prefix]
    exact h l hl

theorem dropWhile_append_of_mark {mark : List Char} {ls rest : List (List Char)}
    (h : ∀ l ∈ ls, ¬ mark <+: l) (hrest : ∀ l ∈ rest.head?, mark <+: l) :
    (ls ++ rest).dropWhile (!mark.isPrefixOf ·) = rest := by
  have hsplit : (ls ++ rest).takeWhile (!mark.isPrefixOf ·) ++ (ls ++ rest).dropWhile (!mark.isPrefixOf ·) =
      ls ++ rest := List.takeWhile_append_dropWhile
  rw [takeWhile_append_of_mark h hrest] at hsplit
  exact List.append_cancel_left hsplit

theorem takeWhile_append_of_head {mark : List Char} {rest : List (List Char)}
    (hrest : ∀ l ∈ rest.head?, mark <+: l) (ls : List (List Char)) :
    (ls ++ rest).takeWhile (!mark.isPrefixOf ·) = ls.takeWhile (!mark.isPrefixOf ·) := by
  induction ls with
  | nil => exact takeWhile_append_of_mark (List.forall_mem_nil _) hrest
  | cons l ls ih => rw [List.cons_append, List.takeWhile_cons, List.takeWhile_cons, ih]

theorem not_prefix_of_mem_takeWhile {mark : List Char} {ls : List (List Char)} :
    ∀ l ∈ ls.takeWhile (!mark.isPrefixOf ·), ¬ mark <+: l := by
  intro l hl
  have hall := List.all_eq_true.mp List.all_takeWhile l hl
  rwa [Bool.not_eq_true', ← Bool.not_eq_true, List.isPrefixOf_iff_prefix] at hall

/-- What a diff says of one file: a header line and the lines up to the next one. -/
structure Section where
  header : List Char
  lines : List (List Char)
deriving DecidableEq, Repr

/-- The sections of a diff. What stands before the first header belongs to none. -/
def sections : List (List Char) → List Section
  | [] => []
  | l :: ls =>
    if headerMark.isPrefixOf l then ⟨l, ls.takeWhile (!headerMark.isPrefixOf ·)⟩ :: sections ls
    else sections ls

theorem sections_append_of_not_header {ls : List (List Char)} (h : ∀ l ∈ ls, ¬ headerMark <+: l)
    (rest : List (List Char)) : sections (ls ++ rest) = sections rest := by
  induction ls with
  | nil => rfl
  | cons l ls ih =>
      have hl : ¬ headerMark.isPrefixOf l := mt List.isPrefixOf_iff_prefix.mp (h l List.mem_cons_self)
      rw [List.cons_append, sections, if_neg hl]
      exact ih fun m hm => h m (List.mem_cons_of_mem l hm)

theorem sections_append {rest : List (List Char)} (hrest : ∀ l ∈ rest.head?, headerMark <+: l)
    (ls : List (List Char)) : sections (ls ++ rest) = sections ls ++ sections rest := by
  induction ls with
  | nil => rfl
  | cons l ls ih =>
      rw [List.cons_append, sections, sections, takeWhile_append_of_head hrest, ih]
      split <;> rfl

theorem sections_eq_nil {ls : List (List Char)} (h : ∀ l ∈ ls, ¬ headerMark <+: l) : sections ls = [] := by
  rw [← ls.append_nil, sections_append_of_not_header h]
  rfl

theorem sections_cons_append {header : List Char} {ls rest : List (List Char)}
    (hh : headerMark <+: header) (h : ∀ l ∈ ls, ¬ headerMark <+: l)
    (hrest : ∀ l ∈ rest.head?, headerMark <+: l) :
    sections (header :: (ls ++ rest)) = ⟨header, ls⟩ :: sections rest := by
  rw [sections, if_pos (List.isPrefixOf_iff_prefix.mpr hh), takeWhile_append_of_mark h hrest,
    sections_append_of_not_header h]

theorem sections_cons_of_not_header {header : List Char} {ls : List (List Char)} (hh : headerMark <+: header)
    (h : ∀ l ∈ ls, ¬ headerMark <+: l) : sections (header :: ls) = [⟨header, ls⟩] := by
  have hone : sections (header :: (ls ++ [])) = ⟨header, ls⟩ :: sections [] := sections_cons_append hh h (by simp)
  rw [List.append_nil] at hone
  exact hone

theorem sections_ne_nil {ls : List (List Char)} (h : ∃ l ∈ ls, headerMark <+: l) : sections ls ≠ [] := by
  obtain ⟨l, hl, hmark⟩ := h
  obtain ⟨xs, ys, rfl⟩ := List.append_of_mem hl
  have hhead : ∀ m ∈ (l :: ys).head?, headerMark <+: m := by
    rintro _ ⟨⟩
    exact hmark
  rw [sections_append hhead, sections, if_pos (List.isPrefixOf_iff_prefix.mpr hmark)]
  exact List.append_ne_nil_of_right_ne_nil _ (List.cons_ne_nil _ _)

theorem exists_of_getLast?_sections {ls : List (List Char)} {s : Section} (h : (sections ls).getLast? = some s) :
    ∃ front, ls = front ++ s.header :: s.lines ∧ headerMark <+: s.header ∧ ∀ l ∈ s.lines, ¬ headerMark <+: l := by
  induction ls with
  | nil => simp [sections] at h
  | cons l ls ih =>
      by_cases hlater : ∃ m ∈ ls, headerMark <+: m
      · have hlast : (sections (l :: ls)).getLast? = (sections ls).getLast? := by
          rw [sections]
          split
          · exact List.getLast?_append_of_ne_nil [_] (sections_ne_nil hlater)
          · rfl
        obtain ⟨front, rfl, hs⟩ := ih (hlast ▸ h)
        exact ⟨l :: front, rfl, hs⟩
      · have hnone : ∀ m ∈ ls, ¬ headerMark <+: m := fun m hm hmark => hlater ⟨m, hm, hmark⟩
        by_cases hl : headerMark <+: l
        · rw [sections_cons_of_not_header hl hnone] at h
          obtain rfl := Option.some.inj h
          exact ⟨[], rfl, hl, hnone⟩
        · rw [sections_eq_nil (List.forall_mem_cons.mpr ⟨hl, hnone⟩)] at h
          simp at h

theorem sections_append_lines {ls more : List (List Char)} {s : Section} (h : (sections ls).getLast? = some s)
    (hmore : ∀ l ∈ more, ¬ headerMark <+: l) :
    ∃ ss, sections ls = ss ++ [s] ∧ sections (ls ++ more) = ss ++ [⟨s.header, s.lines ++ more⟩] := by
  obtain ⟨front, rfl, hheader, hlines⟩ := exists_of_getLast?_sections h
  have hopen (body : List (List Char)) (hbody : ∀ l ∈ body, ¬ headerMark <+: l) :
      sections (front ++ s.header :: body) = sections front ++ [⟨s.header, body⟩] := by
    have hhead : ∀ l ∈ (s.header :: body).head?, headerMark <+: l := by
      rintro _ ⟨⟩
      exact hheader
    rw [sections_append hhead, sections_cons_of_not_header hheader hbody]
  refine ⟨sections front, hopen s.lines hlines, ?_⟩
  rw [List.append_assoc, List.cons_append]
  exact hopen _ (List.forall_mem_append.mpr ⟨hlines, hmore⟩)

theorem lines_of_mem_sections {ls : List (List Char)} {s : Section} (h : s ∈ sections ls) :
    s.lines <:+: ls ∧ ∀ l ∈ s.lines, ¬ headerMark <+: l := by
  induction ls with
  | nil => simp [sections] at h
  | cons m ls ih =>
      rw [sections] at h
      split at h
      · rcases List.mem_cons.mp h with rfl | h
        · have hbegin : ls.takeWhile (!headerMark.isPrefixOf ·) <+: ls := List.takeWhile_prefix _
          exact ⟨hbegin.isInfix.trans (List.suffix_cons m ls).isInfix, not_prefix_of_mem_takeWhile⟩
        · exact ⟨(ih h).1.trans (List.suffix_cons m ls).isInfix, (ih h).2⟩
      · exact ⟨(ih h).1.trans (List.suffix_cons m ls).isInfix, (ih h).2⟩

namespace Section

def preface (s : Section) : List (List Char) := s.lines.takeWhile (!hunkMark.isPrefixOf ·)

/-- The lines from the first hunk on, whatever they look like. -/
def hunk (s : Section) : List (List Char) := s.lines.dropWhile (!hunkMark.isPrefixOf ·)

theorem hunk_suffix (s : Section) : s.hunk <:+ s.lines := List.dropWhile_suffix _

theorem hunk_begins {s : Section} (h : s.hunk ≠ []) : ∃ l ls, s.hunk = l :: ls ∧ hunkMark <+: l := by
  obtain ⟨l, ls, hl⟩ := List.exists_cons_of_ne_nil h
  refine ⟨l, ls, hl, ?_⟩
  have hmark := List.head_dropWhile_not (!hunkMark.isPrefixOf ·) h
  change (!hunkMark.isPrefixOf (s.hunk.head h)) = false at hmark
  simpa [hl] using hmark

theorem preface_hunk_of_lines_eq {s : Section} {xs ys : List (List Char)} (h : s.lines = xs ++ ys)
    (hxs : ∀ l ∈ xs, ¬ hunkMark <+: l) (hys : ∀ l ∈ ys.head?, hunkMark <+: l) :
    s.preface = xs ∧ s.hunk = ys := by
  rw [preface, hunk, h]
  exact ⟨takeWhile_append_of_mark hxs hys, dropWhile_append_of_mark hxs hys⟩

def lineName? (line : List Char) : Option (List Char) := (afterMark? newSideMark line).bind sideName?

/-- The last name that the preface gives to the new side, else the one in the header. -/
def name? (s : Section) : Option (List Char) :=
  (s.preface.filterMap lineName?).getLast?.or (headerName? s.header)

theorem lineName?_of_not_newSide {line : List Char} (h : ¬ newSideMark <+: line) :
    lineName? line = none := by
  rw [lineName?, afterMark?_eq_none h, Option.bind_none]

/-- A line before the first hunk names the new side, or the header does. -/
def HasName (s : Section) : Prop :=
  (∃ l ∈ s.preface, ∃ side, l = newSideMark ++ side ∧ Text.trimEnd side ≠ "/dev/null".toList) ∨
    ∃ title, s.header = headerMark ++ title ∧ " b/".toList <:+: title

theorem isSome_lineName?_iff {line : List Char} :
    (lineName? line).isSome ↔
      ∃ side, line = newSideMark ++ side ∧ Text.trimEnd side ≠ "/dev/null".toList := by
  rw [lineName?, Option.isSome_bind, Option.any_eq_true]
  simp only [afterMark?_eq_some_iff, isSome_sideName?_iff]

theorem isSome_headerName?_iff {header : List Char} :
    (headerName? header).isSome ↔ ∃ title, header = headerMark ++ title ∧ " b/".toList <:+: title := by
  rw [headerName?, Option.isSome_bind, Option.any_eq_true]
  simp only [afterMark?_eq_some_iff, isSome_afterFirst?_iff]

theorem isSome_name?_iff (s : Section) : s.name?.isSome ↔ s.HasName := by
  have hpreface :
      (s.preface.filterMap lineName?).getLast?.isSome ↔ ∃ l ∈ s.preface, (lineName? l).isSome := by
    rw [List.getLast?_isSome]
    constructor
    · intro hne
      obtain ⟨n, hn⟩ := List.exists_mem_of_ne_nil _ hne
      obtain ⟨l, hl, hln⟩ := List.mem_filterMap.mp hn
      exact ⟨l, hl, Option.isSome_iff_exists.mpr ⟨n, hln⟩⟩
    · rintro ⟨l, hl, hs⟩
      obtain ⟨n, hn⟩ := Option.isSome_iff_exists.mp hs
      exact List.ne_nil_of_mem (List.mem_filterMap.mpr ⟨l, hl, hn⟩)
  rw [name?, Option.isSome_or, Bool.or_eq_true, hpreface, isSome_headerName?_iff, HasName]
  simp only [isSome_lineName?_iff]

def fragment? (s : Section) : Option Fragment :=
  if s.hunk.isEmpty then none
  else s.name?.map fun name => ⟨String.ofList name, String.ofList (Text.unlines s.hunk)⟩

theorem fragment?_eq_some_iff {s : Section} {f : Fragment} :
    s.fragment? = some f ↔
      s.hunk ≠ [] ∧ ∃ name, s.name? = some name ∧
        f = ⟨String.ofList name, String.ofList (Text.unlines s.hunk)⟩ := by
  rw [fragment?]
  split
  case isTrue h => simp [List.isEmpty_iff.mp h]
  case isFalse h =>
    rw [Option.map_eq_some_iff, and_iff_right (mt List.isEmpty_iff.mpr h)]
    exact exists_congr fun name => and_congr_right fun _ => eq_comm

end Section

theorem push_of_hunkMark {s : OpenSection} (hs : s.hunkLines = []) {line : List Char}
    (h : hunkMark.isPrefixOf line) : s.push line = { s with hunkLines := [line] } := by
  have hn : afterMark? newSideMark line = none := by
    obtain ⟨t, rfl⟩ := List.isPrefixOf_iff_prefix.mp h
    rfl
  simp only [OpenSection.push, hs, List.isEmpty_nil, if_true, hn, h]

theorem push_of_not_hunkMark {s : OpenSection} (hs : s.hunkLines = []) {line : List Char}
    (h : ¬ hunkMark.isPrefixOf line) :
    s.push line = { s with name := (Section.lineName? line).or s.name } := by
  obtain ⟨name, hunkLines⟩ := s
  obtain rfl : hunkLines = [] := hs
  rw [OpenSection.push, Section.lineName?]
  cases hn : afterMark? newSideMark line with
  | none => simp [h]
  | some side => simp

theorem push_of_ne_nil {s : OpenSection} (hs : s.hunkLines ≠ []) (line : List Char) :
    s.push line = { s with hunkLines := line :: s.hunkLines } := by
  simp [OpenSection.push, hs]

theorem foldl_push_of_ne_nil {s : OpenSection} (hs : s.hunkLines ≠ []) (ls : List (List Char)) :
    ls.foldl OpenSection.push s = { s with hunkLines := ls.reverse ++ s.hunkLines } := by
  induction ls generalizing s with
  | nil => rfl
  | cons l ls ih =>
      rw [List.foldl_cons, push_of_ne_nil hs, ih (by simp)]
      simp

/-- Reading line by line finds the last name before the first hunk, and the hunk. -/
theorem foldl_push_eq (header : List Char) (ls : List (List Char)) (name : Option (List Char)) :
    let s : Section := ⟨header, ls⟩
    ls.foldl OpenSection.push ⟨name, []⟩ =
      ⟨(s.preface.filterMap Section.lineName?).getLast?.or name, s.hunk.reverse⟩ := by
  induction ls generalizing name with
  | nil => rfl
  | cons l ls ih =>
      by_cases h : hunkMark.isPrefixOf l
      · rw [List.foldl_cons, push_of_hunkMark rfl h, foldl_push_of_ne_nil (by simp)]
        simp [Section.preface, Section.hunk, h]
      · rw [List.foldl_cons, push_of_not_hunkMark rfl h, ih]
        cases hn : Section.lineName? l with
        | none => simp [Section.preface, Section.hunk, h, hn]
        | some n => simp [Section.preface, Section.hunk, h, hn, List.getLast?_cons]

theorem close_foldl_push (header : List Char) (ls : List (List Char)) :
    (ls.foldl OpenSection.push (.begin header)).close = (Section.mk header ls).fragment? := by
  rw [OpenSection.begin, foldl_push_eq header, OpenSection.close, Section.fragment?]
  simp [Section.name?]

theorem reverse_flush (st : State) :
    st.flush.reverse = st.closed.reverse ++ (st.current.bind OpenSection.close).toList := by
  rw [State.flush, List.reverse_append]
  cases st.current.bind OpenSection.close <;> rfl

/-- The fragments found after a run are those closed before, that of the section left open, once its
remaining lines are read, and those of the sections after it. -/
theorem reverse_flush_foldl_push (st : State) (ls : List (List Char)) :
    (ls.foldl State.push st).flush.reverse =
      st.closed.reverse ++
        (st.current.bind fun s =>
          ((ls.takeWhile (!headerMark.isPrefixOf ·)).foldl OpenSection.push s).close).toList ++
        (sections ls).filterMap Section.fragment? := by
  induction ls generalizing st with
  | nil => rw [List.foldl_nil, reverse_flush, sections, List.filterMap_nil, List.append_nil]; rfl
  | cons l ls ih =>
      by_cases h : headerMark.isPrefixOf l
      · have hrest : (l :: ls).takeWhile (!headerMark.isPrefixOf ·) = [] := by simp [h]
        rw [List.foldl_cons, State.push, if_pos h, ih, reverse_flush, sections, if_pos h, hrest,
          Option.bind_some, close_foldl_push, List.filterMap_cons]
        cases (Section.mk l (ls.takeWhile (!headerMark.isPrefixOf ·))).fragment? <;> simp
      · have hrest : (l :: ls).takeWhile (!headerMark.isPrefixOf ·) =
            l :: ls.takeWhile (!headerMark.isPrefixOf ·) := by simp [h]
        rw [List.foldl_cons, State.push, if_neg h, ih, sections, if_neg h, hrest]
        cases st.current <;> rfl

theorem hasHeader_iff {ls : List (List Char)} : hasHeader ls ↔ ∃ l ∈ ls, headerMark <+: l := by
  simp only [hasHeader, List.any_eq_true, List.isPrefixOf_iff_prefix]

theorem ofLines_eq (ls : List (List Char)) : ofLines ls = (sections ls).filterMap Section.fragment? :=
  (reverse_flush_foldl_push ⟨none, []⟩ ls).trans (by simp)

theorem fragments_eq (text fallback : String) (h : hasHeader (Text.lines text.toList)) :
    fragments text fallback = (sections (Text.lines text.toList)).filterMap Section.fragment? := by
  rw [fragments, if_pos h, ofLines_eq]

end PushAudit.Diff
