import PushAudit.Text.Lines

namespace PushAudit.Text

@[simp] theorem chomp_append_return (l : List Char) : chomp (l ++ ['\r']) = l := by
  simp [chomp]

theorem chomp_of_getLast?_ne {l : List Char} (h : l.getLast? ≠ some '\r') : chomp l = l := if_neg h

theorem eq_chomp_or (l : List Char) : l = chomp l ∨ l = chomp l ++ ['\r'] := by
  by_cases h : l.getLast? = some '\r'
  · obtain ⟨xs, rfl⟩ := List.getLast?_eq_some_iff.mp h
    exact .inr (by rw [chomp_append_return])
  · exact .inl (chomp_of_getLast?_ne h).symm

theorem prefix_chomp_iff {mark : List Char} (h : '\r' ∉ mark) (l : List Char) :
    mark <+: chomp l ↔ mark <+: l := by
  rcases eq_chomp_or l with hl | hl
  · rw [← hl]
  · have hm : mark <+: l ↔ mark = chomp l ++ ['\r'] ∨ mark <+: chomp l := by
      rw [hl, chomp_append_return]
      exact List.prefix_concat_iff
    rw [hm]
    refine ⟨Or.inr, fun hm => hm.resolve_left ?_⟩
    rintro rfl
    simp at h

theorem not_prefix_map_chomp {mark : List Char} (hr : '\r' ∉ mark) {ls : List (List Char)}
    (h : ∀ l ∈ ls, ¬ mark <+: l) : ∀ l ∈ ls.map chomp, ¬ mark <+: l := by
  rw [List.forall_mem_map]
  intro l hl
  rw [prefix_chomp_iff hr]
  exact h l hl

theorem chomp_sublist (l : List Char) : (chomp l).Sublist l := by
  rw [chomp]
  split
  · exact l.dropLast_sublist
  · exact List.Sublist.refl l

theorem length_chomp_le (l : List Char) : (chomp l).length ≤ l.length := (chomp_sublist l).length_le

/-- A text is cut at its first separator, then the rest of it. -/
@[elab_as_elim]
theorem cut_induction (sep : Char) {motive : List Char → Prop} (single : ∀ s, sep ∉ s → motive s)
    (cons : ∀ s t, sep ∉ s → motive t → motive (s ++ sep :: t)) (s : List Char) : motive s := by
  by_cases h : sep ∈ s
  · obtain ⟨first, rest, hs, hfirst⟩ := List.eq_append_cons_of_mem h
    have hlt : rest.length < s.length := by
      rw [hs, List.length_append, List.length_cons]
      omega
    exact hs ▸ cons first rest hfirst (cut_induction sep single cons rest)
  · exact single s h
termination_by s.length

theorem not_mem_of_mem_splitOn {sep : Char} {l s : List Char} (h : l ∈ s.splitOn sep) : sep ∉ l := by
  induction s using cut_induction sep with
  | single s hs =>
      rw [List.splitOn_eq_singleton hs, List.mem_singleton] at h
      exact h ▸ hs
  | cons s t hs ih =>
      rw [List.splitOn_append_cons_self_of_not_mem hs, List.mem_cons] at h
      rcases h with rfl | h
      · exact hs
      · exact ih h

theorem infix_of_mem_splitOn {sep : Char} {l s : List Char} (h : l ∈ s.splitOn sep) : l <:+: s := by
  induction s using cut_induction sep with
  | single s hs =>
      rw [List.splitOn_eq_singleton hs, List.mem_singleton] at h
      exact h ▸ List.infix_refl s
  | cons s t hs ih =>
      rw [List.splitOn_append_cons_self_of_not_mem hs, List.mem_cons] at h
      rcases h with rfl | h
      · exact (List.prefix_append _ _).isInfix
      · exact (ih h).trans ((List.suffix_cons sep t).trans (List.suffix_append s _)).isInfix

theorem splitOn_append_of_not_mem {label : List Char} (h : '\n' ∉ label) (xs : List Char) :
    (label ++ xs).splitOn '\n' = (xs.splitOn '\n').modifyHead (label ++ ·) := by
  by_cases hx : '\n' ∈ xs
  · obtain ⟨first, rest, rfl, hfirst⟩ := List.eq_append_cons_of_mem hx
    rw [← List.append_assoc, List.splitOn_append_cons_self_of_not_mem hfirst,
      List.splitOn_append_cons_self_of_not_mem (List.not_mem_append h hfirst), List.modifyHead_cons]
  · rw [List.splitOn_eq_singleton (List.not_mem_append h hx), List.splitOn_eq_singleton hx,
      List.modifyHead_cons]

/-- The lines that a text makes up where a line feed is put after it. -/
def rowLines (row : List Char) : List (List Char) := (row.splitOn '\n').map chomp

def furtherLines (row : List Char) : List (List Char) := (rowLines row).tail

theorem mem_rowLines_append_iff {label mark : List Char} (hn : '\n' ∉ label)
    (hm : ∀ first, mark ≠ chomp (label ++ first)) (row : List Char) :
    mark ∈ rowLines (label ++ row) ↔ mark ∈ furtherLines row := by
  obtain ⟨first, rest, h⟩ := List.exists_cons_of_ne_nil (List.splitOn_ne_nil '\n' row)
  rw [furtherLines, rowLines, rowLines, splitOn_append_of_not_mem hn, h, List.modifyHead_cons,
    List.map_cons, List.map_cons, List.mem_cons, List.tail_cons, or_iff_right (hm first)]

theorem length_le_of_mem_rowLines {l row : List Char} (h : l ∈ rowLines row) : l.length ≤ row.length := by
  obtain ⟨m, hm, rfl⟩ := List.mem_map.mp h
  exact Nat.le_trans (length_chomp_le m) (infix_of_mem_splitOn hm).length_le

theorem lines_append_cons_newline (row rest : List Char) :
    lines (row ++ '\n' :: rest) = rowLines row ++ lines rest := by
  have hne := List.splitOn_ne_nil '\n' rest
  simp only [lines, rowLines, List.splitOn_append_cons_self]
  have hlast : (row.splitOn '\n' ++ rest.splitOn '\n').getLastD [] = (rest.splitOn '\n').getLastD [] := by
    simp [List.getLastD_eq_getLast?, List.getLast?_append, List.getLast?_eq_some_getLast hne]
  rw [hlast, List.dropLast_append_of_ne_nil hne, List.map_append, List.append_assoc]

theorem lines_append_newline {l : List Char} (h : '\n' ∉ l) (rest : List Char) :
    lines (l ++ '\n' :: rest) = chomp l :: lines rest := by
  rw [lines_append_cons_newline, rowLines, List.splitOn_eq_singleton h, List.map_singleton,
    List.singleton_append]

theorem lines_eq_singleton {l : List Char} (h : '\n' ∉ l) (hne : l ≠ []) : lines l = [l] := by
  have hempty : l.isEmpty = false := List.isEmpty_eq_false_iff.mpr hne
  simp [lines, List.splitOn_eq_singleton h, hempty]

theorem newline_not_mem_of_mem_lines {text : List Char} : ∀ l ∈ lines text, '\n' ∉ l := by
  induction text using cut_induction '\n' with
  | single s hs =>
      by_cases hne : s = []
      · subst hne
        exact List.forall_mem_nil _
      · rw [lines_eq_singleton hs hne, List.forall_mem_singleton]
        exact hs
  | cons s t hs ih =>
      rw [lines_append_newline hs, List.forall_mem_cons]
      exact ⟨fun h => hs ((chomp_sublist s).subset h), ih⟩

theorem lines_append {text : List Char} (h : text = [] ∨ ∃ row, text = row ++ ['\n']) (rest : List Char) :
    lines (text ++ rest) = lines text ++ lines rest := by
  rcases h with rfl | ⟨row, rfl⟩
  · rfl
  · have hrow : lines (row ++ ['\n']) = rowLines row := by
      rw [lines_append_cons_newline]
      exact List.append_nil _
    rw [hrow, List.append_assoc]
    exact lines_append_cons_newline row rest

theorem prefix_of_prefix_append_newline {mark first rest : List Char} (hn : '\n' ∉ mark)
    (h : mark <+: first ++ '\n' :: rest) : mark <+: first := by
  obtain ⟨t, ht⟩ := h
  rcases List.append_eq_append_iff.mp ht with ⟨s, hfirst, -⟩ | ⟨s, hmark, hs⟩
  · exact ⟨s, hfirst.symm⟩
  · cases s with
    | nil => exact ⟨[], by rw [hmark, List.append_nil, List.append_nil]⟩
    | cons c s =>
        obtain ⟨rfl, -⟩ := List.cons_eq_cons.mp hs
        simp [hmark] at hn

theorem exists_lines_of_prefix {mark text : List Char} (hn : '\n' ∉ mark) (hr : '\r' ∉ mark) (hne : mark ≠ [])
    (h : mark <+: text) : ∃ l ls, lines text = l :: ls ∧ mark <+: l := by
  by_cases ht : '\n' ∈ text
  · obtain ⟨first, rest, rfl, hfirst⟩ := List.eq_append_cons_of_mem ht
    refine ⟨chomp first, lines rest, lines_append_newline hfirst rest, ?_⟩
    exact (prefix_chomp_iff hr first).mpr (prefix_of_prefix_append_newline hn h)
  · have htext : text ≠ [] := fun he => hne (List.prefix_nil.mp (he ▸ h))
    exact ⟨text, [], lines_eq_singleton ht htext, h⟩

@[simp] theorem unlines_nil : unlines [] = [] := rfl

@[simp] theorem unlines_cons (l : List Char) (ls : List (List Char)) :
    unlines (l :: ls) = l ++ '\n' :: unlines ls := by
  simp [unlines]

@[simp] theorem unlines_append (ls ms : List (List Char)) :
    unlines (ls ++ ms) = unlines ls ++ unlines ms := List.flatMap_append

theorem unlines_eq_intercalate {ls : List (List Char)} (h : ls ≠ []) :
    unlines ls = ['\n'].intercalate ls ++ ['\n'] := by
  induction ls with
  | nil => exact absurd rfl h
  | cons l ls ih =>
      cases ls with
      | nil => rw [unlines_cons, List.intercalate_singleton, unlines_nil]
      | cons m ls =>
          rw [unlines_cons, ih (List.cons_ne_nil m ls), List.intercalate_cons_cons]
          simp only [List.append_assoc, List.cons_append, List.nil_append]

/-- Lines that are put together come apart at the line feeds that they hold themselves, too. -/
theorem lines_unlines_eq_flatMap (ls : List (List Char)) :
    lines (unlines ls) = ls.flatMap rowLines := by
  induction ls with
  | nil => rfl
  | cons l ls ih => rw [unlines_cons, lines_append_cons_newline, ih, List.flatMap_cons]

theorem splitOn_unlines {ls : List (List Char)} (h : ∀ l ∈ ls, '\n' ∉ l) :
    (unlines ls).splitOn '\n' = ls ++ [[]] := by
  induction ls with
  | nil => rfl
  | cons l ls ih =>
      rw [unlines_cons, List.splitOn_append_cons_self_of_not_mem (h l List.mem_cons_self),
        ih fun l hl => h l (List.mem_cons_of_mem _ hl), List.cons_append]

theorem lines_unlines {ls : List (List Char)} (h : ∀ l ∈ ls, '\n' ∉ l) :
    lines (unlines ls) = ls.map chomp := by
  induction ls with
  | nil => rfl
  | cons l ls ih =>
      rw [unlines_cons, lines_append_newline (h l List.mem_cons_self), List.map_cons,
        ih fun l hl => h l (List.mem_cons_of_mem _ hl)]

end PushAudit.Text
