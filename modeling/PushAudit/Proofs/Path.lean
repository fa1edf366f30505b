import Mathlib.Data.List.Basic
import PushAudit.Path
import PushAudit.Proofs.Text.Lines

namespace PushAudit.Path

variable {p q : Path} {s : List Char}

theorem isAbsolute_iff : p.isAbsolute ↔ p.text.toList.head? = some '/' := by
  unfold isAbsolute layout
  split
  · next h => simp [h]
  · next h => simp [h]
  · next h => simp [h]
  · next hroot _ _ =>
      cases hs : p.text.toList with
      | nil => simp
      | cons c s =>
          have hc : c ≠ '/' := fun hc => hroot s (hc ▸ hs)
          simp [hc]

theorem lead_eq_here_iff : p.layout.lead = .here ↔ p.text.toList = ['.'] ∨ ['.', '/'] <+: p.text.toList := by
  unfold layout
  split
  · next h => simp [h]
  · next h => simp [h]
  · next h => simp [h]
  · next hdot hslash =>
      simp only [reduceCtorEq, false_iff, not_or]
      refine ⟨hdot, ?_⟩
      rintro ⟨s, hs⟩
      exact hslash s hs.symm

theorem components_ne_here (h : p.layout.lead ≠ .here) : p.components ≠ [.here] := by
  intro hp
  have hmem : Component.here ∈ p.components := by simp [hp]
  rcases List.mem_append.mp hmem with hmem | hmem
  · cases hlead : p.layout.lead with
    | none => simp [hlead, Lead.components] at hmem
    | root => simp [hlead, Lead.components] at hmem
    | here => exact h hlead
  · obtain ⟨s, -, hs⟩ := List.mem_map.mp hmem
    unfold Component.ofSegment at hs
    split at hs <;> contradiction

theorem not_mem_of_mem_segments {name : String} (h : name ∈ segments s) : '/' ∉ name.toList := by
  obtain ⟨l, hl, rfl⟩ := List.mem_map.mp h
  rw [String.toList_ofList]
  exact Text.not_mem_of_mem_splitOn hl

theorem intercalate_segments (s : List Char) : ['/'].intercalate ((segments s).map String.toList) = s := by
  have hmap : (segments s).map String.toList = s.splitOn '/' := by simp [segments, Function.comp_def]
  rw [hmap, List.intercalate_splitOn]

theorem getLast?_of_splitOn (hne : s ≠ []) (h : (s.splitOn '/').getLast? = some []) : s.getLast? = some '/' := by
  induction s using Text.cut_induction '/' with
  | single s hs =>
      rw [List.splitOn_eq_singleton hs, List.getLast?_singleton, Option.some.injEq] at h
      contradiction
  | cons s t hs ih =>
      rw [List.splitOn_append_cons_self_of_not_mem hs,
        List.getLast?_cons_of_ne_nil (List.splitOn_ne_nil '/' t)] at h
      by_cases ht : t = []
      · simp [ht]
      · simp [List.getLast?_append, List.getLast?_cons, ih ht h]

def inner (p : Path) : List Char := if p.isAbsolute then p.text.toList.drop 1 else p.text.toList

def parts (p : Path) : List String := segments p.inner

theorem text_eq_inner (p : Path) : p.text.toList = (if p.isAbsolute then ['/'] else []) ++ p.inner := by
  unfold inner
  split
  · next h =>
      obtain ⟨s, hs⟩ := List.head?_eq_some_iff.mp (isAbsolute_iff.mp h)
      simp [hs]
  · simp

theorem layout_segments_of_absolute (h : p.isAbsolute) : p.layout.segments = p.parts := by
  have htext := text_eq_inner p
  rw [if_pos h] at htext
  rw [layout]
  simp only [htext, List.cons_append, List.nil_append, parts]

/-- Ready for a name to be written after it. -/
def slashed (s : List Char) : List Char := if s = [] ∨ s.getLast? = some '/' then s else s ++ ['/']

theorem slashed_nil : slashed [] = [] := rfl

theorem exists_slashed (h : s ≠ []) :
    ∃ t, slashed s = t ++ ['/'] ∧ (s = t ++ ['/'] ∨ s = t ∧ t.getLast? ≠ some '/') := by
  by_cases hlast : s.getLast? = some '/'
  · obtain ⟨t, rfl⟩ := List.getLast?_eq_some_iff.mp hlast
    exact ⟨t, if_pos (.inr hlast), .inl rfl⟩
  · exact ⟨s, if_neg (not_or.mpr ⟨h, hlast⟩), .inr ⟨rfl, hlast⟩⟩

theorem slashed_cons_slash (s : List Char) : slashed ('/' :: s) = '/' :: slashed s := by
  cases s with
  | nil => rfl
  | cons c s =>
      simp only [slashed, List.getLast?_cons_cons, reduceCtorEq, false_or]
      split <;> rfl

theorem prefix_slashed (s : List Char) : s <+: slashed s := by
  unfold slashed
  split
  · exact List.prefix_refl s
  · exact List.prefix_append s _

theorem toList_text_join (hq : ¬ q.isAbsolute) :
    (p.join q).text.toList = slashed p.text.toList ++ q.text.toList := by
  rw [join, if_neg hq, slashed]
  have hempty : p.text = "" ↔ p.text.toList = [] := by rw [String.toList_eq_nil_iff]
  simp only [hempty]
  split
  · rw [String.toList_append]
  · simp

theorem not_isAbsolute_of_not_mem {name : String} (h : '/' ∉ name.toList) : ¬ Path.isAbsolute ⟨name⟩ := by
  rw [isAbsolute_iff]
  exact fun hhead => h (List.mem_of_mem_head? hhead)

variable {name : String}

theorem eq_of_append_eq_append {s t a b : List Char} (hs : s = [] ∨ s.getLast? = some '/')
    (ht : t = [] ∨ t.getLast? = some '/') (ha : '/' ∉ a) (hb : '/' ∉ b) (h : s ++ a = t ++ b) : s = t ∧ a = b := by
  have hnil {s u : List Char} (hs : s ++ u = [] ∨ (s ++ u).getLast? = some '/') (hu : '/' ∉ u) : u = [] := by
    by_contra hne
    rcases hs with hs | hs
    · exact hne (List.append_eq_nil_iff.mp hs).2
    · rw [List.getLast?_append_of_ne_nil _ hne] at hs
      exact hu (List.mem_of_getLast? hs)
  rcases List.append_eq_append_iff.mp h with ⟨u, rfl, rfl⟩ | ⟨u, rfl, rfl⟩
  · obtain rfl := hnil ht fun hu => ha (List.mem_append_left _ hu)
    exact ⟨(List.append_nil s).symm, rfl⟩
  · obtain rfl := hnil hs fun hu => hb (List.mem_append_left _ hu)
    exact ⟨List.append_nil t, rfl⟩

theorem slashed_eq_nil_or (s : List Char) : slashed s = [] ∨ (slashed s).getLast? = some '/' := by
  cases s with
  | nil => exact .inl rfl
  | cons c s =>
      obtain ⟨t, ht, -⟩ := exists_slashed (List.cons_ne_nil c s)
      exact .inr (by rw [ht, List.getLast?_concat])

theorem slashed_sublist {t : List Char} (h : s <+: t) : (slashed s).Sublist (slashed t) := by
  obtain ⟨u, rfl⟩ := h
  by_cases hu : u = []
  · rw [hu, List.append_nil]
  · obtain ⟨v, hv⟩ := prefix_slashed (s ++ u)
    have hne : u ++ v ≠ [] := fun hnil => hu (List.append_eq_nil_iff.mp hnil).1
    rw [List.append_assoc] at hv
    have hlast : (s ++ (u ++ v)).getLast? = some '/' := by
      rw [hv]
      refine (slashed_eq_nil_or (s ++ u)).resolve_left fun hnil => hne ?_
      exact (List.append_eq_nil_iff.mp (hv.trans hnil)).2
    rw [List.getLast?_append_of_ne_nil _ hne] at hlast
    have hmem : '/' ∈ u ++ v := List.mem_of_getLast? hlast
    rw [← hv]
    unfold slashed
    split
    · exact List.sublist_append_left s _
    · exact (List.singleton_sublist.mpr hmem).append_left s

/-- Names in two directories make the same path only if they are the same name and the directories, too,
are the same but for a slash at the end. -/
theorem join_name_eq_iff {other : String} (hname : '/' ∉ name.toList) (hother : '/' ∉ other.toList) :
    p.join ⟨name⟩ = q.join ⟨other⟩ ↔ slashed p.text.toList = slashed q.text.toList ∧ name = other := by
  have htext : p.join ⟨name⟩ = q.join ⟨other⟩ ↔
      slashed p.text.toList ++ name.toList = slashed q.text.toList ++ other.toList := by
    rw [← toList_text_join (q := ⟨name⟩) (not_isAbsolute_of_not_mem hname),
      ← toList_text_join (q := ⟨other⟩) (not_isAbsolute_of_not_mem hother), String.toList_inj]
    exact ⟨congrArg text, fun h => by rw [← mk.injEq] at h; exact h⟩
  rw [htext]
  constructor
  · intro h
    obtain ⟨hslashed, heq⟩ := eq_of_append_eq_append (slashed_eq_nil_or _) (slashed_eq_nil_or _) hname hother h
    exact ⟨hslashed, String.toList_inj.mp heq⟩
  · rintro ⟨hslashed, rfl⟩
    rw [hslashed]

theorem isAbsolute_join (hp : p.text ≠ "") (hq : ¬ q.isAbsolute) : (p.join q).isAbsolute = p.isAbsolute := by
  rw [Bool.eq_iff_iff, isAbsolute_iff, isAbsolute_iff, toList_text_join hq]
  obtain ⟨t, ht⟩ := prefix_slashed p.text.toList
  have hne : p.text.toList ≠ [] := by rwa [Ne, String.toList_eq_nil_iff]
  rw [← ht, List.append_assoc, List.head?_append_of_ne_nil _ hne]

theorem inner_join (hp : p.text ≠ "") (hq : ¬ q.isAbsolute) :
    (p.join q).inner = slashed p.inner ++ q.text.toList := by
  have htext := text_eq_inner p
  rw [inner, isAbsolute_join hp hq, toList_text_join hq, htext]
  split
  · rw [List.singleton_append, slashed_cons_slash, List.cons_append, List.drop_one, List.tail_cons]
  · rw [List.nil_append]

theorem lead_join_ne_here (hp : p.text ≠ "") (hlead : p.layout.lead ≠ .here) (hname : '/' ∉ name.toList) :
    (p.join ⟨name⟩).layout.lead ≠ .here := by
  rw [Ne, lead_eq_here_iff, not_or] at hlead ⊢
  rw [toList_text_join (not_isAbsolute_of_not_mem hname)]
  have hne : p.text.toList ≠ [] := by rwa [Ne, String.toList_eq_nil_iff]
  obtain ⟨t, ht⟩ := prefix_slashed p.text.toList
  rw [← ht, List.append_assoc]
  match htext : p.text.toList, hne with
  | [c], _ =>
      have hc : c ≠ '.' := fun hc => hlead.1 (by rw [htext, hc])
      simp [hc, Ne.symm hc]
  | c :: d :: s, _ =>
      have hcd : ¬ (c = '.' ∧ d = '/') := by
        rintro ⟨rfl, rfl⟩
        exact hlead.2 (by rw [htext]; exact List.prefix_append _ _)
      refine ⟨by simp, ?_⟩
      rintro ⟨u, hu⟩
      simp only [List.cons_append, List.nil_append, List.cons.injEq] at hu
      exact hcd ⟨hu.1.symm, hu.2.1.symm⟩

theorem segments_append_slash (s t : List Char) : segments (s ++ '/' :: t) = segments s ++ segments t := by
  simp [segments, List.splitOn_append_cons_self]

theorem segments_of_not_mem (h : '/' ∉ name.toList) : segments name.toList = [name] := by
  simp [segments, List.splitOn_eq_singleton h]

theorem exists_segments_slashed (s : List Char) (hname : '/' ∉ name.toList) :
    ∃ before, segments (slashed s ++ name.toList) = before ++ [name] ∧
      before.filter (!isVoid ·) = (segments s).filter (!isVoid ·) := by
  cases s with
  | nil => exact ⟨[], by simp [slashed_nil, segments_of_not_mem hname], by decide⟩
  | cons c s =>
      obtain ⟨t, ht, hs⟩ := exists_slashed (List.cons_ne_nil c s)
      refine ⟨segments t, ?_, ?_⟩
      · rw [ht, List.append_assoc, List.singleton_append, segments_append_slash, segments_of_not_mem hname]
      · rcases hs with hs | ⟨hs, -⟩
        · rw [hs, segments_append_slash, List.filter_append]
          simp [segments, isVoid]
        · rw [hs]

theorem exists_parts_join (hp : p.text ≠ "") (hname : '/' ∉ name.toList) :
    ∃ before, (p.join ⟨name⟩).parts = before ++ [name] ∧
      before.filter (!isVoid ·) = p.parts.filter (!isVoid ·) := by
  rw [parts, inner_join hp (not_isAbsolute_of_not_mem hname)]
  exact exists_segments_slashed p.inner hname

theorem join_of_empty (hp : p.text = "") (hname : '/' ∉ name.toList) : p.join ⟨name⟩ = ⟨name⟩ := by
  rw [join, if_neg (not_isAbsolute_of_not_mem hname), if_pos (.inl hp), hp, String.empty_append]

theorem isAbsolute_join_name (p : Path) (hname : '/' ∉ name.toList) :
    (p.join ⟨name⟩).isAbsolute = p.isAbsolute := by
  by_cases hp : p.text = ""
  · rw [join_of_empty hp hname, Bool.eq_iff_iff, isAbsolute_iff (p := p), hp]
    simpa using not_isAbsolute_of_not_mem hname
  · exact isAbsolute_join hp (not_isAbsolute_of_not_mem hname)

theorem exists_parts_join_name (p : Path) (hname : '/' ∉ name.toList) :
    ∃ before, (p.join ⟨name⟩).parts = before ++ [name] ∧
      before.filter (!isVoid ·) = p.parts.filter (!isVoid ·) := by
  by_cases hp : p.text = ""
  · have hnil : p = ⟨""⟩ := by rw [← hp]
    refine ⟨[], ?_, by rw [hnil]; decide⟩
    rw [join_of_empty hp hname, parts, inner, if_neg (not_isAbsolute_of_not_mem hname), segments_of_not_mem hname,
      List.nil_append]
  · exact exists_parts_join hp hname

end PushAudit.Path
