import Mathlib.Data.List.Basic
import PushAudit.Glob.Pattern

namespace PushAudit.Glob

/-- A component as it is written fits a name: a star stands for any run of characters, all else
for itself. -/
inductive Fits : List Char → List Char → Prop
  | nil : Fits [] []
  | char {c : Char} {s name : List Char} (hc : c ≠ '*') (h : Fits s name) : Fits (c :: s) (c :: name)
  | star {s name : List Char} (run : List Char) (h : Fits s name) : Fits ('*' :: s) (run ++ name)

/-- Of what a pattern gives a meaning to, there are but stars, and no two of them together. -/
structure IsSimple (s : List Char) : Prop where
  noAny : '?' ∉ s
  noSet : '[' ∉ s
  noDepth : ¬ ['*', '*'] <:+: s

def Token.ofChar (c : Char) : Token := if c = '*' then .anyRun else .char c

variable {s name : List Char} {c : Char}

theorem IsSimple.tail (h : IsSimple (c :: s)) : IsSimple s :=
  ⟨fun hmem => h.noAny (.tail _ hmem), fun hmem => h.noSet (.tail _ hmem),
    fun hstars => h.noDepth (hstars.trans (List.suffix_cons c s).isInfix)⟩

theorem not_isSimple_depth : ¬ IsSimple ('*' :: '*' :: s) :=
  fun h => h.noDepth (List.prefix_append ['*', '*'] s).isInfix

theorem tokensFrom_of_isSimple {position : Nat} {previous : Option Char} (h : IsSimple s) :
    tokensFrom position previous s = .ok (s.map Token.ofChar) := by
  fun_induction tokensFrom position previous s with
  | case1 => rfl
  | case2 position previous s => exact absurd (.head _) h.noAny
  | case3 | case4 | case5 | case6 | case7 => exact absurd h not_isSimple_depth
  | case8 position previous s hno hno' ih =>
      rw [ih h.tail]
      rfl
  | case9 | case10 => exact absurd (.head _) h.noSet
  | case11 position previous c s hany hdepth hdepth' hrun hset ih =>
      have hc : c ≠ '*' := by
        rintro rfl
        exact hrun rfl
      rw [ih h.tail]
      simp [Except.map, Token.ofChar, hc]

theorem tokens_of_isSimple (h : IsSimple s) : tokens s = .ok (s.map Token.ofChar) :=
  tokensFrom_of_isSimple h

theorem mem_suffixes_iff {a : List Char} : a ∈ suffixes s ↔ a <:+ s := by
  induction s with
  | nil => simp [suffixes]
  | cons c s ih => simp [suffixes, ih, List.suffix_cons_iff]

theorem pairwise_suffixes (s : List Char) : (suffixes s).Pairwise fun a b => b <:+ a := by
  induction s with
  | nil => simp [suffixes]
  | cons c s ih =>
      rw [suffixes, List.pairwise_cons]
      exact ⟨fun a ha => (mem_suffixes_iff.mp ha).trans (List.suffix_cons c s), ih⟩

theorem advance_star (left : List (List Char)) :
    advance left (.ofChar '*') = (left.head?.map suffixes).getD [] := by
  simp [Token.ofChar, advance]

theorem mem_advance_char_iff (hc : c ≠ '*') {left : List (List Char)} {a : List Char} :
    a ∈ advance left (.ofChar c) ↔ c :: a ∈ left := by
  simp only [Token.ofChar, hc, if_false, advance, List.mem_filterMap]
  constructor
  · rintro ⟨_ | ⟨d, b⟩, hb, h⟩
    · contradiction
    · simp only [Token.admits, beq_iff_eq, Option.ite_none_right_eq_some, Option.some.injEq] at h
      obtain ⟨rfl, rfl⟩ := h
      exact hb
  · intro h
    exact ⟨_, h, by simp [Token.admits]⟩

theorem suffix_of_cons_suffix_cons {a b : List Char} (h : c :: b <:+ c :: a) : b <:+ a := by
  rcases List.suffix_cons_iff.mp h with h | h
  · cases h
    exact List.suffix_refl _
  · exact (List.suffix_cons c b).trans h

theorem pairwise_advance {left : List (List Char)} (h : left.Pairwise fun a b => b <:+ a) :
    (advance left (.ofChar c)).Pairwise fun a b => b <:+ a := by
  by_cases hc : c = '*'
  · subst hc
    rw [advance_star]
    cases left with
    | nil => simp
    | cons a left => exact pairwise_suffixes a
  · simp only [Token.ofChar, hc, if_false, advance, List.pairwise_filterMap]
    refine h.imp fun {a b} hab a' ha' b' hb' => ?_
    cases a with
    | nil => contradiction
    | cons d a =>
        cases b with
        | nil => contradiction
        | cons e b =>
            simp only [Token.admits, beq_iff_eq, Option.ite_none_right_eq_some, Option.some.injEq] at ha' hb'
            obtain ⟨rfl, rfl⟩ := ha'
            obtain ⟨rfl, rfl⟩ := hb'
            exact suffix_of_cons_suffix_cons hab

theorem exists_mem_advance_iff {left : List (List Char)} (h : left.Pairwise fun a b => b <:+ a) :
    (∃ a ∈ advance left (.ofChar c), Fits s a) ↔ ∃ a ∈ left, Fits (c :: s) a := by
  by_cases hc : c = '*'
  · subst hc
    rw [advance_star]
    cases left with
    | nil => simp
    | cons longest left =>
        simp only [List.head?_cons, Option.map_some, Option.getD_some, mem_suffixes_iff]
        constructor
        · rintro ⟨a, ⟨run, rfl⟩, hfits⟩
          exact ⟨_, .head _, .star run hfits⟩
        · rintro ⟨b, hb, hfits⟩
          -- Only the longest is gone on from, so what fits a shorter one has to fit there.
          have hlongest : b <:+ longest := by
            rcases List.mem_cons.mp hb with rfl | hb
            · exact List.suffix_refl _
            · exact List.rel_of_pairwise_cons h hb
          cases hfits with
          | char hc => exact absurd rfl hc
          | star run hfits => exact ⟨_, (List.suffix_append run _).trans hlongest, hfits⟩
  · simp only [mem_advance_char_iff hc]
    constructor
    · rintro ⟨a, ha, hfits⟩
      exact ⟨_, ha, .char hc hfits⟩
    · rintro ⟨b, hb, hfits⟩
      cases hfits with
      | char _ hfits => exact ⟨_, hb, hfits⟩
      | star => exact absurd rfl hc

theorem any_foldl_advance_iff {left : List (List Char)} (h : left.Pairwise fun a b => b <:+ a) :
    ((s.map Token.ofChar).foldl advance left).any (·.isEmpty) ↔ ∃ a ∈ left, Fits s a := by
  induction s generalizing left with
  | nil =>
      simp only [List.map_nil, List.foldl_nil, List.any_eq_true, List.isEmpty_iff]
      refine exists_congr fun a => and_congr_right fun _ => ⟨?_, ?_⟩
      · rintro rfl
        exact .nil
      · rintro ⟨⟩
        rfl
  | cons c s ih =>
      rw [List.map_cons, List.foldl_cons, ih (pairwise_advance h), exists_mem_advance_iff h]

theorem fits_iff {name : String} : fits (s.map Token.ofChar) name ↔ Fits s name.toList := by
  rw [fits, any_foldl_advance_iff (List.pairwise_singleton _ _)]
  simp

def Step.ofComponent (s : List Char) : Step := Step.ofTokens (s.map Token.ofChar)

theorem map_ofChar_ne_anyDepth : s.map Token.ofChar ≠ [.anyDepth] := by
  intro h
  have hmem : Token.anyDepth ∈ s.map Token.ofChar := by simp [h]
  obtain ⟨c, -, hc⟩ := List.mem_map.mp hmem
  unfold Token.ofChar at hc
  split at hc <;> contradiction

theorem Step.ofComponent_name (h : '*' ∉ s) : Step.ofComponent s = .name (String.ofList s) := by
  have hchars : (s.map Token.ofChar).mapM Token.char? = some s := by
    induction s with
    | nil => rfl
    | cons c s ih =>
        rw [List.mem_cons, not_or] at h
        simp [Token.ofChar, Ne.symm h.1, Token.char?, ih h.2]
  rw [Step.ofComponent, Step.ofTokens, if_neg map_ofChar_ne_anyDepth, hchars]

theorem Step.ofComponent_matching (h : '*' ∈ s) : Step.ofComponent s = .matching (s.map Token.ofChar) := by
  have hchars : (s.map Token.ofChar).mapM Token.char? = none := by
    induction s with
    | nil => contradiction
    | cons c s ih =>
        by_cases hc : c = '*'
        · subst hc
          simp [Token.ofChar, Token.char?]
        · have hmem : '*' ∈ s := by
            rcases List.mem_cons.mp h with h | h
            · exact absurd h.symm hc
            · exact h
          simp [Token.ofChar, hc, Token.char?, ih hmem]
  rw [Step.ofComponent, Step.ofTokens, if_neg map_ofChar_ne_anyDepth, hchars]

theorem fits_of_no_star (h : '*' ∉ s) : Fits s name ↔ name = s := by
  constructor
  · intro hfits
    induction hfits with
    | nil => rfl
    | char _ _ ih => rw [ih fun hmem => h (.tail _ hmem)]
    | star => exact absurd (.head _) h
  · rintro rfl
    induction name with
    | nil => exact .nil
    | cons c name ih => exact .char (fun hc => h (hc ▸ .head _)) (ih fun hmem => h (.tail _ hmem))

theorem takesDots_matching_iff : (Step.matching (s.map Token.ofChar)).takesDots ↔ s.head? = some '.' := by
  cases s with
  | nil => simp [Step.takesDots]
  | cons c s =>
      by_cases hc : c = '*'
      · subst hc
        simp [Step.takesDots, Token.ofChar]
      · by_cases hdot : c = '.'
        · subst hdot
          simp [Step.takesDots, Token.ofChar]
        · simp [Step.takesDots, Token.ofChar, hc, hdot]

end PushAudit.Glob
