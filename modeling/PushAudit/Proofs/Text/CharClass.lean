import Mathlib.Data.List.Chain
import PushAudit.Text.CharClass

namespace PushAudit.Text

def Ascend (r s : Nat × Nat) : Prop := r.1 ≤ s.1

instance : DecidableRel Ascend := fun r s => inferInstanceAs (Decidable (r.1 ≤ s.1))

instance : Trans Ascend Ascend Ascend := ⟨Nat.le_trans⟩

/-- On ranges that ascend nothing is lost by stopping early. -/
theorem inRanges_iff {rs : List (Nat × Nat)} (h : rs.IsChain Ascend) (n : Nat) :
    inRanges rs n ↔ ∃ r ∈ rs, r.1 ≤ n ∧ n ≤ r.2 := by
  have hp := List.isChain_iff_pairwise.mp h
  clear h
  induction rs with
  | nil => simp [inRanges]
  | cons r rs ih =>
      obtain ⟨hr, hrs⟩ := List.pairwise_cons.mp hp
      simp only [inRanges, List.mem_cons, exists_eq_or_imp]
      by_cases hn : n < r.1
      · simp only [hn, if_true, Bool.false_eq_true, false_iff, not_or, not_exists, not_and]
        refine ⟨fun hlo => by omega, fun s hs hlo => ?_⟩
        have hrs : r.1 ≤ s.1 := hr s hs
        omega
      · simp only [hn, if_false, Bool.or_eq_true, decide_eq_true_eq, ih hrs]
        exact or_congr_left ⟨fun hhi => ⟨by omega, hhi⟩, fun hhi => hhi.2⟩

theorem blankTable_ascends : blankTable.IsChain Ascend := by decide

theorem wordTable_ascends : wordTable.IsChain Ascend := by decide +kernel

def IsBlank (c : Char) : Prop := ∃ r ∈ blankTable, r.1 ≤ c.toNat ∧ c.toNat ≤ r.2

theorem isBlank_iff (c : Char) : isBlank c ↔ IsBlank c := inRanges_iff blankTable_ascends _

instance : DecidablePred IsBlank := fun c => decidable_of_iff _ (isBlank_iff c)

theorem isUpper_iff (c : Char) : c.isUpper ↔ 'A'.toNat ≤ c.toNat ∧ c.toNat ≤ 'Z'.toNat :=
  decide_eq_true_iff

theorem isLower_iff (c : Char) : c.isLower ↔ 'a'.toNat ≤ c.toNat ∧ c.toNat ≤ 'z'.toNat :=
  Bool.and_eq_true_iff.trans (and_congr decide_eq_true_iff decide_eq_true_iff)

theorem of_toNat_lt {n : Nat} {P : Char → Prop} (h : ∀ k < n, P (Char.ofNat k)) {c : Char} (hc : c.toNat < n) :
    P c := by
  have hcode := h c.toNat hc
  rwa [Char.ofNat_toNat] at hcode

theorem toNat_lt_of_isUpper {c : Char} (h : c.isUpper) : c.toNat < 0x80 :=
  Nat.lt_of_le_of_lt ((isUpper_iff c).mp h).2 (by decide)

theorem toNat_lt_of_isAsciiWord {c : Char} (h : isAsciiWord c) : c.toNat < 0x80 := by
  have hclass : (c.isUpper || c.isLower || c.isDigit || c == '_') = true := h
  simp only [Bool.or_eq_true, isUpper_iff, isLower_iff, Char.isDigit_iff_toNat, beq_iff_eq] at hclass
  rcases hclass with ((h | h) | h) | rfl
  · exact Nat.lt_of_le_of_lt h.2 (by decide)
  · exact Nat.lt_of_le_of_lt h.2 (by decide)
  · exact Nat.lt_of_le_of_lt h.2 (by decide)
  · decide

theorem wordTable_start : ∀ r ∈ wordTable, 0x80 ≤ r.1 := by decide +kernel

def IsWord (c : Char) : Prop := isAsciiWord c ∨ ∃ r ∈ wordTable, r.1 ≤ c.toNat ∧ c.toNat ≤ r.2

theorem isWord_iff (c : Char) : isWord c ↔ IsWord c := by
  rw [isWord, IsWord]
  split
  case isTrue h =>
    refine ⟨Or.inl, fun hw => hw.resolve_right ?_⟩
    rintro ⟨r, hr, hlo, -⟩
    have := wordTable_start r hr
    omega
  case isFalse h =>
    rw [inRanges_iff wordTable_ascends]
    exact ⟨Or.inr, fun hw => hw.resolve_left fun ha => h (toNat_lt_of_isAsciiWord ha)⟩

theorem blankTable_apart : ∀ r ∈ blankTable, ∀ s ∈ wordTable, r.2 < s.1 ∨ s.2 < r.1 := by decide +kernel

theorem isWord_of_isBlank {c : Char} (h : IsBlank c) : isWord c = false := by
  obtain ⟨r, hr, hr₁, hr₂⟩ := h
  rw [← Bool.not_eq_true, isWord_iff]
  rintro (hascii | ⟨s, hs, hs₁, hs₂⟩)
  · have hapart := of_toNat_lt (P := fun c => isAsciiWord c → ∀ r ∈ blankTable, c.toNat < r.1 ∨ r.2 < c.toNat)
      (by decide) (toNat_lt_of_isAsciiWord hascii)
    have := hapart hascii r hr
    omega
  · have := blankTable_apart r hr s hs
    omega

/-- The least equivalence that joins ASCII capitals with their small letters, the long s with s, and
the Kelvin sign with k. -/
inductive SameLetter : Char → Char → Prop
  | refl (c : Char) : SameLetter c c
  | symm {c d : Char} (h : SameLetter c d) : SameLetter d c
  | trans {c d e : Char} (h : SameLetter c d) (h' : SameLetter d e) : SameLetter c e
  | ascii (c : Char) : SameLetter c c.toLower
  | longS : SameLetter '\u017f' 's'
  | kelvin : SameLetter '\u212a' 'k'

theorem toLower_of_not_isUpper {c : Char} (h : c.isUpper = false) : c.toLower = c :=
  dif_neg (of_decide_eq_false h)

theorem fold_toLower (c : Char) : fold c.toLower = fold c := by
  cases h : c.isUpper with
  | false => rw [toLower_of_not_isUpper h]
  | true =>
      exact of_toNat_lt (P := fun c => fold c.toLower = fold c) (by decide) (toNat_lt_of_isUpper h)

theorem fold_of_isBlank {c : Char} (h : isBlank c) : fold c = c := by
  have hblank : IsBlank c := (isBlank_iff c).mp h
  rw [fold]
  split
  case isTrue hupper =>
    obtain ⟨hlo, hhi⟩ := (isUpper_iff c).mp hupper
    obtain ⟨r, hr, hr₁, hr₂⟩ := hblank
    have hapart : ∀ r ∈ blankTable, r.2 < 'A'.toNat ∨ 'Z'.toNat < r.1 := by decide
    have := hapart r hr
    omega
  case isFalse =>
    split
    case isTrue hs => exact absurd (hs ▸ h) (by decide)
    case isFalse =>
      split
      case isTrue hk => exact absurd (hk ▸ h) (by decide)
      case isFalse => rfl

theorem isWord_fold (c : Char) : isWord (fold c) = isWord c := by
  rw [fold]
  split
  case isTrue h =>
    exact of_toNat_lt (P := fun c => isWord c.toLower = isWord c) (by decide) (toNat_lt_of_isUpper h)
  case isFalse =>
    split
    case isTrue hs => rw [hs]; decide +kernel
    case isFalse =>
      split
      case isTrue hk => rw [hk]; decide +kernel
      case isFalse => rfl

theorem fold_eq_self_or_isLower (c : Char) : fold c = c ∨ (fold c).isLower := by
  rw [fold]
  split
  case isTrue h =>
    have hlower := of_toNat_lt (P := fun c => c.isUpper → c.toLower.isLower) (by decide) (toNat_lt_of_isUpper h)
    exact .inr (hlower h)
  case isFalse =>
    split
    · exact .inr (by decide)
    · split
      · exact .inr (by decide)
      · exact .inl rfl

theorem sameLetter_fold (c : Char) : SameLetter c (fold c) := by
  rw [fold]
  split
  · exact .ascii c
  · split
    case isTrue h => exact h ▸ .longS
    case isFalse =>
      split
      case isTrue h => exact h ▸ .kelvin
      case isFalse => exact .refl c

theorem sameLetter_iff (c d : Char) : SameLetter c d ↔ fold c = fold d := by
  constructor
  · intro h
    induction h with
    | refl => rfl
    | symm _ ih => exact ih.symm
    | trans _ _ ih ih' => exact ih.trans ih'
    | ascii c => exact (fold_toLower c).symm
    | longS | kelvin => decide
  · intro h
    exact (sameLetter_fold c).trans (h ▸ (sameLetter_fold d).symm)

theorem fold_fold (c : Char) : fold (fold c) = fold c := ((sameLetter_iff c (fold c)).mp (sameLetter_fold c)).symm

theorem isBlank_of_isLower {c : Char} (h : c.isLower) : isBlank c = false := by
  obtain ⟨hlo, hhi⟩ := (isLower_iff c).mp h
  rw [← Bool.not_eq_true, isBlank_iff]
  rintro ⟨r, hr, hr₁, hr₂⟩
  have hapart : ∀ r ∈ blankTable, r.2 < 'a'.toNat ∨ 'z'.toNat < r.1 := by decide
  have := hapart r hr
  omega

theorem isBlank_fold (c : Char) : isBlank (fold c) = isBlank c := by
  cases hc : isBlank c with
  | true => rw [fold_of_isBlank hc, hc]
  | false =>
      rcases fold_eq_self_or_isLower c with h | h
      · rw [h, hc]
      · exact isBlank_of_isLower h

theorem sameLetter_iff_eq {c d : Char} (hfold : fold c = c) (hlower : c.isLower = false) :
    SameLetter c d ↔ d = c := by
  rw [sameLetter_iff, hfold]
  constructor
  · intro h
    rcases fold_eq_self_or_isLower d with hd | hd
    · rw [← hd, h]
    · rw [← h, hlower] at hd
      contradiction
  · rintro rfl
    exact hfold.symm

/-- A text is cut in one way only into a run of characters of a kind and a rest that does not begin with one. -/
theorem run_unique {P : Char → Prop} {xs ys s t : List Char} (hxs : ∀ c ∈ xs, P c) (hys : ∀ c ∈ ys, P c)
    (hs : ∀ c ∈ s.head?, ¬ P c) (ht : ∀ c ∈ t.head?, ¬ P c) (h : xs ++ s = ys ++ t) : xs = ys ∧ s = t := by
  rcases List.append_eq_append_iff.mp h with ⟨u, rfl, rfl⟩ | ⟨u, rfl, rfl⟩
  · cases u with
    | nil => exact ⟨(List.append_nil xs).symm, rfl⟩
    | cons c u => exact absurd (hys c (List.mem_append_right _ List.mem_cons_self)) (hs c rfl)
  · cases u with
    | nil => exact ⟨List.append_nil ys, rfl⟩
    | cons c u => exact absurd (hxs c (List.mem_append_right _ List.mem_cons_self)) (ht c rfl)

theorem trimEnd_concat (text : List Char) (c : Char) :
    trimEnd (text ++ [c]) = if isBlank c then trimEnd text else text ++ [c] := by
  rw [trimEnd, List.reverse_concat, List.dropWhile_cons]
  split
  · rfl
  · rw [List.reverse_cons, List.reverse_reverse]

end PushAudit.Text
