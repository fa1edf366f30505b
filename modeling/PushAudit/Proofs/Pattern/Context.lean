import PushAudit.Proofs.Pattern.Transfer

namespace PushAudit

namespace Text

theorem endsInWord_append_congr {b b' : List Char} (h : endsInWord b' = endsInWord b) (m : List Char) :
    endsInWord (b' ++ m) = endsInWord (b ++ m) := by
  cases m with
  | nil => rw [List.append_nil, List.append_nil, h]
  | cons c m => rw [endsInWord_append_cons, endsInWord_append_cons]

theorem beginsWithWord_append_congr {a a' : List Char} (h : beginsWithWord a' = beginsWithWord a)
    (m : List Char) : beginsWithWord (m ++ a') = beginsWithWord (m ++ a) := by
  cases m with
  | nil => exact h
  | cons c m => rfl

end Text

namespace Pattern

open Text (endsInWord beginsWithWord)

structure SameContext (b m a b' m' a' : List Char) : Prop where
  before : endsInWord b' = endsInWord b
  inside : m' = m
  after : beginsWithWord a' = beginsWithWord a

theorem sameContext_divisible : Divisible SameContext where
  eq_nil h := h.inside
  split h := ⟨_, _, h.inside, ⟨h.before, rfl, Text.beginsWithWord_append_congr h.after _⟩,
    ⟨Text.endsInWord_append_congr h.before _, rfl, h.after⟩⟩
  isEdge h he := by
    rw [isEdge_iff] at he ⊢
    rwa [h.before, h.after]

theorem kept_one_of_sameContext (k : CharSet) : Kept SameContext (one k) := by
  rintro b m a b' _ a' hm ⟨-, rfl, -⟩
  rw [matches_one_iff] at hm ⊢
  exact hm

/-- Of the text around a match only the nearest characters count, and only whether they belong to a
word. -/
theorem Matches.of_context {p : Pattern} {b m a : List Char} (h : Matches p b m a) {b' a' : List Char}
    (hb : endsInWord b' = endsInWord b) (ha : beginsWithWord a' = beginsWithWord a) :
    Matches p b' m a' :=
  kept_of_charSets sameContext_divisible p (fun k _ => kept_one_of_sameContext k) h ⟨hb, rfl, ha⟩

theorem occursIn_of_part {p : Pattern} {x text y : List Char} (hx : endsInWord x = false)
    (hy : beginsWithWord y = false) (h : p.occursIn text) : p.occursIn (x ++ (text ++ y)) := by
  obtain ⟨b, m, a, rfl, hm⟩ := (occursIn_iff p text).mp h
  have hb : endsInWord (x ++ b) = endsInWord b := Text.endsInWord_append_congr (b := []) hx b
  have ha : beginsWithWord (a ++ y) = beginsWithWord a := by
    simpa using Text.beginsWithWord_append_congr (a := []) hy a
  refine (occursIn_iff p _).mpr ⟨x ++ b, m, a ++ y, ?_, hm.of_context hb ha⟩
  simp only [List.append_assoc]

theorem matchesEmpty_true {p : Pattern} {atEdge : Bool} (h : p.matchesEmpty atEdge) : p.matchesEmpty true := by
  induction p with
  | empty | edge | star | opt => rfl
  | one k => exact h
  | seq p q ihp ihq =>
      obtain ⟨hp, hq⟩ := Bool.and_eq_true_iff.mp h
      exact Bool.and_eq_true_iff.mpr ⟨ihp hp, ihq hq⟩
  | alt p q ihp ihq => exact Bool.or_eq_true_iff.mpr ((Bool.or_eq_true_iff.mp h).imp ihp ihq)
  | plus p ih => exact ih h

theorem Matches.matchesEmpty_true {p : Pattern} {b a : List Char} (h : Matches p b [] a) : p.matchesEmpty true :=
  Pattern.matchesEmpty_true ((matchesEmpty_iff p b a).mpr h)

def endsIn (c : Char) : Pattern → Bool
  | empty | edge => false
  | one k => k.admits c
  | seq p q => q.endsIn c || (q.matchesEmpty true && p.endsIn c)
  | alt p q => p.endsIn c || q.endsIn c
  | star p | plus p | opt p => p.endsIn c

theorem Matches.endsIn {p : Pattern} {b m a : List Char} (h : Matches p b m a) {c : Char}
    (hc : m.getLast? = some c) : p.endsIn c := by
  induction h with
  | empty | edge | stop | skip => simp at hc
  | one b a h =>
      obtain rfl := Option.some.inj hc
      exact (CharSet.admits_iff _ _).mpr h
  | @seq p q b m n a hp hq ihp ihq =>
      rw [Pattern.endsIn, Bool.or_eq_true, Bool.and_eq_true]
      by_cases hn : n = []
      · subst hn
        exact .inr ⟨hq.matchesEmpty_true, ihp (by rwa [List.append_nil] at hc)⟩
      · exact .inl (ihq (by rwa [List.getLast?_append_of_ne_nil _ hn] at hc))
  | left q _ ih => exact Bool.or_eq_true_iff.mpr (.inl (ih hc))
  | right p _ ih => exact Bool.or_eq_true_iff.mpr (.inr (ih hc))
  | @more p b m n a _ _ ihp ihs | @plus p b m n a _ _ ihp ihs =>
      by_cases hn : n = []
      · subst hn
        exact ihp (by rwa [List.append_nil] at hc)
      · exact ihs (by rwa [List.getLast?_append_of_ne_nil _ hn] at hc)
  | opt _ ih => exact ih hc

/-- A character outside of words that no match ends in makes no difference at the end of a text. -/
theorem occursIn_concat_iff {p : Pattern} {c : Char} (hempty : p.matchesEmpty true = false)
    (hend : p.endsIn c = false) (hc : Text.isWord c = false) (text : List Char) :
    p.occursIn (text ++ [c]) ↔ p.occursIn text := by
  constructor
  · intro h
    obtain ⟨b, m, a, htext, hm⟩ := (occursIn_iff p _).mp h
    rcases List.eq_nil_or_concat a with rfl | ⟨a, d, rfl⟩
    · have hne : m ≠ [] := by
        rintro rfl
        rw [hm.matchesEmpty_true] at hempty
        cases hempty
      have hlast := congrArg List.getLast? htext
      rw [List.append_nil, List.getLast?_concat, List.getLast?_append_of_ne_nil b hne] at hlast
      rw [hm.endsIn hlast.symm] at hend
      cases hend
    · rw [List.concat_eq_append] at htext hm
      have hsplit : text ++ [c] = b ++ (m ++ a) ++ [d] := by
        rw [htext]
        simp only [List.append_assoc]
      obtain ⟨rfl, hcd⟩ := List.append_inj' hsplit rfl
      obtain rfl := List.singleton_inj.mp hcd
      have ha : beginsWithWord a = beginsWithWord (a ++ [c]) := by
        have hnil : beginsWithWord [] = beginsWithWord [c] := hc.symm
        simpa using Text.beginsWithWord_append_congr hnil a
      exact (occursIn_iff p _).mpr ⟨b, m, a, rfl, hm.of_context rfl ha⟩
  · intro h
    exact occursIn_of_part (x := []) rfl hc h

end Pattern

end PushAudit
