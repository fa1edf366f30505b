import PushAudit.Proofs.Pattern.Search

namespace PushAudit.Pattern

open Text (endsInWord beginsWithWord)

abbrev PartRelation := List Char → List Char → List Char → List Char → List Char → List Char → Prop

/-- A relation that goes along with every cut of a part in two, and keeps the edges of words. -/
structure Divisible (R : PartRelation) : Prop where
  eq_nil {b a b' m' a'} (h : R b [] a b' m' a') : m' = []
  split {b m n a b' w a'} (h : R b (m ++ n) a b' w a') :
    ∃ m' n', w = m' ++ n' ∧ R b m (n ++ a) b' m' (n' ++ a') ∧ R (b ++ m) n a (b' ++ m') n' a'
  isEdge {b a b' a'} (h : R b [] a b' [] a') (he : IsEdge b a) : IsEdge b' a'

/-- What the pattern matches, it matches on the other side of the relation, too. -/
def Kept (R : PartRelation) (p : Pattern) : Prop :=
  ∀ ⦃b m a b' m' a'⦄, Matches p b m a → R b m a b' m' a' → Matches p b' m' a'

section

variable {R : PartRelation} (hR : Divisible R) {p q : Pattern}

include hR

theorem kept_empty : Kept R empty := by
  intro b m a b' m' a' hm h
  obtain rfl := matches_empty_iff.mp hm
  obtain rfl := hR.eq_nil h
  exact .empty b' a'

theorem kept_edge : Kept R edge := by
  intro b m a b' m' a' hm h
  obtain ⟨rfl, he⟩ := matches_edge_iff.mp hm
  obtain rfl := hR.eq_nil h
  exact .edge (hR.isEdge h he)

theorem Kept.seq (hp : Kept R p) (hq : Kept R q) : Kept R (seq p q) := by
  intro b m a b' m' a' hm h
  obtain ⟨m₁, m₂, rfl, h₁, h₂⟩ := matches_seq_iff.mp hm
  obtain ⟨n₁, n₂, rfl, hr₁, hr₂⟩ := hR.split h
  exact .seq (hp h₁ hr₁) (hq h₂ hr₂)

omit hR in
theorem Kept.alt (hp : Kept R p) (hq : Kept R q) : Kept R (alt p q) := by
  intro b m a b' m' a' hm h
  rcases matches_alt_iff.mp hm with hm | hm
  · exact .left q (hp hm h)
  · exact .right p (hq hm h)

theorem Kept.star (hp : Kept R p) : Kept R (star p) := by
  intro b m a b' m' a' hm h
  generalize hs : Pattern.star p = s at hm
  induction hm generalizing b' m' a' with
  | @more p' b m₁ m₂ a hm _ _ ih =>
      obtain rfl : p = p' := by simpa using hs
      obtain ⟨n₁, n₂, rfl, hr₁, hr₂⟩ := hR.split h
      exact .more (hp hm hr₁) (hs ▸ ih hr₂ hs)
  | stop p' b a =>
      obtain rfl := hR.eq_nil h
      exact .stop p' b' a'
  | _ => simp at hs

theorem Kept.plus (hp : Kept R p) : Kept R (plus p) := by
  intro b m a b' m' a' hm h
  obtain ⟨m₁, m₂, rfl, h₁, h₂⟩ := matches_plus_iff.mp hm
  obtain ⟨n₁, n₂, rfl, hr₁, hr₂⟩ := hR.split h
  exact .plus (hp h₁ hr₁) (hp.star hR h₂ hr₂)

theorem Kept.opt (hp : Kept R p) : Kept R (opt p) := by
  intro b m a b' m' a' hm h
  rcases matches_opt_iff.mp hm with rfl | hm
  · obtain rfl := hR.eq_nil h
    exact .skip p b' a'
  · exact .opt (hp hm h)

end

theorem Kept.occursIn {R : PartRelation} {p : Pattern} {x y : List Char} (hp : Kept R p)
    (hcut : ∀ b m a, x = b ++ (m ++ a) → ∃ b' m' a', y = b' ++ (m' ++ a') ∧ R b m a b' m' a')
    (h : p.occursIn x) : p.occursIn y := by
  obtain ⟨b, m, a, hx, hm⟩ := (occursIn_iff p x).mp h
  obtain ⟨b', m', a', hy, hr⟩ := hcut b m a hx
  exact (occursIn_iff p y).mpr ⟨b', m', a', hy, hp hm hr⟩

def charSets : Pattern → List CharSet
  | empty | edge => []
  | one k => [k]
  | seq p q | alt p q => p.charSets ++ q.charSets
  | star p | plus p | opt p => p.charSets

theorem kept_of_charSets {R : PartRelation} (hR : Divisible R) (p : Pattern)
    (h : ∀ k ∈ p.charSets, Kept R (one k)) : Kept R p := by
  induction p with
  | empty => exact kept_empty hR
  | edge => exact kept_edge hR
  | one k => exact h k List.mem_cons_self
  | seq p q ihp ihq =>
      obtain ⟨hp, hq⟩ := List.forall_mem_append.mp h
      exact (ihp hp).seq hR (ihq hq)
  | alt p q ihp ihq =>
      obtain ⟨hp, hq⟩ := List.forall_mem_append.mp h
      exact (ihp hp).alt (ihq hq)
  | star p ih => exact (ih h).star hR
  | plus p ih => exact (ih h).plus hR
  | opt p ih => exact (ih h).opt hR

/-- The second text is another spelling of the first one: every part of it has its own counterpart, and a
word ends or begins where it does in the other text. -/
structure Respelling (S : List Char → List Char → Prop) : Prop where
  eq_nil {x} (h : S [] x) : x = []
  split {x y w} (h : S (x ++ y) w) : ∃ x' y', w = x' ++ y' ∧ S x x' ∧ S y y'
  append {x x' y y'} (hx : S x x') (hy : S y y') : S (x ++ y) (x' ++ y')
  endsInWord_eq {x x'} (h : S x x') : endsInWord x' = endsInWord x
  beginsWithWord_eq {x x'} (h : S x x') : beginsWithWord x' = beginsWithWord x

structure Respelled (S : List Char → List Char → Prop) (b m a b' m' a' : List Char) : Prop where
  before : S b b'
  inside : S m m'
  after : S a a'

namespace Respelling

variable {S : List Char → List Char → Prop} (hS : Respelling S)

include hS

theorem divisible : Divisible (Respelled S) where
  eq_nil h := hS.eq_nil h.inside
  split h := by
    obtain ⟨m', n', rfl, hm, hn⟩ := hS.split h.inside
    exact ⟨m', n', rfl, ⟨h.before, hm, hS.append hn h.after⟩, ⟨hS.append h.before hm, hn, h.after⟩⟩
  isEdge h he := by
    rw [isEdge_iff] at he ⊢
    rwa [hS.endsInWord_eq h.before, hS.beginsWithWord_eq h.after]

theorem occursIn {p : Pattern} (hp : Kept (Respelled S) p) {x y : List Char} (hxy : S x y)
    (h : p.occursIn x) : p.occursIn y := by
  refine hp.occursIn (fun b m a hx => ?_) h
  obtain ⟨b', w, rfl, hb, hw⟩ := hS.split (hx ▸ hxy)
  obtain ⟨m', a', rfl, hm, ha⟩ := hS.split hw
  exact ⟨b', m', a', rfl, hb, hm, ha⟩

end Respelling

end PushAudit.Pattern
