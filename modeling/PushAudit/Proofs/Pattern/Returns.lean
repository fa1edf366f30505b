import PushAudit.Proofs.Pattern.Transfer
import PushAudit.Proofs.Text.Returns

namespace PushAudit.Pattern

open Text (endsInWord beginsWithWord DropsReturns)

/-- A part of a text and what stands around it, before and after carriage returns are dropped. -/
structure Loss (b m a b' m' a' : List Char) : Prop where
  before : DropsReturns (m ++ a) b b'
  inside : DropsReturns a m m'
  after : DropsReturns [] a a'

theorem Loss.split {b m n a b' w a' : List Char} (h : Loss b (m ++ n) a b' w a') :
    ∃ m' n', w = m' ++ n' ∧ Loss b m (n ++ a) b' m' (n' ++ a') ∧ Loss (b ++ m) n a (b' ++ m') n' a' := by
  obtain ⟨m', n', rfl, hm, hn⟩ := h.inside.of_append
  have hb : DropsReturns (m ++ (n ++ a)) b b' := List.append_assoc m n a ▸ h.before
  have hn' : DropsReturns (a ++ []) n n' := (List.append_nil a).symm ▸ hn
  exact ⟨m', n', rfl, ⟨hb, hm, hn'.append h.after⟩, ⟨hb.append hm, hn, h.after⟩⟩

theorem Loss.eq_nil {b a b' m' a' : List Char} (h : Loss b [] a b' m' a') : m' = [] := by
  cases h.inside
  rfl

theorem beginsWithWord_eq_of_dropsReturns {a a' : List Char} (h : DropsReturns [] a a') :
    beginsWithWord a' = beginsWithWord a := by
  induction h with
  | nil | keep => rfl
  | drop hn _ ih =>
      rw [List.append_nil] at hn
      rw [ih, beginsWithWord, hn]
      rfl

theorem IsEdge.of_loss {b a b' m' a' : List Char} (he : IsEdge b a) (h : Loss b [] a b' m' a') :
    IsEdge b' a' := by
  rw [isEdge_iff] at he ⊢
  -- Between a carriage return and a line feed there is no edge.
  have hlast : b'.getLast? = b.getLast? := by
    refine h.before.getLast?_eq fun hb ha => he ?_
    rw [endsInWord, beginsWithWord, hb, show a.head? = some '\n' from ha]
    rfl
  rw [endsInWord, hlast, beginsWithWord_eq_of_dropsReturns h.after]
  exact he

theorem loss_divisible : Divisible Loss where
  eq_nil := Loss.eq_nil
  split := Loss.split
  isEdge h he := he.of_loss h

def Lasting (p : Pattern) : Prop :=
  ∀ ⦃b m a b' m' a' : List Char⦄, Matches p b m a → Loss b m a b' m' a' → Matches p b' m' a'

variable {p q : Pattern} {k l : CharSet}

theorem ne_of_admits_eq_false {c d : Char} (hk : k.admits d = false) (hc : k.Admits c) : c ≠ d := by
  rintro rfl
  rw [← k.admits_iff, hk] at hc
  cases hc

theorem lasting_one (hk : k.admits '\r' = false) : Lasting (one k) := by
  intro b m a b' m' a' hm h
  obtain ⟨c, hc, rfl⟩ := matches_one_iff.mp hm
  obtain rfl := h.inside.eq_singleton (ne_of_admits_eq_false hk hc)
  exact .one b' a' hc

theorem lasting_star_one (k : CharSet) : Lasting (star (one k)) := by
  intro b m a b' m' a' hm h
  rw [matches_star_one_iff] at hm ⊢
  exact fun c hc => hm c (h.inside.mem hc)

/-- Of repeated characters the last is kept if what follows it is no line feed. -/
theorem lasting_plus_one_seq (hn : l.admits '\n' = false) (hr : l.admits '\r' = false) :
    Lasting (.seq (.plus (one k)) (one l)) := by
  intro b m a b' m' a' hm h
  obtain ⟨m₁, m₂, rfl, h₁, h₂⟩ := matches_seq_iff.mp hm
  obtain ⟨n₁, n₂, rfl, hl₁, hl₂⟩ := h.split
  obtain ⟨hne, hall⟩ := matches_plus_one_iff.mp h₁
  obtain ⟨c, hc, rfl⟩ := matches_one_iff.mp h₂
  have hlast : n₁.getLast? = m₁.getLast? :=
    hl₁.inside.getLast?_eq fun _ hhead => ne_of_admits_eq_false hn hc (Option.some.inj hhead)
  have hne' : n₁ ≠ [] := by
    rintro rfl
    exact hne (List.getLast?_eq_none_iff.mp hlast.symm)
  refine .seq (matches_plus_one_iff.mpr ⟨hne', fun d hd => hall d (hl₁.inside.mem hd)⟩) ?_
  exact lasting_one hr h₂ hl₂

def toleratesReturns : Pattern → Bool
  | .seq (.plus (one _)) (one l) => !l.admits '\n' && !l.admits '\r'
  | .star (one _) => true
  | empty | edge => true
  | one k => !k.admits '\r'
  | .seq p q | .alt p q => p.toleratesReturns && q.toleratesReturns
  | .star p | .plus p | .opt p => p.toleratesReturns

theorem lasting_of_toleratesReturns (p : Pattern) (h : p.toleratesReturns) : Lasting p := by
  fun_induction toleratesReturns p with
  | case1 k l =>
      obtain ⟨hn, hr⟩ := Bool.and_eq_true_iff.mp h
      exact lasting_plus_one_seq (Bool.not_eq_true' _ ▸ hn) (Bool.not_eq_true' _ ▸ hr)
  | case2 k => exact lasting_star_one k
  | case3 => exact kept_empty loss_divisible
  | case4 => exact kept_edge loss_divisible
  | case5 k => exact lasting_one (Bool.not_eq_true' _ ▸ h)
  | case6 p q _ ihp ihq =>
      obtain ⟨hp, hq⟩ := Bool.and_eq_true_iff.mp h
      exact Kept.seq loss_divisible (ihp hp) (ihq hq)
  | case7 p q ihp ihq =>
      obtain ⟨hp, hq⟩ := Bool.and_eq_true_iff.mp h
      exact Kept.alt (ihp hp) (ihq hq)
  | case8 p _ ih => exact Kept.star loss_divisible (ih h)
  | case9 p ih => exact Kept.plus loss_divisible (ih h)
  | case10 p ih => exact Kept.opt loss_divisible (ih h)

theorem Lasting.occursIn (hp : Lasting p) {x y : List Char} (hxy : DropsReturns [] x y)
    (h : p.occursIn x) : p.occursIn y := by
  refine Kept.occursIn hp (fun b m a hx => ?_) h
  obtain ⟨b', w, rfl, hb, hw⟩ := DropsReturns.of_append (hx ▸ hxy)
  obtain ⟨m', a', rfl, hm, ha⟩ := hw.of_append
  rw [List.append_nil] at hb hm
  exact ⟨b', m', a', rfl, hb, hm, ha⟩

def AddsReturns (x y : List Char) : Prop := DropsReturns [] y x

theorem addsReturns_respelling : Respelling AddsReturns where
  eq_nil h := DropsReturns.eq_nil h
  split h := DropsReturns.of_append_right h
  append hx hy := (DropsReturns.weaken hx _).append hy
  endsInWord_eq h := by
    have hlast := DropsReturns.getLast?_eq h (by simp)
    rw [endsInWord, endsInWord, hlast]
  beginsWithWord_eq h := (beginsWithWord_eq_of_dropsReturns h).symm

theorem kept_one_of_addsReturns (hn : k.admits '\n' = false) : Kept (Respelled AddsReturns) (one k) := by
  intro b m a b' m' a' hm h
  obtain ⟨c, hc, rfl⟩ := matches_one_iff.mp hm
  obtain rfl := DropsReturns.eq_singleton_of_ne (ne_of_admits_eq_false hn hc) h.inside
  exact .one b' a' hc

theorem admits_of_addsReturns {m m' : List Char} (hk : k.admits '\n' → k.admits '\r')
    (hm : ∀ c ∈ m, k.Admits c) (h : AddsReturns m m') : ∀ c ∈ m', k.Admits c := by
  intro c hc
  rcases DropsReturns.mem_or h hc with hc | ⟨rfl, hn⟩
  · exact hm c hc
  · exact (k.admits_iff '\r').mp (hk ((k.admits_iff '\n').mpr (hm '\n' hn)))

theorem kept_star_one_of_addsReturns (hk : k.admits '\n' → k.admits '\r') :
    Kept (Respelled AddsReturns) (star (one k)) := by
  intro b m a b' m' a' hm h
  rw [matches_star_one_iff] at hm ⊢
  exact admits_of_addsReturns hk hm h.inside

theorem kept_plus_one_of_addsReturns (hk : k.admits '\n' → k.admits '\r') :
    Kept (Respelled AddsReturns) (plus (one k)) := by
  intro b m a b' m' a' hm h
  rw [matches_plus_one_iff] at hm ⊢
  refine ⟨?_, admits_of_addsReturns hk hm.2 h.inside⟩
  rintro rfl
  cases h.inside
  exact hm.1 rfl

def takesReturns : Pattern → Bool
  | .star (one k) | .plus (one k) => !k.admits '\n' || k.admits '\r'
  | empty | edge => true
  | one k => !k.admits '\n'
  | .seq p q | .alt p q => p.takesReturns && q.takesReturns
  | .star p | .plus p | .opt p => p.takesReturns

theorem kept_of_takesReturns (p : Pattern) (h : p.takesReturns) : Kept (Respelled AddsReturns) p := by
  have hR := addsReturns_respelling.divisible
  fun_induction takesReturns p with
  | case1 k => exact kept_star_one_of_addsReturns (by simpa [imp_iff_not_or] using h)
  | case2 k => exact kept_plus_one_of_addsReturns (by simpa [imp_iff_not_or] using h)
  | case3 => exact kept_empty hR
  | case4 => exact kept_edge hR
  | case5 k => exact kept_one_of_addsReturns (Bool.not_eq_true' _ ▸ h)
  | case6 p q ihp ihq =>
      obtain ⟨hp, hq⟩ := Bool.and_eq_true_iff.mp h
      exact (ihp hp).seq hR (ihq hq)
  | case7 p q ihp ihq =>
      obtain ⟨hp, hq⟩ := Bool.and_eq_true_iff.mp h
      exact (ihp hp).alt (ihq hq)
  | case8 p _ ih => exact (ih h).star hR
  | case9 p _ ih => exact (ih h).plus hR
  | case10 p ih => exact (ih h).opt hR

/-- Dropping carriage returns makes no difference to a pattern that bears it both ways. -/
theorem occursIn_iff_of_dropsReturns (hdrop : p.toleratesReturns) (hadd : p.takesReturns) {x y : List Char}
    (h : DropsReturns [] x y) : p.occursIn x ↔ p.occursIn y :=
  ⟨(lasting_of_toleratesReturns p hdrop).occursIn h,
    addsReturns_respelling.occursIn (kept_of_takesReturns p hadd) h⟩

end PushAudit.Pattern
