namespace PushAudit.Text

section Length

variable {τ : Type}

theorem le_self (s : List τ) : s.length ≤ s.length := Nat.le_refl _

theorem lt_cons (s : List τ) : s.length < s.length + 1 := Nat.lt_succ_self _

theorem le_cons (s : List τ) : s.length ≤ s.length + 1 := Nat.le_succ _

end Length

/-- What a reading step yields: a value, and a rest of its input below a bound on its length. -/
structure TakenFrom (τ α : Type) (bound : Nat) where
  value : α
  rest : List τ
  shorter : rest.length < bound

abbrev Taken (α : Type) (bound : Nat) := TakenFrom Char α bound

namespace TakenFrom

variable {τ α β : Type} {m n : Nat}

def map (f : α → β) (t : TakenFrom τ α n) : TakenFrom τ β n := ⟨f t.value, t.rest, t.shorter⟩

def mono (h : m ≤ n) (t : TakenFrom τ α m) : TakenFrom τ α n :=
  ⟨t.value, t.rest, Nat.lt_of_lt_of_le t.shorter h⟩

end TakenFrom

end PushAudit.Text
