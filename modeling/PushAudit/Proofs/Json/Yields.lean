import PushAudit.Text.Taken
import PushAudit.Json.Error

namespace PushAudit.Json

open Text (Taken)

variable {α β : Type} {m n : Nat} {a : α} {b : β} {r : List Char}

/-- What a reading step comes to, without the bound on its rest. -/
def Yields (x : Except Error (Taken α n)) (a : α) (r : List Char) : Prop :=
  x.map (fun t => (t.value, t.rest)) = .ok (a, r)

@[simp] theorem not_yields_error {e : Error} : ¬ Yields (.error e : Except Error (Taken α n)) a r := nofun

@[simp] theorem yields_ok_iff {t : Taken α n} : Yields (.ok t) a r ↔ t.value = a ∧ t.rest = r := by
  simp [Yields, Except.map]

@[simp] theorem yields_map_iff {f : α → β} {x : Except Error (Taken α n)} :
    Yields (x.map (·.map f)) b r ↔ ∃ a, Yields x a r ∧ f a = b := by
  cases x with
  | error e => simp [Except.map]
  | ok t =>
      simp only [Except.map, yields_ok_iff, Text.TakenFrom.map]
      constructor
      · rintro ⟨hb, hr⟩
        exact ⟨_, ⟨rfl, hr⟩, hb⟩
      · rintro ⟨_, ⟨rfl, hr⟩, hb⟩
        exact ⟨hb, hr⟩

@[simp] theorem yields_mono_iff {h : m ≤ n} {x : Except Error (Taken α m)} :
    Yields (x.map (·.mono h)) a r ↔ Yields x a r := by
  cases x with
  | error e => simp [Except.map]
  | ok t => simp [Except.map, Text.TakenFrom.mono]

@[simp] theorem yields_map_mono_iff {f : α → β} {h : m ≤ n} {x : Except Error (Taken α m)} :
    Yields (x.map fun t => (t.map f).mono h) b r ↔ ∃ a, Yields x a r ∧ f a = b := by
  rw [← yields_map_iff]
  cases x with
  | error e => rfl
  | ok t => exact yields_mono_iff (x := .ok (t.map f))

@[simp] theorem yields_bind_mono_iff {h : m ≤ n} {x : Except Error (Taken α m)} :
    Yields (x >>= fun t => .ok (t.mono h)) a r ↔ Yields x a r := by
  cases x with
  | error e => exact ⟨fun h => absurd h not_yields_error, fun h => absurd h not_yields_error⟩
  | ok t => exact yields_mono_iff (x := .ok t)

theorem yields_bind_iff {x : Except Error (Taken α m)} {f : Taken α m → Except Error (Taken β n)}
    {P : α → List Char → Prop} (hf : ∀ t, Yields (f t) b r ↔ P t.value t.rest) :
    Yields (x >>= f) b r ↔ ∃ a t, Yields x a t ∧ P a t := by
  cases x with
  | error e => exact ⟨fun h => absurd h not_yields_error, fun ⟨_, _, h, _⟩ => absurd h not_yields_error⟩
  | ok t =>
      refine (hf t).trans ⟨fun h => ⟨_, _, yields_ok_iff.mpr ⟨rfl, rfl⟩, h⟩, ?_⟩
      rintro ⟨_, _, ht, h⟩
      obtain ⟨rfl, rfl⟩ := yields_ok_iff.mp ht
      exact h

section Scans

variable {ε : Type} {p q : List Char → Prop}

def Scans (x : Except ε (α × { t : List Char // p t })) (a : α) (r : List Char) : Prop :=
  x.map (fun t => (t.1, t.2.1)) = .ok (a, r)

@[simp] theorem not_scans_error {e : ε} : ¬ Scans (.error e : Except ε (α × { t : List Char // p t })) a r := nofun

@[simp] theorem scans_ok_iff {t : { t : List Char // p t }} {a b : α} :
    Scans (.ok (a, t) : Except ε (α × { t : List Char // p t })) b r ↔ a = b ∧ t.1 = r := by
  simp [Scans, Except.map]

theorem exists_scans_ok_iff {t : { t : List Char // p t }} {P : α → List Char → Prop} :
    (∃ b r, Scans (.ok (a, t) : Except ε (α × { t : List Char // p t })) b r ∧ P b r) ↔ P a t.1 := by
  constructor
  · rintro ⟨b, r, ht, h⟩
    obtain ⟨rfl, rfl⟩ := scans_ok_iff.mp ht
    exact h
  · intro h
    exact ⟨a, t.1, scans_ok_iff.mpr ⟨rfl, rfl⟩, h⟩

theorem scans_bind_iff {x : Except ε (α × { t : List Char // p t })}
    {f : α × { t : List Char // p t } → Except ε (β × { t : List Char // q t })}
    {P : α → List Char → Prop} (hf : ∀ a t h, Scans (f (a, ⟨t, h⟩)) b r ↔ P a t) :
    Scans (x >>= f) b r ↔ ∃ a t, Scans x a t ∧ P a t := by
  cases x with
  | error e => exact ⟨fun h => absurd h not_scans_error, fun ⟨_, _, h, _⟩ => absurd h not_scans_error⟩
  | ok x =>
      obtain ⟨a, t, ht⟩ := x
      refine (hf a t ht).trans ⟨fun h => ⟨a, t, scans_ok_iff.mpr ⟨rfl, rfl⟩, h⟩, ?_⟩
      rintro ⟨a', t', hx, h⟩
      obtain ⟨rfl, rfl⟩ := scans_ok_iff.mp hx
      exact h

def Leaves (x : Except ε { t : List Char // p t }) (r : List Char) : Prop := x.map (·.1) = .ok r

@[simp] theorem not_leaves_error {e : ε} : ¬ Leaves (.error e : Except ε { t : List Char // p t }) r := nofun

@[simp] theorem leaves_ok_iff {t : { t : List Char // p t }} :
    Leaves (.ok t : Except ε { t : List Char // p t }) r ↔ t.1 = r := by
  simp [Leaves, Except.map]

theorem leaves_bind_iff {x : Except Error (Taken α m)} {f : Taken α m → Except Error { t : List Char // p t }}
    {P : List Char → Prop} (hf : ∀ t, Leaves (f t) r ↔ P t.rest) :
    Leaves (x >>= f) r ↔ ∃ t, (∃ a, Yields x a t) ∧ P t := by
  cases x with
  | error e => exact ⟨fun h => absurd h not_leaves_error, fun ⟨_, ⟨_, h⟩, _⟩ => absurd h not_yields_error⟩
  | ok x =>
      refine (hf x).trans ⟨fun h => ⟨_, ⟨_, yields_ok_iff.mpr ⟨rfl, rfl⟩⟩, h⟩, ?_⟩
      rintro ⟨_, ⟨_, hx⟩, h⟩
      exact (yields_ok_iff.mp hx).2 ▸ h

end Scans

end PushAudit.Json
