import PushAudit.Json.Numeral

namespace PushAudit.Json

open Text (Taken le_cons le_self lt_cons)

inductive Frame
  | list
  | record
deriving DecidableEq, Repr

namespace Frame

def place : Frame → Place
  | list => .list
  | record => .record

def closing : Frame → Char
  | list => ']'
  | record => '\x7d'

def noComma : Frame → Error
  | list => .noListComma
  | record => .noRecordComma

end Frame

abbrev Rest (bound : Nat) := { t : List Char // t.length ≤ bound }

def skipKey (s : List Char) : Except Error (Rest s.length) :=
  match h : skipSpace s with
  | [] => .error (.cutOff .record)
  | '"' :: rest => do
    let key ← readQuoted .ignored rest
    match h' : skipSpace key.rest with
    | [] => .error (.cutOff .record)
    | ':' :: after => .ok ⟨after, by
        have := skipSpace_length_le s; have := skipSpace_length_le key.rest; have := key.shorter
        simp only [h, h', List.length_cons] at *; omega⟩
    | _ => .error .noColon
  | _ => .error .keyNotText

def skipToItem (f : Frame) (s : List Char) : Except Error (Rest s.length) :=
  match f with
  | .list => .ok ⟨s, le_self _⟩
  | .record => skipKey s

/-- Closes frames as far as they end here. Yields the frames that are still open, at their next
value, or nothing if all are closed; `first` says that the innermost frame has no value yet. -/
def settle : (frames : List Frame) → (first : Bool) → (s : List Char) →
    Except Error (List Frame × Rest s.length)
  | [], _, s => .ok ([], ⟨s, le_self _⟩)
  | f :: fs, first, s =>
    match h : skipSpace s with
    | [] => .error (.cutOff f.place)
    | c :: rest =>
      have hs : rest.length + 1 ≤ s.length := skipSpace_cons h
      if c = ',' ∧ !first then
        (skipToItem f rest).map fun t => (f :: fs, ⟨t.1, by have := t.2; omega⟩)
      else if c = f.closing then
        (settle fs false rest).map fun (gs, t) => (gs, ⟨t.1, by have := t.2; omega⟩)
      else if first then
        (skipToItem f (c :: rest)).map fun t =>
          (f :: fs, ⟨t.1, by have := t.2; simp only [List.length_cons] at this; omega⟩)
      else .error f.noComma

def skipHead (s : List Char) : Except Error (Option Frame × Taken Unit s.length) :=
  match s with
  | [] => .error (.cutOff .value)
  | '[' :: rest => .ok (some .list, ⟨(), rest, lt_cons _⟩)
  | '\x7b' :: rest => .ok (some .record, ⟨(), rest, lt_cons _⟩)
  | 'n' :: rest => (readWord "ull".toList rest).map fun t => (none, t)
  | 't' :: rest => (readWord "rue".toList rest).map fun t => (none, t)
  | 'f' :: rest => (readWord "alse".toList rest).map fun t => (none, t)
  | '"' :: rest => (readQuoted .ignored rest).map fun t => (none, (t.map fun _ => ()).mono (le_cons _))
  | c :: rest =>
    if c = '-' ∨ c.isDigit then
      match Numeral.scan (c :: rest) with
      | .ok (_, t) => .ok (none, ⟨(), t.1, t.2⟩)
      | .error _ => .error .badNumber
    else .error .noValue

def skipFrom {n : Nat} (frames : List Frame) (s : List Char) (h : s.length ≤ n) :
    Except Error (Taken Unit n) :=
  match skipHead (skipSpace s) with
  | .error e => .error e
  | .ok (opened, t) =>
    have ht : t.rest.length < s.length := Nat.lt_of_lt_of_le t.shorter (skipSpace_length_le s)
    match settle (opened.toList ++ frames) opened.isSome t.rest with
    | .error e => .error e
    | .ok ([], u) => .ok ⟨(), u.1, Nat.lt_of_lt_of_le (Nat.lt_of_le_of_lt u.2 ht) h⟩
    | .ok (f :: fs, u) => skipFrom (f :: fs) u.1 (Nat.le_trans u.2 (Nat.le_trans (Nat.le_of_lt ht) h))
termination_by s.length
decreasing_by exact Nat.lt_of_le_of_lt u.2 ht

/-- Skips one value of which only the form is checked: no pairing of surrogates, no range of
numbers, any depth. -/
def skipValue : Reader Unit := fun s => skipFrom [] s (le_self _)

end PushAudit.Json
