import PushAudit.Json.Reader
import PushAudit.Decimal.Shortest

namespace PushAudit.Json

open Text (le_cons le_self lt_cons)

structure Numeral where
  negative : Bool
  whole : List Char
  decimals : List Char
  power : Option (Bool × List Char)
deriving DecidableEq, Repr

namespace Numeral

inductive Fault
  | ended
  | malformed
deriving DecidableEq, Repr

def Fault.at (s : List Char) : Fault := if s.isEmpty then .ended else .malformed

def digits (s : List Char) : List Char := s.takeWhile Char.isDigit

def afterDigits (s : List Char) : List Char := s.dropWhile Char.isDigit

theorem afterDigits_length_le (s : List Char) : (afterDigits s).length ≤ s.length :=
  (List.dropWhile_suffix _).length_le

abbrev Scan (α : Type) (s : List Char) := Except Fault (α × { rest : List Char // rest.length ≤ s.length })

def scanPower (s : List Char) : Scan (Option (Bool × List Char)) s :=
  match s with
  | c :: rest =>
    if c = 'e' ∨ c = 'E' then
      let signed : Bool × { t : List Char // t.length ≤ rest.length } :=
        match rest with
        | '-' :: t => (true, ⟨t, le_cons _⟩)
        | '+' :: t => (false, ⟨t, le_cons _⟩)
        | t => (false, ⟨t, le_self _⟩)
      if (digits signed.2.1).isEmpty then .error (.at signed.2.1)
      else
        .ok (some (signed.1, digits signed.2.1), ⟨afterDigits signed.2.1, by
          have := afterDigits_length_le signed.2.1; have := signed.2.2
          simp only [List.length_cons]; omega⟩)
    else .ok (none, ⟨c :: rest, le_self _⟩)
  | [] => .ok (none, ⟨[], le_self _⟩)

def scanDecimals (s : List Char) : Scan (List Char) s :=
  match s with
  | '.' :: rest =>
    if (digits rest).isEmpty then .error (.at rest)
    else .ok (digits rest, ⟨afterDigits rest, Nat.le_trans (afterDigits_length_le rest) (le_cons _)⟩)
  | s => .ok ([], ⟨s, le_self _⟩)

abbrev StrictScan (α : Type) (s : List Char) :=
  Except Fault (α × { rest : List Char // rest.length < s.length })

/-- Whole digits, of which a zero is the first only if it is the only one. -/
def scanWhole (s : List Char) : StrictScan (List Char) s :=
  match s with
  | [] => .error .ended
  | '0' :: rest =>
    if (digits rest).isEmpty then .ok (['0'], ⟨rest, lt_cons _⟩) else .error .malformed
  | c :: rest =>
    if c.isDigit then
      .ok (c :: digits rest, ⟨afterDigits rest, Nat.lt_succ_of_le (afterDigits_length_le rest)⟩)
    else .error .malformed

def scanFrom (negative : Bool) (s : List Char) : StrictScan Numeral s := do
  let (whole, ⟨s₁, h₁⟩) ← scanWhole s
  let (decimals, ⟨s₂, h₂⟩) ← scanDecimals s₁
  let (power, ⟨s₃, h₃⟩) ← scanPower s₂
  return (⟨negative, whole, decimals, power⟩, ⟨s₃, by omega⟩)

def scan : (s : List Char) → StrictScan Numeral s
  | '-' :: rest => do
    let (n, ⟨t, h⟩) ← scanFrom true rest
    return (n, ⟨t, Nat.lt_trans h (lt_cons _)⟩)
  | s => scanFrom false s

def digitValue (c : Char) : Nat := c.toNat - '0'.toNat

def appendWithin (bound : Nat) : Nat → List Char → Nat × Nat
  | n, [] => (n, 0)
  | n, c :: cs =>
    if n * 10 + digitValue c ≤ bound then
      let (m, k) := appendWithin bound (n * 10 + digitValue c) cs
      (m, k + 1)
    else (n, 0)

def tenTo (k : Nat) : Float := Float.ofScientific 1 false k

/-- A power of ten below the least double is divided by in several steps. -/
def divideDown (x : Float) (power : Nat) : Float :=
  if power ≤ 308 then x / tenTo power
  else if x == 0 then x
  else divideDown (x / tenTo 308) (power - 308)
termination_by power

def real? (n : Nat) (power : Int) : Option Float :=
  let x := Float.ofNat n
  if power < 0 then some (divideDown x power.natAbs)
  else if 308 < power.toNat then if n = 0 then some x else none
  else
    let y := x * tenTo power.toNat
    if y.isInf then none else some y

/-- Digits that no longer fit 64 bits count by their place only, decimals among them not at all. -/
def significand (n : Numeral) : Nat × Int :=
  let (w, kept) := appendWithin (Nat.pow 2 64 - 1) 0 n.whole
  let (d, keptDecimals) := appendWithin (Nat.pow 2 64 - 1) w n.decimals
  (d, (n.whole.length - kept : Nat) - (keptDecimals : Int))

/-- The written power of ten, unless it needs more than 31 bits. -/
def power? (n : Numeral) : Option Int :=
  match n.power with
  | none => some 0
  | some (negative, ds) =>
    let (e, kept) := appendWithin (Nat.pow 2 31 - 1) 0 ds
    if kept < ds.length then none else some (if negative then -e else e)

def isWhole (n : Numeral) : Bool := n.decimals.isEmpty && n.power.isNone

def realText (negative : Bool) (x : Float) : String :=
  Decimal.writeBits (if negative then -x else x).toBits.toNat

/-- Whole numbers of 64 bits with or without sign stay exact, all others become doubles. -/
def found (n : Numeral) : Except Error Found :=
  let (d, power) := n.significand
  if n.isWhole ∧ power = 0 ∧ (!n.negative ∨ 1 ≤ d ∧ d ≤ Nat.pow 2 63) then
    .ok (.integer (if n.negative then -d else d))
  else
    match n.power? with
    | some e =>
      match real? d (power + e) with
      | some x => .ok (.real (realText n.negative x))
      | none => .error .numberTooLarge
    | none =>
      if d ≠ 0 ∧ n.power.any (!·.1) then .error .numberTooLarge
      else .ok (.real (realText n.negative 0))

end Numeral

end PushAudit.Json
