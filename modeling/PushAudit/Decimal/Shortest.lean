namespace PushAudit.Decimal

/-- The positive number `significand · 2 ^ exponent`. Where `narrowBelow` holds, its lower
neighbour is half as far as its upper one. -/
structure Binary where
  significand : Nat
  exponent : Int
  narrowBelow : Bool
deriving DecidableEq, Repr

def Binary.ofBits (bits : Nat) : Binary :=
  let fraction : Nat := bits % Nat.pow 2 52
  let biased : Nat := bits / Nat.pow 2 52 % Nat.pow 2 11
  if biased = 0 then ⟨fraction, -1074, false⟩
  else ⟨Nat.pow 2 52 + fraction, (biased : Int) - 1075, fraction = 0 ∧ 1 < biased⟩

structure Scaled where
  digits : Nat
  exponent : Int
deriving DecidableEq, Repr

namespace Binary

structure Interval where
  low : Nat
  mid : Nat
  high : Nat
  unit : Nat
  closed : Bool
deriving DecidableEq, Repr

def interval (b : Binary) : Interval where
  low := (4 * b.significand - if b.narrowBelow then 1 else 2) * Nat.pow 2 (b.exponent - 2).toNat
  mid := 4 * b.significand * Nat.pow 2 (b.exponent - 2).toNat
  high := (4 * b.significand + 2) * Nat.pow 2 (b.exponent - 2).toNat
  unit := Nat.pow 2 (2 - b.exponent).toNat
  closed := b.significand % 2 = 0

namespace Interval

def scale (i : Interval) (k : Int) : Interval :=
  { i with
    low := i.low * Nat.pow 10 (-k).toNat
    mid := i.mid * Nat.pow 10 (-k).toNat
    high := i.high * Nat.pow 10 (-k).toNat
    unit := i.unit * Nat.pow 10 k.toNat }

def contains (i : Interval) (n : Nat) : Bool :=
  if i.closed then i.low ≤ n * i.unit ∧ n * i.unit ≤ i.high
  else i.low < n * i.unit ∧ n * i.unit < i.high

/-- The whole number next to the middle that lies in the interval, the nearer one of two and the
even one of two equally near. -/
def nearest? (i : Interval) : Option Nat :=
  let n := i.mid / i.unit
  match i.contains n, i.contains (n + 1) with
  | false, false => none
  | true, false => some n
  | false, true => some (n + 1)
  | true, true =>
    let below := i.mid - n * i.unit
    let above := (n + 1) * i.unit - i.mid
    some (if below < above ∨ below = above ∧ n % 2 = 0 then n else n + 1)

def leading (i : Interval) : Int :=
  if i.unit ≤ i.mid then ((Nat.toDigits 10 (i.mid / i.unit)).length : Int) - 1
  else -(((List.range 400).find? fun j => i.unit ≤ i.mid * Nat.pow 10 j).getD 400 : Nat)

end Interval

/-- The fewest digits that read back as the number, 17 at most; of those the nearest. -/
def shortest (b : Binary) : Scaled :=
  let i := b.interval
  let e := i.leading
  let found := (List.range 17).findSome? fun (n : Nat) =>
    (i.scale (e - n)).nearest?.map fun d => (⟨d, e - n⟩ : Scaled)
  found.getD ⟨(i.scale (e - 16)).mid / (i.scale (e - 16)).unit, e - 16⟩

end Binary

def trimZeros (ds : List Char) : List Char := (ds.reverse.dropWhile (· = '0')).reverse

/-- Written out in full from 0.00001 up to 16 whole digits and with at least one decimal; beyond
that as one digit, decimals if there are more, and a signed power of ten. -/
def Scaled.write (s : Scaled) : String :=
  let ds := Nat.toDigits 10 s.digits
  let shown := trimZeros ds
  let e : Int := s.exponent + ds.length - 1
  if shown.isEmpty then "0.0"
  else if e < -5 ∨ 16 ≤ e then
    let decimals := shown.drop 1
    String.ofList (shown.take 1 ++ if decimals.isEmpty then [] else '.' :: decimals) ++
      (if e < 0 then "e-" else "e+") ++ toString e.natAbs
  else if e < 0 then
    "0." ++ String.ofList (List.replicate (-e - 1).toNat '0' ++ shown)
  else
    let whole := e.toNat + 1
    let decimals := shown.drop whole
    String.ofList (shown.take whole ++ List.replicate (whole - shown.length) '0' ++
      '.' :: if decimals.isEmpty then ['0'] else decimals)

def writeBits (bits : Nat) : String :=
  (if Nat.pow 2 63 ≤ bits then "-" else "") ++
    if bits % Nat.pow 2 63 = 0 then "0.0" else (Binary.ofBits (bits % Nat.pow 2 63)).shortest.write

end PushAudit.Decimal
