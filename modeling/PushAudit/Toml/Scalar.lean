namespace PushAudit.Toml

def isHex (c : Char) : Bool := c.isDigit || ('a' ≤ c && c ≤ 'f') || ('A' ≤ c && c ≤ 'F')

def digitValue (c : Char) : Nat :=
  if c.isDigit then c.toNat - '0'.toNat
  else if 'a' ≤ c then c.toNat - 'a'.toNat + 10
  else c.toNat - 'A'.toNat + 10

def valueOf (base : Nat) (ds : List Char) : Nat := ds.foldl (fun n d => n * base + digitValue d) 0

def isDigits (isDigit : Char → Bool) (s : List Char) : Bool :=
  (s.splitOn '_').all fun group => !group.isEmpty && group.all isDigit

def withoutMarks (s : List Char) : List Char := s.filter (· ≠ '_')

def isWhole (s : List Char) : Bool := isDigits Char.isDigit s && (s.head? != some '0' || s.length == 1)

def unsigned : List Char → List Char
  | '+' :: s | '-' :: s => s
  | s => s

/-- An integer of 128 bits, with or without sign. -/
def isInteger (s : List Char) : Bool :=
  let radix (base : Nat) (isDigit : Char → Bool) (ds : List Char) : Bool :=
    isDigits isDigit ds && valueOf base (withoutMarks ds) < Nat.pow 2 128
  match s with
  | '0' :: 'x' :: ds => radix 16 isHex ds
  | '0' :: 'o' :: ds => radix 8 (fun c => '0' ≤ c && c ≤ '7') ds
  | '0' :: 'b' :: ds => radix 2 (fun c => c == '0' || c == '1') ds
  | '-' :: ds => isWhole ds && valueOf 10 (withoutMarks ds) ≤ Nat.pow 2 127
  | s => isWhole (unsigned s) && valueOf 10 (withoutMarks (unsigned s)) < Nat.pow 2 128

def isFinite (digits : Nat) (power : Int) : Bool :=
  let size : Int := (Nat.toDigits 10 digits).length + power
  if digits = 0 ∨ size < 0 then true
  else if 400 < size then false
  else digits * Nat.pow 10 power.toNat <
    (Nat.pow 2 1024 - Nat.pow 2 970) * Nat.pow 10 (-power).toNat

def exponentValue : List Char → Int
  | '-' :: ds => -(valueOf 10 (withoutMarks ds) : Int)
  | ds => valueOf 10 (withoutMarks (unsigned ds))

def isReal (s : List Char) : Bool :=
  let body := unsigned s
  let mantissa := body.takeWhile fun c => c ≠ 'e' ∧ c ≠ 'E'
  let power := (body.drop mantissa.length).tail?
  let whole := mantissa.takeWhile (· ≠ '.')
  let decimals := (mantissa.drop whole.length).tail?
  body = "inf".toList || body = "nan".toList ||
    (isWhole whole && (decimals.isSome || power.isSome) &&
      decimals.all (isDigits Char.isDigit) && power.all (fun p => isDigits Char.isDigit (unsigned p)) &&
      isFinite (valueOf 10 (withoutMarks (whole ++ decimals.getD [])))
        ((power.map exponentValue).getD 0 - ((decimals.map withoutMarks).getD []).length))

def isNumberBelow (bound : Nat) (ds : List Char) : Bool :=
  ds.length == 2 && ds.all Char.isDigit && valueOf 10 ds < bound

def isLeap (year : Nat) : Bool := year % 4 == 0 && (year % 100 != 0 || year % 400 == 0)

def daysIn (year month : Nat) : Nat :=
  if month = 2 then if isLeap year then 29 else 28
  else if month = 4 ∨ month = 6 ∨ month = 9 ∨ month = 11 then 30
  else 31

def isDate (s : List Char) : Bool :=
  match s.splitOn '-' with
  | [y, m, d] =>
    y.length == 4 && y.all Char.isDigit && isNumberBelow 13 m && isNumberBelow 32 d &&
      1 ≤ valueOf 10 m && 1 ≤ valueOf 10 d && valueOf 10 d ≤ daysIn (valueOf 10 y) (valueOf 10 m)
  | _ => false

/-- A time such as 07:32, with seconds, and decimals of them, if need be. -/
def isTime (s : List Char) : Bool :=
  match s.splitOn ':' with
  | [h, m] => isNumberBelow 24 h && isNumberBelow 60 m
  | [h, m, seconds] =>
    isNumberBelow 24 h && isNumberBelow 60 m &&
      match seconds.splitOn '.' with
      | [sec] => isNumberBelow 61 sec
      | [sec, decimals] => isNumberBelow 61 sec && !decimals.isEmpty && decimals.all Char.isDigit
      | _ => false
  | _ => false

def isOffsetMark (c : Char) : Bool := c == 'Z' || c == 'z' || c == '+' || c == '-'

def isZonedTime (s : List Char) : Bool :=
  let time := s.takeWhile (!isOffsetMark ·)
  isTime time &&
    match s.drop time.length with
    | [] => true
    | ['Z'] | ['z'] => true
    | '+' :: offset | '-' :: offset =>
      match offset.splitOn ':' with
      | [h, m] => isNumberBelow 24 h && isNumberBelow 60 m
      | _ => false
    | _ => false

def isTimeMark (c : Char) : Bool := c == 'T' || c == 't' || c == ' '

def isMoment (s : List Char) : Bool :=
  match s.drop 10 with
  | [] => isDate s || isTime s
  | c :: time => isTime s || (isDate (s.take 10) && isTimeMark c && isZonedTime time)

def isScalar (s : List Char) : Bool :=
  s = "true".toList || s = "false".toList || isInteger s || isReal s || isMoment s

end PushAudit.Toml
