import PushAudit.Json.Error
import PushAudit.Text.Taken

namespace PushAudit.Json

open Text (Taken le_cons le_self lt_cons)

/-- Reads a value from the front of a text and takes at least one character. -/
abbrev Reader (α : Type) := (s : List Char) → Except Error (Taken α s.length)

def Reader.map {α β : Type} (f : α → β) (r : Reader α) : Reader β := fun s => (r s).map (·.map f)

def isSpace (c : Char) : Bool := c == ' ' || c == '\n' || c == '\t' || c == '\r'

def skipSpace (s : List Char) : List Char := s.dropWhile isSpace

theorem skipSpace_length_le (s : List Char) : (skipSpace s).length ≤ s.length :=
  (List.dropWhile_suffix isSpace).length_le

theorem skipSpace_cons {s rest : List Char} {c : Char} (h : skipSpace s = c :: rest) :
    rest.length + 1 ≤ s.length := by
  have := skipSpace_length_le s
  rwa [h] at this

def readWord : (letters : List Char) → (s : List Char) → Except Error (Taken Unit (s.length + 1))
  | [], s => .ok ⟨(), s, lt_cons _⟩
  | _ :: _, [] => .error (.cutOff .value)
  | l :: ls, c :: rest =>
    if c = l then (readWord ls rest).map (·.mono (Nat.le_succ _)) else .error .badWord

def hexValue? (c : Char) : Option Nat :=
  if '0' ≤ c ∧ c ≤ '9' then some (c.toNat - '0'.toNat)
  else if 'a' ≤ c ∧ c ≤ 'f' then some (c.toNat - 'a'.toNat + 10)
  else if 'A' ≤ c ∧ c ≤ 'F' then some (c.toNat - 'A'.toNat + 10)
  else none

/-- Four hexadecimal digits. The text is cut off if less than four bytes are left of it. -/
def readHex : Reader Nat
  | a :: b :: c :: d :: rest =>
    match hexValue? a, hexValue? b, hexValue? c, hexValue? d with
    | some a, some b, some c, some d =>
      .ok ⟨((a * 16 + b) * 16 + c) * 16 + d, rest, by simp only [List.length_cons]; omega⟩
    | _, _, _, _ => .error .badEscape
  | s => .error (if (String.ofList s).utf8ByteSize < 4 then .cutOff .text else .badEscape)

inductive Pairing
  | checked
  | ignored
deriving DecidableEq, Repr

/-- The second half of a surrogate pair, after its first half `high`. -/
def readLowHalf (high : Nat) : Reader Char
  | [] => .error (.cutOff .text)
  | '\\' :: [] => .error (.cutOff .text)
  | '\\' :: 'u' :: rest => do
    let low ← readHex rest
    if 0xDC00 ≤ low.value ∧ low.value ≤ 0xDFFF then
      .ok ((low.map fun n => Char.ofNat (0x10000 + (high - 0xD800) * 0x400 + (n - 0xDC00))).mono
        (by simp only [List.length_cons]; omega))
    else .error .loneSurrogate
  | _ => .error .halfPair

def readCodeEscape (pairing : Pairing) : Reader Char := fun s => do
  let code ← readHex s
  if 0xD800 ≤ code.value ∧ code.value ≤ 0xDFFF ∧ pairing = .checked then
    if code.value < 0xDC00 then
      let c ← readLowHalf code.value code.rest
      .ok (c.mono (Nat.le_of_lt code.shorter))
    else .error .loneSurrogate
  else .ok (code.map Char.ofNat)

def readEscape (pairing : Pairing) : Reader Char
  | [] => .error (.cutOff .text)
  | 'u' :: rest => (readCodeEscape pairing rest).map (·.mono (le_cons _))
  | c :: rest =>
    let char (d : Char) : Except Error (Taken Char (rest.length + 1)) := .ok ⟨d, rest, lt_cons _⟩
    match c with
    | '"' | '\\' | '/' => char c
    | 'b' => char '\x08'
    | 'f' => char '\x0c'
    | 'n' => char '\n'
    | 'r' => char '\r'
    | 't' => char '\t'
    | _ => .error .badEscape

def readQuotedFrom (pairing : Pairing) {n : Nat} (read : List Char) (s : List Char) (h : s.length ≤ n) :
    Except Error (Taken String n) :=
  match s, h with
  | [], _ => .error (.cutOff .text)
  | '"' :: rest, h => .ok ⟨String.ofList read.reverse, rest, Nat.lt_of_lt_of_le (lt_cons _) h⟩
  | '\\' :: rest, h =>
    match readEscape pairing rest with
    | .error e => .error e
    | .ok c =>
      readQuotedFrom pairing (c.value :: read) c.rest
        (by have := c.shorter; simp only [List.length_cons] at h; omega)
  | c :: rest, h =>
    if c.toNat < 0x20 then .error .controlInText
    else readQuotedFrom pairing (c :: read) rest (Nat.le_trans (le_cons _) h)
termination_by s.length
decreasing_by
  · have := c.shorter; simp only [List.length_cons]; omega
  · simp

def readQuoted (pairing : Pairing) : Reader String := fun s => readQuotedFrom pairing [] s (le_self _)

end PushAudit.Json
