import PushAudit.Text.Taken
import PushAudit.Toml.Scalar
import PushAudit.Toml.Value

namespace PushAudit.Toml

open Text (Taken le_cons le_self lt_cons)

abbrev Reader (α : Type) := (s : List Char) → Option (Taken α s.length)

abbrev Rest (bound : Nat) := { t : List Char // t.length ≤ bound }

def isBlank (c : Char) : Bool := c == ' ' || c == '\t'

def skipBlank (s : List Char) : List Char := s.dropWhile isBlank

theorem skipBlank_length_le (s : List Char) : (skipBlank s).length ≤ s.length :=
  (List.dropWhile_suffix isBlank).length_le

def isControl (c : Char) : Bool := (c.toNat < 0x20 && c != '\t') || c.toNat == 0x7F

def readNewline : Reader Unit
  | '\n' :: rest => some ⟨(), rest, by simp⟩
  | '\r' :: '\n' :: rest => some ⟨(), rest, by simp only [List.length_cons]; omega⟩
  | _ => none

def skipComment (s : List Char) : Rest s.length :=
  match h : skipBlank s with
  | '#' :: rest => ⟨rest.dropWhile (!isControl ·), by
      have := skipBlank_length_le s; have := (List.dropWhile_suffix (l := rest) (!isControl ·)).length_le
      simp only [h, List.length_cons] at *; omega⟩
  | t => ⟨t, by have := skipBlank_length_le s; rw [h] at this; exact this⟩

def endLine (s : List Char) : Option (Rest s.length) :=
  let t := skipComment s
  if t.1.isEmpty then some t
  else (readNewline t.1).map fun u => ⟨u.rest, Nat.le_of_lt (Nat.lt_of_lt_of_le u.shorter t.2)⟩

def skipTrivia {n : Nat} (s : List Char) (h : s.length ≤ n) : Rest n :=
  let t := skipComment s
  match readNewline t.1 with
  | none => ⟨t.1, Nat.le_trans t.2 h⟩
  | some u =>
    have hu : u.rest.length < s.length := Nat.lt_of_lt_of_le u.shorter t.2
    skipTrivia u.rest (Nat.le_trans (Nat.le_of_lt hu) h)
termination_by s.length
decreasing_by exact hu

def codePoint (ds : List Char) : Option Char :=
  let n := valueOf 16 ds
  if ds.all isHex ∧ n.isValidChar then some (Char.ofNat n) else none

def readEscape : Reader Char
  | [] => none
  | c :: rest =>
    let code (width : Nat) : Option (Taken Char (rest.length + 1)) :=
      if width ≤ rest.length then
        (codePoint (rest.take width)).map fun d =>
          ⟨d, rest.drop width, by simp only [List.length_drop]; omega⟩
      else none
    let char (d : Char) : Option (Taken Char (rest.length + 1)) := some ⟨d, rest, lt_cons _⟩
    match c with
    | 'b' => char '\x08'
    | 't' => char '\t'
    | 'n' => char '\n'
    | 'f' => char '\x0c'
    | 'r' => char '\r'
    | 'e' => char '\x1b'
    | '"' => char '"'
    | '\\' => char '\\'
    | 'x' => code 2
    | 'u' => code 4
    | 'U' => code 8
    | _ => none

/-- A text on one line up to its quote; backslashes count between double quotes only. -/
def readLine {n : Nat} (quote : Char) (read : List Char) (s : List Char) (h : s.length ≤ n) :
    Option (Taken String n) :=
  match s, h with
  | [], _ => none
  | c :: rest, h =>
    if c = quote then some ⟨String.ofList read.reverse, rest, Nat.lt_of_lt_of_le (lt_cons _) h⟩
    else if c = '\\' ∧ quote = '"' then
      match readEscape rest with
      | none => none
      | some d => readLine quote (d.value :: read) d.rest
          (by have := d.shorter; simp only [List.length_cons] at h; omega)
    else if isControl c then none
    else readLine quote (c :: read) rest (Nat.le_trans (le_cons _) h)
termination_by s.length
decreasing_by
  · have := d.shorter; simp only [List.length_cons]; omega
  · simp

def skipFold (s : List Char) : Option (Rest s.length) :=
  match readNewline (skipBlank s) with
  | none => none
  | some t => some ⟨t.rest.dropWhile (fun c => isBlank c || c == '\n' || c == '\r'), by
      have := (List.dropWhile_suffix (l := t.rest) fun c => isBlank c || c == '\n' || c == '\r').length_le
      have := t.shorter; have := skipBlank_length_le s; omega⟩

/-- A text over several lines up to three of its quotes; up to two more stand at its end. -/
def readBlock {n : Nat} (quote : Char) (read : List Char) (s : List Char) (h : s.length ≤ n) :
    Option (Taken String n) :=
  match s, h with
  | [], _ => none
  | c :: rest, h =>
    if c = quote then
      let more := (rest.takeWhile (· == quote)).length
      if 2 ≤ more then
        let inner := min more 4 - 2
        some ⟨String.ofList (read.reverse ++ List.replicate inner quote), rest.drop (inner + 2), by
          have : rest.length < n := h
          simp only [List.length_drop]; omega⟩
      else readBlock quote (c :: read) rest (Nat.le_trans (le_cons _) h)
    else if c = '\\' ∧ quote = '"' then
      match skipFold rest with
      | some t => readBlock quote read t.1 (by have := t.2; simp only [List.length_cons] at h; omega)
      | none =>
        match readEscape rest with
        | none => none
        | some d => readBlock quote (d.value :: read) d.rest
            (by have := d.shorter; simp only [List.length_cons] at h; omega)
    else if c = '\n' ∨ c = '\r' ∧ rest.head? = some '\n' ∨ !isControl c then
      readBlock quote (c :: read) rest (Nat.le_trans (le_cons _) h)
    else none
termination_by s.length
decreasing_by
  · simp
  · have := t.2; simp only [List.length_cons]; omega
  · have := d.shorter; simp only [List.length_cons]; omega
  · simp

/-- A line end directly after three quotes belongs to them. -/
def readBlockFrom {n : Nat} (quote : Char) (s : List Char) (h : s.length ≤ n) : Option (Taken String n) :=
  match readNewline s with
  | some t => readBlock quote [] t.rest (Nat.le_trans (Nat.le_of_lt t.shorter) h)
  | none => readBlock quote [] s h

def isBare (c : Char) : Bool := c.isAlphanum || c == '_' || c == '-'

def readKeyPart : Reader String
  | '"' :: rest => readLine '"' [] rest (le_cons _)
  | '\'' :: rest => readLine '\'' [] rest (le_cons _)
  | c :: rest =>
    if isBare c then
      some ⟨String.ofList (c :: rest.takeWhile isBare), rest.dropWhile isBare,
        Nat.lt_succ_of_le (List.dropWhile_suffix isBare).length_le⟩
    else none
  | [] => none

/-- A key, perhaps of several parts with points between them: the parts before the last, and the
last. -/
def readKeyFrom {n : Nat} (read : List String) (s : List Char) (h : s.length ≤ n) :
    Option (Taken (List String × String) n) :=
  match readKeyPart (skipBlank s) with
  | none => none
  | some part =>
    have hp : part.rest.length < s.length := Nat.lt_of_lt_of_le part.shorter (skipBlank_length_le s)
    match hs : skipBlank part.rest with
    | '.' :: rest =>
      have hr : rest.length < s.length := by
        have := skipBlank_length_le part.rest; rw [hs] at this; simp only [List.length_cons] at this; omega
      readKeyFrom (part.value :: read) rest (Nat.le_trans (Nat.le_of_lt hr) h)
    | t => some ⟨(read.reverse, part.value), t, by
        have := skipBlank_length_le part.rest; rw [hs] at this; omega⟩
termination_by s.length
decreasing_by exact hr

def readKey : Reader (List String × String) := fun s => readKeyFrom [] s (le_self _)

def expect (c : Char) (s : List Char) : Option (Taken Unit s.length) :=
  match h : skipBlank s with
  | d :: rest =>
    if c = d then some ⟨(), rest, by
      have := skipBlank_length_le s; rw [h] at this; exact this⟩
    else none
  | [] => none

def isWordChar (c : Char) : Bool := isBare c || c == '+' || c == '.' || c == ':'

def readScalar : Reader Value := fun s =>
  let first := s.takeWhile isWordChar
  let long := match s.drop first.length with
    | ' ' :: c :: rest => if isDate first ∧ c.isDigit then first ++ ' ' :: (c :: rest).takeWhile isWordChar else first
    | _ => first
  if isScalar long ∧ 0 < long.length then
    if h : (s.drop long.length).length < s.length then
      some ⟨.scalar (String.ofList long), s.drop long.length, h⟩
    else none
  else none

def readItems {n : Nat} (item : Reader Value) (read : List Value) (s : List Char) (h : s.length ≤ n) :
    Option (Taken (List Value) n) :=
  let t := skipTrivia s (le_self _)
  match ht : t.1 with
  | ']' :: rest => some ⟨read.reverse, rest, by
      have := t.2; rw [ht] at this; exact Nat.lt_of_lt_of_le this h⟩
  | rest =>
    match item rest with
    | none => none
    | some v =>
      have hv : v.rest.length < s.length := Nat.lt_of_lt_of_le v.shorter (by rw [← ht]; exact t.2)
      let u := skipTrivia v.rest (le_self _)
      match hu : u.1 with
      | ',' :: after =>
        have ha : after.length < s.length := by
          have := u.2; rw [hu] at this; simp only [List.length_cons] at this; omega
        readItems item (v.value :: read) after (Nat.le_trans (Nat.le_of_lt ha) h)
      | ']' :: after => some ⟨(v.value :: read).reverse, after, by
          have := u.2; rw [hu] at this; simp only [List.length_cons] at this; omega⟩
      | _ => none
termination_by s.length
decreasing_by exact ha

def readPair (item : Reader Value) : Reader ((List String × String) × Value) := fun s => do
  let key ← readKey s
  let equals ← expect '=' key.rest
  let v ← item (skipBlank equals.rest)
  return ⟨(key.value, v.value), v.rest, by
    have := v.shorter; have := skipBlank_length_le equals.rest
    have := equals.shorter; have := key.shorter; omega⟩

def readEntries {n : Nat} (item : Reader Value) (read : Value) (s : List Char) (h : s.length ≤ n) :
    Option (Taken Value n) :=
  let t := skipTrivia s (le_self _)
  match ht : t.1 with
  | '\x7d' :: rest => some ⟨read, rest, by
      have := t.2; rw [ht] at this; exact Nat.lt_of_lt_of_le this h⟩
  | rest =>
    match readPair item rest with
    | none => none
    | some pair =>
      match read.insert pair.value.1.1 pair.value.1.2 pair.value.2 with
      | none => none
      | some table =>
        have hv : pair.rest.length < s.length := Nat.lt_of_lt_of_le pair.shorter (by rw [← ht]; exact t.2)
        let u := skipTrivia pair.rest (le_self _)
        match hu : u.1 with
        | ',' :: after =>
          have ha : after.length < s.length := by
            have := u.2; rw [hu] at this; simp only [List.length_cons] at this; omega
          readEntries item table after (Nat.le_trans (Nat.le_of_lt ha) h)
        | '\x7d' :: after => some ⟨table, after, by
            have := u.2; rw [hu] at this; simp only [List.length_cons] at this; omega⟩
        | _ => none
termination_by s.length
decreasing_by exact ha

/-- A value with at most so many arrays and tables inside of each other. -/
def readValue : (depth : Nat) → Reader Value
  | _, [] => none
  | _, '"' :: '"' :: '"' :: rest =>
    (readBlockFrom '"' rest (le_self _)).map fun t => (t.map .text).mono (by simp only [List.length_cons]; omega)
  | _, '\'' :: '\'' :: '\'' :: rest =>
    (readBlockFrom '\'' rest (le_self _)).map fun t => (t.map .text).mono (by simp only [List.length_cons]; omega)
  | _, '"' :: rest => (readLine '"' [] rest (le_cons _)).map (·.map .text)
  | _, '\'' :: rest => (readLine '\'' [] rest (le_cons _)).map (·.map .text)
  | depth + 1, '[' :: rest => (readItems (readValue depth) [] rest (le_cons _)).map (·.map .list)
  | depth + 1, '\x7b' :: rest => readEntries (readValue depth) (.table .inline []) rest (le_cons _)
  | _, s => readScalar s

def maxDepth : Nat := 80

inductive Line
  | header (path : List String) (key : String)
  | item (path : List String) (key : String)
  | pair (path : List String) (key : String) (v : Value)

def readHeader (s : List Char) : Option (Taken Line (s.length + 1)) :=
  match s with
  | '[' :: rest => do
    let key ← readKey rest
    let close ← expect ']' key.rest
    match h : close.rest with
    | ']' :: after => some ⟨.item key.value.1 key.value.2, after, by
        have := close.shorter; have := key.shorter
        simp only [h, List.length_cons] at *; omega⟩
    | _ => none
  | s => do
    let key ← readKey s
    let close ← expect ']' key.rest
    some ⟨.header key.value.1 key.value.2, close.rest, by
      have := close.shorter; have := key.shorter; omega⟩

def readContent : Reader Line
  | '[' :: rest => readHeader rest
  | s => (readPair (readValue maxDepth) s).map fun p => p.map fun ((path, key), v) => .pair path key v

def readLines (read : List Line) (s : List Char) : Option (List Line) :=
  let t := skipTrivia s (le_self _)
  if t.1.isEmpty then some read.reverse
  else
    match readContent t.1 with
    | none => none
    | some line =>
      match endLine line.rest with
      | none => none
      | some u => readLines (line.value :: read) u.1
termination_by s.length
decreasing_by exact Nat.lt_of_le_of_lt u.2 (Nat.lt_of_lt_of_le line.shorter t.2)

structure Document where
  root : Value
  table : List String

def Document.add (d : Document) : Line → Option Document
  | .header path key => (d.root.openTable path key).map fun root => ⟨root, path ++ [key]⟩
  | .item path key => (d.root.openItem path key).map fun root => ⟨root, path ++ [key]⟩
  | .pair path key v => (d.root.insertAt d.table path key v).map fun root => { d with root }

def byteOrderMark : Char := '\ufeff'

/-- The table that a document is, if it is well formed. -/
def parse (text : String) : Option Value := do
  let s := text.toList
  let lines ← readLines [] (if s.head? = some byteOrderMark then s.drop 1 else s)
  let d ← lines.foldlM Document.add ⟨.empty, []⟩
  return d.root

end PushAudit.Toml
