import PushAudit.Json.Schema
import PushAudit.Json.Mismatch
import PushAudit.Json.Skip

namespace PushAudit.Json

open Text (Taken le_cons le_self lt_cons)

def readText : Reader String := fun s =>
  match h : skipSpace s with
  | '"' :: rest => (readQuoted .checked rest).map (·.mono (Nat.le_of_succ_le (skipSpace_cons h)))
  | t => .error (mismatch "a string" t)

def readNull : Reader Unit := fun s =>
  match h : skipSpace s with
  | 'n' :: rest => (readWord "ull".toList rest).map (·.mono (skipSpace_cons h))
  | t => .error (mismatch "unit" t)

def readOptional {α : Type} (r : Reader α) : Reader (Option α) := fun s =>
  if (skipSpace s).head? = some 'n' then (readNull s).map (·.map fun _ => none)
  else (r s).map (·.map some)

/-- The place of a list's next item, or nothing where the list ends; `first` says that it has had
no item yet. -/
def nextItem (first : Bool) (s : List Char) : Except Error (Option (Rest s.length)) :=
  match h : skipSpace s with
  | [] => .error (.cutOff .list)
  | c :: rest =>
    have hs : rest.length + 1 ≤ s.length := skipSpace_cons h
    if c = ']' then .ok none
    else if first then .ok (some ⟨c :: rest, hs⟩)
    else if c = ',' then
      match h' : skipSpace rest with
      | [] => .error (.cutOff .value)
      | ']' :: _ => .error .trailingComma
      | t => .ok (some ⟨t, by have := skipSpace_length_le rest; rw [h'] at this; omega⟩)
    else .error .noListComma

def closeList (s : List Char) : Except Error (Taken Unit s.length) :=
  match h : skipSpace s with
  | [] => .error (.cutOff .list)
  | ']' :: rest => .ok ⟨(), rest, skipSpace_cons h⟩
  | ',' :: rest => .error (if (skipSpace rest).head? = some ']' then .trailingComma else .trailingText)
  | _ => .error .trailingText

def readItems {α : Type} {n : Nat} (item : Reader α) (read : List α) (first : Bool) (s : List Char)
    (h : s.length ≤ n) : Except Error (Taken (List α) n) :=
  match nextItem first s with
  | .error e => .error e
  | .ok none => (closeList s).map fun t => (t.map fun _ => read.reverse).mono h
  | .ok (some t) =>
    match item t.1 with
    | .error e => .error e
    | .ok v =>
      readItems item (v.value :: read) false v.rest
        (Nat.le_trans (Nat.le_of_lt v.shorter) (Nat.le_trans t.2 h))
termination_by s.length
decreasing_by exact Nat.lt_of_lt_of_le v.shorter t.2

def readList {α : Type} (item : Reader α) : Reader (List α) := fun s =>
  match h : skipSpace s with
  | '[' :: rest => readItems item [] true rest (Nat.le_of_succ_le (skipSpace_cons h))
  | t => .error (mismatch "a sequence" t)

/-- A record's next key with its colon, or nothing where the record ends. The text after the key is
kept unread, so that the key can be looked up before its colon is due. -/
def nextKey (first : Bool) (s : List Char) : Except Error (Option (Taken String s.length)) :=
  match h : skipSpace s with
  | [] => .error (.cutOff .record)
  | c :: rest =>
    have hs : rest.length + 1 ≤ s.length := skipSpace_cons h
    if c = '\x7d' then .ok none
    else if first then
      if c = '"' then (readQuoted .checked rest).map fun t => some (t.mono (by omega))
      else .error .keyNotText
    else if c = ',' then
      match h' : skipSpace rest with
      | [] => .error (.cutOff .value)
      | '"' :: t => (readQuoted .checked t).map fun u => some (u.mono (by have := skipSpace_cons h'; omega))
      | '\x7d' :: _ => .error .trailingComma
      | _ => .error .keyNotText
    else .error .noRecordComma

def takeColon (s : List Char) : Except Error (Taken Unit s.length) :=
  match h : skipSpace s with
  | [] => .error (.cutOff .record)
  | ':' :: rest => .ok ⟨(), rest, skipSpace_cons h⟩
  | _ => .error .noColon

def closeRecord (s : List Char) : Except Error (Taken Unit s.length) :=
  match h : skipSpace s with
  | [] => .error (.cutOff .record)
  | '\x7d' :: rest => .ok ⟨(), rest, skipSpace_cons h⟩
  | _ => .error .trailingText

/-- Reads the fields of a record into a state. `lookUp` tells how the value under a key changes the
state; a key it does not know is skipped with its value. -/
def readFields {σ : Type} {n : Nat} (lookUp : String → σ → Except Error (Option (Reader σ))) (state : σ)
    (first : Bool) (s : List Char) (h : s.length ≤ n) : Except Error (Taken σ n) :=
  match nextKey first s with
  | .error e => .error e
  | .ok none => (closeRecord s).map fun t => (t.map fun _ => state).mono h
  | .ok (some key) =>
    match lookUp key.value state with
    | .error e => .error e
    | .ok reader? =>
      match takeColon key.rest with
      | .error e => .error e
      | .ok colon =>
        match reader?.getD (skipValue.map fun _ => state) colon.rest with
        | .error e => .error e
        | .ok v =>
          have hv : v.rest.length < s.length :=
            Nat.lt_trans v.shorter (Nat.lt_trans colon.shorter key.shorter)
          readFields lookUp v.value false v.rest (Nat.le_trans (Nat.le_of_lt hv) h)
termination_by s.length
decreasing_by exact hv

namespace Fields

def finish : (fs : Fields) → fs.Slots → Except Error fs.Row
  | none, () => .ok ()
  | field name required t more, (slot, slots) => do
    let v ← match slot with
      | some v => .ok v
      | Option.none => if required then .error (.missingField name) else .ok t.default
    return (v, ← more.finish slots)

end Fields

def arrayName (name : String) (fs : Fields) : String :=
  "struct " ++ name ++ " with " ++ toString fs.length ++
    if fs.length = 1 then " element" else " elements"

def readRecord {σ ρ : Type} (name : String) (lookUp : String → σ → Except Error (Option (Reader σ)))
    (start : σ) (finish : σ → Except Error ρ)
    (readArray : {n : Nat} → (s : List Char) → s.length ≤ n → Except Error (Taken ρ n)) : Reader ρ := fun s =>
  match h : skipSpace s with
  | '\x7b' :: rest => do
    let t ← readFields lookUp start true rest (le_self _)
    let row ← finish t.value
    return ⟨row, t.rest, Nat.lt_of_lt_of_le t.shorter (Nat.le_of_succ_le (skipSpace_cons h))⟩
  | '[' :: rest => readArray rest (Nat.le_of_succ_le (skipSpace_cons h))
  | t => .error (mismatch ("struct " ++ name) t)

mutual

/-- Reads a document of a schema in one pass, so that of several errors the first in the text is
reported. -/
def Schema.read : (t : Schema) → Reader t.Val
  | .text => readText
  | .optional t => readOptional t.read
  | .list t => readList t.read
  | .record name fs =>
    readRecord name fs.lookUp fs.noSlots fs.finish (fs.readArray (arrayName name fs) 0 true)

def Fields.lookUp : (fs : Fields) → String → fs.Slots → Except Error (Option (Reader fs.Slots))
  | .none, _, _ => .ok none
  | .field name _ t more, key, (slot, slots) =>
    if key = name then
      if slot.isSome then .error (.duplicateField name)
      else .ok (some (t.read.map fun v => (some v, slots)))
    else (more.lookUp key slots).map (·.map fun r => r.map fun slots => (slot, slots))

def Fields.readArray : (fs : Fields) → (expected : String) → (index : Nat) → (first : Bool) → {n : Nat} →
    (s : List Char) → s.length ≤ n → Except Error (Taken fs.Row n)
  | .none, _, _, _, _, s, h => (closeList s).map fun t => t.mono h
  | .field _ required t more, expected, index, first, _, s, h =>
    match nextItem first s with
    | .error e => .error e
    | .ok none =>
      if required then .error (.wrongLength index expected)
      else (more.readArray expected (index + 1) first s h).map (·.map fun row => (t.default, row))
    | .ok (some place) =>
      match t.read place.1 with
      | .error e => .error e
      | .ok v =>
        (more.readArray expected (index + 1) false v.rest
          (Nat.le_trans (Nat.le_of_lt v.shorter) (Nat.le_trans place.2 h))).map
          (·.map fun row => (v.value, row))

end

def Reader.parse {α : Type} (r : Reader α) (text : String) : Except Error α :=
  match r text.toList with
  | .error e => .error e
  | .ok t => if (skipSpace t.rest).isEmpty then .ok t.value else .error .trailingText

def Schema.parse (t : Schema) (text : String) : Except Error t.Val := t.read.parse text

end PushAudit.Json
