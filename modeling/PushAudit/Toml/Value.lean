namespace PushAudit.Toml

/-- How a table came to be. One that a longer header implied may still get a header of its own, one
that a dotted key made may get further keys, and one that is written in line is complete. -/
inductive Origin
  | implied
  | header
  | dotted
  | inline
deriving DecidableEq, Repr

/-- A TOML value. Of a boolean, a number, a date or a time only the text is kept. -/
inductive Value
  | text (s : String)
  | scalar (written : String)
  | list (items : List Value)
  | table (origin : Origin) (entries : List (String × Value))
  | tables (last : Value) (before : List Value)

abbrev Entries := List (String × Value)

namespace Entries

def find? (es : Entries) (key : String) : Option Value := (List.find? (·.1 == key) es).map (·.2)

def set (es : Entries) (key : String) (v : Value) : Entries :=
  if es.any (·.1 == key) then es.map fun e => if e.1 == key then (key, v) else e else es ++ [(key, v)]

end Entries

def Origin.isOpen (byKey : Bool) : Origin → Bool
  | inline => false
  | header => !byKey
  | implied | dotted => true

/-- Changes the table at the end of a path. Tables that are missing on the way are made, and of
several tables under one name the last one is entered. -/
def Value.edit (byKey : Bool) (change : Origin → Entries → Option Value) : List String → Value → Option Value
  | [], .table o es => change o es
  | key :: path, .table o es => do
    let child ← match Entries.find? es key with
      | none => (Value.table (if byKey then .dotted else .implied) []).edit byKey change path
      | some (.table o' es') => if o'.isOpen byKey then (Value.table o' es').edit byKey change path else none
      | some (.tables last before) => (last.edit byKey change path).map (.tables · before)
      | some _ => none
    return .table o (Entries.set es key child)
  | _, _ => none

namespace Value

def empty : Value := .table .header []

def openTable (path : List String) (key : String) : Value → Option Value :=
  edit false (fun o es =>
    match Entries.find? es key with
    | none => some (.table o (Entries.set es key (.table .header [])))
    | some (.table .implied es') => some (.table o (Entries.set es key (.table .header es')))
    | some _ => none) path

def openItem (path : List String) (key : String) : Value → Option Value :=
  edit false (fun o es =>
    match Entries.find? es key with
    | none => some (.table o (Entries.set es key (.tables (.table .header []) [])))
    | some (.tables last before) =>
      some (.table o (Entries.set es key (.tables (.table .header []) (last :: before))))
    | some _ => none) path

/-- Puts a value under a dotted key that has none yet; only a table that such a key made is reached
by a longer one. -/
def insert (t : Value) (path : List String) (key : String) (v : Value) : Option Value :=
  t.edit true (fun o es =>
    if (o == .dotted) == path.isEmpty || (Entries.find? es key).isSome then none
    else some (.table o (Entries.set es key v))) path

def insertAt (t : Value) (table path : List String) (key : String) (v : Value) : Option Value :=
  t.edit false (fun o es => (Value.table o es).insert path key v) table

end Value

end PushAudit.Toml
