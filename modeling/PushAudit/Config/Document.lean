import PushAudit.Config.Basic
import PushAudit.Toml.Reader
import PushAudit.Yaml.Document

namespace PushAudit

namespace Toml.Value

def text? : Value → Option String
  | text s => some s
  | _ => none

def texts? : Value → Option (List String)
  | list items => items.mapM text?
  | _ => none

end Toml.Value

namespace Yaml.Document

def nullTag : String := "tag:yaml.org,2002:null"

def nullWords : List String := ["null", "Null", "NULL", "~"]

/-- Whether a scalar stands for nothing. Of plain ones, a null word does, and without a tag an
empty one; one that is tagged as null must be a null word. -/
def isNull (tag : Option String) (text : String) (plain : Bool) : Option Bool :=
  if !plain then some false
  else if tag = some nullTag then if nullWords.contains text then some true else none
  else if tag.isSome then some false
  else some (text == "" || nullWords.contains text)

def text? (d : Document) (v : Node Nat) : Option String :=
  match d.follow v with
  | some (.scalar _ text _) => some text
  | _ => none

/-- A list of texts; a plain scalar of no characters is an empty one. -/
def texts? (d : Document) : Node Nat → Option (List String)
  | .list _ items => items.mapM d.text?
  | .scalar _ "" true => some []
  | _ => none

def optional {α : Type} (d : Document) (read : Node Nat → Option α) (v : Node Nat) : Option (Option α) := do
  let v ← d.follow v
  match v with
  | .scalar p text plain => if ← isNull p.tag text plain then return none else return some (← read v)
  | _ => return some (← read v)

def entries? (d : Document) : Option (List (String × Node Nat)) :=
  match d.root with
  | none | some (.scalar _ "" true) => some []
  | some (.map _ entries) => entries.mapM fun (k, v) => do return (← d.text? k, v)
  | _ => none

end Yaml.Document

namespace Config

/-- In TOML nothing but a string is a text, and no value is null. -/
def ofToml : Toml.Value → Option Config
  | .table _ entries => ofEntries ⟨fun v => v.text?.map some, fun v => v.texts?.map some⟩ entries
  | _ => none

def ofYaml (d : Yaml.Document) : Option Config := do
  ofEntries ⟨d.optional d.text?, d.optional d.texts?⟩ (← d.entries?)

inductive Format
  | toml
  | yaml
deriving DecidableEq, Repr

def parse (f : Format) (text : String) : Option Config :=
  match f with
  | .toml => (Toml.parse text).bind ofToml
  | .yaml => (Yaml.Document.parse text).bind ofYaml

end Config

end PushAudit
