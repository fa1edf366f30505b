namespace PushAudit

structure Config where
  output : Option String
  branches : Option (List String)
  commitsDir : Option String
  unknownAuthor : Option String
deriving DecidableEq, Repr

namespace Config

def empty : Config := ⟨none, none, none, none⟩

def names : List String := ["output", "branches", "commits_dir", "unknown_author"]

/-- How the values of a format are taken as a text or a list of texts, either of which may be left
out. A value that is neither has no reading. -/
structure Reading (V : Type) where
  text : V → Option (Option String)
  texts : V → Option (Option (List String))

variable {V : Type}

def set (r : Reading V) (c : Config) (entry : String × V) : Option Config :=
  match entry with
  | ("output", v) => (r.text v).map fun s => { c with output := s }
  | ("branches", v) => (r.texts v).map fun ss => { c with branches := ss }
  | ("commits_dir", v) => (r.text v).map fun s => { c with commitsDir := s }
  | ("unknown_author", v) => (r.text v).map fun s => { c with unknownAuthor := s }
  | _ => some c

/-- The configuration that named values make. None of the known names may be there twice. -/
def ofEntries (r : Reading V) (entries : List (String × V)) : Option Config :=
  if ((entries.map (·.1)).filter names.contains).Nodup then entries.foldlM (set r) empty else none

end Config

end PushAudit
