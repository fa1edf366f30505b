import PushAudit.Config.Document
import PushAudit.Host.Basic

namespace PushAudit.Config

def fileNames : List (String × Format) :=
  [("pushcheck.toml", .toml), ("pushcheck.yaml", .yaml), ("pushcheck.yml", .yaml)]

def rootMarks : List String := fileNames.map (·.1) ++ [".git"]

def isRoot (p : Path) : Script Host Bool := rootMarks.anyM fun name => Host.exists_ (p.join ⟨name⟩)

def firstRoot : List Path → Script Host (Option Path)
  | [] => return none
  | p :: ps => do if ← isRoot p then return some p else firstRoot ps

/-- The nearest root at a path or above it; where there is none, the path itself. -/
def findRoot (start : Path) : Script Host Path := do
  return (← firstRoot (start :: start.above)).getD start

def firstFile (root : Path) : List (String × Format) → Script Host (Option (Path × Format))
  | [] => return none
  | (name, f) :: rest => do
    let p := root.join ⟨name⟩
    if ← Host.exists_ p then return some (p, f) else firstFile root rest

/-- The configuration in a directory. Only the first file counts, even if it is of no use. Of the warnings on it the
text of the error is left out. -/
def load (root : Path) : Script Host (Option Config) := do
  match ← firstFile root fileNames with
  | none => return none
  | some (p, f) =>
    match ← Host.readText p with
    | .error _ => do
      Script.log .warn "cannot read config" [("path", p.text)]
      return none
    | .ok text =>
      match parse f text with
      | none => do
        Script.log .warn "ignoring invalid config" [("path", p.text)]
        return none
      | some c => return some c

end PushAudit.Config
