import PushAudit.Diff.Splitter
import PushAudit.Failure
import PushAudit.Glob.Expand

namespace PushAudit.Diff

/-- The name for a diff without headers: the given one, else the diff's own path from the root. -/
def fallback (root : Path) (name : Option String) (p : Path) : String :=
  name.getD ((p.relativeTo? root).getD p).text

def ofFile (root : Path) (name : Option String) (p : Path) : Attempt (List Fragment) := do
  match ← Host.readText p with
  | .error why => throw (.unreadable p why)
  | .ok text =>
    let fs := fragments text (fallback root name p)
    (Script.log .debug "read diff" [("path", p.text), ("files", toString fs.length)] : Script Host Unit)
    return fs

def matchedFiles (root : Path) (pattern : String) : Attempt (List Path) := do
  match Glob.Pattern.read (root.join ⟨pattern⟩).text with
  | .error why => throw (.badPattern pattern why)
  | .ok g =>
    let found ← g.expand
    let files ← found.filterM fun p => (Host.isFile p : Script Host Bool)
    if files.isEmpty then throw (.noMatch pattern)
    return Path.sort files

/-- The fragments of several sources, all of them or none. -/
def gather {α : Type} (read : α → Attempt (List Fragment)) : List α → Attempt (List Fragment)
  | [] => return []
  | a :: as => do
    let fs ← read a
    return fs ++ (← gather read as)

def ofPattern (root : Path) (name : Option String) (pattern : String) : Attempt (List Fragment) := do
  gather (ofFile root name) (← matchedFiles root pattern)

def ofPatterns (root : Path) (patterns : List String) (name : Option String) : Attempt (List Fragment) :=
  gather (ofPattern root name) patterns

def ofInput (name : String) : Attempt (List Fragment) := do
  match ← Host.inputText with
  | .error why => throw (.unreadable ⟨"<stdin>"⟩ why)
  | .ok text => return fragments text name

/-- The standard input is read where no pattern is given. -/
def ofArguments (root : Path) (patterns : List String) (name : Option String) : Attempt (List Fragment) :=
  if patterns.isEmpty then ofInput (name.getD "stdin") else ofPatterns root patterns name

end PushAudit.Diff
