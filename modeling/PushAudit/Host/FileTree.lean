import PushAudit.Host.Basic

namespace PushAudit.Host

/-- A file, or a directory of named entries. Of two entries of one name the first counts, and one
whose name no path can spell counts for nothing. -/
inductive FileTree
  | file (content : ByteArray)
  | directory (entries : List (String × FileTree))

def maxNameSize : Nat := 255

def maxPathSize : Nat := 4095

def isName (s : String) : Bool :=
  s != "" && s != "." && s != ".." && !s.contains '/' && !s.contains '\x00' && s.utf8ByteSize ≤ maxNameSize

namespace FileTree

def empty : FileTree := directory []

def kind : FileTree → Kind
  | file _ => .file
  | directory _ => .directory

def distinct (entries : List (String × FileTree)) : List (String × FileTree) :=
  (entries.foldl
    (fun seen e => if !isName e.1 || seen.any (·.1 == e.1) then seen else e :: seen) []).reverse

mutual

def listing : FileTree → List Listing
  | file _ => []
  | directory entries => listEntries [] entries

def listEntries (seen : List String) : List (String × FileTree) → List Listing
  | [] => []
  | (name, t) :: rest =>
    if !isName name || seen.contains name then listEntries seen rest
    else
      (match t with
        | file _ => .file name
        | directory _ => .directory name t.listing) :: listEntries (name :: seen) rest

end

/-- Follows the segments of a path; `above` holds the directories on the way up. -/
def walk : (above : List FileTree) → FileTree → List String → Except Fault FileTree
  | _, t, [] => .ok t
  | _, file _, _ :: _ => .error .notDirectory
  | above, directory entries, s :: segments =>
    if Path.isVoid s then walk above (directory entries) segments
    else if s = ".." then
      match above with
      | [] => walk [] (directory entries) segments
      | t :: above => walk above t segments
    else if maxNameSize < s.utf8ByteSize then .error .nameTooLong
    else
      match entries.find? (·.1 == s) with
      | none => .error .notFound
      | some (_, t) => walk (directory entries :: above) t segments

/-- Replaces what lies under a list of names; missing directories on the way are made. -/
def update (change : Option FileTree → Option FileTree) : List String → FileTree → FileTree
  | [], t => (change (some t)).getD t
  | _, file content => file content
  | [name], directory entries =>
    let others := entries.filter (·.1 != name)
    directory (others ++ ((change ((entries.find? (·.1 == name)).map (·.2))).map (name, ·)).toList)
  | name :: names, directory entries =>
    let child := ((entries.find? (·.1 == name)).map (·.2)).getD empty
    directory (entries.filter (·.1 != name) ++ [(name, update change names child)])

end FileTree

structure FileSystem where
  root : FileTree
  workingDirectory : List String

namespace FileSystem

def lookUp (fs : FileSystem) (p : Path) : Except Fault FileTree :=
  if p.text.contains '\x00' then .error .nulInName
  else if p.text = "" then .error .notFound
  else if maxPathSize < p.text.utf8ByteSize then .error .nameTooLong
  else if p.isAbsolute then fs.root.walk [] p.layout.segments
  else fs.root.walk [] (fs.workingDirectory ++ Path.segments p.text.toList)

def read (fs : FileSystem) (p : Path) : Except Fault ByteArray := do
  match ← fs.lookUp p with
  | .file content => .ok content
  | .directory _ => .error .isDirectory

def directory? (fs : FileSystem) (p : Path) : Option (List (String × FileTree)) :=
  match fs.lookUp p with
  | .ok (.directory entries) => some entries
  | _ => none

def names (fs : FileSystem) (p : Path) : List String :=
  let start := if p.isAbsolute then [] else fs.workingDirectory
  let segments := if p.isAbsolute then p.layout.segments else Path.segments p.text.toList
  (segments.filter (!Path.isVoid ·)).foldl (fun ns s => if s = ".." then ns.dropLast else ns ++ [s]) start

def update (fs : FileSystem) (change : Option FileTree → Option FileTree) (p : Path) : FileSystem :=
  { fs with root := fs.root.update change (fs.names p) }

def write (fs : FileSystem) (p : Path) (content : ByteArray) : FileSystem :=
  fs.update (fun _ => some (.file content)) p

def makeDirectory (fs : FileSystem) (p : Path) : FileSystem := fs.update (fun t => some (t.getD .empty)) p

def remove (fs : FileSystem) (p : Path) : FileSystem := fs.update (fun _ => none) p

def answer (fs : FileSystem) (input : ByteArray) : (q : Question) → Answer q
  | .kind p => ((fs.lookUp p).toOption.map FileTree.kind : Option Kind)
  | .read p => fs.read p
  | .entries p =>
    ((fs.directory? p).map fun es =>
      (FileTree.distinct es).map fun (name, t) => (name, t.kind == .directory) : Option (List (String × Bool)))
  | .subtree p => ((fs.directory? p).map (FileTree.listEntries []) : Option (List Listing))
  | .input => (.ok input : Except Fault ByteArray)

end FileSystem

end PushAudit.Host
