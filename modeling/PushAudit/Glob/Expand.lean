import PushAudit.Glob.Pattern
import PushAudit.Host.Basic

namespace PushAudit.Glob

open Host (Listing)

/-- A path that only names the working directory is left out before a name. -/
def extend (p : Path) (name : String) : Path := if p.components = [.here] then ⟨name⟩ else p.join ⟨name⟩

def collect {α : Type} (search : α → Script Host (List Path)) : List α → Script Host (List Path)
  | [] => return []
  | a :: as => do
    let found ← search a
    return found ++ (← collect search as)

def listingName : Listing → String
  | .file name | .directory name _ => name

def listingIsDirectory : Listing → Bool
  | .file _ => false
  | .directory _ _ => true

mutual

def descend (visit : Path → String → Bool → Script Host (List Path)) (p : Path) :
    List Listing → Script Host (List Path)
  | [] => return []
  | l :: ls => do
    let here ← visit (extend p (listingName l)) (listingName l) (listingIsDirectory l)
    let below ← descendEntry visit (extend p (listingName l)) l
    return here ++ below ++ (← descend visit p ls)

def descendEntry (visit : Path → String → Bool → Script Host (List Path)) (p : Path) :
    Listing → Script Host (List Path)
  | .file _ => return []
  | .directory _ entries => descend visit p entries

end

mutual

def sortListing : Listing → Listing
  | .file name => .file name
  | .directory name entries =>
    .directory name ((sortEntries entries).mergeSort fun a b => listingName a ≤ listingName b)

def sortEntries : List Listing → List Listing
  | [] => []
  | l :: ls => sortListing l :: sortEntries ls

end

def yield (directoriesOnly : Bool) (p : Path) : Script Host (List Path) := do
  if directoriesOnly then
    if ← Host.isDirectory p then return [p] else return []
  else return [p]

/-- The paths that some steps lead to from a path. A named step is looked up, all others are
compared with the entries, in the order of their names. -/
def follow (directoriesOnly : Bool) : List Step → Path → Script Host (List Path)
  | [], p => yield directoriesOnly p
  | .name s :: rest, p => do
    let next := extend p s
    let isThere ← if s = "." ∨ s = ".." then Host.isDirectory p else Host.exists_ next
    if isThere then follow directoriesOnly rest next else return []
  | .anyDepth :: rest, p => do
    let some listing ← Host.subtree p | return []
    let sorted := (sortEntries listing).mergeSort fun a b => listingName a ≤ listingName b
    match rest with
    | [] => descend (fun q _ isDirectory => return if isDirectory then [q] else []) p sorted
    | step :: rest =>
      descend (fun q name _ => if step.fits name then follow directoriesOnly rest q else return []) p sorted
  | step :: rest, p => do
    let some entries ← Host.entries p | return []
    let dots := if step.takesDots then ["..", "."].filter step.fits else []
    let above ← collect (fun s => follow directoriesOnly rest (p.join ⟨s⟩)) dots
    let names := ((entries.map (·.1)).filter step.fits).mergeSort fun a b => a ≤ b
    return above ++ (← collect (fun s => follow directoriesOnly rest (extend p s)) names)

def Pattern.expand (g : Pattern) : Script Host (List Path) :=
  follow g.directoriesOnly g.steps ⟨if g.absolute then "/" else "."⟩

end PushAudit.Glob
