namespace PushAudit

structure Path where
  text : String
deriving DecidableEq, Repr

namespace Path

inductive Component
  | root
  | here
  | parent
  | name (s : String)
deriving DecidableEq, Repr

namespace Component

def rank : Component → Nat
  | root => 0
  | here => 1
  | parent => 2
  | name _ => 3

def text : Component → String
  | name s => s
  | _ => ""

def order (a b : Component) : Ordering :=
  (compare a.rank b.rank).then (compare a.text b.text)

end Component

inductive Lead
  | none
  | root
  | here
deriving DecidableEq, Repr

/-- A path cut at its slashes, after its lead. Segments that are empty or a dot mean nothing. -/
structure Layout where
  lead : Lead
  segments : List String
deriving DecidableEq, Repr

def segments (s : List Char) : List String := (s.splitOn '/').map String.ofList

def layout (p : Path) : Layout :=
  match p.text.toList with
  | '/' :: rest => ⟨.root, segments rest⟩
  | ['.'] => ⟨.here, []⟩
  | '.' :: '/' :: rest => ⟨.here, segments rest⟩
  | s => ⟨.none, segments s⟩

def isVoid (segment : String) : Bool := segment == "" || segment == "."

def trimVoid (segments : List String) : List String := (segments.reverse.dropWhile isVoid).reverse

def Layout.path (l : Layout) : Path :=
  match l.lead with
  | .none => ⟨"/".intercalate l.segments⟩
  | .root => ⟨"/" ++ "/".intercalate l.segments⟩
  | .here => ⟨"/".intercalate ("." :: l.segments)⟩

def Lead.components : Lead → List Component
  | none => []
  | root => [.root]
  | here => [.here]

def Component.ofSegment (s : String) : Component := if s = ".." then .parent else .name s

def components (p : Path) : List Component :=
  p.layout.lead.components ++ (p.layout.segments.filter (!isVoid ·)).map .ofSegment

def isAbsolute (p : Path) : Bool := p.layout.lead == .root

/-- Goes on from a path by another one. An absolute one stands for itself. -/
def join (p q : Path) : Path :=
  if q.isAbsolute then q
  else if p.text = "" ∨ p.text.toList.getLast? = some '/' then ⟨p.text ++ q.text⟩
  else ⟨p.text ++ "/" ++ q.text⟩

/-- The directories above what segments lead to, the nearest first. The segments come from the last
one on; a dot that a path begins with is left out once nothing else is. -/
def aboveSegments (lead : Lead) : List String → List Path
  | [] => if lead = .here then [⟨""⟩] else []
  | s :: ss =>
    if isVoid s then aboveSegments lead ss
    else Layout.path ⟨lead, (ss.dropWhile isVoid).reverse⟩ :: aboveSegments lead ss

def above (p : Path) : List Path := aboveSegments p.layout.lead p.layout.segments.reverse

def dropSegments : Nat → List String → List String
  | 0, segments => segments.dropWhile isVoid
  | _ + 1, [] => []
  | n + 1, s :: segments => if isVoid s then dropSegments (n + 1) segments else dropSegments n segments

/-- The path as seen from another one, if the components of that one begin it. -/
def relativeTo? (p base : Path) : Option Path :=
  let taken := base.components.length
  let lead := p.layout.lead.components.length
  if base.components.isPrefixOf p.components then
    if taken = 0 then some (Layout.path ⟨p.layout.lead, trimVoid p.layout.segments⟩)
    else some (Layout.path ⟨.none, trimVoid (dropSegments (taken - lead) p.layout.segments)⟩)
  else none

/-- Component by component, so that a directory's entries stay together. -/
def order (p q : Path) : Ordering := List.compareLex Component.order p.components q.components

def sort (ps : List Path) : List Path := ps.mergeSort fun p q => (order p q).isLE

end Path

end PushAudit
