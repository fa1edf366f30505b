import PushAudit.Yaml.Node

namespace PushAudit.Yaml

abbrev Names := List (String × Nat)

abbrev Numbering := StateT Names Option

/-- A new anchor is numbered by how many names there are. One whose name was given before takes the
place of that one, so that it can come to share its number with the next new name. -/
def numberAnchor (name : String) : Numbering Nat := fun names =>
  some (names.length, (name, names.length) :: names.filter (·.1 != name))

def numberAlias (name : String) : Numbering Nat := fun names =>
  (names.find? (·.1 == name)).map fun (_, n) => (n, names)

def Properties.number (p : Properties String) : Numbering (Properties Nat) :=
  match p with
  | ⟨none, tag⟩ => return ⟨none, tag⟩
  | ⟨some name, tag⟩ => return ⟨some (← numberAnchor name), tag⟩

namespace Node

mutual

def number : Node String → Numbering (Node Nat)
  | scalar p text plain => return scalar (← p.number) text plain
  | reference name => return reference (← numberAlias name)
  | list p items => return list (← p.number) (← numberItems items)
  | map p entries => return map (← p.number) (← numberEntries entries)

def numberItems : List (Node String) → Numbering (List (Node Nat))
  | [] => return []
  | v :: vs => return (← v.number) :: (← numberItems vs)

def numberEntries : List (Node String × Node String) → Numbering (List (Node Nat × Node Nat))
  | [] => return []
  | (k, v) :: es => return (← k.number, ← v.number) :: (← numberEntries es)

end

def own (v : Node Nat) (p : Properties Nat) : List (Nat × Node Nat) := p.anchor.toList.map (·, v)

mutual

def anchored : Node Nat → List (Nat × Node Nat)
  | scalar p text plain => own (scalar p text plain) p
  | reference _ => []
  | list p items => own (list p items) p ++ anchoredItems items
  | map p entries => own (map p entries) p ++ anchoredEntries entries

def anchoredItems : List (Node Nat) → List (Nat × Node Nat)
  | [] => []
  | v :: vs => v.anchored ++ anchoredItems vs

def anchoredEntries : List (Node Nat × Node Nat) → List (Nat × Node Nat)
  | [] => []
  | (k, v) :: es => k.anchored ++ v.anchored ++ anchoredEntries es

end

end Node

structure Document where
  root : Option (Node Nat)
  anchored : List (Nat × Node Nat)

namespace Document

/-- Follows an alias to the last node of its number. -/
def follow (d : Document) : Node Nat → Option (Node Nat)
  | .reference n => (d.anchored.reverse.find? (·.1 == n)).map (·.2)
  | v => some v

def isKnown (major minor : Nat) : Bool := major == 1 && (minor == 1 || minor == 2)

def readDirectives (versioned : Bool) (handles : Handles) : Tokens → Option (Handles × Tokens)
  | .version major minor :: rest =>
    if versioned || !isKnown major minor then none else readDirectives true handles rest
  | .tagDirective handle address :: rest =>
    if handles.any (·.1 == handle) then none
    else readDirectives versioned (handles ++ [(handle, address)]) rest
  | .documentStart :: rest => some (handles ++ defaultHandles, rest)
  | _ => none

def isDirective : Token → Bool
  | .version _ _ | .tagDirective _ _ => true
  | _ => false

def isBorder (t : Token) : Bool := t == .documentStart || t == .documentEnd || isDirective t

def readRoot (handles : Handles) (s : Tokens) : Option (Node String × Tokens) :=
  (readNode handles true false s).map fun t => (t.value, t.rest)

/-- Reads the first document. Behind its mark nothing need come. -/
def readFirst (s : Tokens) : Option (Node String × Tokens) :=
  if s.head?.any fun t => t == .documentStart || isDirective t then do
    let (handles, s) ← readDirectives false [] s
    if s.head?.all isBorder then return (.missing, s) else readRoot handles s
  else readRoot defaultHandles s

def ofTokens (s : Tokens) : Option Document :=
  if s.isEmpty then some ⟨none, []⟩
  else do
    let (root, rest) ← readFirst s
    if rest.all (· == .documentEnd) then
      let (root, _) ← root.number.run []
      return ⟨some root, root.anchored⟩
    else none

/-- The document that a text is, if it is a well-formed one and the only one. -/
def parse (text : String) : Option Document := (tokens text).bind ofTokens

end Document

end PushAudit.Yaml
