import PushAudit.Yaml.Spot

namespace PushAudit.Yaml

structure Word where
  text : String
  rest : List Spot

structure PlainWord where
  text : String
  endsLine : Bool
  rest : List Spot

def isFlowMark (c : Char) : Bool := c == ',' || c == '[' || c == ']' || c == '\x7b' || c == '\x7d'

def endsPlain (inFlow : Bool) (c : Char) (rest : List Spot) : Bool :=
  (c == ':' && atGap rest) || (inFlow && isFlowMark c)

def isBadColon (inFlow : Bool) (c : Char) (rest : List Spot) : Bool :=
  inFlow && c == ':' && rest.head?.any fun s => isFlowMark s.char || s.char == '?'

/-- Reads a plain scalar. Outside of flow collections its further lines are indented at least as
far as given. -/
def readPlain (inFlow : Bool) (indent : Int) (read : List Char) (gap : Gap) : List Spot → Option PlainWord
  | [] => some ⟨String.ofList read.reverse, gap.isBroken, []⟩
  | s :: rest =>
    let stop : Option PlainWord := some ⟨String.ofList read.reverse, gap.isBroken, s :: rest⟩
    if s.isBlank || s.isBreak then
      if gap.isBroken && s.char == '\t' && (s.column : Int) < indent then none
      else readPlain inFlow indent read (gap.push s) rest
    else if gap.isBroken && !inFlow && (s.column : Int) < indent then stop
    else if isDocumentMark (s :: rest) then stop
    else if s.char == '#' && (read.isEmpty || !gap.isNone) then stop
    else if isBadColon inFlow s.char rest then none
    else if endsPlain inFlow s.char rest then stop
    else readPlain inFlow indent (s.char :: (gap.text.reverse ++ read)) .none rest

inductive Escape
  | outside
  | begun
  | code (left value : Nat)
deriving DecidableEq, Repr

def simpleEscape? (c : Char) : Option Char :=
  match c with
  | '0' => some '\x00'
  | 'a' => some '\x07'
  | 'b' => some '\x08'
  | 't' | '\t' => some '\t'
  | 'n' => some '\n'
  | 'v' => some '\x0b'
  | 'f' => some '\x0c'
  | 'r' => some '\r'
  | 'e' => some '\x1b'
  | ' ' => some ' '
  | '"' => some '"'
  | '/' => some '/'
  | '\\' => some '\\'
  | 'N' => some '\u0085'
  | '_' => some '\u00a0'
  | 'L' => some lineSeparator
  | 'P' => some paragraphSeparator
  | _ => none

def codeWidth? (c : Char) : Option Nat :=
  match c with
  | 'x' => some 2
  | 'u' => some 4
  | 'U' => some 8
  | _ => none

def hexValue? (c : Char) : Option Nat :=
  if c.isDigit then some (c.toNat - '0'.toNat)
  else if 'a' ≤ c ∧ c ≤ 'f' then some (c.toNat - 'a'.toNat + 10)
  else if 'A' ≤ c ∧ c ≤ 'F' then some (c.toNat - 'A'.toNat + 10)
  else none

def readDouble (escape : Escape) (read : List Char) (gap : Gap) : List Spot → Option Word
  | [] => none
  | s :: rest =>
    let before := gap.text.reverse ++ read
    match escape with
    | .begun =>
      if s.isBreak then readDouble .outside read .escaped rest
      else
        match simpleEscape? s.char, codeWidth? s.char with
        | some c, _ => readDouble .outside (c :: read) .none rest
        | none, some width => readDouble (.code width 0) read .none rest
        | none, none => none
    | .code left value =>
      match hexValue? s.char with
      | none => none
      | some d =>
        let value := value * 16 + d
        if 1 < left then readDouble (.code (left - 1) value) read .none rest
        else if value.isValidChar then readDouble .outside (Char.ofNat value :: read) .none rest
        else none
    | .outside =>
      if s.isBlank || s.isBreak then readDouble .outside read (gap.push s) rest
      else if isDocumentMark (s :: rest) then none
      else if s.char == '"' then some ⟨String.ofList before.reverse, rest⟩
      else if s.char == '\\' then readDouble .begun before .none rest
      else readDouble .outside (s.char :: before) .none rest

/-- Reads a single-quoted scalar after its opening quote; `doubled` says that the next quote is the
second of two. -/
def readSingle (doubled : Bool) (read : List Char) (gap : Gap) : List Spot → Option Word
  | [] => none
  | s :: rest =>
    let before := gap.text.reverse ++ read
    if doubled then readSingle false ('\'' :: read) .none rest
    else if s.isBlank || s.isBreak then readSingle false read (gap.push s) rest
    else if isDocumentMark (s :: rest) then none
    else if s.char == '\'' then
      if rest.head?.any (·.char == '\'') then readSingle true before .none rest
      else some ⟨String.ofList before.reverse, rest⟩
    else readSingle false (s.char :: before) .none rest

inductive Chomping
  | strip
  | clip
  | keep
deriving DecidableEq, Repr

structure BlockHeader where
  chomping : Chomping
  indent : Option Nat
deriving DecidableEq, Repr

def chomping? (c : Char) : Option Chomping :=
  if c = '+' then some .keep else if c = '-' then some .strip else none

def indent? (c : Char) : Option (Option Nat) :=
  if c.isDigit then some (if c = '0' then none else some (c.toNat - '0'.toNat)) else none

def readHeader (s : List Spot) : Option (BlockHeader × List Spot) := do
  let word := s.takeWhile fun t => (chomping? t.char).isSome || (indent? t.char).isSome
  let header ← match chars word with
    | [] => some ⟨.clip, none⟩
    | [a] =>
      match chomping? a, indent? a with
      | some c, _ => some ⟨c, none⟩
      | none, some (some n) => some ⟨.clip, some n⟩
      | _, _ => none
    | [a, b] =>
      match chomping? a, chomping? b, indent? a, indent? b with
      | some c, none, _, some (some n) | none, some c, some (some n), _ => some ⟨c, some n⟩
      | _, _, _, _ => none
    | _ => none
  let after := (s.drop word.length).dropWhile (·.isBlank)
  let comment := if after.head?.any (·.char == '#') then after.dropWhile (!·.isBreak) else after
  match comment with
  | [] => some (header, [])
  | t :: rest => if t.isBreak then some (header, rest) else none

/-- A block scalar in the course of reading: its text and the line breaks after it are in reverse.
`inLine` says that the margin of a line has been passed, `deepest` how far blank lines reach. -/
structure Block where
  indent : Option Nat
  deepest : Nat
  inLine : Bool
  read : List Char
  break? : List Char
  further : List Char
  blankStart : Bool

namespace Block

def depth (b : Block) (least : Nat) (column : Nat) : Nat :=
  b.indent.getD (max (max b.deepest column) least)

/-- Begins a line with a character. When folding, a single line feed between two lines that do not
begin with a blank becomes a blank. -/
def beginLine (b : Block) (folded : Bool) (depth : Nat) (s : Spot) : Block :=
  let joint :=
    if folded && b.break? == ['\n'] && !b.blankStart && !s.isBlank then
      if b.further.isEmpty then [' '] else []
    else b.break?
  { b with
    indent := some depth
    inLine := true
    read := s.char :: (b.further ++ joint.reverse ++ b.read)
    break? := []
    further := []
    blankStart := s.isBlank }

def finish (b : Block) (c : Chomping) (rest : List Spot) : Word :=
  ⟨String.ofList (match c with
    | .strip => b.read.reverse
    | .clip => b.read.reverse ++ b.break?
    | .keep => b.read.reverse ++ b.break? ++ b.further.reverse), rest⟩

end Block

def readBlockLines (folded : Bool) (c : Chomping) (least : Nat) (b : Block) : List Spot → Option Word
  | [] => some (b.finish c [])
  | s :: rest =>
    if b.inLine then
      if s.isBreak then readBlockLines folded c least { b with inLine := false, break? := [s.char] } rest
      else readBlockLines folded c least { b with read := s.char :: b.read } rest
    else
      let inMargin := b.indent.all (s.column < ·)
      if s.char == ' ' && inMargin then
        readBlockLines folded c least { b with deepest := max b.deepest (s.column + 1) } rest
      else if s.char == '\t' && inMargin then none
      else if s.isBreak then readBlockLines folded c least { b with further := s.char :: b.further } rest
      else
        let depth := b.depth least s.column
        if s.column = depth then readBlockLines folded c least (b.beginLine folded depth s) rest
        else some (b.finish c (s :: rest))

def readBlock (folded : Bool) (outer : Int) (s : List Spot) : Option Word := do
  let (header, lines) ← readHeader s
  let indent := header.indent.map fun n => outer.toNat + n
  readBlockLines folded header.chomping (max (outer + 1).toNat 1)
    ⟨indent, 0, false, [], [], [], false⟩ lines

end PushAudit.Yaml
