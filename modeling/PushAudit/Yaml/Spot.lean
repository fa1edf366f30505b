namespace PushAudit.Yaml

/-- A character at its place: the number of characters before it, its line and its column. -/
structure Spot where
  char : Char
  index : Nat
  line : Nat
  column : Nat
deriving DecidableEq, Repr

def isAllowed (c : Char) : Bool :=
  let n := c.toNat
  c == '\t' || c == '\n' || c == '\r' || (0x20 ≤ n && n ≤ 0x7E) || n == 0x85 ||
    (0xA0 ≤ n && n ≤ 0xD7FF) || (0xE000 ≤ n && n ≤ 0xFFFD) || 0x10000 ≤ n

def lineSeparator : Char := '\u2028'

def paragraphSeparator : Char := '\u2029'

def isLineEnd (c : Char) : Bool := c == '\n' || c == '\r' || c == '\u0085'

def isSeparator (c : Char) : Bool := c == lineSeparator || c == paragraphSeparator

/-- The characters of a text at their places. All line ends become line feeds; the two separators
break lines, too, and stay what they are. -/
def spotsFrom (read : List Spot) (index line column : Nat) : List Char → List Spot
  | [] => read.reverse
  | '\r' :: '\n' :: rest => spotsFrom (⟨'\n', index, line, column⟩ :: read) (index + 2) (line + 1) 0 rest
  | c :: rest =>
    if isLineEnd c then spotsFrom (⟨'\n', index, line, column⟩ :: read) (index + 1) (line + 1) 0 rest
    else if isSeparator c then spotsFrom (⟨c, index, line, column⟩ :: read) (index + 1) (line + 1) 0 rest
    else spotsFrom (⟨c, index, line, column⟩ :: read) (index + 1) line (column + 1) rest

def spots (s : List Char) : List Spot := spotsFrom [] 0 0 0 s

namespace Spot

def isBreak (s : Spot) : Bool := s.char == '\n' || isSeparator s.char

def isBlank (s : Spot) : Bool := s.char == ' ' || s.char == '\t'

end Spot

def chars (s : List Spot) : List Char := s.map (·.char)

def atGap : List Spot → Bool
  | [] => true
  | s :: _ => s.isBlank || s.isBreak

def isMark (c : Char) (s : List Spot) : Bool :=
  (s.head?.any (·.column == 0)) && chars (s.take 3) == [c, c, c] && atGap (s.drop 3)

def isDocumentMark (s : List Spot) : Bool := isMark '-' s || isMark '.' s

def isNameChar (c : Char) : Bool := c.isAlphanum || c == '_' || c == '-'

/-- What stands between two words of a scalar: blanks, or a line break with further ones. A break
that is escaped has no text. -/
structure Gap where
  blanks : List Char
  first : Option (List Char)
  further : List Char
deriving DecidableEq, Repr

namespace Gap

def none : Gap := ⟨[], Option.none, []⟩

def escaped : Gap := ⟨[], some [], []⟩

def isBroken (g : Gap) : Bool := g.first.isSome

def isNone (g : Gap) : Bool := g.blanks.isEmpty && g.first.isNone

def push (g : Gap) (s : Spot) : Gap :=
  if s.isBreak then
    match g.first with
    | Option.none => { g with first := some [s.char] }
    | some _ => { g with further := g.further ++ [s.char] }
  else if g.isBroken then g
  else { g with blanks := g.blanks ++ [s.char] }

/-- A single line feed is folded into a blank, of several one is dropped. -/
def text (g : Gap) : List Char :=
  match g.first with
  | Option.none => g.blanks
  | some ['\n'] => if g.further.isEmpty then [' '] else g.further
  | some first => first ++ g.further

end Gap

end PushAudit.Yaml
