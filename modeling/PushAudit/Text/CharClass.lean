import PushAudit.Text.WordTable
import PushAudit.Text.HiddenTable

namespace PushAudit.Text

/-- Membership in a list of closed ranges that ascend; the search stops at the first range
beyond the number. -/
def inRanges : List (Nat × Nat) → Nat → Bool
  | [], _ => false
  | (lo, hi) :: rest, n => if n < lo then false else n ≤ hi || inRanges rest n

def blankTable : List (Nat × Nat) :=
  [(0x9, 0xD), (0x20, 0x20), (0x85, 0x85), (0xA0, 0xA0), (0x1680, 0x1680), (0x2000, 0x200A),
    (0x2028, 0x2029), (0x202F, 0x202F), (0x205F, 0x205F), (0x3000, 0x3000)]

def isBlank (c : Char) : Bool := inRanges blankTable c.toNat

def isAsciiWord (c : Char) : Bool := c.isAlphanum || c == '_'

def isWord (c : Char) : Bool :=
  if c.toNat < 0x80 then isAsciiWord c else inRanges wordTable c.toNat

def isHidden (c : Char) : Bool :=
  if c.toNat < 0x80 then c.toNat < 0x20 || c.toNat == 0x7F else inRanges hiddenTable c.toNat

/-- Simple case folding, as far as it reaches a lower-case ASCII letter: besides the capitals
the long s and the Kelvin sign. -/
def fold (c : Char) : Char :=
  if c.isUpper then c.toLower
  else if c = '\u017f' then 's'
  else if c = '\u212a' then 'k'
  else c

def trimEnd (text : List Char) : List Char := (text.reverse.dropWhile isBlank).reverse

def isBlankText (text : List Char) : Bool := text.all isBlank

end PushAudit.Text
