import PushAudit.Text.CharClass

namespace PushAudit

inductive CharSet
  | letter (c : Char)
  | blank
  | anyOf (cs : List Char)
  | noneOf (cs : List Char)
deriving DecidableEq, Repr

/-- A letter admits every character with the same folded form, so case never matters. -/
def CharSet.admits : CharSet → Char → Bool
  | letter c, d => Text.fold c == Text.fold d
  | blank, d => Text.isBlank d
  | anyOf cs, d => cs.contains d
  | noneOf cs, d => !cs.contains d

inductive Pattern
  | empty
  | edge
  | one (k : CharSet)
  | seq (p q : Pattern)
  | alt (p q : Pattern)
  | star (p : Pattern)
  | plus (p : Pattern)
  | opt (p : Pattern)
deriving DecidableEq, Repr

namespace Pattern

def seqs : List Pattern → Pattern
  | [] => empty
  | [p] => p
  | p :: ps => seq p (seqs ps)

def alts : Pattern → List Pattern → Pattern
  | p, [] => p
  | p, q :: qs => alt p (alts q qs)

def word (w : String) : Pattern := seqs (w.toList.map fun c => one (.letter c))

def words (w : String) (ws : List String) : Pattern := alts (word w) (ws.map word)

end Pattern

end PushAudit
