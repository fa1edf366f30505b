import PushAudit.Pattern.Printer
import PushAudit.Proofs.Pattern.Language

namespace PushAudit.Pattern

inductive Token
  | piece (p : Pattern)
  | bar
  | opening
  | closing
  | star
  | plus
  | opt

/-- Reads the tokens of a written pattern; between brackets the class read so far is kept, and
whether it is a negated one. A range in a class is not read. -/
def tokens : Option (Bool × List Char) → List Char → Option (List Token)
  | none, [] => some []
  | some _, [] => none
  | some (negated, cs), ']' :: rest =>
    if cs.dropLast.contains '-' then none
    else (tokens none rest).map (.piece (one (if negated then .noneOf cs else .anyOf cs)) :: ·)
  | some (negated, cs), c :: rest => tokens (some (negated, cs ++ [c])) rest
  | none, '[' :: '^' :: rest => tokens (some (true, [])) rest
  | none, '[' :: rest => tokens (some (false, [])) rest
  | none, '\\' :: 'b' :: rest => (tokens none rest).map (.piece edge :: ·)
  | none, '\\' :: 's' :: rest => (tokens none rest).map (.piece (one .blank) :: ·)
  | none, '\\' :: c :: rest =>
    if CharSet.isMeta c then (tokens none rest).map (.piece (one (.letter c)) :: ·) else none
  | none, '|' :: rest => (tokens none rest).map (.bar :: ·)
  | none, '(' :: rest => (tokens none rest).map (.opening :: ·)
  | none, ')' :: rest => (tokens none rest).map (.closing :: ·)
  | none, '*' :: rest => (tokens none rest).map (.star :: ·)
  | none, '+' :: rest => (tokens none rest).map (.plus :: ·)
  | none, '?' :: rest => (tokens none rest).map (.opt :: ·)
  | none, c :: rest =>
    if CharSet.isMeta c then none else (tokens none rest).map (.piece (one (.letter c)) :: ·)

structure Group where
  choices : List Pattern
  pieces : List Pattern

def Group.close (g : Group) : Pattern :=
  match g.choices.reverse with
  | [] => seqs g.pieces.reverse
  | p :: ps => alts p (ps ++ [seqs g.pieces.reverse])

def assemble : List Group → Group → List Token → Option Pattern
  | [], g, [] => some g.close
  | _ :: _, _, [] => none
  | outer, ⟨choices, pieces⟩, .piece p :: rest => assemble outer ⟨choices, p :: pieces⟩ rest
  | outer, ⟨choices, pieces⟩, .bar :: rest =>
    assemble outer ⟨seqs pieces.reverse :: choices, []⟩ rest
  | outer, g, .opening :: rest => assemble (g :: outer) ⟨[], []⟩ rest
  | [], _, .closing :: _ => none
  | ⟨choices, pieces⟩ :: outer, g, .closing :: rest =>
    assemble outer ⟨choices, g.close :: pieces⟩ rest
  | outer, ⟨choices, p :: pieces⟩, .star :: rest => assemble outer ⟨choices, star p :: pieces⟩ rest
  | outer, ⟨choices, p :: pieces⟩, .plus :: rest => assemble outer ⟨choices, plus p :: pieces⟩ rest
  | outer, ⟨choices, p :: pieces⟩, .opt :: rest => assemble outer ⟨choices, opt p :: pieces⟩ rest
  | _, ⟨_, []⟩, .star :: _ => none
  | _, ⟨_, []⟩, .plus :: _ => none
  | _, ⟨_, []⟩, .opt :: _ => none

def read (text : String) : Option Pattern := (tokens none text.toList).bind (assemble [] ⟨[], []⟩)

end PushAudit.Pattern
