import PushAudit.Pattern.Basic

namespace PushAudit.Pattern

def matchesEmpty (atEdge : Bool) : Pattern → Bool
  | empty | star _ | opt _ => true
  | edge => atEdge
  | one _ => false
  | seq p q => p.matchesEmpty atEdge && q.matchesEmpty atEdge
  | alt p q => p.matchesEmpty atEdge || q.matchesEmpty atEdge
  | plus p => p.matchesEmpty atEdge

def followedBy (r q : Pattern) : Pattern := if r = empty then q else seq r q

/-- What may still follow once the pattern, begun at such a place, has taken one character. -/
def after (atEdge : Bool) (c : Char) : Pattern → List Pattern
  | empty | edge => []
  | one k => if k.admits c then [empty] else []
  | seq p q =>
    (p.after atEdge c).map (followedBy · q) ++
      if p.matchesEmpty atEdge then q.after atEdge c else []
  | alt p q => p.after atEdge c ++ q.after atEdge c
  | star p => (p.after atEdge c).map (followedBy · (star p))
  | plus p => (p.after atEdge c).map (followedBy · (star p))
  | opt p => p.after atEdge c

/-- Reads the text once. Besides what is left of the matches already begun, a match may begin at
every place, and the search ends where one of them needs no further character. -/
def search (p : Pattern) : Bool → List Pattern → List Char → Bool
  | wasWord, open_, [] => (p :: open_).any (matchesEmpty wasWord)
  | wasWord, open_, c :: rest =>
    let isWord := Text.isWord c
    let atEdge := wasWord != isWord
    (p :: open_).any (matchesEmpty atEdge) ||
      search p isWord ((p :: open_).flatMap (after atEdge c)).eraseDups rest

def occursIn (p : Pattern) (text : List Char) : Bool := search p false [] text

end PushAudit.Pattern
