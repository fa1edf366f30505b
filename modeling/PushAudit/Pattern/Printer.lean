import PushAudit.Pattern.Basic

namespace PushAudit

def CharSet.isMeta (c : Char) : Bool := "\\.+*?()|[]\x7b\x7d^$".toList.contains c

def CharSet.print : CharSet → String
  | letter c => if isMeta c then "\\" ++ c.toString else c.toString
  | blank => "\\s"
  | anyOf cs => "[" ++ String.ofList cs ++ "]"
  | noneOf cs => "[^" ++ String.ofList cs ++ "]"

namespace Pattern

/-- How tightly the context of a pattern binds: parentheses stand around a looser one. -/
inductive Binding
  | choice
  | sequence
  | repetition
deriving DecidableEq, Repr

def grouped (needed : Bool) (s : String) : String := if needed then "(" ++ s ++ ")" else s

def printIn : Binding → Pattern → String
  | _, empty => ""
  | _, edge => "\\b"
  | _, one k => k.print
  | b, seq p q => grouped (b == .repetition) (printIn .sequence p ++ printIn .sequence q)
  | b, alt p q => grouped (b != .choice) (printIn .choice p ++ "|" ++ printIn .choice q)
  | _, star p => printIn .repetition p ++ "*"
  | _, plus p => printIn .repetition p ++ "+"
  | _, opt p => printIn .repetition p ++ "?"

def print (p : Pattern) : String := printIn .choice p

end Pattern

end PushAudit
