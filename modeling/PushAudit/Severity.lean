namespace PushAudit

inductive Severity
  | low
  | medium
  | high
deriving DecidableEq, Repr

namespace Severity

def name : Severity → String
  | low => "low"
  | medium => "medium"
  | high => "high"

def label : Severity → String
  | low => "LOW"
  | medium => "MEDIUM"
  | high => "HIGH"

def glyph : Severity → String
  | low => "🔵"
  | medium => "🟡"
  | high => "🔴"

def rank : Severity → Nat
  | low => 0
  | medium => 1
  | high => 2

instance : Ord Severity := ⟨fun a b => compare a.rank b.rank⟩

def all : List Severity := [low, medium, high]

def ofName? (s : String) : Option Severity := all.find? (·.name == s)

end Severity

end PushAudit
