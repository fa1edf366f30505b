import PushAudit.Glob.Pattern
import PushAudit.Host.Basic
import PushAudit.Json.Error

namespace PushAudit

inductive Failure
  | unreadable (p : Path) (why : Host.Fault)
  | badEvent (p : Path) (why : Json.Error)
  | badPattern (pattern : String) (why : Glob.Error)
  | noMatch (pattern : String)
deriving DecidableEq, Repr

def Failure.message : Failure → String
  | unreadable p why => "cannot read " ++ p.text ++ ": " ++ why.message
  | badEvent p why => "push event " ++ p.text ++ " is not valid JSON: " ++ why.message
  | badPattern pattern why => "invalid glob pattern '" ++ pattern ++ "': " ++ why.message
  | noMatch pattern => "pattern '" ++ pattern ++ "' matched no files"

abbrev Attempt (α : Type) := ExceptT Failure (Script Host) α

end PushAudit
