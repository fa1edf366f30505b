namespace PushAudit.Log

inductive Level
  | debug
  | info
  | warn
deriving DecidableEq, Repr

def Level.rank : Level → Nat
  | debug => 0
  | info => 1
  | warn => 2

def Level.name : Level → String
  | debug => "DEBUG"
  | info => "INFO"
  | warn => "WARN"

structure Entry where
  level : Level
  message : String
  fields : List (String × String)
deriving DecidableEq, Repr

def Entry.line (e : Entry) : String :=
  " ".intercalate (e.level.name :: e.message :: e.fields.map fun (name, value) => name ++ "=" ++ value)

def atLeast (level : Level) (entries : List Entry) : List Entry :=
  entries.filter fun e => level.rank ≤ e.level.rank

end PushAudit.Log
