namespace PushAudit

/-- A JSON document. A number is kept as it is written; a record keeps its fields in order. -/
inductive Json
  | null
  | bool (b : Bool)
  | number (written : String)
  | text (s : String)
  | list (items : List Json)
  | record (fields : List (String × Json))

namespace Json

def nat (n : Nat) : Json := number (toString n)

def texts (ss : List String) : Json := list (ss.map text)

end Json

end PushAudit
