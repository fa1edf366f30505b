import PushAudit.Host.Basic
import PushAudit.Push.Document

namespace PushAudit.Push

inductive FetchError
  | invalidId (id : String)
  | notFound (id : String) (p : Path)
  | malformed (id : String) (why : Json.Error)
  | unreadable (id : String) (why : Host.Fault)
deriving DecidableEq, Repr

def FetchError.message : FetchError → String
  | invalidId id => "commit id '" ++ id ++ "' is not a hex object id"
  | notFound id p => "commit '" ++ id ++ "' not found at " ++ p.text
  | malformed id why => "commit '" ++ id ++ "' details are malformed: " ++ why.message
  | unreadable id why => "reading commit '" ++ id ++ "' failed: " ++ why.message

abbrev Fetched := Except FetchError (List ChangedFile)

structure Query where
  repository : Location
  commit : String
deriving DecidableEq, Repr

abbrev Service : Surroundings := ⟨Query, fun _ => Fetched⟩

def isHex (c : Char) : Bool := c.isDigit || ('a' ≤ c && c ≤ 'f') || ('A' ≤ c && c ≤ 'F')

def isObjectId (id : String) : Bool := id != "" && id.toList.all isHex

/-- Looks a commit up in a directory that holds the details of each commit under its id. Only an
object id becomes part of a path. -/
def fetchFrom (dir : Path) (id : String) : Script Host Fetched :=
  if isObjectId id then do
    let p := dir.join ⟨id ++ ".json"⟩
    match ← Host.readText p with
    | .error .notFound => return .error (.notFound id p)
    | .error why => return .error (.unreadable id why)
    | .ok text => return (parseDetails text).mapError (.malformed id)
  else return .error (.invalidId id)

end PushAudit.Push
