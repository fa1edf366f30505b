import PushAudit.Json.Typed
import PushAudit.Text.CharClass

namespace PushAudit.Push

structure Person where
  name : Option String
  login : Option String
deriving DecidableEq, Repr

structure Repository where
  name : String
  owner : Option Person
deriving DecidableEq, Repr

structure Commit where
  id : String
  message : String
  author : Option Person
deriving DecidableEq, Repr

structure Event where
  ref : String
  after : Option String
  pusher : Option Person
  repository : Repository
  commits : List Commit
  headCommit : Option Commit
deriving DecidableEq, Repr

/-- A file that a commit changes. Binary files and mere renames have no patch. -/
structure ChangedFile where
  name : String
  patch : Option String
deriving DecidableEq, Repr

structure Location where
  owner : String
  name : String
deriving DecidableEq, Repr

def Location.path (l : Location) : String := l.owner ++ "/" ++ l.name

/-- An owner goes by the login, else by the name. -/
def Repository.location (r : Repository) : Location where
  owner := (r.owner.bind fun p => p.login.or p.name).getD ""
  name := r.name

def Commit.authorName (c : Commit) : Option String :=
  (c.author.bind (·.name)).filter fun n => !Text.isBlankText n.toList

end PushAudit.Push
