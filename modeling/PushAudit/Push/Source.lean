import PushAudit.Failure
import PushAudit.Push.Document

namespace PushAudit.Push

def Event.ofFile (p : Path) : Attempt Event := do
  match ← Host.readText p with
  | .error why => throw (.unreadable p why)
  | .ok text =>
    match Event.parse text with
    | .error why => throw (.badEvent p why)
    | .ok e => return e

end PushAudit.Push
