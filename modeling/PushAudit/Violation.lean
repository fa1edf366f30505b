import PushAudit.Severity

namespace PushAudit

structure Violation where
  file : String
  issue : String
  severity : Severity
deriving DecidableEq, Repr

end PushAudit
