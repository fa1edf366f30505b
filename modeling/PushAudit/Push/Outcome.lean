import PushAudit.Push.Audit
import PushAudit.Report.Document

namespace PushAudit.Push

open Json (text texts list record bool)

def Outcome.document (o : Outcome) : Json :=
  record [("repository", text o.repository.path), ("title", text o.issue.title), ("body", text o.issue.body),
    ("labels", texts o.issue.labels), ("passed", bool o.report.passed),
    ("counts", o.report.counts.document), ("violations", list (o.report.violations.map Violation.document)),
    ("failed_commits", texts o.failed)]

def skippedDocument (ref : String) (branches : List String) : Json :=
  record [("skipped", bool true), ("ref", text ref), ("branches", texts branches)]

end PushAudit.Push
