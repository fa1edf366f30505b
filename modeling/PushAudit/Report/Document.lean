import PushAudit.Json.Printer
import PushAudit.Report.Basic
import PushAudit.Pattern.Printer

namespace PushAudit

open Json (nat text list record bool)

def Counts.document (c : Counts) : Json :=
  record [("total", nat c.total), ("high", nat c.high), ("medium", nat c.medium), ("low", nat c.low)]

def Violation.document (v : Violation) : Json :=
  record [("file", text v.file), ("issue", text v.issue), ("severity", text v.severity.name)]

def Report.document (r : Report) (files : Nat) : Json :=
  record [("passed", bool r.passed), ("summary", text r.summary), ("counts", r.counts.document),
    ("files", nat files), ("violations", list (r.violations.map Violation.document))]

def Rule.document (r : Rule) : Json :=
  record [("id", text r.id), ("issue", text r.issue), ("severity", text r.severity.name),
    ("pattern", text r.pattern.print)]

end PushAudit
