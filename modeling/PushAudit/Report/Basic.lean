import PushAudit.Rule
import PushAudit.Diff.Fragment

namespace PushAudit

structure Counts where
  total : Nat
  high : Nat
  medium : Nat
  low : Nat
deriving DecidableEq, Repr

structure Report where
  violations : List Violation
  passed : Bool
  counts : Counts
  summary : String
deriving DecidableEq, Repr

namespace Counts

def ofViolations (vs : List Violation) : Counts where
  total := vs.length
  high := vs.countP (·.severity = .high)
  medium := vs.countP (·.severity = .medium)
  low := vs.countP (·.severity = .low)

end Counts

namespace Report

def passedSummary : String := "✅ All compliance checks passed!"

def failedSummary (c : Counts) : String :=
  "❌ Found " ++ toString c.total ++ " violation(s): " ++ toString c.high ++ " high, " ++
    toString c.medium ++ " medium, " ++ toString c.low ++ " low"

def ofViolations (vs : List Violation) : Report where
  violations := vs
  passed := vs.isEmpty
  counts := .ofViolations vs
  summary := if vs.isEmpty then passedSummary else failedSummary (.ofViolations vs)

def ofFragments (fs : List Fragment) : Report :=
  ofViolations (fs.flatMap fun f => Rule.violations f.file f.text)

end Report

end PushAudit
