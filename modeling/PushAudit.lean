import PushAudit.Host.FileTree
import PushAudit.Main
import PushAudit.Severity.Document
import PushAudit.Proofs.Push.Findings
import PushAudit.Proofs.Push.Audit
import PushAudit.Proofs.Pattern.Language
import PushAudit.Proofs.Pattern.Search
import PushAudit.Proofs.Pattern.Reader
import PushAudit.Proofs.Rule.Detection
import PushAudit.Proofs.Diff.Printout
import PushAudit.Proofs.Pattern.Context
import PushAudit.Proofs.Pattern.Returns
import PushAudit.Proofs.Rule.Blocks
import PushAudit.Proofs.Report.Coverage
import PushAudit.Proofs.Diff.Hunks
import PushAudit.Proofs.Report.Grouping
import PushAudit.Proofs.Report.Layout
import PushAudit.Proofs.Report.Heading
import PushAudit.Proofs.Report.Draft
import PushAudit.Proofs.Script.Value
import PushAudit.Proofs.Diff.Source
import PushAudit.Proofs.Push.Source
import PushAudit.Proofs.Command.Verdict
import PushAudit.Proofs.Push.Document
import PushAudit.Proofs.Push.Confinement
import PushAudit.Proofs.Diff.Matched
import PushAudit.Proofs.Command.Written
import PushAudit.Proofs.Console.Document
import PushAudit.Proofs.Settings
import PushAudit.Proofs.Config.Root
import PushAudit.Proofs.Config.Entries
import PushAudit.Proofs.Diff.Deletion
import PushAudit.Proofs.Push.Reordered
import PushAudit.Proofs.Push.Isolation
import PushAudit.Proofs.Console.Color
import PushAudit.Proofs.Diff.Loading
import PushAudit.Proofs.Diff.Splitting
import PushAudit.Proofs.Diff.Sectioning
import PushAudit.Proofs.Rule.Assignment
import PushAudit.Proofs.Rule.WholeWords
import PushAudit.Proofs.Rule.Folding
import PushAudit.Proofs.Report.Reread
import PushAudit.Proofs.Report.Tally
