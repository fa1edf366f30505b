import PushAudit.Command.Basic
import PushAudit.Console.Print
import PushAudit.Diff.Source
import PushAudit.Push.Source
import PushAudit.Settings

namespace PushAudit

open Console (Printed Format)

structure Ending where
  code : Nat
  printed : Printed
deriving DecidableEq, Repr

namespace Ending

def ofVerdict (passed : Bool) (printed : Printed) : Ending := ⟨if passed then 0 else 1, printed⟩

def failed (color : Bool) (why : Failure) : Ending :=
  ⟨2, ⟨"", Console.line (Console.errorTag color ++ " " ++ why.message)⟩⟩

end Ending

namespace Command

def programVersion : String := "0.1.0"

def runRules (color : Bool) (output : Option String) : Script Host Ending := do
  let s ← Settings.resolve ⟨none, output, none⟩
  return ⟨0, Console.printRules color (.ofName s.output) Rule.catalog⟩

def scanned (color : Bool) (f : Format) (fs : List Fragment) : Ending :=
  let r := Report.ofFragments fs
  .ofVerdict r.passed (Console.printReport color f r fs.length)

def runScan (color : Bool) (patterns : List String) (name repoRoot output : Option String) :
    Script Host Ending := do
  let s ← Settings.resolve ⟨repoRoot, output, none⟩
  match ← (Diff.ofArguments s.root patterns name).run with
  | .error why => return .failed color why
  | .ok fs => return scanned color (.ofName s.output) fs

/-- A push to a branch that is not watched is no failure. -/
def audited (color : Bool) (s : Settings) (e : Push.Event) : Option Push.Outcome → Ending
  | some o => .ofVerdict o.report.passed (Console.printOutcome color (.ofName s.output) o)
  | none => ⟨0, Console.printSkipped color (.ofName s.output) e.ref s.branches⟩

def runPush (color : Bool) (event : String) (commitsDir repoRoot output : Option String) :
    Script Host Ending := do
  let s ← Settings.resolve ⟨repoRoot, output, commitsDir⟩
  match ← (Push.Event.ofFile ⟨event⟩).run with
  | .error why => return .failed color why
  | .ok e =>
    Script.log .debug "using commit details directory" [("dir", s.commitsDir.text)]
    return audited color s e (← Push.auditFrom s.commitsDir e s.branches s.unknownAuthor)

def run (color : Bool) : Command → Script Host Ending
  | version => return ⟨0, Console.output (Console.line programVersion)⟩
  | rules output => runRules color output
  | scan patterns name repoRoot output => runScan color patterns name repoRoot output
  | push event commitsDir repoRoot output => runPush color event commitsDir repoRoot output

end Command

namespace Invocation

def level (i : Invocation) : Log.Level := if i.debug then .debug else if i.verbose then .info else .warn

def levelName : Log.Level → String
  | .debug => "debug"
  | .info => "info"
  | .warn => "warn"

def run (color : Bool) (i : Invocation) : Script Host Ending := do
  Script.log .debug ("Logging initialized at level: " ++ levelName i.level) []
  i.command.run color

end Invocation

end PushAudit
