import PushAudit.Console.Style
import PushAudit.Push.Outcome

namespace PushAudit.Console

def severityColor : Severity → Color
  | .high => .red
  | .medium => .yellow
  | .low => .blue

def severityTag (color : Bool) (s : Severity) : String :=
  styled color (fun t => bold ((severityColor s).paint t)) ("⟦" ++ s.name ++ "⟧")

def severityIcon (color : Bool) (s : Severity) : String :=
  styled color (severityColor s).paint (match s with | .high => "✖" | .medium => "▲" | .low => "◆")

def line (s : String) : String := s ++ "\n"

def output (s : String) : Printed := ⟨s, ""⟩

def documentLine (j : Json) : Printed := output (line j.print)

def violationLine (color : Bool) (v : Violation) : String :=
  line (severityIcon color v.severity ++ " " ++ severityTag color v.severity ++ " " ++
    styled color bold v.file ++ " — " ++ v.issue)

def summaryLine (color : Bool) (r : Report) (files : Nat) : String :=
  line (styled color bold ("— Summary — " ++ r.summary ++ " files=" ++ toString files))

def printReport (color : Bool) (f : Format) (r : Report) (files : Nat) : Printed :=
  match f with
  | .json => documentLine (r.document files)
  | .human =>
    let color := usesColor color f
    output (String.join (r.violations.map (violationLine color)) ++ summaryLine color r files)

def failedLine (color : Bool) (failed : List String) : String :=
  if failed.isEmpty then ""
  else line (styled color Color.yellow.paint ("skipped commits: " ++ ", ".intercalate failed))

def printOutcome (color : Bool) (f : Format) (o : Push.Outcome) : Printed :=
  match f with
  | .json => documentLine o.document
  | .human =>
    let color := usesColor color f
    output (line (styled color bold o.issue.title) ++
      line ("labels: " ++ ", ".intercalate o.issue.labels) ++ failedLine color o.failed ++ line "" ++
      o.issue.body)

def printSkipped (color : Bool) (f : Format) (ref : String) (branches : List String) : Printed :=
  match f with
  | .json => documentLine (Push.skippedDocument ref branches)
  | .human =>
    ⟨"", line (noteTag color ++ " Push to '" ++ ref ++ "' skipped; watched branches: " ++
      ", ".intercalate branches)⟩

def ruleLine (color : Bool) (number : Nat) (r : Rule) : String :=
  let n := toString number
  line ("".pushn ' ' (2 - n.length) ++ n ++ ". " ++ severityTag color r.severity ++ " " ++ r.id ++ " — " ++ r.issue)

def printRules (color : Bool) (f : Format) (rules : List Rule) : Printed :=
  match f with
  | .json => documentLine (.list (rules.map Rule.document))
  | .human =>
    let color := usesColor color f
    output (String.join (rules.zipIdx.map fun (r, i) => ruleLine color (i + 1) r))

end PushAudit.Console
