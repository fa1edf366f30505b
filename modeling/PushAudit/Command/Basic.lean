namespace PushAudit

inductive Command
  | version
  | rules (output : Option String)
  | scan (patterns : List String) (name repoRoot output : Option String)
  | push (event : String) (commitsDir repoRoot output : Option String)
deriving DecidableEq, Repr

structure Invocation where
  verbose : Bool
  debug : Bool
  command : Command
deriving DecidableEq, Repr

inductive Usage
  | help
  | version
  | helpOnNothing
  | noSubcommand
  | badSubcommand
  | unknownArgument
  | noValue
  | conflict
  | unwantedValue
  | noRequired
deriving DecidableEq, Repr

namespace Usage

def name : Usage → String
  | help => "DisplayHelp"
  | version => "DisplayVersion"
  | helpOnNothing => "DisplayHelpOnMissingArgumentOrSubcommand"
  | noSubcommand => "MissingSubcommand"
  | badSubcommand => "InvalidSubcommand"
  | unknownArgument => "UnknownArgument"
  | noValue => "InvalidValue"
  | conflict => "ArgumentConflict"
  | unwantedValue => "TooManyValues"
  | noRequired => "MissingRequiredArgument"

/-- Help and version that were asked for are no failure. -/
def exitCode : Usage → Nat
  | help | version => 0
  | _ => 2

end Usage

end PushAudit
