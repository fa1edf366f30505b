import PushAudit.Command.Basic

namespace PushAudit.Command

inductive Argument
  | escape
  | long (name : String) (value : Option String)
  | short (letters : List Char)
  | plain (s : String)
deriving DecidableEq, Repr

def Argument.ofString (s : String) : Argument :=
  match s.toList with
  | ['-', '-'] => escape
  | '-' :: '-' :: rest =>
    let name := rest.takeWhile (· ≠ '=')
    long (String.ofList name) ((rest.drop name.length).tail?.map String.ofList)
  | '-' :: c :: rest => short (c :: rest)
  | _ => plain s

structure Flags where
  verbose : Bool
  debug : Bool
deriving DecidableEq, Repr

namespace Flags

def none : Flags := ⟨false, false⟩

def union (a b : Flags) : Flags := ⟨a.verbose || b.verbose, a.debug || b.debug⟩

def setVerbose (f : Flags) : Except Usage Flags :=
  if f.verbose then .error .conflict else .ok { f with verbose := true }

def setDebug (f : Flags) : Except Usage Flags :=
  if f.debug then .error .conflict else .ok { f with debug := true }

def long? (top : Bool) (f : Flags) (name : String) : Option (Except Usage Flags) :=
  if name = "verbose" then some f.setVerbose
  else if name = "debug" then some f.setDebug
  else if name = "help" then some (.error .help)
  else if name = "version" ∧ top then some (.error .version)
  else Option.none

def short (top : Bool) (f : Flags) (letter : Char) : Except Usage Flags :=
  if letter = 'v' then f.setVerbose
  else if letter = 'h' then .error .help
  else if letter = 'V' ∧ top then .error .version
  else .error .unknownArgument

def isShort (top : Bool) (letter : Char) : Bool := letter == 'v' || letter == 'h' || (letter == 'V' && top)

end Flags

structure Form where
  options : List String
  takesPlain : Bool
deriving DecidableEq, Repr

/-- The arguments of a command read so far. An option is settled when the argument after its value
is read; `pending` is one that is not. -/
structure State where
  flags : Flags
  options : List (String × String)
  plain : List String
  pending : Option (String × Option String)
deriving DecidableEq, Repr

namespace State

def start : State := ⟨.none, [], [], none⟩

def add (st : State) (name value : String) : Except Usage State :=
  if st.options.any (·.1 == name) then .error .conflict
  else .ok { st with options := st.options ++ [(name, value)], pending := none }

def settle (st : State) : Except Usage State :=
  match st.pending with
  | none => .ok st
  | some (_, none) => .error .noValue
  | some (name, some value) => st.add name value

def addPlain (form : Form) (st : State) (s : String) : Except Usage State :=
  if form.takesPlain then do
    let st ← st.settle
    return { st with plain := st.plain ++ [s] }
  else .error .unknownArgument

def long (form : Form) (st : State) (name : String) (value : Option String) : Except Usage State :=
  if form.options.contains name then do
    let st ← st.settle
    match value with
    | some v => st.add name v
    | none => return { st with pending := some (name, none) }
  else
    match st.flags.long? false name with
    | none => .error .unknownArgument
    | some flags =>
      if value.isSome then .error .unwantedValue
      else do
        let st ← st.settle
        return { st with flags := ← flags }

def short (st : State) : List Char → Except Usage State
  | [] => .ok st
  | c :: cs =>
    if Flags.isShort false c then do
      let st ← st.settle
      let flags ← st.flags.short false c
      { st with flags }.short cs
    else .error .unknownArgument

def plainArgument (form : Form) (st : State) (s : String) : Except Usage State :=
  match st.pending with
  | some (name, none) => .ok { st with pending := some (name, some s) }
  | _ => st.addPlain form s

end State

def readOptions (form : Form) (st : State) : List String → Except Usage State
  | [] => st.settle
  | s :: rest =>
    match Argument.ofString s with
    | .escape => do (← rest.foldlM (·.addPlain form ·) st).settle
    | .long name value => do readOptions form (← st.long form name value) rest
    | .short letters => do readOptions form (← st.short letters) rest
    | .plain s => do readOptions form (← st.plainArgument form s) rest

namespace State

def option? (st : State) (name : String) : Option String :=
  (st.options.find? (·.1 == name)).map (·.2)

end State

def rulesForm : Form := ⟨["output"], false⟩

def scanForm : Form := ⟨["name", "repo-root", "output"], true⟩

def pushForm : Form := ⟨["event", "commits-dir", "repo-root", "output"], false⟩

def forms : List (String × Form × (State → Except Usage Command)) := [
  ("version", ⟨[], false⟩, fun _ => .ok .version),
  ("rules", rulesForm, fun st => .ok (.rules (st.option? "output"))),
  ("scan", scanForm, fun st =>
    .ok (.scan st.plain (st.option? "name") (st.option? "repo-root") (st.option? "output"))),
  ("push", pushForm, fun st =>
    match st.option? "event" with
    | some event => .ok (.push event (st.option? "commits-dir") (st.option? "repo-root") (st.option? "output"))
    | none => .error .noRequired)]

def isCommandName (s : String) : Bool := s == "help" || forms.any (·.1 == s)

def helpOn : List String → Usage
  | [] => .help
  | [s] => if isCommandName s then .help else .badSubcommand
  | _ => .badSubcommand

def nothing (flags : Flags) : Usage := if flags = .none then .helpOnNothing else .noSubcommand

/-- After an escape no command can follow. -/
def afterEscape (flags : Flags) : List String → Usage
  | [] => nothing flags
  | s :: _ => if isCommandName s then .unknownArgument else .badSubcommand

/-- Reads arguments from left to right up to the command and hands on to the command's form. -/
def readFrom (flags : Flags) : List String → Except Usage Invocation
  | [] => .error (nothing flags)
  | s :: rest =>
    if s = "help" then .error (helpOn rest)
    else
      match forms.find? (·.1 == s) with
      | some (_, form, make) => do
        let st ← readOptions form .start rest
        let all := flags.union st.flags
        return ⟨all.verbose, all.debug, ← make st⟩
      | none =>
        match Argument.ofString s with
        | .escape => .error (afterEscape flags rest)
        | .plain _ => .error .badSubcommand
        | .short letters => do readFrom (← letters.foldlM (Flags.short true) flags) rest
        | .long name value =>
          match flags.long? true name with
          | none => .error .unknownArgument
          | some set => if value.isSome then .error .unwantedValue else do readFrom (← set) rest

def read (args : List String) : Except Usage Invocation := readFrom .none args

end PushAudit.Command
