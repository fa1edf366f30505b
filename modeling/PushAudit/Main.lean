import PushAudit.Command.Arguments
import PushAudit.Command.Run

namespace PushAudit.Main

open Host (Question Answer Fault Kind Listing)

def place (p : Path) : IO.FS.DirEntry := ⟨".", p.text⟩

def fault : IO.Error → Fault
  | .noFileOrDirectory _ _ _ => .notFound
  | .inappropriateType _ code message =>
    if code = 20 then .notDirectory else if code = 21 then .isDirectory else .other message
  | .invalidArgument _ code message => if code = 36 then .nameTooLong else .other message
  | e => .other (toString e)

def kindOf : IO.FS.FileType → Kind
  | .file => .file
  | .dir => .directory
  | _ => .other

def isSpelled (p : Path) : Bool := p.text != "" && !p.text.contains '\x00'

def lookUpKind (p : Path) : IO (Option Kind) := do
  if isSpelled p then
    try
      return some (kindOf (← (place p).path.metadata).type)
    catch _ => return none
  else return none

def readBytes (p : Path) : IO (Except Fault ByteArray) := do
  if p.text.contains '\x00' then return .error .nulInName
  if p.text = "" then return .error .notFound
  try
    return .ok (← IO.FS.readBinFile (place p).path)
  catch e => return .error (fault e)

def listEntries (p : Path) : IO (Option (List (String × Bool))) := do
  if isSpelled p then
    try
      let entries ← (place p).path.readDir
      return some (← entries.toList.mapM fun e => do
        return (e.fileName, (← lookUpKind (p.join ⟨e.fileName⟩)) == some .directory))
    catch _ => return none
  else return none

partial def listSubtree (p : Path) : IO (Option (List Listing)) := do
  match ← listEntries p with
  | none => return none
  | some entries =>
    return some (← entries.mapM fun (name, isDirectory) => do
      if isDirectory then return .directory name ((← listSubtree (p.join ⟨name⟩)).getD [])
      else return .file name)

def readInput : IO (Except Fault ByteArray) := do
  try
    return .ok (← (← IO.getStdin).readBinToEnd)
  catch e => return .error (fault e)

def answer : (q : Question) → IO (Answer q)
  | .kind p => lookUpKind p
  | .read p => readBytes p
  | .entries p => listEntries p
  | .subtree p => listSubtree p
  | .input => readInput

def writeLog (level : Log.Level) (e : Log.Entry) : IO Unit := do
  for shown in Log.atLeast level [e] do IO.eprintln shown.line

def carryOut (color : Bool) (i : Invocation) : IO UInt32 := do
  let ending ← (i.run color).runM answer (writeLog i.level)
  IO.print ending.printed.out
  IO.eprint ending.printed.err
  return ending.code.toUInt32

def usageText : String :=
  "usage: pushcheck [-v|--verbose] [--debug] <command>\n\n" ++
  "  version\n" ++
  "  rules [--output human|json]\n" ++
  "  scan [--name NAME] [--repo-root DIR] [--output human|json] [PATTERN...]\n" ++
  "  push --event FILE [--commits-dir DIR] [--repo-root DIR] [--output human|json]\n"

def explain (color : Bool) (u : Usage) : IO UInt32 := do
  match u with
  | .version => IO.println ("pushcheck " ++ Command.programVersion)
  | .help => IO.print usageText
  | _ => IO.eprint (Console.errorTag color ++ " " ++ u.name ++ "\n\n" ++ usageText)
  return u.exitCode.toUInt32

end PushAudit.Main

def main (args : List String) : IO UInt32 := do
  let color := (← IO.getEnv "NO_COLOR").isNone
  match PushAudit.Command.read args with
  | .ok i => PushAudit.Main.carryOut color i
  | .error u => PushAudit.Main.explain color u
