import PushAudit.Path
import PushAudit.Script

namespace PushAudit.Host

inductive Fault
  | notFound
  | notDirectory
  | isDirectory
  | nameTooLong
  | nulInName
  | notUtf8
  | other (message : String)
deriving DecidableEq, Repr

def Fault.message : Fault → String
  | notFound => "No such file or directory (os error 2)"
  | notDirectory => "Not a directory (os error 20)"
  | isDirectory => "Is a directory (os error 21)"
  | nameTooLong => "File name too long (os error 36)"
  | nulInName => "file name contained an unexpected NUL byte"
  | notUtf8 => "stream did not contain valid UTF-8"
  | other message => message

inductive Kind
  | file
  | directory
  | other
deriving DecidableEq, Repr

inductive Listing
  | file (name : String)
  | directory (name : String) (entries : List Listing)

inductive Question
  | kind (p : Path)
  | read (p : Path)
  | entries (p : Path)
  | subtree (p : Path)
  | input
deriving DecidableEq, Repr

/-- A kind is known of what exists; entries are listed of a directory, each with whether it is one
itself. -/
def Answer : Question → Type
  | .kind _ => Option Kind
  | .read _ => Except Fault ByteArray
  | .entries _ => Option (List (String × Bool))
  | .subtree _ => Option (List Listing)
  | .input => Except Fault ByteArray

end Host

abbrev Host : Surroundings := ⟨Host.Question, Host.Answer⟩

namespace Host

def kind (p : Path) : Script Host (Option Kind) := Script.question (S := Host) (.kind p)

def exists_ (p : Path) : Script Host Bool := do return (← kind p).isSome

def isDirectory (p : Path) : Script Host Bool := do return (← kind p) == some .directory

def isFile (p : Path) : Script Host Bool := do return (← kind p) == some .file

def entries (p : Path) : Script Host (Option (List (String × Bool))) :=
  Script.question (S := Host) (.entries p)

def subtree (p : Path) : Script Host (Option (List Listing)) := Script.question (S := Host) (.subtree p)

def decode (bytes : ByteArray) : Except Fault String :=
  match String.fromUTF8? bytes with
  | some s => .ok s
  | none => .error .notUtf8

def readText (p : Path) : Script Host (Except Fault String) := do
  let bytes ← Script.question (S := Host) (.read p)
  return bytes.bind decode

def inputText : Script Host (Except Fault String) := do
  let bytes ← Script.question (S := Host) .input
  return bytes.bind decode

end PushAudit.Host
