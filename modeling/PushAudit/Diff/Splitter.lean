import PushAudit.Diff.Fragment
import PushAudit.Text.CharClass
import PushAudit.Text.Lines

namespace PushAudit.Diff

def headerMark : List Char := "diff --git ".toList

def newSideMark : List Char := "+++ ".toList

def hunkMark : List Char := "@@".toList

def afterMark? (mark line : List Char) : Option (List Char) :=
  if mark.isPrefixOf line then some (line.drop mark.length) else none

def afterFirst? (mark : List Char) : List Char → Option (List Char)
  | [] => afterMark? mark []
  | c :: rest => (afterMark? mark (c :: rest)).or (afterFirst? mark rest)

def headerName? (line : List Char) : Option (List Char) :=
  (afterMark? headerMark line).bind (afterFirst? " b/".toList)

/-- The name that the new side of a file goes by; a deleted file has none there. -/
def sideName? (side : List Char) : Option (List Char) :=
  let path := Text.trimEnd side
  if path = "/dev/null".toList then none else some ((afterMark? "b/".toList path).getD path)

/-- A file section in the course of reading; its hunk lines are kept in reverse. -/
structure OpenSection where
  name : Option (List Char)
  hunkLines : List (List Char)
deriving DecidableEq, Repr

def OpenSection.begin (header : List Char) : OpenSection := ⟨headerName? header, []⟩

/-- Once the first hunk has begun every line belongs to it; before that only the new side's name
matters. -/
def OpenSection.push (s : OpenSection) (line : List Char) : OpenSection :=
  if s.hunkLines.isEmpty then
    match afterMark? newSideMark line with
    | some side => { s with name := (sideName? side).or s.name }
    | none => if hunkMark.isPrefixOf line then { s with hunkLines := [line] } else s
  else { s with hunkLines := line :: s.hunkLines }

def OpenSection.close (s : OpenSection) : Option Fragment :=
  if s.hunkLines.isEmpty then none
  else s.name.map fun name => ⟨String.ofList name, String.ofList (Text.unlines s.hunkLines.reverse)⟩

structure State where
  current : Option OpenSection
  closed : List Fragment
deriving DecidableEq, Repr

def State.flush (st : State) : List Fragment :=
  (st.current.bind OpenSection.close).toList ++ st.closed

def State.push (st : State) (line : List Char) : State :=
  if headerMark.isPrefixOf line then ⟨some (.begin line), st.flush⟩
  else { st with current := st.current.map (·.push line) }

def ofLines (ls : List (List Char)) : List Fragment := (ls.foldl State.push ⟨none, []⟩).flush.reverse

def hasHeader (ls : List (List Char)) : Bool := ls.any headerMark.isPrefixOf

/-- The fragments of a text. One without a header line is a single fragment under the fallback
name, or none if it is blank. -/
def fragments (text fallback : String) : List Fragment :=
  let ls := Text.lines text.toList
  if hasHeader ls then ofLines ls
  else if Text.isBlankText text.toList then []
  else [⟨fallback, text⟩]

end PushAudit.Diff
