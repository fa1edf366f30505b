import PushAudit.Yaml.Scalar

namespace PushAudit.Yaml

inductive Token
  | version (major minor : Nat)
  | tagDirective (handle address : String)
  | documentStart
  | documentEnd
  | blockSequence
  | blockMapping
  | blockEnd
  | flowSequence
  | flowSequenceEnd
  | flowMapping
  | flowMappingEnd
  | blockEntry
  | flowEntry
  | key
  | value
  | reference (name : String)
  | anchor (name : String)
  | tag (handle suffix : String)
  | scalar (text : String) (plain : Bool)
deriving DecidableEq, Repr

/-- A place where a key may have begun whose colon is still to come: the number of tokens before it
and its spot. A required one must turn out to be a key. -/
structure Candidate where
  tokens : Nat
  spot : Spot
  required : Bool
deriving DecidableEq, Repr

/-- A document in the course of being cut into tokens, which are kept in reverse. There is a place
for a candidate outside of all flow collections and in each of the open ones, the innermost first. -/
structure Scanner where
  rest : List Spot
  tokens : List Token
  indent : Int
  outer : List Int
  candidates : List (Option Candidate)
  keyAllowed : Bool

namespace Scanner

def start (s : List Spot) : Scanner := ⟨s, [], -1, [], [none], true⟩

def inFlow (st : Scanner) : Bool := 1 < st.candidates.length

def emit (st : Scanner) (t : Token) : Scanner := { st with tokens := t :: st.tokens }

def take (st : Scanner) (n : Nat) : Scanner := { st with rest := st.rest.drop n }

def insert (st : Scanner) (n : Nat) (t : Token) : Scanner :=
  let later := st.tokens.length - n
  { st with tokens := st.tokens.take later ++ t :: st.tokens.drop later }

def roll (st : Scanner) (column n : Nat) (t : Token) : Scanner :=
  if !st.inFlow && st.indent < column then
    { st.insert n t with indent := column, outer := st.indent :: st.outer }
  else st

def unrollTo (tokens : List Token) (column indent : Int) : List Int → List Token × Int × List Int
  | [] => (tokens, indent, [])
  | i :: outer =>
    if column < indent then unrollTo (.blockEnd :: tokens) column i outer else (tokens, indent, i :: outer)

def unroll (st : Scanner) (column : Int) : Scanner :=
  if st.inFlow then st
  else
    let (tokens, indent, outer) := unrollTo st.tokens column st.indent st.outer
    { st with tokens, indent, outer }

def isRequired : Option Candidate → Bool
  | some c => c.required
  | none => false

def dropCandidate (st : Scanner) : Option Scanner :=
  match st.candidates with
  | [] => some st
  | c :: outer => if isRequired c then none else some { st with candidates := none :: outer }

def saveCandidate (st : Scanner) (s : Spot) : Option Scanner :=
  if st.keyAllowed then do
    let st ← st.dropCandidate
    let c : Candidate := ⟨st.tokens.length, s, !st.inFlow && st.indent == (s.column : Int)⟩
    return { st with candidates := some c :: st.candidates.drop 1 }
  else some st

/-- A key is written on one line and not longer than 1024 characters. -/
def Candidate.isStale (c : Candidate) (s : Spot) : Bool :=
  c.spot.line < s.line || c.spot.index + 1024 < s.index

def dropStale (st : Scanner) (s : Spot) : Option Scanner := do
  let candidates ← st.candidates.mapM fun
    | some c => if Candidate.isStale c s then if c.required then none else some none else some (some c)
    | none => some none
  return { st with candidates }

/-- Skips blanks, comments and line breaks. A tab is skipped where no key may begin, and after a
line break outside of flow collections one may. -/
def skipGap (inFlow : Bool) (keyAllowed inComment : Bool) : List Spot → Bool × List Spot
  | [] => (keyAllowed, [])
  | s :: rest =>
    if s.isBreak then skipGap inFlow (keyAllowed || !inFlow) false rest
    else if inComment then skipGap inFlow keyAllowed true rest
    else if s.char == '\ufeff' && s.column == 0 then skipGap inFlow keyAllowed false rest
    else if s.char == ' ' || (s.char == '\t' && (inFlow || !keyAllowed)) then
      skipGap inFlow keyAllowed false rest
    else if s.char == '#' then skipGap inFlow keyAllowed true rest
    else (keyAllowed, s :: rest)

def leaveAll (st : Scanner) : Option Scanner := do
  let st ← (st.unroll (-1)).dropCandidate
  return { st with keyAllowed := false }

def documentMark (st : Scanner) (t : Token) : Option Scanner := do
  return (← st.leaveAll).take 3 |>.emit t

def isDigits (s : List Char) : Bool := !s.isEmpty && s.length ≤ 9 && s.all Char.isDigit

def number (s : List Char) : Nat := s.foldl (fun n c => n * 10 + (c.toNat - '0'.toNat)) 0

def isHandle (s : List Char) : Bool :=
  match s with
  | ['!'] => true
  | '!' :: rest => rest.getLast? == some '!' && rest.dropLast.all isNameChar
  | _ => false

def isAddressChar (c : Char) : Bool :=
  isNameChar c || ";/?:@&=+$.!~*'()%".toList.contains c

def isBracketed (c : Char) : Bool := isAddressChar c || c == ',' || c == '[' || c == ']'

def hexPair? (a b : Char) : Option Nat := do return (← hexValue? a) * 16 + (← hexValue? b)

def decodeEscapes : (left : Nat) → (code : Nat) → List Char → Option (List Char)
  | 0, _, '%' :: a :: b :: rest => do
    let n ← hexPair? a b
    if n < 0x80 then return Char.ofNat n :: (← decodeEscapes 0 0 rest)
    else if 0xC0 ≤ n ∧ n < 0xE0 then decodeEscapes 1 (n - 0xC0) rest
    else if 0xE0 ≤ n ∧ n < 0xF0 then decodeEscapes 2 (n - 0xE0) rest
    else if 0xF0 ≤ n ∧ n < 0xF8 then decodeEscapes 3 (n - 0xF0) rest
    else none
  | 0, _, '%' :: _ => none
  | 0, _, c :: rest => do return c :: (← decodeEscapes 0 0 rest)
  | 0, _, [] => some []
  | left + 1, code, '%' :: a :: b :: rest => do
    let n ← hexPair? a b
    let code := code * 64 + (n - 0x80)
    if n < 0x80 ∨ 0xC0 ≤ n then none
    else if left = 0 then return Char.ofNat code :: (← decodeEscapes 0 0 rest)
    else decodeEscapes left code rest
  | _ + 1, _, _ => none

def address? (s : List Char) : Option String := (decodeEscapes 0 0 s).map String.ofList

def directiveWords (line : List Char) : List (List Char) :=
  ((line.map fun c => if c = '\t' then ' ' else c).splitOn ' ').filter (!·.isEmpty)

def directive? (line : List Char) : Option Token :=
  let ws := directiveWords line
  match ws.takeWhile fun w => w.head? != some '#' with
  | [name, version] =>
    if name = "YAML".toList then
      match version.splitOn '.' with
      | [major, minor] =>
        if isDigits major && isDigits minor then some (.version (number major) (number minor)) else none
      | _ => none
    else none
  | [name, handle, address] =>
    if name = "TAG".toList ∧ isHandle handle ∧ address.all isBracketed then
      (address? address).map (.tagDirective (String.ofList handle))
    else none
  | _ => none

def scanDirective (st : Scanner) : Option Scanner := do
  let st ← st.leaveAll
  let line := (st.rest.drop 1).takeWhile (!·.isBreak)
  return (st.take (1 + line.length + 1)).emit (← directive? (chars line))

def endsName (s : List Spot) : Bool := atGap s || s.head?.any fun t => "?:,]\x7d%@\x60".toList.contains t.char

def scanName (st : Scanner) (s : Spot) (make : String → Token) : Option Scanner := do
  let st ← st.saveCandidate s
  let name := (chars (st.rest.drop 1)).takeWhile isNameChar
  let after := st.rest.drop (1 + name.length)
  if !name.isEmpty && endsName after then
    return { st with rest := after, keyAllowed := false }.emit (make (String.ofList name))
  else none

def tag? (s : List Char) : Option (Token × Nat) :=
  match s with
  | '<' :: rest =>
    let body := rest.takeWhile isBracketed
    if body.isEmpty || (rest.drop body.length).head? != some '>' then none
    else (address? body).map fun a => (.tag "" a, body.length + 3)
  | _ =>
    let name := s.takeWhile isNameChar
    if (s.drop name.length).head? = some '!' then
      let suffix := (s.drop (name.length + 1)).takeWhile isAddressChar
      if suffix.isEmpty then none
      else (address? suffix).map fun a =>
        (.tag (String.ofList ('!' :: name ++ ['!'])) a, name.length + 2 + suffix.length)
    else
      let suffix := s.takeWhile isAddressChar
      if suffix.isEmpty then some (.tag "" "!", 1)
      else (address? suffix).map fun a => (.tag "!" a, 1 + suffix.length)

def scanTag (st : Scanner) (s : Spot) : Option Scanner := do
  let st ← st.saveCandidate s
  let (t, n) ← tag? (chars (st.rest.drop 1))
  let after := st.rest.drop n
  if atGap after || (st.inFlow && after.head?.any (·.char == ',')) then
    return { st with rest := after, keyAllowed := false }.emit t
  else none

def openFlow (st : Scanner) (s : Spot) (t : Token) : Option Scanner := do
  let st ← st.saveCandidate s
  return { st.take 1 with candidates := none :: st.candidates, keyAllowed := true }.emit t

def closeFlow (st : Scanner) (t : Token) : Option Scanner := do
  let st ← st.dropCandidate
  let candidates := if st.inFlow then st.candidates.drop 1 else st.candidates
  return { st.take 1 with candidates, keyAllowed := false }.emit t

def flowEntry (st : Scanner) : Option Scanner := do
  return { (← st.dropCandidate).take 1 with keyAllowed := true }.emit .flowEntry

def blockEntry (st : Scanner) (s : Spot) : Option Scanner := do
  if !st.inFlow && !st.keyAllowed then none
  else
    let st ← (st.roll s.column st.tokens.length .blockSequence).dropCandidate
    return { st.take 1 with keyAllowed := true }.emit .blockEntry

def explicitKey (st : Scanner) (s : Spot) : Option Scanner := do
  if !st.inFlow && !st.keyAllowed then none
  else
    let st ← (st.roll s.column st.tokens.length .blockMapping).dropCandidate
    return { st.take 1 with keyAllowed := !st.inFlow }.emit .key

/-- A colon makes the candidate before it a key; without one it follows a key that has a mark of
its own. -/
def value (st : Scanner) (s : Spot) : Option Scanner :=
  match st.candidates with
  | some c :: outer =>
    let st := (st.insert c.tokens .key).roll c.spot.column c.tokens .blockMapping
    some ({ st.take 1 with candidates := none :: outer, keyAllowed := false }.emit .value)
  | _ =>
    if !st.inFlow && !st.keyAllowed then none
    else
      let st := st.roll s.column st.tokens.length .blockMapping
      some ({ st.take 1 with keyAllowed := !st.inFlow }.emit .value)

def scanBlock (st : Scanner) (folded : Bool) : Option Scanner := do
  let st ← st.dropCandidate
  let w ← readBlock folded st.indent (st.rest.drop 1)
  return { st with rest := w.rest, keyAllowed := true }.emit (.scalar w.text false)

def scanQuoted (st : Scanner) (s : Spot) (read : List Spot → Option Word) : Option Scanner := do
  let st ← st.saveCandidate s
  let w ← read (st.rest.drop 1)
  return { st with rest := w.rest, keyAllowed := false }.emit (.scalar w.text false)

def scanPlain (st : Scanner) (s : Spot) : Option Scanner := do
  let st ← st.saveCandidate s
  let w ← readPlain st.inFlow (st.indent + 1) [] .none st.rest
  return { st with rest := w.rest, keyAllowed := w.endsLine }.emit (.scalar w.text true)

def startsPlain (inFlow : Bool) (s : Spot) (rest : List Spot) : Bool :=
  !(s.isBlank || s.isBreak || "-?:,[]\x7b\x7d#&*!|>'\"%@\x60".toList.contains s.char) ||
    (s.char == '-' && !rest.head?.any (·.isBlank)) ||
    (!inFlow && (s.char == '?' || s.char == ':') && !atGap rest)

def scanToken (st : Scanner) (s : Spot) (rest : List Spot) : Option Scanner :=
  let c := s.char
  let inFlow := st.inFlow
  if c == '%' && s.column == 0 then st.scanDirective
  else if isMark '-' (s :: rest) then st.documentMark .documentStart
  else if isMark '.' (s :: rest) then st.documentMark .documentEnd
  else if c == '[' then st.openFlow s .flowSequence
  else if c == '\x7b' then st.openFlow s .flowMapping
  else if c == ']' then st.closeFlow .flowSequenceEnd
  else if c == '\x7d' then st.closeFlow .flowMappingEnd
  else if c == ',' then st.flowEntry
  else if c == '-' && atGap rest then st.blockEntry s
  else if c == '?' && (inFlow || atGap rest) then st.explicitKey s
  else if c == ':' && (inFlow || atGap rest) then st.value s
  else if c == '*' then st.scanName s .reference
  else if c == '&' then st.scanName s .anchor
  else if c == '!' then st.scanTag s
  else if c == '|' && !inFlow then st.scanBlock false
  else if c == '>' && !inFlow then st.scanBlock true
  else if c == '\'' then st.scanQuoted s (readSingle false [] .none)
  else if c == '"' then st.scanQuoted s (readDouble .outside [] .none)
  else if startsPlain inFlow s rest then st.scanPlain s
  else none

def run (st : Scanner) : Option (List Token) :=
  match skipGap st.inFlow st.keyAllowed false st.rest with
  | (_, []) => st.leaveAll.map (·.tokens.reverse)
  | (keyAllowed, s :: rest) =>
    match ({ st with rest := s :: rest, keyAllowed }.dropStale s).bind fun st =>
        (st.unroll s.column).scanToken s rest with
    | none => none
    | some next => if next.rest.length < st.rest.length then next.run else none
termination_by st.rest.length

end Scanner

def tokens (text : String) : Option (List Token) :=
  if text.toList.all isAllowed then (Scanner.start (spots text.toList)).run else none

end PushAudit.Yaml
