import PushAudit.Json.Value

namespace PushAudit.Json

def hexDigit (n : Nat) : Char := (Nat.toDigits 16 n).headD '0'

def escapeChar (c : Char) : List Char :=
  if c = '"' then ['\\', '"']
  else if c = '\\' then ['\\', '\\']
  else if c = '\n' then ['\\', 'n']
  else if c = '\r' then ['\\', 'r']
  else if c = '\t' then ['\\', 't']
  else if c = '\x08' then ['\\', 'b']
  else if c = '\x0c' then ['\\', 'f']
  else if c.toNat < 0x20 then ['\\', 'u', '0', '0', hexDigit (c.toNat / 16), hexDigit (c.toNat % 16)]
  else [c]

def printText (s : String) : String := "\"" ++ String.ofList (s.toList.flatMap escapeChar) ++ "\""

def newLine (level : Nat) : String := "\n" ++ "".pushn ' ' (2 * level)

/-- Items on lines of their own, one level further in; nothing between the brackets if there is
no item. -/
def block (opening closing : String) (level : Nat) (items : List String) : String :=
  if items.isEmpty then opening ++ closing
  else
    opening ++ newLine (level + 1) ++ ("," ++ newLine (level + 1)).intercalate items ++
      newLine level ++ closing

mutual

def printAt (level : Nat) : Json → String
  | null => "null"
  | bool b => toString b
  | number w => w
  | text s => printText s
  | list items => block "[" "]" level (printItems (level + 1) items)
  | record fields => block "\x7b" "\x7d" level (printFields (level + 1) fields)

def printItems (level : Nat) : List Json → List String
  | [] => []
  | v :: vs => printAt level v :: printItems level vs

def printFields (level : Nat) : List (String × Json) → List String
  | [] => []
  | (name, v) :: fs => (printText name ++ ": " ++ printAt level v) :: printFields level fs

end

def print (j : Json) : String := printAt 0 j

end PushAudit.Json
