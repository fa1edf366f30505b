import PushAudit.Text.Quoted

namespace PushAudit.Json

inductive Place
  | value
  | text
  | list
  | record
deriving DecidableEq, Repr

def Place.name : Place → String
  | value => "a value"
  | text => "a string"
  | list => "a list"
  | record => "an object"

inductive Found
  | null
  | bool (b : Bool)
  | integer (n : Int)
  | real (written : String)
  | text (s : String)
  | list
  | record
deriving DecidableEq, Repr

def Found.describe : Found → String
  | null => "null"
  | bool b => "boolean \x60" ++ toString b ++ "\x60"
  | integer n => "integer \x60" ++ toString n ++ "\x60"
  | real w => "floating point \x60" ++ w ++ "\x60"
  | text s => "string " ++ Text.quoted s
  | list => "sequence"
  | record => "map"

inductive Error
  | cutOff (place : Place)
  | noValue
  | badWord
  | noColon
  | noListComma
  | noRecordComma
  | keyNotText
  | trailingComma
  | trailingText
  | badEscape
  | controlInText
  | halfPair
  | loneSurrogate
  | badNumber
  | numberTooLarge
  | wrongType (found : Found) (expected : String)
  | duplicateField (name : String)
  | missingField (name : String)
  | wrongLength (length : Nat) (expected : String)
  | unknownVariant (name : String) (known : List String)
deriving DecidableEq, Repr

def inTicks (s : String) : String := "\x60" ++ s ++ "\x60"

/-- The text of an error, without the line and the column at which it was found. -/
def Error.message : Error → String
  | cutOff place => "EOF while parsing " ++ place.name
  | noValue => "expected value"
  | badWord => "expected ident"
  | noColon => "expected \x60:\x60"
  | noListComma => "expected \x60,\x60 or \x60]\x60"
  | noRecordComma => "expected \x60,\x60 or \x60\x7d\x60"
  | keyNotText => "key must be a string"
  | trailingComma => "trailing comma"
  | trailingText => "trailing characters"
  | badEscape => "invalid escape"
  | controlInText => "control character (\\u0000-\\u001F) found while parsing a string"
  | halfPair => "unexpected end of hex escape"
  | loneSurrogate => "lone leading surrogate in hex escape"
  | badNumber => "invalid number"
  | numberTooLarge => "number out of range"
  | wrongType found expected => "invalid type: " ++ found.describe ++ ", expected " ++ expected
  | duplicateField name => "duplicate field " ++ inTicks name
  | missingField name => "missing field " ++ inTicks name
  | wrongLength n expected => "invalid length " ++ toString n ++ ", expected " ++ expected
  | unknownVariant name known =>
    "unknown variant " ++ inTicks name ++ ", expected one of " ++ ", ".intercalate (known.map inTicks)

end PushAudit.Json
