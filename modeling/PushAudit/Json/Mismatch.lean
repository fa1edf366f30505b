import PushAudit.Json.Numeral

namespace PushAudit.Json

/-- The value at the front of a text as far as a message names it. Lists and records are not
read. -/
def foundAt : List Char → Except Error Found
  | [] => .error (.cutOff .value)
  | 'n' :: rest => (readWord "ull".toList rest).map fun _ => .null
  | 't' :: rest => (readWord "rue".toList rest).map fun _ => .bool true
  | 'f' :: rest => (readWord "alse".toList rest).map fun _ => .bool false
  | '"' :: rest => (readQuoted .checked rest).map (.text ·.value)
  | '[' :: _ => .ok .list
  | '\x7b' :: _ => .ok .record
  | c :: rest =>
    if c = '-' ∨ c.isDigit then
      match Numeral.scan (c :: rest) with
      | .ok (n, _) => n.found
      | .error .ended => .error (.cutOff .value)
      | .error .malformed => .error .badNumber
    else .error .noValue

def mismatch (expected : String) (s : List Char) : Error :=
  match foundAt s with
  | .ok found => .wrongType found expected
  | .error e => e

end PushAudit.Json
