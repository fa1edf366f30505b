import PushAudit.Json.Typed

namespace PushAudit.Json

def readName (known : List String) : Reader String := fun s =>
  match skipSpace s with
  | [] => .error (.cutOff .value)
  | '"' :: _ => do
    let t ← readText s
    if t.value ∈ known then return t else .error (.unknownVariant t.value known)
  | '\x7d' :: _ => .error .noValue
  | _ => .error .keyNotText

/-- One of some names, alone or as the only key of a record whose value is null. -/
def readVariant (known : List String) : Reader String := fun s =>
  match h : skipSpace s with
  | [] => .error (.cutOff .value)
  | '"' :: _ => readName known s
  | '\x7b' :: rest => do
    let name ← readName known rest
    let colon ← takeColon name.rest
    let null ← readNull colon.rest
    match h' : skipSpace null.rest with
    | [] => .error (.cutOff .record)
    | '\x7d' :: after => .ok ⟨name.value, after, by
        have := skipSpace_cons h; have := skipSpace_cons h'
        have := null.shorter; have := colon.shorter; have := name.shorter
        omega⟩
    | _ => .error .noValue
  | _ => .error .noValue

end PushAudit.Json
