namespace PushAudit.Json

mutual

/-- The shapes of documents that are read: texts, values that may be null, lists, and records of
declared fields. -/
inductive Schema
  | text
  | optional (s : Schema)
  | list (s : Schema)
  | record (name : String) (fields : Fields)

/-- The declared fields of a record. One that is not required falls back to its type's default. -/
inductive Fields
  | none
  | field (name : String) (required : Bool) (type : Schema) (more : Fields)

end

mutual

def Schema.Val : Schema → Type
  | .text => String
  | .optional s => Option s.Val
  | .list s => List s.Val
  | .record _ fs => fs.Row

def Fields.Row : Fields → Type
  | .none => Unit
  | .field _ _ t more => t.Val × more.Row

end

mutual

def Schema.default : (t : Schema) → t.Val
  | .text => ("" : String)
  | .optional s => (Option.none : Option s.Val)
  | .list s => ([] : List s.Val)
  | .record _ fs => fs.defaults

def Fields.defaults : (fs : Fields) → fs.Row
  | .none => ()
  | .field _ _ t more => (t.default, more.defaults)

end

namespace Fields

def length : Fields → Nat
  | none => 0
  | field _ _ _ more => more.length + 1

/-- A row in the course of reading: for each field its value, if it has been seen. -/
def Slots : Fields → Type
  | none => Unit
  | field _ _ t more => Option t.Val × more.Slots

def noSlots : (fs : Fields) → fs.Slots
  | none => ()
  | field _ _ _ more => (Option.none, more.noSlots)

end Fields

end PushAudit.Json
