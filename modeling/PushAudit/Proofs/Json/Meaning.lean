import Mathlib.Data.List.Forall2
import PushAudit.Json.Schema
import PushAudit.Proofs.Json.Grammar

namespace PushAudit.Json

variable {α : Type}

/-! What a document means as a value of some type. -/

inductive Tree.IsText : Tree → String → Prop
  | mk {ls : List Letter} {text : String} (h : Spells ls text.toList) : IsText (.text ls) text

inductive Tree.IsNullable (means : Tree → α → Prop) : Tree → Option α → Prop
  | null : IsNullable means .null none
  | some {d : Tree} {a : α} (hnull : d ≠ .null) (h : means d a) : IsNullable means d (some a)

inductive Tree.IsList (means : Tree → α → Prop) : Tree → List α → Prop
  | mk {ds : List Tree} {as : List α} (h : List.Forall₂ means ds as) : IsList means (.list ds) as

def Named (fs : List (List Letter × Tree)) (named : List (String × Tree)) : Prop :=
  List.Forall₂ (fun f g => Spells f.1 g.1.toList ∧ f.2 = g.2) fs named

def valuesUnder (named : List (String × Tree)) (name : String) : List Tree :=
  (named.filter (·.1 = name)).map (·.2)

/-- The values that a document has for declared fields: in a record those under their keys, in a list
the one at their place. Under other keys a record may have anything, a list has no other items. -/
inductive Tree.Provides (names : List String) : Tree → (String → List Tree) → Prop
  | record {fs : List (List Letter × Tree)} {named : List (String × Tree)} (h : Named fs named) :
      Provides names (.record fs) (valuesUnder named)
  | list {ds : List Tree} (h : ds.length ≤ names.length) :
      Provides names (.list ds) fun name => ds[names.idxOf name]?.toList

/-- A field that must be there, and only once. -/
inductive Required (means : Tree → α → Prop) : List Tree → α → Prop
  | mk {d : Tree} {a : α} (h : means d a) : Required means [d] a

/-- A field that may be left out. -/
inductive Defaulting (means : Tree → α → Prop) (default : α) : List Tree → α → Prop
  | omitted : Defaulting means default [] default
  | given {d : Tree} {a : α} (h : means d a) : Defaulting means default [d] a

def Fields.names : Fields → List String
  | none => []
  | field name _ _ more => name :: more.names

mutual

def Schema.Means : (t : Schema) → Tree → t.Val → Prop
  | .text => Tree.IsText
  | .optional t => Tree.IsNullable t.Means
  | .list t => Tree.IsList t.Means
  | .record _ fs => fun d row => ∃ values, d.Provides fs.names values ∧ fs.Means values row

def Fields.Means : (fs : Fields) → (String → List Tree) → fs.Row → Prop
  | .none, _, _ => True
  | .field name required t more, values, (v, row) =>
    (if required then Required t.Means (values name) v else Defaulting t.Means t.default (values name) v) ∧
      more.Means values row

end

mutual

/-- No record declares a name twice. -/
def Schema.Distinct : Schema → Prop
  | .text => True
  | .optional t => t.Distinct
  | .list t => t.Distinct
  | .record _ fs => fs.Distinct

def Fields.Distinct : Fields → Prop
  | .none => True
  | .field name _ t more => name ∉ more.names ∧ t.Distinct ∧ more.Distinct

end

end PushAudit.Json
