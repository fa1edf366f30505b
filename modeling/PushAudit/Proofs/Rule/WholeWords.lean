import PushAudit.Proofs.Pattern.Words
import PushAudit.Proofs.Rule.Detection
import PushAudit.Proofs.Text.Pieces

namespace PushAudit

open Text (pieces endsInWord beginsWithWord IsWordRun SameWord)

namespace Text

end Text

namespace Pattern

variable {b m a : List Char} {ps : List Pattern}

end Pattern

namespace Rule

open Pattern

def OpensCall (text : List Char) : Prop := ∃ blanks rest, text = blanks ++ '(' :: rest ∧ ∀ c ∈ blanks, Text.IsBlank c

namespace OpensCall

variable {text : List Char}

theorem exists_front (h : OpensCall text) :
    ∃ front rest, text = front ++ rest ∧ OpensCall front ∧ front ≠ [] ∧ ∀ c ∈ front, Text.isWord c = false := by
  obtain ⟨blanks, rest, rfl, hblank⟩ := h
  refine ⟨blanks ++ ['('], rest, by simp, ⟨blanks, [], rfl, hblank⟩, by simp,
    List.forall_mem_append.mpr ⟨?_, ?_⟩⟩
  · exact fun c hc => Text.isWord_of_isBlank (hblank c hc)
  · exact List.forall_mem_singleton.mpr (by decide)

theorem append (h : OpensCall text) (more : List Char) : OpensCall (text ++ more) := by
  obtain ⟨blanks, rest, rfl, hblank⟩ := h
  exact ⟨blanks, rest ++ more, by simp, hblank⟩

theorem beginsWithWord (h : OpensCall text) : beginsWithWord text = false := by
  obtain ⟨front, rest, rfl, -, hne, hfront⟩ := h.exists_front
  rw [Text.beginsWithWord, List.head?_append_of_ne_nil _ hne, List.head?_eq_some_head hne]
  exact hfront _ (List.head_mem hne)

end OpensCall

inductive WordRule
  | console
  | todo
  | eval
deriving DecidableEq, Repr

namespace WordRule

def rule : WordRule → Rule
  | console => consoleStatement
  | todo => todoMarker
  | eval => unsafeEval

def methods : List String := ["log", "debug", "info", "warn", "error"]

def marks : List String := ["TODO", "FIXME", "HACK", "XXX"]

/-- What the rule looks for among the pieces of a text. -/
def Shows : WordRule → List (List Char) → Prop
  | console, ps => ∃ object method call, ps = [object, ['.'], method, call] ∧
      SameWord "console" object ∧ (∃ w ∈ methods, SameWord w method) ∧ OpensCall call
  | todo, ps => ∃ run, ps = [run] ∧ ∃ w ∈ marks, SameWord w run
  | eval, ps => ∃ run call, ps = [run, call] ∧ SameWord "eval" run ∧ OpensCall call

variable {text run : List Char}

/-- One dot only joins the two words, but any space may stand before the parenthesis. -/
example : consoleStatement.appliesTo "con\u017fole.Log\u2003\n(x)" ∧
    ¬ consoleStatement.appliesTo "console..log(x)" := by
  decide +kernel

end WordRule

end Rule

end PushAudit
