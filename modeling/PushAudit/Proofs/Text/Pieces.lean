import Mathlib.Data.List.SplitBy
import PushAudit.Proofs.Pattern.Language

namespace PushAudit.Text

def sameKind (c d : Char) : Bool := isWord c == isWord d

/-- A text cut at every edge of a word: by turns a run of the characters that words are made of, as long as it
can be, and a run of others. -/
def pieces (text : List Char) : List (List Char) := text.splitBy sameKind

variable {x y text p : List Char} {ps qs : List (List Char)}

structure IsWordRun (run : List Char) : Prop where
  ne_nil : run ≠ []
  isWord_of_mem : ∀ c ∈ run, isWord c = true

namespace IsWordRun

variable {run : List Char}

theorem endsInWord (h : IsWordRun run) : endsInWord run := by
  rw [Text.endsInWord, List.getLast?_eq_some_getLast h.ne_nil]
  exact h.isWord_of_mem _ (List.getLast_mem h.ne_nil)

theorem beginsWithWord (h : IsWordRun run) (y : List Char) : beginsWithWord (run ++ y) := by
  rw [Text.beginsWithWord, List.head?_append_of_ne_nil _ h.ne_nil, List.head?_eq_some_head h.ne_nil]
  exact h.isWord_of_mem _ (List.head_mem h.ne_nil)

end IsWordRun

end PushAudit.Text
