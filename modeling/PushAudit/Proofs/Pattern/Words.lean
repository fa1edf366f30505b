import Mathlib.Data.List.Forall2
import PushAudit.Proofs.Pattern.Language

namespace PushAudit

namespace Text

/-- The same word, in whichever case. -/
def SameWord (w : String) (m : List Char) : Prop := List.Forall₂ SameLetter w.toList m

theorem forall₂_sameLetter_iff {x y : List Char} : List.Forall₂ SameLetter x y ↔ x.map fold = y.map fold := by
  have hletter : SameLetter = fun c d => fold c = fold d := by
    funext c d
    exact propext (sameLetter_iff c d)
  rw [hletter, ← List.forall₂_map_right_iff (R := fun c d => fold c = d),
    ← List.forall₂_map_left_iff (R := Eq), List.forall₂_eq_eq_eq]

theorem sameWord_iff {w : String} {m : List Char} : SameWord w m ↔ m.map fold = w.toList.map fold :=
  forall₂_sameLetter_iff.trans eq_comm

instance (w : String) (m : List Char) : Decidable (SameWord w m) := decidable_of_iff _ sameWord_iff.symm

theorem sameWord_append_iff {v w : String} {m : List Char} :
    SameWord (v ++ w) m ↔ ∃ m₁ m₂, m = m₁ ++ m₂ ∧ SameWord v m₁ ∧ SameWord w m₂ := by
  simp only [sameWord_iff, String.toList_append, List.map_append, List.map_eq_append_iff]

theorem sameWord_singleton_iff {w : String} {c : Char} {m : List Char} (hw : w.toList = [c]) (hfold : fold c = c)
    (hlower : c.isLower = false) : SameWord w m ↔ m = [c] := by
  have hsame (d : Char) : SameLetter c d ↔ d = c := sameLetter_iff_eq hfold hlower
  simp [SameWord, hw, List.forall₂_cons_left_iff, hsame]

end Text

namespace Pattern

variable {p : Pattern} {b m a : List Char}

theorem matches_seqs_nil_iff : Matches (seqs []) b m a ↔ m = [] := matches_empty_iff

theorem matches_seqs_cons_iff {ps : List Pattern} :
    Matches (seqs (p :: ps)) b m a ↔
      ∃ m₁ m₂, m = m₁ ++ m₂ ∧ Matches p b m₁ (m₂ ++ a) ∧ Matches (seqs ps) (b ++ m₁) m₂ a := by
  cases ps with
  | nil => simp [seqs, matches_empty_iff]
  | cons q ps => exact matches_seq_iff

theorem matches_alts_iff {ps : List Pattern} :
    Matches (alts p ps) b m a ↔ ∃ q ∈ p :: ps, Matches q b m a := by
  induction ps generalizing p with
  | nil => simp [alts]
  | cons q ps ih => rw [alts, matches_alt_iff, ih, List.exists_mem_cons_iff (l := q :: ps)]

theorem matches_letters_iff {cs : List Char} :
    Matches (seqs (cs.map fun c => one (.letter c))) b m a ↔ List.Forall₂ Text.SameLetter cs m := by
  induction cs generalizing b m with
  | nil => rw [List.map_nil, seqs, matches_empty_iff, List.forall₂_nil_left_iff]
  | cons c cs ih =>
      rw [List.map_cons, matches_seqs_cons_iff, List.forall₂_cons_left_iff]
      simp only [matches_one_iff, ih]
      constructor
      · rintro ⟨_, m₂, rfl, ⟨d, hd, rfl⟩, hm⟩
        exact ⟨d, m₂, hd, hm, rfl⟩
      · rintro ⟨d, m₂, hd, hm, rfl⟩
        exact ⟨[d], m₂, rfl, ⟨d, hd, rfl⟩, hm⟩

theorem matches_word_iff {w : String} : Matches (word w) b m a ↔ Text.SameWord w m := matches_letters_iff

theorem matches_words_iff {w : String} {ws : List String} :
    Matches (words w ws) b m a ↔ ∃ v ∈ w :: ws, Text.SameWord v m := by
  rw [words, matches_alts_iff, ← List.map_cons]
  simp only [List.mem_map, exists_exists_and_eq_and, matches_word_iff]

end Pattern

end PushAudit
