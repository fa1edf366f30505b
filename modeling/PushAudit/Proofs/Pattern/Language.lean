import PushAudit.Pattern.Basic
import PushAudit.Proofs.Text.CharClass

namespace PushAudit

namespace Text

def endsInWord (text : List Char) : Bool := text.getLast?.any isWord

def beginsWithWord (text : List Char) : Bool := text.head?.any isWord

@[simp] theorem endsInWord_append_cons (xs : List Char) (c : Char) (ys : List Char) :
    endsInWord (xs ++ c :: ys) = endsInWord (c :: ys) := by
  rw [endsInWord, List.getLast?_append_cons, endsInWord]

@[simp] theorem endsInWord_singleton (c : Char) : endsInWord [c] = isWord c := rfl

theorem endsInWord_iff (text : List Char) : endsInWord text ↔ ∃ c ∈ text.getLast?, IsWord c := by
  simp only [endsInWord, Option.any_eq_true, isWord_iff, Option.mem_def]

theorem beginsWithWord_iff (text : List Char) : beginsWithWord text ↔ ∃ c ∈ text.head?, IsWord c := by
  simp only [beginsWithWord, Option.any_eq_true, isWord_iff, Option.mem_def]

end Text

def CharSet.Admits : CharSet → Char → Prop
  | letter c, d => Text.SameLetter c d
  | blank, d => Text.IsBlank d
  | anyOf cs, d => d ∈ cs
  | noneOf cs, d => d ∉ cs

theorem CharSet.admits_iff (k : CharSet) (d : Char) : k.admits d ↔ k.Admits d := by
  cases k with
  | letter c => rw [admits, beq_iff_eq, Admits, Text.sameLetter_iff]
  | blank => exact Text.isBlank_iff d
  | anyOf cs => rw [admits, List.contains_iff_mem, Admits]
  | noneOf cs => rw [admits, Bool.not_eq_true', ← Bool.not_eq_true, List.contains_iff_mem, Admits]

namespace Pattern

open Text (endsInWord beginsWithWord)

/-- Just one of the characters around the place belongs to a word. An end of the text counts as a
character outside of words. -/
def IsEdge (before after : List Char) : Prop :=
  ¬((∃ c ∈ before.getLast?, Text.IsWord c) ↔ ∃ c ∈ after.head?, Text.IsWord c)

theorem isEdge_iff (before after : List Char) :
    IsEdge before after ↔ endsInWord before ≠ beginsWithWord after := by
  rw [IsEdge, ← Text.endsInWord_iff, ← Text.beginsWithWord_iff]
  exact not_congr Bool.eq_iff_iff.symm

/-- The language of a pattern at a place: which texts it matches between what stands before them and
what stands after them. -/
inductive Matches : Pattern → List Char → List Char → List Char → Prop
  | empty (b a) : Matches empty b [] a
  | edge {b a} (h : IsEdge b a) : Matches edge b [] a
  | one {k c} (b a) (h : k.Admits c) : Matches (one k) b [c] a
  | seq {p q b m n a} (hp : Matches p b m (n ++ a)) (hq : Matches q (b ++ m) n a) :
      Matches (seq p q) b (m ++ n) a
  | left {p b m a} (q) (h : Matches p b m a) : Matches (alt p q) b m a
  | right {q b m a} (p) (h : Matches q b m a) : Matches (alt p q) b m a
  | stop (p b a) : Matches (star p) b [] a
  | more {p b m n a} (hp : Matches p b m (n ++ a)) (hs : Matches (star p) (b ++ m) n a) :
      Matches (star p) b (m ++ n) a
  | plus {p b m n a} (hp : Matches p b m (n ++ a)) (hs : Matches (star p) (b ++ m) n a) :
      Matches (plus p) b (m ++ n) a
  | skip (p b a) : Matches (opt p) b [] a
  | opt {p b m a} (h : Matches p b m a) : Matches (opt p) b m a

variable {p q : Pattern} {k : CharSet} {b m a : List Char}

theorem matches_empty_iff : Matches empty b m a ↔ m = [] :=
  ⟨fun h => by cases h; rfl, fun h => h ▸ .empty b a⟩

theorem matches_edge_iff : Matches edge b m a ↔ m = [] ∧ IsEdge b a :=
  ⟨fun h => by cases h with | edge h => exact ⟨rfl, h⟩, fun h => h.1 ▸ .edge h.2⟩

theorem matches_one_iff : Matches (one k) b m a ↔ ∃ c, k.Admits c ∧ m = [c] :=
  ⟨fun h => by cases h with | one _ _ h => exact ⟨_, h, rfl⟩, fun ⟨_, hc, hm⟩ => hm ▸ .one b a hc⟩

theorem matches_seq_iff :
    Matches (seq p q) b m a ↔
      ∃ m₁ m₂, m = m₁ ++ m₂ ∧ Matches p b m₁ (m₂ ++ a) ∧ Matches q (b ++ m₁) m₂ a :=
  ⟨fun h => by cases h with | seq hp hq => exact ⟨_, _, rfl, hp, hq⟩,
    fun ⟨_, _, hm, hp, hq⟩ => hm ▸ .seq hp hq⟩

theorem matches_alt_iff : Matches (alt p q) b m a ↔ Matches p b m a ∨ Matches q b m a := by
  constructor
  · intro h
    cases h with
    | left _ h => exact .inl h
    | right _ h => exact .inr h
  · rintro (h | h)
    · exact .left q h
    · exact .right p h

theorem matches_plus_iff :
    Matches (plus p) b m a ↔
      ∃ m₁ m₂, m = m₁ ++ m₂ ∧ Matches p b m₁ (m₂ ++ a) ∧ Matches (star p) (b ++ m₁) m₂ a :=
  ⟨fun h => by cases h with | plus hp hs => exact ⟨_, _, rfl, hp, hs⟩,
    fun ⟨_, _, hm, hp, hs⟩ => hm ▸ .plus hp hs⟩

theorem matches_opt_iff : Matches (opt p) b m a ↔ m = [] ∨ Matches p b m a := by
  constructor
  · intro h
    cases h with
    | skip => exact .inl rfl
    | opt h => exact .inr h
  · rintro (rfl | h)
    · exact .skip p b a
    · exact .opt h

theorem matches_star_cons_iff {c : Char} :
    Matches (star p) b (c :: m) a ↔
      ∃ m₁ m₂, m = m₁ ++ m₂ ∧ Matches p b (c :: m₁) (m₂ ++ a) ∧ Matches (star p) (b ++ c :: m₁) m₂ a := by
  constructor
  · intro h
    generalize hs : star p = s at h
    generalize hw : c :: m = w at h
    induction h with
    | @more p' b m₁ m₂ a hp hr _ ih =>
        obtain rfl : p = p' := by simpa using hs
        cases m₁ with
        | nil => simpa using ih hs hw
        | cons d m₁ =>
            obtain ⟨rfl, rfl⟩ : c = d ∧ m = m₁ ++ m₂ := by simpa using hw
            exact ⟨m₁, m₂, rfl, hp, hr⟩
    | stop => simp at hw
    | _ => simp at hs
  · rintro ⟨m₁, m₂, rfl, hp, hs⟩
    exact .more hp hs

theorem matches_star_one_iff :
    Matches (star (one k)) b m a ↔ ∀ c ∈ m, k.Admits c := by
  induction m generalizing b with
  | nil => simp [Matches.stop]
  | cons c m ih =>
      rw [matches_star_cons_iff, List.forall_mem_cons]
      constructor
      · rintro ⟨m₁, m₂, rfl, h₁, h₂⟩
        obtain ⟨d, hd, h⟩ := matches_one_iff.mp h₁
        obtain ⟨rfl, rfl⟩ : c = d ∧ m₁ = [] := by simpa using h
        exact ⟨hd, ih.mp h₂⟩
      · rintro ⟨hc, hm⟩
        exact ⟨[], m, rfl, .one _ _ hc, ih.mpr hm⟩

theorem matches_plus_one_iff :
    Matches (plus (one k)) b m a ↔ m ≠ [] ∧ ∀ c ∈ m, k.Admits c := by
  rw [matches_plus_iff]
  simp only [matches_one_iff, matches_star_one_iff]
  cases m with
  | nil => simp
  | cons c m => simp

end Pattern

end PushAudit
