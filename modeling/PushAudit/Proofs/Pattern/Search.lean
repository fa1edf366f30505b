import PushAudit.Pattern.Matcher
import PushAudit.Proofs.Pattern.Language

namespace PushAudit.Pattern

open Text (endsInWord beginsWithWord isWord)

theorem matchesEmpty_iff (p : Pattern) (b a : List Char) :
    p.matchesEmpty (endsInWord b != beginsWithWord a) ↔ Matches p b [] a := by
  induction p with
  | empty => simp [matchesEmpty, matches_empty_iff]
  | edge => simp [matchesEmpty, matches_edge_iff, isEdge_iff]
  | one k => simp [matchesEmpty, matches_one_iff]
  | seq p q ihp ihq => simp [matchesEmpty, matches_seq_iff, ihp, ihq]
  | alt p q ihp ihq => simp [matchesEmpty, matches_alt_iff, ihp, ihq]
  | star p => simp [matchesEmpty, Matches.stop]
  | plus p ih => simp [matchesEmpty, matches_plus_iff, ih, Matches.stop]
  | opt p => simp [matchesEmpty, matches_opt_iff]

theorem matches_followedBy_iff {r q : Pattern} {b m a : List Char} :
    Matches (followedBy r q) b m a ↔ Matches (seq r q) b m a := by
  rw [followedBy]
  split
  case isTrue h => simp [h, matches_seq_iff, matches_empty_iff]
  case isFalse => rfl

theorem exists_cons_eq_append_iff {c : Char} {m : List Char} {P : List Char → List Char → Prop} :
    (∃ m₁ m₂, c :: m = m₁ ++ m₂ ∧ P m₁ m₂) ↔
      P [] (c :: m) ∨ ∃ m₁ m₂, m = m₁ ++ m₂ ∧ P (c :: m₁) m₂ := by
  constructor
  · rintro ⟨m₁, m₂, h, hP⟩
    rcases List.cons_eq_append_iff.mp h with ⟨rfl, rfl⟩ | ⟨m₁, rfl, rfl⟩
    · exact .inl hP
    · exact .inr ⟨m₁, m₂, rfl, hP⟩
  · rintro (hP | ⟨m₁, m₂, rfl, hP⟩)
    · exact ⟨[], c :: m, rfl, hP⟩
    · exact ⟨c :: m₁, m₂, rfl, hP⟩

theorem exists_mem_map_followedBy_iff {p q : Pattern} {b m a : List Char} {c : Char} {rs : List Pattern}
    (hp : ∀ m a, Matches p b (c :: m) a ↔ ∃ r ∈ rs, Matches r (b ++ [c]) m a) :
    (∃ r ∈ rs.map (followedBy · q), Matches r (b ++ [c]) m a) ↔
      ∃ m₁ m₂, m = m₁ ++ m₂ ∧ Matches p b (c :: m₁) (m₂ ++ a) ∧ Matches q (b ++ c :: m₁) m₂ a := by
  have hb (m₁ : List Char) : b ++ c :: m₁ = b ++ [c] ++ m₁ := by simp
  constructor
  · rintro ⟨s, hs, hm⟩
    obtain ⟨r, hr, rfl⟩ := List.mem_map.mp hs
    obtain ⟨m₁, m₂, rfl, h₁, h₂⟩ := matches_seq_iff.mp (matches_followedBy_iff.mp hm)
    exact ⟨m₁, m₂, rfl, (hp _ _).mpr ⟨r, hr, h₁⟩, hb m₁ ▸ h₂⟩
  · rintro ⟨m₁, m₂, rfl, h₁, h₂⟩
    obtain ⟨r, hr, h₁⟩ := (hp _ _).mp h₁
    exact ⟨_, List.mem_map_of_mem hr, matches_followedBy_iff.mpr (.seq h₁ (hb m₁ ▸ h₂))⟩

/-- The residues after a character match just what may follow it. -/
theorem matches_cons_iff (p : Pattern) (b : List Char) (c : Char) (m a : List Char) :
    Matches p b (c :: m) a ↔ ∃ r ∈ p.after (endsInWord b != isWord c) c, Matches r (b ++ [c]) m a := by
  induction p generalizing m a with
  | empty => simp [after, matches_empty_iff]
  | edge => simp [after, matches_edge_iff]
  | one k =>
      rw [after, matches_one_iff]
      split
      case isTrue h => simp [matches_empty_iff, (k.admits_iff c).mp h]
      case isFalse h => simp [mt (k.admits_iff c).mpr h]
  | seq p q ihp ihq =>
      have he : p.matchesEmpty (endsInWord b != isWord c) ↔ Matches p b [] (c :: m ++ a) :=
        matchesEmpty_iff p b (c :: m ++ a)
      simp only [matches_seq_iff, exists_cons_eq_append_iff, List.append_nil, after, List.mem_append,
        or_and_right, exists_or, exists_mem_map_followedBy_iff ihp, ← he, ihq]
      rw [or_comm]
      apply or_congr_right
      split <;> simp_all
  | alt p q ihp ihq => simp [after, matches_alt_iff, ihp, ihq, or_and_right, exists_or]
  | star p ih => rw [after, exists_mem_map_followedBy_iff ih, matches_star_cons_iff]
  | plus p ih =>
      simp only [after, exists_mem_map_followedBy_iff ih, matches_plus_iff, exists_cons_eq_append_iff,
        List.append_nil, matches_star_cons_iff]
      exact or_iff_right_of_imp And.right
  | opt p ih => simp [after, matches_opt_iff, ih]

def Begins (p : Pattern) (before text : List Char) : Prop :=
  ∃ m a, text = m ++ a ∧ Matches p before m a

theorem begins_nil_iff {p : Pattern} {b : List Char} :
    Begins p b [] ↔ p.matchesEmpty (endsInWord b) := by
  have he := matchesEmpty_iff p b []
  simp only [beginsWithWord, List.head?_nil, Option.any_none, Bool.bne_false] at he
  rw [he]
  constructor
  · rintro ⟨m, a, h, hm⟩
    obtain ⟨rfl, rfl⟩ := List.append_eq_nil_iff.mp h.symm
    exact hm
  · intro hm
    exact ⟨[], [], rfl, hm⟩

theorem begins_cons_iff {p : Pattern} {b : List Char} {c : Char} {rest : List Char} :
    Begins p b (c :: rest) ↔
      p.matchesEmpty (endsInWord b != isWord c) ∨
        ∃ r ∈ p.after (endsInWord b != isWord c) c, Begins r (b ++ [c]) rest := by
  have he : p.matchesEmpty (endsInWord b != isWord c) ↔ Matches p b [] (c :: rest) :=
    matchesEmpty_iff p b (c :: rest)
  rw [Begins, exists_cons_eq_append_iff, he]
  apply or_congr_right
  constructor
  · rintro ⟨m, a, rfl, hm⟩
    obtain ⟨r, hr, hm⟩ := (matches_cons_iff p b c m a).mp hm
    exact ⟨r, hr, m, a, rfl, hm⟩
  · rintro ⟨r, hr, m, a, rfl, hm⟩
    exact ⟨m, a, rfl, (matches_cons_iff p b c m a).mpr ⟨r, hr, hm⟩⟩

theorem exists_begins_cons_iff {qs : List Pattern} {b : List Char} {c : Char} {rest : List Char} :
    (∃ q ∈ qs, Begins q b (c :: rest)) ↔
      qs.any (matchesEmpty (endsInWord b != isWord c)) ∨
        ∃ r ∈ qs.flatMap (after (endsInWord b != isWord c) c), Begins r (b ++ [c]) rest := by
  simp only [begins_cons_iff, and_or_left, exists_or, List.any_eq_true, List.mem_flatMap]
  apply or_congr_right
  constructor
  · rintro ⟨q, hq, r, hr, hm⟩
    exact ⟨r, ⟨q, hq, hr⟩, hm⟩
  · rintro ⟨r, ⟨q, hq, hr⟩, hm⟩
    exact ⟨q, hq, r, hr, hm⟩

/-- The search carries the residues of all matches begun so far, and may begin another one at every
later place. -/
theorem search_iff (p : Pattern) (b : List Char) (rs : List Pattern) (text : List Char) :
    search p (endsInWord b) rs text ↔
      (∃ r ∈ rs, Begins r b text) ∨ ∃ x y, text = x ++ y ∧ Begins p (b ++ x) y := by
  induction text generalizing b rs with
  | nil =>
      have hp : (∃ x y, [] = x ++ y ∧ Begins p (b ++ x) y) ↔ Begins p b [] := by
        simp [and_assoc]
      rw [search, List.any_cons, Bool.or_eq_true, List.any_eq_true, hp, begins_nil_iff, or_comm]
      simp only [begins_nil_iff]
  | cons c rest ih =>
      have hlater : (∃ x y, c :: rest = x ++ y ∧ Begins p (b ++ x) y) ↔
          Begins p b (c :: rest) ∨ ∃ x y, rest = x ++ y ∧ Begins p (b ++ [c] ++ x) y := by
        rw [exists_cons_eq_append_iff]
        simp only [List.append_nil, List.append_assoc, List.singleton_append]
      have hnow : (∃ r ∈ rs, Begins r b (c :: rest)) ∨ Begins p b (c :: rest) ↔
          ∃ q ∈ p :: rs, Begins q b (c :: rest) := by
        rw [List.exists_mem_cons_iff, or_comm]
      have hw : isWord c = endsInWord (b ++ [c]) := by simp
      rw [search, Bool.or_eq_true, hlater, ← or_assoc, hnow, exists_begins_cons_iff, or_assoc, hw, ih]
      simp only [List.mem_eraseDups]

theorem occursIn_iff (p : Pattern) (text : List Char) :
    p.occursIn text ↔ ∃ b m a, text = b ++ (m ++ a) ∧ Matches p b m a := by
  have h := search_iff p [] [] text
  simp only [List.not_mem_nil, false_and, exists_false, false_or, List.nil_append] at h
  rw [occursIn]
  refine h.trans ⟨?_, ?_⟩
  · rintro ⟨b, y, rfl, m, a, rfl, hm⟩
    exact ⟨b, m, a, rfl, hm⟩
  · rintro ⟨b, m, a, rfl, hm⟩
    exact ⟨b, m ++ a, rfl, m, a, rfl, hm⟩

end PushAudit.Pattern
