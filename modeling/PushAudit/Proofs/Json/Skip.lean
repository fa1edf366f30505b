import PushAudit.Json.Skip
import PushAudit.Proofs.Json.Blanks
import PushAudit.Proofs.Json.Number
import PushAudit.Proofs.Json.Quoted

namespace PushAudit.Json

variable {s t u r : List Char} {c : Char} {f : Frame} {fs : List Frame} {first : Bool} {d : Tree}

theorem readWord_iff {letters : List Char} {v : Unit} : Yields (readWord letters s) v r ↔ s = letters ++ r := by
  induction letters generalizing s with
  | nil => simp [readWord]
  | cons l ls ih =>
      cases s with
      | nil => simp [readWord]
      | cons c s =>
          rw [readWord]
          split
          · next hc => simp [ih, hc]
          · next hc => simp [hc]

/-- The characters that a document can begin with, seen from those that stand between documents. -/
def IsStart (c : Char) : Prop := isSpace c = false ∧ c ≠ ',' ∧ c ≠ ']' ∧ c ≠ '\x7d'

theorem isStart_of_isDigit (hc : c.isDigit) : IsStart c := by
  refine ⟨?_, ?_, ?_, ?_⟩
  · rw [← Bool.not_eq_true, isSpace_iff]
    rintro (rfl | rfl | rfl | rfl) <;> contradiction
  all_goals
    rintro rfl
    contradiction

theorem TreeAt.head (h : TreeAt s d r) : ∃ c t, s = c :: t ∧ IsStart c := by
  cases h with
  | number h =>
      obtain ⟨c, t, hs, rfl | hc⟩ := h.head
      · exact ⟨'-', t, hs, by simp [IsStart, isSpace]⟩
      · exact ⟨c, t, hs, isStart_of_isDigit hc⟩
  | _ => exact ⟨_, _, rfl, by simp [IsStart, isSpace]⟩

theorem TreeAt.blanks_iff (h : TreeAt t d r) : Blanks s t ↔ skipSpace s = t := by
  obtain ⟨c, u, rfl, hc⟩ := h.head
  exact blanks_cons_iff hc.1

inductive KeyAt : Frame → List Char → List Char → Prop
  | list {s : List Char} : KeyAt .list s s
  | record {s t u r : List Char} {key : List Letter} (hblank : Blanks s ('"' :: t)) (hkey : QuotedAt t key u)
      (hcolon : Blanks u (':' :: r)) : KeyAt .record s r

/-- The items of a list or a record up to its end. -/
def InnerAt : Frame → Bool → List Char → List Char → Prop
  | .list, first, s, r => ∃ ds, ItemsAt first s ds r
  | .record, first, s, r => ∃ fs, FieldsAt first s fs r

def InsideAt : List Frame → Bool → List Char → List Char → Prop
  | [], _, s, r => s = r
  | f :: fs, first, s, r => ∃ t, InnerAt f first s t ∧ InsideAt fs false t r

theorem innerAt_iff : InnerAt f first s r ↔ Blanks s (f.closing :: r) ∨
    ∃ t u v d w, LeadAt first s t ∧ KeyAt f t u ∧ Blanks u v ∧ TreeAt v d w ∧ InnerAt f false w r := by
  cases f with
  | list =>
      constructor
      · rintro ⟨ds, h | ⟨hlead, hd, h⟩⟩
        · exact .inl h
        · exact .inr ⟨_, _, _, _, _, hlead, .list, .refl _, hd, _, h⟩
      · rintro (h | ⟨t, u, v, d, w, hlead, hkey, hblank, hd, ds, h⟩)
        · exact ⟨[], .nil h⟩
        · cases hkey
          exact ⟨d :: ds, .cons (hlead.trans hblank) hd h⟩
  | record =>
      constructor
      · rintro ⟨fs, h | ⟨hlead, hkey, hcolon, hblank, hd, h⟩⟩
        · exact .inl h
        · exact .inr ⟨_, _, _, _, _, hlead, .record (.refl _) hkey hcolon, hblank, hd, _, h⟩
      · rintro (h | ⟨t, u, v, d, w, hlead, hkey, hblank, hd, fs, h⟩)
        · exact ⟨[], .nil h⟩
        · cases hkey with
          | record hquote hkey hcolon => exact ⟨(_, d) :: fs, .cons (hlead.trans hquote) hkey hcolon hblank hd h⟩

theorem keyAt_record_iff : KeyAt .record s r ↔
    ∃ t, skipSpace s = '"' :: t ∧ ∃ u, (∃ key, QuotedAt t key u) ∧ skipSpace u = ':' :: r := by
  have hquote : isSpace '"' = false := rfl
  have hcolon : isSpace ':' = false := rfl
  constructor
  · intro h
    cases h with
    | record hblank hkey hc =>
        exact ⟨_, (blanks_cons_iff hquote).mp hblank, _, ⟨_, hkey⟩, (blanks_cons_iff hcolon).mp hc⟩
  · rintro ⟨t, ht, u, ⟨key, hkey⟩, hr⟩
    exact .record ((blanks_cons_iff hquote).mpr ht) hkey ((blanks_cons_iff hcolon).mpr hr)

theorem skipKey_iff : Leaves (skipKey s) r ↔ KeyAt .record s r := by
  rw [keyAt_record_iff]
  unfold skipKey
  split
  · next hs => simp [hs]
  · next t ht =>
      simp only [ht, List.cons.injEq, true_and, exists_eq_left', ← readQuoted_ignored_iff]
      refine leaves_bind_iff fun key => ?_
      split
      · next hkey => simp [hkey]
      · next hkey => simp [hkey]
      · next hend hcolon =>
          simp only [not_leaves_error, false_iff]
          exact hcolon r
  · next hquote =>
      simp only [not_leaves_error, false_iff]
      rintro ⟨t, ht, -⟩
      exact hquote t ht

theorem skipToItem_iff : Leaves (skipToItem f s) r ↔ KeyAt f s r := by
  cases f with
  | list =>
      rw [skipToItem, leaves_ok_iff]
      exact ⟨fun h => h ▸ .list, fun h => by cases h; rfl⟩
  | record => exact skipKey_iff

/-- The place of the next value of the innermost frame, or the end of all of them. -/
def ResumesAt : List Frame → List Char → List Char → Prop
  | [], s, r => s = r
  | f :: fs, s, r => ∃ t d u, Blanks s t ∧ TreeAt t d u ∧ InsideAt (f :: fs) false u r

def EntersAt (f : Frame) (fs : List Frame) (s r : List Char) : Prop := ∃ t, KeyAt f s t ∧ ResumesAt (f :: fs) t r

theorem entersAt_skipSpace_iff : EntersAt f fs (skipSpace s) r ↔ EntersAt f fs s r := by
  cases f with
  | list =>
      constructor
      · rintro ⟨_, ⟨⟩, t, d, u, hblank, hd, h⟩
        exact ⟨s, .list, t, d, u, (blanks_skipSpace s).trans hblank, hd, h⟩
      · rintro ⟨_, ⟨⟩, t, d, u, hblank, hd, h⟩
        exact ⟨_, .list, t, d, u, hd.blanks_iff.mp hblank ▸ .refl _, hd, h⟩
  | record => simp only [EntersAt, keyAt_record_iff, skipSpace_skipSpace]

theorem EntersAt.of_blanks (h : EntersAt f fs t r) (hblank : Blanks s t) : EntersAt f fs s r := by
  rw [← entersAt_skipSpace_iff, ← skipSpace_eq_of_blanks hblank] at h
  exact entersAt_skipSpace_iff.mp h

theorem EntersAt.head (h : EntersAt f fs s r) : ∃ c t, skipSpace s = c :: t ∧ c ≠ f.closing := by
  cases f with
  | list =>
      obtain ⟨_, ⟨⟩, t, d, u, hblank, hd, -⟩ := h
      obtain ⟨c, v, rfl, hc⟩ := hd.head
      exact ⟨c, v, hd.blanks_iff.mp hblank, hc.2.2.1⟩
  | record =>
      obtain ⟨t, hkey, -⟩ := h
      obtain ⟨u, hu, -⟩ := keyAt_record_iff.mp hkey
      exact ⟨'"', u, hu, by decide⟩

theorem insideAt_cons_iff : InsideAt (f :: fs) first s r ↔
    (∃ t, skipSpace s = f.closing :: t ∧ InsideAt fs false t r) ∨
      if first then EntersAt f fs s r else ∃ t, skipSpace s = ',' :: t ∧ EntersAt f fs t r := by
  have hclosing : isSpace f.closing = false := by cases f <;> rfl
  have hcomma : isSpace ',' = false := rfl
  have henters : (∃ t, LeadAt first s t ∧ EntersAt f fs t r) ↔
      if first then EntersAt f fs s r else ∃ t, skipSpace s = ',' :: t ∧ EntersAt f fs t r := by
    constructor
    · rintro ⟨t, hlead, h⟩
      cases hlead with
      | first hblank => exact h.of_blanks hblank
      | next hs ht => exact ⟨_, (blanks_cons_iff hcomma).mp hs, h.of_blanks ht⟩
    · cases first with
      | true => exact fun h => ⟨s, .first (.refl s), h⟩
      | false =>
          rintro ⟨t, hs, h⟩
          exact ⟨t, .next ((blanks_cons_iff hcomma).mpr hs) (.refl t), h⟩
  rw [← henters]
  constructor
  · rintro ⟨t, h, hrest⟩
    rcases innerAt_iff.mp h with h | ⟨a, u, v, d, w, hlead, hkey, hblank, hd, h⟩
    · exact .inl ⟨t, (blanks_cons_iff hclosing).mp h, hrest⟩
    · exact .inr ⟨a, hlead, u, hkey, v, d, w, hblank, hd, t, h, hrest⟩
  · rintro (⟨t, hs, h⟩ | ⟨a, hlead, u, hkey, v, d, w, hblank, hd, t, h, hrest⟩)
    · exact ⟨t, innerAt_iff.mpr (.inl ((blanks_cons_iff hclosing).mpr hs)), h⟩
    · exact ⟨t, innerAt_iff.mpr (.inr ⟨a, u, v, d, w, hlead, hkey, hblank, hd, h⟩), hrest⟩

theorem scans_map_rest_iff {ε α : Type} {p q : List Char → Prop} {x : Except ε { t : List Char // p t }} {a b : α}
    (h : ∀ t, p t → q t) :
    Scans (x.map fun t => (a, (⟨t.1, h t.1 t.2⟩ : { t : List Char // q t }))) b r ↔ a = b ∧ Leaves x r := by
  cases x with
  | error e => simp [Except.map]
  | ok t => simp [Except.map]

theorem scans_map_iff {ε α : Type} {p q : List Char → Prop} {x : Except ε (α × { t : List Char // p t })} {a : α}
    (h : ∀ t, p t → q t) :
    Scans (x.map fun (b, t) => (b, (⟨t.1, h t.1 t.2⟩ : { t : List Char // q t }))) a r ↔ Scans x a r := by
  cases x with
  | error e => simp [Except.map]
  | ok t => simp [Except.map, Scans]

theorem not_entersAt_of_end (hs : skipSpace s = []) : ¬ EntersAt f fs s r := by
  intro h
  obtain ⟨c, t, hc, -⟩ := h.head
  simp [hs] at hc

theorem not_entersAt_of_closing {rest : List Char} (hs : skipSpace s = f.closing :: rest) :
    ¬ EntersAt f fs s r := by
  intro h
  obtain ⟨c, t, hc, hne⟩ := h.head
  rw [hs] at hc
  exact hne (List.cons.inj hc).1.symm

theorem exists_scans_skipToItem_iff {q : List Char → Prop} (h : ∀ t, t.length ≤ s.length → q t) :
    (∃ gs u, Scans ((skipToItem f s).map fun t => (f :: fs, (⟨t.1, h t.1 t.2⟩ : { t : List Char // q t }))) gs u ∧
      ResumesAt gs u r) ↔ EntersAt f fs s r := by
  simp only [scans_map_rest_iff, skipToItem_iff]
  constructor
  · rintro ⟨gs, u, ⟨rfl, hkey⟩, hu⟩
    exact ⟨u, hkey, hu⟩
  · rintro ⟨u, hkey, hu⟩
    exact ⟨f :: fs, u, ⟨rfl, hkey⟩, hu⟩

/-- Closing frames as far as they end finds the place to go on from. -/
theorem settle_iff : (∃ gs u, Scans (settle fs first s) gs u ∧ ResumesAt gs u r) ↔ InsideAt fs first s r := by
  induction fs generalizing first s with
  | nil =>
      simp only [settle, scans_ok_iff, InsideAt]
      constructor
      · rintro ⟨_, _, ⟨rfl, rfl⟩, h⟩
        exact h
      · intro h
        exact ⟨[], s, ⟨rfl, rfl⟩, h⟩
  | cons f fs ih =>
      rw [insideAt_cons_iff]
      unfold settle
      split
      · next hs =>
          have hno : ¬ EntersAt f fs s r := not_entersAt_of_end hs
          cases first <;> simp [hs, hno]
      · next c rest hs =>
          have hclosing : f.closing ≠ ',' := by cases f <;> decide
          have hlength : rest.length + 1 ≤ s.length := skipSpace_cons hs
          simp only [hs, List.cons.injEq]
          split
          · next hc =>
              obtain ⟨rfl, hfirst⟩ := hc
              have hf : first = false := by simpa using hfirst
              refine (exists_scans_skipToItem_iff (q := fun t => t.length ≤ s.length) fun t ht => by omega).trans ?_
              simp [hf, hclosing.symm]
          · next hcomma =>
              split
              · next hc =>
                  have hmap (gs : List Frame) (u : List Char) :=
                    scans_map_iff (x := settle fs false rest) (a := gs) (r := u) (q := fun t => t.length ≤ s.length)
                      fun t ht => by omega
                  simp only [hmap, ih]
                  have hno : ¬ EntersAt f fs s r := not_entersAt_of_closing (hc ▸ hs)
                  cases first with
                  | true => simp [hc, hno]
                  | false => simp [hc, hclosing]
              · next hc =>
                  split
                  · next hf =>
                      refine (exists_scans_skipToItem_iff (q := fun t => t.length ≤ s.length)
                        fun t ht => by simp only [List.length_cons] at ht; omega).trans ?_
                      rw [← hs, entersAt_skipSpace_iff]
                      simp [hc]
                  · next hf =>
                      have hne : c ≠ ',' := fun h => hcomma ⟨h, by simpa using hf⟩
                      simp [hc, hne]

/-- A value without items is taken whole, any other one is opened and lacks what is inside. -/
def HeadAt {n : Nat} (x : Except Error (Option Frame × Text.Taken Unit n)) (r : List Char) : Prop :=
  ∃ opened t, x = .ok (opened, t) ∧ InsideAt opened.toList opened.isSome t.rest r

@[simp] theorem not_headAt_error {n : Nat} {e : Error} :
    ¬ HeadAt (.error e : Except Error (Option Frame × Text.Taken Unit n)) r := by
  simp [HeadAt]

@[simp] theorem headAt_opened_iff {n : Nat} {t : Text.Taken Unit n} :
    HeadAt (.ok (some f, t)) r ↔ InnerAt f true t.rest r := by
  constructor
  · rintro ⟨_, _, ⟨⟩, u, h, rfl⟩
    exact h
  · intro h
    exact ⟨_, _, rfl, r, h, rfl⟩

@[simp] theorem headAt_taken_iff {n : Nat} {t : Text.Taken Unit n} : HeadAt (.ok (none, t)) r ↔ t.rest = r := by
  constructor
  · rintro ⟨_, _, ⟨⟩, h⟩
    exact h
  · intro h
    exact ⟨_, _, rfl, h⟩

theorem headAt_map_iff {α : Type} {m n : Nat} {x : Except Error (Text.Taken α m)}
    {g : Text.Taken α m → Text.Taken Unit n} (hg : ∀ t, (g t).rest = t.rest) :
    HeadAt (x.map fun t => (none, g t)) r ↔ ∃ a, Yields x a r := by
  cases x with
  | error e => simp [Except.map]
  | ok t => simp [Except.map, hg]

theorem headAt_word_iff {word : List Char} :
    HeadAt ((readWord word s).map fun t => (none, t)) r ↔ s = word ++ r := by
  refine (headAt_map_iff fun t => rfl).trans ?_
  simp [readWord_iff]

theorem not_numeralAt {n : Numeral} (hminus : c ≠ '-') (hc : c.isDigit = false) : ¬ NumeralAt (c :: s) n r := by
  intro h
  obtain ⟨d, t, hs, hd⟩ := h.head
  cases hs
  rcases hd with rfl | hd
  · exact hminus rfl
  · exact Bool.false_ne_true (hc ▸ hd)

/-! A first character that is no digit settles what kind of document it is. -/

theorem treeAt_list_iff : TreeAt ('[' :: s) d r ↔ ∃ ds, d = .list ds ∧ ItemsAt true s ds r := by
  constructor
  · intro h
    cases h with
    | number h => exact absurd h (not_numeralAt (by decide) rfl)
    | list h => exact ⟨_, rfl, h⟩
  · rintro ⟨ds, rfl, h⟩
    exact .list h

theorem treeAt_record_iff : TreeAt ('\x7b' :: s) d r ↔ ∃ fs, d = .record fs ∧ FieldsAt true s fs r := by
  constructor
  · intro h
    cases h with
    | number h => exact absurd h (not_numeralAt (by decide) rfl)
    | record h => exact ⟨_, rfl, h⟩
  · rintro ⟨fs, rfl, h⟩
    exact .record h

theorem treeAt_text_iff : TreeAt ('"' :: s) d r ↔ ∃ ls, d = .text ls ∧ QuotedAt s ls r := by
  constructor
  · intro h
    cases h with
    | number h => exact absurd h (not_numeralAt (by decide) rfl)
    | text h => exact ⟨_, rfl, h⟩
  · rintro ⟨ls, rfl, h⟩
    exact .text h

theorem treeAt_null_iff : TreeAt ('n' :: s) d r ↔ d = .null ∧ s = "ull".toList ++ r := by
  constructor
  · intro h
    cases h with
    | number h => exact absurd h (not_numeralAt (by decide) rfl)
    | null => exact ⟨rfl, rfl⟩
  · rintro ⟨rfl, rfl⟩
    exact .null

theorem treeAt_true_iff : TreeAt ('t' :: s) d r ↔ d = .bool true ∧ s = "rue".toList ++ r := by
  constructor
  · intro h
    cases h with
    | number h => exact absurd h (not_numeralAt (by decide) rfl)
    | true => exact ⟨rfl, rfl⟩
  · rintro ⟨rfl, rfl⟩
    exact .true

theorem treeAt_false_iff : TreeAt ('f' :: s) d r ↔ d = .bool false ∧ s = "alse".toList ++ r := by
  constructor
  · intro h
    cases h with
    | number h => exact absurd h (not_numeralAt (by decide) rfl)
    | false => exact ⟨rfl, rfl⟩
  · rintro ⟨rfl, rfl⟩
    exact .false

theorem skipHead_iff : HeadAt (skipHead s) r ↔ ∃ d, TreeAt s d r := by
  unfold skipHead
  split
  · have hno (d : Tree) : ¬ TreeAt [] d r := by
      intro h
      obtain ⟨c, t, hs, -⟩ := h.head
      contradiction
    simp [hno]
  · simp only [headAt_opened_iff, InnerAt, treeAt_list_iff]
    rw [exists_comm]
    simp
  · simp only [headAt_opened_iff, InnerAt, treeAt_record_iff]
    rw [exists_comm]
    simp
  · simp [headAt_word_iff, treeAt_null_iff]
  · simp [headAt_word_iff, treeAt_true_iff]
  · simp [headAt_word_iff, treeAt_false_iff]
  · simp only [treeAt_text_iff]
    rw [exists_comm]
    simp only [exists_eq_left, ← readQuoted_ignored_iff]
    exact headAt_map_iff fun t => rfl
  · next c t hlist hrecord hnull htrue hfalse hquote =>
      have hnumber : (∃ d, TreeAt (c :: t) d r) ↔ ∃ n, Scans (Numeral.scan (c :: t)) n r := by
        constructor
        · rintro ⟨d, h⟩
          cases h with
          | number h => exact ⟨_, Numeral.scan_iff.mpr h⟩
          | _ => simp at *
        · rintro ⟨n, h⟩
          exact ⟨_, .number (Numeral.scan_iff.mp h)⟩
      rw [hnumber]
      split
      · split
        · next n u hscan => simp [hscan]
        · next e hscan => simp [hscan]
      · next hc =>
          have hno (n : Numeral) : ¬ Scans (Numeral.scan (c :: t)) n r := by
            rw [Numeral.scan_iff]
            exact not_numeralAt (fun h => hc (.inl h)) (by simpa using fun h => hc (.inr h))
          simp [hno]

theorem insideAt_append_iff {opened : Option Frame} : InsideAt (opened.toList ++ fs) opened.isSome s r ↔
    ∃ t, InsideAt opened.toList opened.isSome s t ∧ InsideAt fs false t r := by
  cases opened <;> simp [InsideAt]

theorem exists_treeAt_insideAt_iff : (∃ t d u, Blanks s t ∧ TreeAt t d u ∧ InsideAt fs false u r) ↔
    ∃ opened t, skipHead (skipSpace s) = .ok (opened, t) ∧
      InsideAt (opened.toList ++ fs) opened.isSome t.rest r := by
  simp only [insideAt_append_iff]
  constructor
  · rintro ⟨t, d, u, hblank, hd, h⟩
    obtain ⟨opened, v, hv, hu⟩ := skipHead_iff.mpr ⟨d, hd⟩
    exact hd.blanks_iff.mp hblank ▸ ⟨opened, v, hv, u, hu, h⟩
  · rintro ⟨opened, v, hv, u, hu, h⟩
    obtain ⟨d, hd⟩ := skipHead_iff.mp ⟨opened, v, hv, hu⟩
    exact ⟨_, d, u, blanks_skipSpace s, hd, h⟩

theorem exists_ok_iff {ε α β : Type} {a : α} {b : β} {P : α → β → Prop} :
    (∃ x y, (Except.ok (a, b) : Except ε (α × β)) = .ok (x, y) ∧ P x y) ↔ P a b := by
  constructor
  · rintro ⟨_, _, ⟨⟩, h⟩
    exact h
  · intro h
    exact ⟨_, _, rfl, h⟩

theorem skipFrom_iff {n : Nat} {h : s.length ≤ n} : (∃ v, Yields (skipFrom fs s h) v r) ↔
    ∃ t d u, Blanks s t ∧ TreeAt t d u ∧ InsideAt fs false u r := by
  fun_induction skipFrom fs s h with
  | case1 fs s h e hhead =>
      rw [exists_treeAt_insideAt_iff]
      simp [hhead]
  | case2 fs s h opened t hhead ht e hsettle =>
      rw [exists_treeAt_insideAt_iff]
      simp [hhead, ← settle_iff, hsettle]
  | case3 fs s h opened t hhead ht u hsettle =>
      rw [exists_treeAt_insideAt_iff, hhead, exists_ok_iff, ← settle_iff, hsettle, exists_scans_ok_iff]
      simp [ResumesAt]
  | case4 fs s h opened t hhead ht f gs u hsettle ih =>
      rw [exists_treeAt_insideAt_iff, hhead, exists_ok_iff, ← settle_iff, hsettle, exists_scans_ok_iff]
      exact ih

/-- Skipping takes one document, of whatever kind and depth. -/
theorem skipValue_iff {v : Unit} : Yields (skipValue s) v r ↔ ∃ t d, Blanks s t ∧ TreeAt t d r := by
  have h : (∃ v, Yields (skipValue s) v r) ↔ ∃ t d u, Blanks s t ∧ TreeAt t d u ∧ InsideAt [] false u r :=
    skipFrom_iff
  constructor
  · intro hv
    obtain ⟨t, d, u, hblank, hd, rfl⟩ := h.mp ⟨v, hv⟩
    exact ⟨t, d, hblank, hd⟩
  · rintro ⟨t, d, hblank, hd⟩
    obtain ⟨w, hw⟩ := h.mpr ⟨t, d, r, hblank, hd, rfl⟩
    exact hw

end PushAudit.Json
