import PushAudit.Proofs.Json.Typed

namespace PushAudit.Json

variable {σ : Type} {s t u r : List Char} {first : Bool} {name : String} {d : Tree}
  {named : List (String × Tree)}

/-- The fields of a record up to its end, with the texts that their keys spell. -/
def NamedAt (first : Bool) (s : List Char) (named : List (String × Tree)) (r : List Char) : Prop :=
  ∃ fs, FieldsAt first s fs r ∧ Named fs named

theorem fieldsAt_iff_exists {fs : List (List Letter × Tree)} :
    FieldsAt first s fs r ↔ fs = [] ∧ skipSpace s = '\x7d' :: r ∨
      ∃ key d rest t u v w, fs = (key, d) :: rest ∧
        (if first then skipSpace s = '"' :: t else ∃ x, skipSpace s = ',' :: x ∧ skipSpace x = '"' :: t) ∧
        QuotedAt t key u ∧ skipSpace u = ':' :: v ∧ TreeAt (skipSpace v) d w ∧ FieldsAt false w rest r := by
  have hquote : isSpace '"' = false := rfl
  have hcolon : isSpace ':' = false := rfl
  have hclose : isSpace '\x7d' = false := rfl
  constructor
  · intro h
    cases h with
    | nil h => exact .inl ⟨rfl, (blanks_cons_iff hclose).mp h⟩
    | cons hlead hkey hc hblank hd h =>
        exact .inr ⟨_, _, _, _, _, _, _, rfl, (leadAt_cons_iff hquote).mp hlead, hkey,
          (blanks_cons_iff hcolon).mp hc, hd.blanks_iff.mp hblank ▸ hd, h⟩
  · rintro (⟨rfl, h⟩ | ⟨key, d, rest, t, u, v, w, rfl, hlead, hkey, hc, hd, h⟩)
    · exact .nil ((blanks_cons_iff hclose).mpr h)
    · exact .cons ((leadAt_cons_iff hquote).mpr hlead) hkey ((blanks_cons_iff hcolon).mpr hc)
        (blanks_skipSpace v) hd h

theorem namedAt_iff_exists : NamedAt first s named r ↔ named = [] ∧ skipSpace s = '\x7d' :: r ∨
    ∃ name d rest t u v w, named = (name, d) :: rest ∧
      (if first then skipSpace s = '"' :: t else ∃ x, skipSpace s = ',' :: x ∧ skipSpace x = '"' :: t) ∧
      Yields (readQuoted .checked t) name u ∧ skipSpace u = ':' :: v ∧ TreeAt (skipSpace v) d w ∧
      NamedAt false w rest r := by
  constructor
  · rintro ⟨fs, hfs, hnamed⟩
    rcases fieldsAt_iff_exists.mp hfs with ⟨rfl, h⟩ | ⟨key, d, fs, t, u, v, w, rfl, hlead, hkey, hc, hd, h⟩
    · cases hnamed
      exact .inl ⟨rfl, h⟩
    · cases hnamed with
      | @cons _ g _ _ hname hrest =>
          obtain ⟨name, e⟩ := g
          obtain ⟨hname, rfl⟩ := hname
          exact .inr ⟨name, _, _, t, u, v, w, rfl, hlead, readQuoted_checked_iff.mpr ⟨key, hkey, hname⟩, hc, hd,
            fs, h, hrest⟩
  · rintro (⟨rfl, h⟩ | ⟨name, d, rest, t, u, v, w, rfl, hlead, hkey, hc, hd, fs, h, hrest⟩)
    · exact ⟨[], fieldsAt_iff_exists.mpr (.inl ⟨rfl, h⟩), .nil⟩
    · obtain ⟨ls, hls, hname⟩ := readQuoted_checked_iff.mp hkey
      exact ⟨(ls, d) :: fs,
        fieldsAt_iff_exists.mpr (.inr ⟨ls, d, fs, t, u, v, w, rfl, hlead, hls, hc, hd, h⟩),
        .cons ⟨hname, rfl⟩ hrest⟩

def NextKeyAt {s : List Char} (named : List (String × Tree)) (r : List Char) :
    Except Error (Option (Text.Taken String s.length)) → Prop
  | .error _ => False
  | .ok none => named = [] ∧ skipSpace s = '\x7d' :: r
  | .ok (some key) => ∃ d rest v w, named = (key.value, d) :: rest ∧ skipSpace key.rest = ':' :: v ∧
      TreeAt (skipSpace v) d w ∧ NamedAt false w rest r

theorem nextKeyAt_map_iff {n : Nat} {x : Except Error (Text.Taken String n)} {h : n ≤ s.length} :
    NextKeyAt named r (x.map fun t => some (t.mono h)) ↔ ∃ name d rest u v w, named = (name, d) :: rest ∧
      Yields x name u ∧ skipSpace u = ':' :: v ∧ TreeAt (skipSpace v) d w ∧ NamedAt false w rest r := by
  cases x with
  | error e => simp [Except.map, NextKeyAt]
  | ok t =>
      constructor
      · rintro ⟨d, rest, v, w, hnamed, h⟩
        exact ⟨t.value, d, rest, t.rest, v, w, hnamed, by simp, h⟩
      · rintro ⟨name, d, rest, u, v, w, hnamed, ht, h⟩
        obtain ⟨rfl, rfl⟩ := yields_ok_iff.mp ht
        exact ⟨d, rest, v, w, hnamed, h⟩

theorem namedAt_iff : NamedAt first s named r ↔ NextKeyAt named r (nextKey first s) := by
  rw [namedAt_iff_exists]
  fun_cases nextKey first s with
  | case1 hs => cases first <;> simp [NextKeyAt, hs]
  | case2 rest hs => cases first <;> simp [NextKeyAt, hs]
  | case3 rest hfirst hs => simp [nextKeyAt_map_iff, hs, hfirst]
  | case4 c rest hs hlength hc hfirst hquote => simp [NextKeyAt, hs, hc, hfirst, hquote]
  | case5 rest hfirst hrest hs => simp [NextKeyAt, hs, hfirst, hrest]
  | case6 rest hfirst t hrest hs => simp [nextKeyAt_map_iff, hs, hfirst, hrest]
  | case7 rest hfirst t hrest hs => simp [NextKeyAt, hs, hfirst, hrest]
  | case8 rest hfirst hnil hquote hclose hs =>
      have hno (t : List Char) : skipSpace rest ≠ '"' :: t := hquote t
      simp [NextKeyAt, hs, hfirst, hno]
  | case9 c rest hs hlength hc hfirst hcomma => simp [NextKeyAt, hs, hc, hfirst, hcomma]

theorem takeColon_iff {v : Unit} : Yields (takeColon s) v r ↔ skipSpace s = ':' :: r := by
  unfold takeColon
  split
  · next hs => simp [hs]
  · next t hs => simp [hs]
  · next hcolon =>
      simp only [not_yields_error, false_iff]
      exact hcolon r

theorem closeRecord_iff {v : Unit} : Yields (closeRecord s) v r ↔ skipSpace s = '\x7d' :: r := by
  unfold closeRecord
  split
  · next hs => simp [hs]
  · next t hs => simp [hs]
  · next hclose =>
      simp only [not_yields_error, false_iff]
      exact hclose r

/-- Changes of a state, one for each field in turn. -/
inductive Folds (puts : String → Tree → σ → σ → Prop) : σ → List (String × Tree) → σ → Prop
  | nil {state : σ} : Folds puts state [] state
  | cons {key : String} {d : Tree} {rest : List (String × Tree)} {state mid final : σ}
      (h : puts key d state mid) (hrest : Folds puts mid rest final) : Folds puts state ((key, d) :: rest) final

/-- What a look-up has found reads a value that changes the state so. -/
def Serves (state : σ) (found : Except Error (Option (Reader σ))) (changes : Tree → σ → Prop) : Prop :=
  match found with
  | .error _ => ∀ d final, ¬ changes d final
  | .ok reader? => Reads (reader?.getD (skipValue.map fun _ => state)) changes

def LooksUp (lookUp : String → σ → Except Error (Option (Reader σ)))
    (puts : String → Tree → σ → σ → Prop) : Prop :=
  ∀ key state, Serves state (lookUp key state) (puts key · state ·)

variable {lookUp : String → σ → Except Error (Option (Reader σ))} {puts : String → Tree → σ → σ → Prop}
  {state final : σ}

theorem LooksUp.not_puts (h : LooksUp lookUp puts) {e : Error} (hlook : lookUp name state = .error e) :
    ¬ puts name d state final := by
  have hno := h name state
  rw [hlook] at hno
  exact hno d final

theorem LooksUp.reads (h : LooksUp lookUp puts) {reader? : Option (Reader σ)}
    (hlook : lookUp name state = .ok reader?) :
    Reads (reader?.getD (skipValue.map fun _ => state)) (puts name · state ·) := by
  have hreads := h name state
  rwa [hlook] at hreads

theorem readFields_iff (hputs : LooksUp lookUp puts) {n : Nat} {h : s.length ≤ n} :
    Yields (readFields lookUp state first s h) final r ↔
      ∃ named, NamedAt first s named r ∧ Folds puts state named final := by
  fun_induction readFields lookUp state first s h with
  | case1 state first s h e hnext => simp [namedAt_iff, hnext, NextKeyAt]
  | case2 state first s h hnext =>
      simp only [namedAt_iff, hnext, NextKeyAt, yields_map_mono_iff, closeRecord_iff]
      constructor
      · rintro ⟨_, hs, rfl⟩
        exact ⟨[], ⟨rfl, hs⟩, .nil⟩
      · rintro ⟨_, ⟨rfl, hs⟩, hfolds⟩
        cases hfolds
        exact ⟨(), hs, rfl⟩
  | case3 state first s h key hnext e hlook =>
      simp only [not_yields_error, false_iff, namedAt_iff (s := s), hnext]
      rintro ⟨_, ⟨d, rest, v, w, rfl, -⟩, hfolds⟩
      cases hfolds with
      | cons h _ => exact hputs.not_puts hlook h
  | case4 state first s h key hnext reader? hlook e hcolon =>
      simp only [not_yields_error, false_iff, namedAt_iff (s := s), hnext]
      rintro ⟨_, ⟨d, rest, v, w, rfl, hv, -⟩, -⟩
      simpa [hcolon] using takeColon_iff (v := ()).mpr hv
  | case5 state first s h key hnext reader? hlook colon hcolon e hvalue =>
      simp only [not_yields_error, false_iff, namedAt_iff (s := s), hnext]
      rintro ⟨_, ⟨d, rest, v, w, rfl, hv, hd, -⟩, hfolds⟩
      have hreads := reads_iff.mp (hputs.reads hlook)
      have hcolon : colon.rest = v := by simpa [hcolon] using takeColon_iff (v := ()).mpr hv
      cases hfolds with
      | cons hput _ => simpa [hvalue] using (hreads colon.rest _ _).mpr ⟨d, hcolon ▸ hd, hput⟩
  | case6 state first s h key hnext reader? hlook colon hcolon v hvalue hshorter ih =>
      have hreads := reads_iff.mp (hputs.reads hlook)
      have hrest : skipSpace key.rest = ':' :: colon.rest := takeColon_iff (v := colon.value).mp (by simp [hcolon])
      simp only [ih, namedAt_iff (s := s), hnext]
      constructor
      · rintro ⟨named, hnamed, hfolds⟩
        obtain ⟨d, hd, hput⟩ := (hreads colon.rest v.value v.rest).mp (by simp [hvalue])
        exact ⟨_, ⟨d, named, _, _, rfl, hrest, hd, hnamed⟩, .cons hput hfolds⟩
      · rintro ⟨_, ⟨d, named, u, w, rfl, hu, hd, hnamed⟩, hfolds⟩
        cases hfolds with
        | cons hput hfolds =>
            obtain rfl : colon.rest = u := (List.cons.inj (hrest.symm.trans hu)).2
            have hv := (hreads _ _ _).mpr ⟨d, hd, hput⟩
            rw [hvalue, yields_ok_iff] at hv
            obtain ⟨rfl, rfl⟩ := hv
            exact ⟨named, hnamed, hfolds⟩

end PushAudit.Json
