import PushAudit.Json.Typed
import PushAudit.Proofs.Json.Meaning
import PushAudit.Proofs.Json.Skip

namespace PushAudit.Json

variable {α : Type} {means : Tree → α → Prop} {s t u r : List Char} {c : Char} {first : Bool} {d : Tree}
  {ds : List Tree}

/-- A reader takes the documents that say something, and yields what they say. -/
def Reads (r : Reader α) (means : Tree → α → Prop) : Prop :=
  ∀ s a rest, Yields (r s) a rest ↔ ∃ t d, Blanks s t ∧ TreeAt t d rest ∧ means d a

theorem exists_blanks_treeAt_iff {P : Tree → Prop} :
    (∃ t d, Blanks s t ∧ TreeAt t d r ∧ P d) ↔ ∃ d, TreeAt (skipSpace s) d r ∧ P d := by
  constructor
  · rintro ⟨t, d, hblank, hd, h⟩
    exact ⟨d, hd.blanks_iff.mp hblank ▸ hd, h⟩
  · rintro ⟨d, hd, h⟩
    exact ⟨_, d, blanks_skipSpace s, hd, h⟩

theorem reads_iff {x : Reader α} :
    Reads x means ↔ ∀ s a r, Yields (x s) a r ↔ ∃ d, TreeAt (skipSpace s) d r ∧ means d a := by
  simp only [Reads, exists_blanks_treeAt_iff]

theorem exists_isText_iff {text : String} : (∃ d, TreeAt s d r ∧ d.IsText text) ↔
    ∃ t, s = '"' :: t ∧ ∃ ls, QuotedAt t ls r ∧ Spells ls text.toList := by
  constructor
  · rintro ⟨_, hd, ⟨h⟩⟩
    cases hd with
    | text hls => exact ⟨_, rfl, _, hls, h⟩
  · rintro ⟨t, rfl, ls, hls, h⟩
    exact ⟨_, .text hls, .mk h⟩

theorem reads_readText : Reads readText Tree.IsText := by
  rw [reads_iff]
  intro s text r
  rw [exists_isText_iff]
  unfold readText
  split
  · next t hs => simp [hs, readQuoted_checked_iff]
  · next hquote =>
      simp only [not_yields_error, false_iff]
      rintro ⟨t, hs, -⟩
      exact hquote t hs

theorem readNull_iff {v : Unit} : Yields (readNull s) v r ↔ TreeAt (skipSpace s) .null r := by
  unfold readNull
  split
  · next t hs => simp [hs, readWord_iff, treeAt_null_iff]
  · next hn =>
      simp only [not_yields_error, false_iff]
      intro h
      cases hs : skipSpace s with
      | nil => rw [hs] at h; cases h
      | cons c t =>
          rw [hs] at h
          cases h
          exact hn _ hs

theorem treeAt_null_head (h : TreeAt s .null r) : s.head? = some 'n' := by
  cases h
  rfl

theorem eq_null_of_head (h : TreeAt s d r) (hs : s.head? = some 'n') : d = .null := by
  cases s with
  | nil => simp at hs
  | cons c t =>
      cases hs
      exact (treeAt_null_iff.mp h).1

theorem reads_readOptional {x : Reader α} (hx : Reads x means) :
    Reads (readOptional x) (Tree.IsNullable means) := by
  rw [reads_iff] at hx ⊢
  intro s a r
  unfold readOptional
  split
  · next hs =>
      rw [yields_map_iff]
      constructor
      · rintro ⟨v, hv, rfl⟩
        exact ⟨.null, readNull_iff.mp hv, .null⟩
      · rintro ⟨d, hd, h⟩
        have hnull := eq_null_of_head hd hs
        cases h with
        | null => exact ⟨(), readNull_iff.mpr hd, rfl⟩
        | some hne => exact absurd hnull hne
  · next hs =>
      rw [yields_map_iff]
      constructor
      · rintro ⟨v, hv, rfl⟩
        obtain ⟨d, hd, h⟩ := (hx _ _ _).mp hv
        exact ⟨d, hd, .some (fun hnull => hs (treeAt_null_head (hnull ▸ hd))) h⟩
      · rintro ⟨d, hd, h⟩
        cases h with
        | null => exact absurd (treeAt_null_head hd) hs
        | some hne h => exact ⟨_, (hx _ _ _).mpr ⟨d, hd, h⟩, rfl⟩

theorem closeList_iff {v : Unit} : Yields (closeList s) v r ↔ skipSpace s = ']' :: r := by
  unfold closeList
  split
  · next hs => simp [hs]
  · next t hs => simp [hs]
  · next t hs => simp [hs]
  · next hclose _ =>
      simp only [not_yields_error, false_iff]
      exact hclose r

theorem leadAt_iff (h : TreeAt t d r) : LeadAt first s t ↔
    if first then skipSpace s = t else ∃ u, skipSpace s = ',' :: u ∧ skipSpace u = t := by
  obtain ⟨c, u, rfl, hc⟩ := h.head
  exact leadAt_cons_iff hc.1

theorem not_treeAt_nil : ¬ TreeAt [] d r := by
  intro h
  obtain ⟨c, t, hs, -⟩ := h.head
  contradiction

theorem not_treeAt_bracket : ¬ TreeAt (']' :: s) d r := by
  intro h
  obtain ⟨c, t, hs, hc⟩ := h.head
  cases hs
  exact hc.2.2.1 rfl

def NextItemAt {s : List Char} (ds : List Tree) (r : List Char) : Except Error (Option (Rest s.length)) → Prop
  | .error _ => False
  | .ok none => ds = [] ∧ skipSpace s = ']' :: r
  | .ok (some t) => ∃ e es u, ds = e :: es ∧ TreeAt (skipSpace t.1) e u ∧ ItemsAt false u es r

theorem itemsAt_iff_exists : ItemsAt first s ds r ↔ ds = [] ∧ skipSpace s = ']' :: r ∨
    ∃ e es t u, ds = e :: es ∧ (if first then skipSpace s = t else ∃ u, skipSpace s = ',' :: u ∧ skipSpace u = t) ∧
      TreeAt t e u ∧ ItemsAt false u es r := by
  have hclose : isSpace ']' = false := rfl
  constructor
  · intro h
    cases h with
    | nil h => exact .inl ⟨rfl, (blanks_cons_iff hclose).mp h⟩
    | cons hlead hd h => exact .inr ⟨_, _, _, _, rfl, (leadAt_iff hd).mp hlead, hd, h⟩
  · rintro (⟨rfl, h⟩ | ⟨e, es, t, u, rfl, hlead, hd, h⟩)
    · exact .nil ((blanks_cons_iff hclose).mpr h)
    · exact .cons ((leadAt_iff hd).mpr hlead) hd h

theorem itemsAt_iff : ItemsAt first s ds r ↔ NextItemAt ds r (nextItem first s) := by
  rw [itemsAt_iff_exists]
  fun_cases nextItem first s with
  | case1 hs => cases first <;> simp [NextItemAt, hs, not_treeAt_nil]
  | case2 rest hs => cases first <;> simp [NextItemAt, hs, not_treeAt_bracket]
  | case3 c rest hs hlength hc hfirst =>
      have hrest : skipSpace (c :: rest) = c :: rest := hs ▸ skipSpace_skipSpace s
      simp [NextItemAt, hs, hc, hfirst, hrest]
  | case4 rest hfirst hrest hs => simp [NextItemAt, hs, hfirst, hrest, not_treeAt_nil]
  | case5 rest hfirst t hrest hs => simp [NextItemAt, hs, hfirst, hrest, not_treeAt_bracket]
  | case6 rest hfirst hs => simp [NextItemAt, hs, hfirst, skipSpace_skipSpace]
  | case7 c rest hs hlength hc hfirst hcomma => simp [NextItemAt, hs, hc, hfirst, hcomma]

theorem readItems_iff {x : Reader α} (hx : Reads x means) {n : Nat} {read as : List α} {h : s.length ≤ n} :
    Yields (readItems x read first s h) as r ↔
      ∃ ds bs, ItemsAt first s ds r ∧ List.Forall₂ means ds bs ∧ as = read.reverse ++ bs := by
  rw [reads_iff] at hx
  fun_induction readItems x read first s h with
  | case1 read first s h e hnext => simp [itemsAt_iff, hnext, NextItemAt]
  | case2 read first s h hnext =>
      simp only [itemsAt_iff, hnext, NextItemAt, yields_map_mono_iff, closeList_iff]
      constructor
      · rintro ⟨_, hs, rfl⟩
        exact ⟨[], [], ⟨rfl, hs⟩, .nil, by simp⟩
      · rintro ⟨_, bs, ⟨rfl, hs⟩, hbs, rfl⟩
        cases hbs
        exact ⟨(), hs, by simp⟩
  | case3 read first s h t hnext e hitem =>
      simp only [not_yields_error, false_iff, itemsAt_iff (s := s), hnext]
      rintro ⟨_, bs, ⟨d, ds, u, rfl, hd, -⟩, hbs, -⟩
      cases hbs with
      | cons hb _ => simpa [hitem] using (hx _ _ _).mpr ⟨d, hd, hb⟩
  | case4 read first s h t hnext v hitem ih =>
      simp only [ih, itemsAt_iff (s := s), hnext]
      constructor
      · rintro ⟨ds, bs, hds, hbs, rfl⟩
        obtain ⟨d, hd, hb⟩ := (hx t.1 v.value v.rest).mp (by simp [hitem])
        exact ⟨d :: ds, v.value :: bs, ⟨d, ds, _, rfl, hd, hds⟩, .cons hb hbs, by simp⟩
      · rintro ⟨_, bs, ⟨d, ds, u, rfl, hd, hds⟩, hbs, rfl⟩
        cases hbs with
        | cons hb hbs =>
            have hv := (hx _ _ _).mpr ⟨d, hd, hb⟩
            rw [hitem, yields_ok_iff] at hv
            obtain ⟨rfl, rfl⟩ := hv
            exact ⟨ds, _, hds, hbs, by simp⟩

theorem reads_readList {x : Reader α} (hx : Reads x means) : Reads (readList x) (Tree.IsList means) := by
  rw [reads_iff]
  intro s as r
  have hlist : (∃ d, TreeAt (skipSpace s) d r ∧ d.IsList means as) ↔
      ∃ t, skipSpace s = '[' :: t ∧ ∃ ds, ItemsAt true t ds r ∧ List.Forall₂ means ds as := by
    constructor
    · rintro ⟨_, hd, ⟨h⟩⟩
      generalize skipSpace s = t at hd
      cases hd with
      | list hds => exact ⟨_, rfl, _, hds, h⟩
    · rintro ⟨t, ht, ds, hds, h⟩
      exact ⟨_, ht ▸ .list hds, .mk h⟩
  rw [hlist]
  unfold readList
  split
  · next t hs => simp [hs, readItems_iff hx]
  · next hbracket =>
      simp only [not_yields_error, false_iff]
      rintro ⟨t, hs, -⟩
      exact hbracket t hs

end PushAudit.Json
