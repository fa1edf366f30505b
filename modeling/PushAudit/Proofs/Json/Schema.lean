import PushAudit.Proofs.Json.Fields

namespace PushAudit.Json

variable {α σ τ : Type} {s r : List Char} {first required : Bool} {name key : String} {d : Tree} {ds : List Tree}
  {means : Tree → α → Prop} {named : List (String × Tree)}

/-- The first value under a name is kept, a second one is refused. -/
def PutsOnce (name : String) (means : Tree → α → Prop) (key : String) (d : Tree) (slot final : Option α) : Prop :=
  if key = name then slot = none ∧ ∃ v, final = some v ∧ means d v else final = slot

def PutsBoth (first : String → Tree → σ → σ → Prop) (second : String → Tree → τ → τ → Prop) (key : String)
    (d : Tree) (state final : σ × τ) : Prop :=
  first key d state.1 final.1 ∧ second key d state.2 final.2

theorem folds_nil_iff {puts : String → Tree → σ → σ → Prop} {state final : σ} :
    Folds puts state [] final ↔ final = state := by
  constructor
  · intro h
    cases h
    rfl
  · rintro rfl
    exact .nil

theorem folds_cons_iff {puts : String → Tree → σ → σ → Prop} {state final : σ} :
    Folds puts state ((key, d) :: named) final ↔ ∃ mid, puts key d state mid ∧ Folds puts mid named final := by
  constructor
  · intro h
    cases h with
    | cons h hrest => exact ⟨_, h, hrest⟩
  · rintro ⟨mid, h, hrest⟩
    exact .cons h hrest

theorem folds_putsBoth_iff {first : String → Tree → σ → σ → Prop} {second : String → Tree → τ → τ → Prop}
    {state final : σ × τ} : Folds (PutsBoth first second) state named final ↔
      Folds first state.1 named final.1 ∧ Folds second state.2 named final.2 := by
  induction named generalizing state with
  | nil => simp [folds_nil_iff, Prod.ext_iff]
  | cons f rest ih =>
      obtain ⟨key, d⟩ := f
      simp only [folds_cons_iff, ih, PutsBoth]
      constructor
      · rintro ⟨mid, ⟨h₁, h₂⟩, hrest₁, hrest₂⟩
        exact ⟨⟨_, h₁, hrest₁⟩, _, h₂, hrest₂⟩
      · rintro ⟨⟨mid₁, h₁, hrest₁⟩, mid₂, h₂, hrest₂⟩
        exact ⟨(mid₁, mid₂), ⟨h₁, h₂⟩, hrest₁, hrest₂⟩

theorem valuesUnder_cons (key : String) (d : Tree) (named : List (String × Tree)) (name : String) :
    valuesUnder ((key, d) :: named) name =
      if key = name then d :: valuesUnder named name else valuesUnder named name := by
  unfold valuesUnder
  split <;> simp [*]

theorem folds_putsOnce_some_iff {v : α} {final : Option α} :
    Folds (PutsOnce name means) (some v) named final ↔ final = some v ∧ valuesUnder named name = [] := by
  induction named with
  | nil => simp [folds_nil_iff, valuesUnder]
  | cons f rest ih =>
      obtain ⟨key, d⟩ := f
      rw [folds_cons_iff, valuesUnder_cons]
      split
      · next hkey => simp [PutsOnce, hkey]
      · next hkey => simp [PutsOnce, hkey, ih]

theorem folds_putsOnce_none_iff {final : Option α} :
    Folds (PutsOnce name means) none named final ↔ final = none ∧ valuesUnder named name = [] ∨
      ∃ d v, final = some v ∧ valuesUnder named name = [d] ∧ means d v := by
  induction named with
  | nil => simp [folds_nil_iff, valuesUnder]
  | cons f rest ih =>
      obtain ⟨key, d⟩ := f
      rw [folds_cons_iff, valuesUnder_cons]
      split
      · next hkey =>
          simp only [PutsOnce, hkey, if_true, true_and]
          constructor
          · rintro ⟨_, ⟨v, rfl, hv⟩, hrest⟩
            obtain ⟨rfl, hnil⟩ := folds_putsOnce_some_iff.mp hrest
            exact .inr ⟨d, v, rfl, by rw [hnil], hv⟩
          · rintro (⟨-, hnil⟩ | ⟨e, v, rfl, hcons, hv⟩)
            · contradiction
            · obtain ⟨rfl, hnil⟩ := List.cons.inj hcons
              exact ⟨_, ⟨v, rfl, hv⟩, folds_putsOnce_some_iff.mpr ⟨rfl, hnil⟩⟩
      · next hkey => simp [PutsOnce, hkey, ih]

def Fields.Puts : (fs : Fields) → String → Tree → fs.Slots → fs.Slots → Prop
  | .none => fun _ _ _ _ => True
  | .field name _ t more => PutsBoth (PutsOnce name t.Means) more.Puts

theorem Fields.puts_iff_of_not_mem {fs : Fields} {state final : fs.Slots} (h : key ∉ fs.names) :
    fs.Puts key d state final ↔ final = state := by
  induction fs using Fields.names.induct with
  | case1 => exact iff_of_true trivial rfl
  | case2 name required t more ih =>
      simp only [Fields.names, List.mem_cons, not_or] at h
      simp only [Fields.Puts, PutsBoth, PutsOnce, h.1, if_false, ih h.2]
      exact Prod.ext_iff.symm

theorem yields_skip_map_iff {state final : σ} :
    Yields ((skipValue.map fun _ => state) s) final r ↔ (∃ t d, Blanks s t ∧ TreeAt t d r) ∧ final = state := by
  simp only [Reader.map, yields_map_iff, skipValue_iff]
  constructor
  · rintro ⟨_, h, rfl⟩
    exact ⟨h, rfl⟩
  · rintro ⟨h, rfl⟩
    exact ⟨(), h, rfl⟩

theorem Reads.map {x : Reader α} (hx : Reads x means) {f : α → σ} {changes : Tree → σ → Prop}
    (h : ∀ d b, changes d b ↔ ∃ a, f a = b ∧ means d a) : Reads (x.map f) changes := by
  intro s b r
  simp only [Reader.map, yields_map_iff, h]
  constructor
  · rintro ⟨a, hv, hb⟩
    obtain ⟨t, d, hblank, hd, ha⟩ := (hx _ _ _).mp hv
    exact ⟨t, d, hblank, hd, a, hb, ha⟩
  · rintro ⟨t, d, hblank, hd, a, hb, ha⟩
    exact ⟨a, (hx _ _ _).mpr ⟨t, d, hblank, hd, ha⟩, hb⟩

theorem Serves.map {state : σ} {found : Except Error (Option (Reader σ))} {changes : Tree → σ → Prop}
    (h : Serves state found changes) {f : σ → τ} {changes' : Tree → τ → Prop}
    (hf : ∀ d b, changes' d b ↔ ∃ a, f a = b ∧ changes d a) :
    Serves (f state) (found.map (·.map fun x => x.map f)) changes' := by
  cases found with
  | error e =>
      intro d b hb
      obtain ⟨a, -, ha⟩ := (hf d b).mp hb
      exact h d a ha
  | ok reader? =>
      have hreads : Reads ((reader?.getD (skipValue.map fun _ => state)).map f) changes' := Reads.map h hf
      cases reader? with
      | some x => exact hreads
      | none =>
          intro s b r
          rw [← hreads]
          simp [Reader.map, skipValue_iff]

theorem Fields.looksUp_none : LooksUp Fields.none.lookUp Fields.none.Puts := by
  intro key state s final r
  rw [Option.getD_none, yields_skip_map_iff]
  constructor
  · rintro ⟨⟨t, d, hblank, hd⟩, -⟩
    exact ⟨t, d, hblank, hd, trivial⟩
  · rintro ⟨t, d, hblank, hd, -⟩
    exact ⟨⟨t, d, hblank, hd⟩, rfl⟩

theorem Fields.looksUp_field {t : Schema} {more : Fields} (ht : Reads t.read t.Means)
    (hmore : LooksUp more.lookUp more.Puts) (hname : name ∉ more.names) :
    LooksUp (Fields.field name required t more).lookUp (Fields.field name required t more).Puts := by
  rintro key ⟨slot, slots⟩
  rw [Fields.lookUp]
  split
  · next hkey =>
      subst hkey
      split
      · next hslot =>
          rintro d ⟨final, finals⟩ ⟨h, -⟩
          simp only [PutsOnce, if_true] at h
          simp [h.1] at hslot
      · next hslot =>
          obtain rfl : slot = .none := by simpa using hslot
          refine Reads.map ht fun d final => ?_
          simp only [Fields.Puts, PutsBoth, PutsOnce, if_true, true_and, Fields.puts_iff_of_not_mem hname]
          constructor
          · rintro ⟨⟨v, hfinal, hv⟩, hfinals⟩
            exact ⟨v, Prod.ext hfinal.symm hfinals.symm, hv⟩
          · rintro ⟨v, rfl, hv⟩
            exact ⟨⟨v, rfl, hv⟩, rfl⟩
  · next hkey =>
      refine (hmore key slots).map fun d final => ?_
      simp only [Fields.Puts, PutsBoth, PutsOnce, hkey, if_false]
      constructor
      · rintro ⟨hfinal, hmore⟩
        exact ⟨final.2, Prod.ext hfinal.symm rfl, hmore⟩
      · rintro ⟨finals, rfl, hmore⟩
        exact ⟨rfl, hmore⟩

def Settles (required : Bool) (default : α) (slot : Option α) (v : α) : Prop :=
  slot = some v ∨ slot = none ∧ required = false ∧ v = default

theorem Fields.finish_field_iff {t : Schema} {more : Fields} {slot : Option t.Val} {slots : more.Slots}
    {v : t.Val} {row : more.Row} : (Fields.field name required t more).finish (slot, slots) = .ok (v, row) ↔
      Settles required t.default slot v ∧ more.finish slots = .ok row := by
  have hpair {x : Except Error t.Val} : (do let v ← x; return (v, ← more.finish slots)) =
      (.ok (v, row) : Except Error (t.Val × more.Row)) ↔ x = .ok v ∧ more.finish slots = .ok row := by
    cases x with
    | error e => exact ⟨nofun, nofun⟩
    | ok w =>
        cases more.finish slots with
        | error e => exact ⟨nofun, nofun⟩
        | ok rows => simp [bind, Except.bind, pure, Except.pure]
  cases slot with
  | some w => exact (hpair (x := .ok w)).trans (by simp [Settles])
  | none =>
      cases required with
      | true => exact (hpair (x := .error (.missingField name))).trans (by simp [Settles])
      | false => exact (hpair (x := .ok t.default)).trans (by simp [Settles, eq_comm])

section Values

variable {default v : α}

theorem of_no_value_iff : (if required then Required means [] v else Defaulting means default [] v) ↔
    required = false ∧ v = default := by
  cases required with
  | true => exact iff_of_false nofun nofun
  | false =>
      constructor
      · rintro ⟨⟩
        exact ⟨rfl, rfl⟩
      · rintro ⟨-, rfl⟩
        exact .omitted

theorem of_one_value_iff :
    (if required then Required means [d] v else Defaulting means default [d] v) ↔ means d v := by
  cases required with
  | true => exact ⟨fun ⟨h⟩ => h, .mk⟩
  | false => exact ⟨fun | .given h => h, .given⟩

theorem eq_nil_or_singleton (h : if required then Required means ds v else Defaulting means default ds v) :
    ds = [] ∨ ∃ d, ds = [d] := by
  cases required with
  | true =>
      cases h with
      | mk => exact .inr ⟨_, rfl⟩
  | false =>
      cases h with
      | omitted => exact .inl rfl
      | given => exact .inr ⟨_, rfl⟩

theorem exists_settles_iff :
    (∃ slot, Folds (PutsOnce name means) none named slot ∧ Settles required default slot v) ↔
      if required then Required means (valuesUnder named name) v
        else Defaulting means default (valuesUnder named name) v := by
  simp only [folds_putsOnce_none_iff]
  constructor
  · rintro ⟨slot, ⟨rfl, hnil⟩ | ⟨d, w, rfl, hd, hw⟩, hsettles⟩
    · rw [hnil, of_no_value_iff]
      simpa [Settles] using hsettles
    · obtain rfl : w = v := by simpa [Settles] using hsettles
      rwa [hd, of_one_value_iff]
  · intro h
    obtain hnil | ⟨d, hd⟩ := eq_nil_or_singleton h
    · rw [hnil, of_no_value_iff] at h
      exact ⟨none, .inl ⟨rfl, hnil⟩, .inr ⟨rfl, h⟩⟩
    · rw [hd, of_one_value_iff] at h
      exact ⟨some v, .inr ⟨d, v, rfl, hd, h⟩, .inl rfl⟩

end Values

/-- Reading the fields of a record one by one comes to what the record means. -/
theorem Fields.exists_folds_iff {fs : Fields} {row : fs.Row} :
    (∃ slots, Folds fs.Puts fs.noSlots named slots ∧ fs.finish slots = .ok row) ↔
      fs.Means (valuesUnder named) row := by
  induction fs using Fields.names.induct with
  | case1 =>
      refine iff_of_true ⟨(), ?_, rfl⟩ trivial
      induction named with
      | nil => exact .nil
      | cons f rest ih => exact .cons trivial ih
  | case2 name required t more ih =>
      obtain ⟨v, row⟩ := row
      rw [Fields.Means, ← ih, ← exists_settles_iff]
      constructor
      · rintro ⟨⟨slot, slots⟩, hfolds, hfinish⟩
        obtain ⟨hslot, hslots⟩ := folds_putsBoth_iff.mp hfolds
        obtain ⟨hsettles, hrow⟩ := Fields.finish_field_iff.mp hfinish
        exact ⟨⟨slot, hslot, hsettles⟩, slots, hslots, hrow⟩
      · rintro ⟨⟨slot, hslot, hsettles⟩, slots, hslots, hrow⟩
        exact ⟨(slot, slots), folds_putsBoth_iff.mpr ⟨hslot, hslots⟩,
          Fields.finish_field_iff.mpr ⟨hsettles, hrow⟩⟩

def Fields.Takes : (fs : Fields) → List Tree → fs.Row → Prop
  | .none, ds, _ => ds = []
  | .field _ required t more, [], (v, row) => (required = false ∧ v = t.default) ∧ more.Takes [] row
  | .field _ _ t more, d :: ds, (v, row) => t.Means d v ∧ more.Takes ds row

theorem Fields.means_congr {fs : Fields} {values values' : String → List Tree} {row : fs.Row}
    (h : ∀ name ∈ fs.names, values name = values' name) : fs.Means values row ↔ fs.Means values' row := by
  induction fs using Fields.names.induct with
  | case1 => rfl
  | case2 name required t more ih =>
      obtain ⟨v, row⟩ := row
      rw [Fields.Means, Fields.Means, h name List.mem_cons_self,
        ih fun other hother => h other (List.mem_cons_of_mem name hother)]

theorem Fields.means_tail_iff {more : Fields} {row : more.Row} (hname : name ∉ more.names) :
    more.Means (fun other => ds[(name :: more.names).idxOf other]?.toList) row ↔
      more.Means (fun other => ds.tail[more.names.idxOf other]?.toList) row := by
  refine Fields.means_congr fun other hother => ?_
  have hne : name ≠ other := fun h => hname (h ▸ hother)
  rw [List.idxOf_cons_ne more.names hne, List.getElem?_tail]

theorem Fields.takes_iff {fs : Fields} {row : fs.Row} (hdistinct : fs.Distinct) : fs.Takes ds row ↔
    ds.length ≤ fs.names.length ∧ fs.Means (fun name => ds[fs.names.idxOf name]?.toList) row := by
  induction fs using Fields.names.induct generalizing ds with
  | case1 => simp [Fields.Takes, Fields.Means, Fields.names]
  | case2 name required t more ih =>
      obtain ⟨v, row⟩ := row
      obtain ⟨hname, -, hmore⟩ := hdistinct
      rw [Fields.Means, Fields.names, Fields.means_tail_iff hname, List.idxOf_cons_self]
      cases ds with
      | nil =>
          rw [Fields.Takes, ih hmore, List.getElem?_nil, Option.toList_none, of_no_value_iff]
          simp
      | cons d ds =>
          rw [Fields.Takes, ih hmore, List.getElem?_cons_zero, Option.toList_some, of_one_value_iff]
          simp [and_left_comm]

def Fields.ReadsArray (fs : Fields) : Prop :=
  ∀ {expected : String} {index n : Nat} {first : Bool} {s r : List Char} {h : s.length ≤ n} {row : fs.Row},
    Yields (fs.readArray expected index first s h) row r ↔ ∃ ds, ItemsAt first s ds r ∧ fs.Takes ds row

theorem Fields.readsArray_none : Fields.none.ReadsArray := by
  intro expected index n first s r h row
  have hclose : isSpace ']' = false := rfl
  refine (yields_mono_iff (h := h)).trans (closeList_iff.trans ((blanks_cons_iff hclose).symm.trans ?_))
  constructor
  · intro hs
    exact ⟨[], .nil hs, rfl⟩
  · rintro ⟨ds, hds, htakes⟩
    obtain rfl : ds = [] := htakes
    cases hds with
    | nil hs => exact hs

section

variable {required first : Bool} {t : Schema} {more : Fields} {v : t.Val} {row : more.Row}

theorem Fields.exists_takes_end_iff (hnext : nextItem first s = .ok .none) :
    (∃ ds, ItemsAt first s ds r ∧ (Fields.field name required t more).Takes ds (v, row)) ↔
      (required = false ∧ v = t.default) ∧ ∃ ds, ItemsAt first s ds r ∧ more.Takes ds row := by
  have hnil (ds : List Tree) (hds : ItemsAt first s ds r) : ds = [] := by
    rw [itemsAt_iff, hnext] at hds
    exact hds.1
  constructor
  · rintro ⟨ds, hds, htakes⟩
    obtain rfl := hnil ds hds
    exact ⟨htakes.1, [], hds, htakes.2⟩
  · rintro ⟨hdefault, ds, hds, htakes⟩
    obtain rfl := hnil ds hds
    exact ⟨[], hds, hdefault, htakes⟩

theorem Fields.exists_takes_item_iff {place : Rest s.length}
    (hnext : nextItem first s = .ok (some place)) :
    (∃ ds, ItemsAt first s ds r ∧ (Fields.field name required t more).Takes ds (v, row)) ↔
      ∃ u, (∃ d, TreeAt (skipSpace place.1) d u ∧ t.Means d v) ∧
        ∃ ds, ItemsAt false u ds r ∧ more.Takes ds row := by
  have hds (ds : List Tree) : ItemsAt first s ds r ↔
      ∃ e es u, ds = e :: es ∧ TreeAt (skipSpace place.1) e u ∧ ItemsAt false u es r := by
    rw [itemsAt_iff, hnext]
    rfl
  simp only [hds]
  constructor
  · rintro ⟨_, ⟨d, es, u, rfl, hd, hes⟩, hv, hrow⟩
    exact ⟨u, ⟨d, hd, hv⟩, es, hes, hrow⟩
  · rintro ⟨u, ⟨d, hd, hv⟩, es, hes, hrow⟩
    exact ⟨d :: es, ⟨d, es, u, rfl, hd, hes⟩, hv, hrow⟩

end

theorem Fields.readsArray_field {t : Schema} {more : Fields} (ht : Reads t.read t.Means)
    (hmore : more.ReadsArray) : (Fields.field name required t more).ReadsArray := by
  rintro expected index n first s r h ⟨v, row⟩
  rw [reads_iff] at ht
  rw [Fields.ReadsArray] at hmore
  rw [Fields.readArray]
  cases hnext : nextItem first s with
  | error e =>
      refine iff_of_false not_yields_error ?_
      rintro ⟨ds, hds, -⟩
      simp [itemsAt_iff, hnext, NextItemAt] at hds
  | ok place? =>
      cases place? with
      | none =>
          rw [Fields.exists_takes_end_iff hnext]
          cases required with
          | true => exact iff_of_false not_yields_error (by simp)
          | false =>
              refine (yields_map_iff (x := more.readArray expected (index + 1) first s h)).trans ?_
              simp only [hmore]
              constructor
              · rintro ⟨_, hrow, hv⟩
                cases hv
                exact ⟨⟨trivial, rfl⟩, hrow⟩
              · rintro ⟨⟨-, rfl⟩, hrow⟩
                exact ⟨row, hrow, rfl⟩
      | some place =>
          rw [Fields.exists_takes_item_iff hnext]
          simp only [← ht]
          cases hread : t.read place.1 with
          | error e => exact iff_of_false not_yields_error (by simp)
          | ok w =>
              refine (yields_map_iff (x := more.readArray expected (index + 1) false w.rest _)).trans ?_
              simp only [hmore, yields_ok_iff]
              constructor
              · rintro ⟨_, hrow, hv⟩
                cases hv
                exact ⟨w.rest, ⟨rfl, rfl⟩, hrow⟩
              · rintro ⟨_, ⟨rfl, rfl⟩, hrow⟩
                exact ⟨row, hrow, rfl⟩

theorem exists_means_record_iff {fs : Fields} {row : fs.Row} (hdistinct : fs.Distinct) :
    (∃ d, TreeAt s d r ∧ (Schema.record name fs).Means d row) ↔
      (∃ t, s = '\x7b' :: t ∧ ∃ named, NamedAt true t named r ∧ fs.Means (valuesUnder named) row) ∨
        ∃ t, s = '[' :: t ∧ ∃ ds, ItemsAt true t ds r ∧ fs.Takes ds row := by
  simp only [Fields.takes_iff hdistinct]
  constructor
  · rintro ⟨d, hd, values, hvalues, h⟩
    cases hvalues with
    | record hnamed =>
        cases hd with
        | record hfs => exact .inl ⟨_, rfl, _, ⟨_, hfs, hnamed⟩, h⟩
    | list hlength =>
        cases hd with
        | list hds => exact .inr ⟨_, rfl, _, hds, hlength, h⟩
  · rintro (⟨t, rfl, named, ⟨fs, hfs, hnamed⟩, h⟩ | ⟨t, rfl, ds, hds, hlength, h⟩)
    · exact ⟨.record fs, .record hfs, _, .record hnamed, h⟩
    · exact ⟨.list ds, .list hds, _, .list hlength, h⟩

theorem yields_finish_iff {ρ : Type} {m n : Nat} {h : m ≤ n} {x : Except Error (Text.Taken σ m)}
    {finish : σ → Except Error ρ} {row : ρ} :
    Yields (do
      let t ← x
      let row ← finish t.value
      return ⟨row, t.rest, Nat.lt_of_lt_of_le t.shorter h⟩ : Except Error (Text.Taken ρ n)) row r ↔
      ∃ state, Yields x state r ∧ finish state = .ok row := by
  cases x with
  | error e => exact iff_of_false nofun (by simp)
  | ok t =>
      cases hfinish : finish t.value with
      | error e =>
          refine iff_of_false ?_ ?_
          · simp [bind, Except.bind, hfinish]
          · rintro ⟨state, ht, hrow⟩
            obtain ⟨rfl, rfl⟩ := yields_ok_iff.mp ht
            simp [hfinish] at hrow
      | ok done =>
          simp only [bind, Except.bind, hfinish, pure, Except.pure, yields_ok_iff]
          constructor
          · rintro ⟨rfl, rfl⟩
            exact ⟨t.value, ⟨rfl, rfl⟩, hfinish⟩
          · rintro ⟨state, ⟨rfl, rfl⟩, hrow⟩
            exact ⟨Except.ok.inj (hfinish.symm.trans hrow), rfl⟩

theorem reads_record {fs : Fields} (hdistinct : fs.Distinct) (hlook : LooksUp fs.lookUp fs.Puts)
    (harray : fs.ReadsArray) : Reads (Schema.record name fs).read (Schema.record name fs).Means := by
  rw [reads_iff]
  intro s row r
  refine Iff.trans ?_ (exists_means_record_iff hdistinct).symm
  rw [Schema.read]
  fun_cases readRecord name fs.lookUp fs.noSlots fs.finish (fs.readArray (arrayName name fs) 0 true) s with
  | case1 t hs =>
      refine (yields_finish_iff (h := Nat.le_of_succ_le (skipSpace_cons hs))).trans ?_
      simp only [readFields_iff hlook, hs]
      constructor
      · rintro ⟨slots, ⟨named, hnamed, hfolds⟩, hfinish⟩
        exact .inl ⟨t, rfl, named, hnamed, Fields.exists_folds_iff.mp ⟨slots, hfolds, hfinish⟩⟩
      · rintro (⟨_, ⟨⟩, named, hnamed, h⟩ | ⟨_, ⟨⟩, -⟩)
        obtain ⟨slots, hfolds, hfinish⟩ := Fields.exists_folds_iff.mpr h
        exact ⟨slots, ⟨named, hnamed, hfolds⟩, hfinish⟩
  | case2 t hs =>
      refine harray.trans ?_
      simp [hs]
  | case3 hrecord hlist =>
      refine iff_of_false not_yields_error ?_
      rintro (⟨t, hs, -⟩ | ⟨t, hs, -⟩)
      · exact hrecord t hs
      · exact hlist t hs

mutual

theorem Schema.reads : (t : Schema) → t.Distinct → Reads t.read t.Means
  | .text, _ => reads_readText
  | .optional t, h => reads_readOptional (t.reads h)
  | .list t, h => reads_readList (t.reads h)
  | .record _ fs, h => reads_record h (fs.looksUp h) (fs.readsArray h)

theorem Fields.looksUp : (fs : Fields) → fs.Distinct → LooksUp fs.lookUp fs.Puts
  | .none, _ => Fields.looksUp_none
  | .field _ _ t more, h => Fields.looksUp_field (t.reads h.2.1) (more.looksUp h.2.2) h.1

theorem Fields.readsArray : (fs : Fields) → fs.Distinct → fs.ReadsArray
  | .none, _ => Fields.readsArray_none
  | .field _ _ t more, h => Fields.readsArray_field (t.reads h.2.1) (more.readsArray h.2.2)

end

theorem Reader.parse_eq_ok_iff {x : Reader α} (hx : Reads x means) {text : String} {a : α} :
    x.parse text = .ok a ↔ ∃ d, d.IsDocument text ∧ means d a := by
  have hparse : x.parse text = .ok a ↔ ∃ r, Yields (x text.toList) a r ∧ (skipSpace r).isEmpty := by
    unfold Reader.parse
    cases x text.toList with
    | error e => simp
    | ok t =>
        dsimp only
        constructor
        · intro h
          split at h
          · next hr => exact ⟨t.rest, by simpa using h, hr⟩
          · contradiction
        · rintro ⟨r, ht, hr⟩
          obtain ⟨rfl, rfl⟩ := yields_ok_iff.mp ht
          simp [hr]
  simp only [hparse, hx text.toList, ← blanks_nil_iff]
  constructor
  · rintro ⟨r, ⟨s, d, hs, hd, ha⟩, hr⟩
    exact ⟨d, ⟨s, r, hs, hd, hr⟩, ha⟩
  · rintro ⟨d, ⟨s, r, hs, hd, hr⟩, ha⟩
    exact ⟨r, ⟨s, d, hs, hd, ha⟩, hr⟩

/-- Reading in one pass comes to what the tree of the text means. -/
theorem Schema.parse_eq_ok_iff {t : Schema} (h : t.Distinct) {text : String} {v : t.Val} :
    t.parse text = .ok v ↔ ∃ d, d.IsDocument text ∧ t.Means d v :=
  Reader.parse_eq_ok_iff (t.reads h)

end PushAudit.Json
