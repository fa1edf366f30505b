import Mathlib.Data.List.TakeWhile
import PushAudit.Command.Arguments

namespace PushAudit.Command

inductive Flag
  | verbose
  | debug
deriving DecidableEq, Repr

def Flag.name : Flag → String
  | verbose => "verbose"
  | debug => "debug"

def Flag.spellings : Flag → List String
  | verbose => ["--verbose", "-v"]
  | debug => ["--debug"]

/-- What arguments are made of, but for plain ones. -/
inductive Item
  | flag (g : Flag)
  | option (name value : String)
deriving DecidableEq, Repr

def Item.key : Item → Flag ⊕ String
  | flag g => .inl g
  | option name _ => .inr name

def Item.option? : Item → Option (String × String)
  | flag _ => none
  | option name value => some (name, value)

/-- The arguments that give an item. A value of its own must not look like a flag. -/
inductive Item.Words : Item → List String → Prop
  | flag {g : Flag} {word : String} (h : word ∈ g.spellings) : Words (.flag g) [word]
  | attached {name value : String} : Words (.option name value) ["--" ++ name ++ "=" ++ value]
  | apart {name value : String} (h : value.toList.head? ≠ some '-') : Words (.option name value) ["--" ++ name, value]

inductive Spells : List Item → List String → Prop
  | nil : Spells [] []
  | cons {i : Item} {is : List Item} {words rest : List String} (hi : i.Words words) (h : Spells is rest) :
      Spells (i :: is) (words ++ rest)

variable {form : Form} {st st' : State} {f : Flags} {g g' : Flag} {i : Item} {is : List Item} {name value : String}
  {words rest : List String}

theorem ofString_long {s : String} {c : Char} {cs : List Char} (h : s.toList = '-' :: '-' :: c :: cs) :
    Argument.ofString s = .long (String.ofList ((c :: cs).takeWhile (· ≠ '=')))
      (((c :: cs).drop ((c :: cs).takeWhile (· ≠ '=')).length).tail?.map String.ofList) := by
  simp only [Argument.ofString, h]

theorem ofString_attached (hname : '=' ∉ name.toList) :
    Argument.ofString ("--" ++ name ++ "=" ++ value) = .long name (some value) := by
  have htext : ("--" ++ name ++ "=" ++ value).toList = '-' :: '-' :: (name.toList ++ '=' :: value.toList) := by
    simp
  have htake : (name.toList ++ '=' :: value.toList).takeWhile (· ≠ '=') = name.toList := by
    rw [List.takeWhile_append_of_pos fun c hc => by simpa using ne_of_mem_of_not_mem hc hname]
    simp
  obtain ⟨c, cs, hcs⟩ : ∃ c cs, name.toList ++ '=' :: value.toList = c :: cs :=
    List.exists_cons_of_ne_nil (by simp)
  rw [hcs] at htext htake
  rw [ofString_long htext, htake, ← hcs]
  simp

theorem ofString_apart (hname : '=' ∉ name.toList) (hne : name ≠ "") :
    Argument.ofString ("--" ++ name) = .long name none := by
  have htext : ("--" ++ name).toList = '-' :: '-' :: name.toList := by simp
  have htake : name.toList.takeWhile (· ≠ '=') = name.toList :=
    List.takeWhile_eq_self_iff.mpr fun c hc => by simpa using ne_of_mem_of_not_mem hc hname
  obtain ⟨c, cs, hcs⟩ : ∃ c cs, name.toList = c :: cs :=
    List.exists_cons_of_ne_nil (by rwa [Ne, String.toList_eq_nil_iff])
  rw [hcs] at htext htake
  rw [ofString_long htext, htake, ← hcs]
  simp

theorem ofString_plain (h : value.toList.head? ≠ some '-') : Argument.ofString value = .plain value := by
  unfold Argument.ofString
  split
  · next hs => simp [hs] at h
  · next hs => simp [hs] at h
  · next hs => simp [hs] at h
  · rfl

/-! Flags do not interfere with options, nor the values of options with the rest. -/

def Flags.has (f : Flags) : Flag → Bool
  | .verbose => f.verbose
  | .debug => f.debug

def Flags.add (f : Flags) : Flag → Flags
  | .verbose => { f with verbose := true }
  | .debug => { f with debug := true }

@[simp] theorem Flags.has_add : (f.add g).has g' = (g == g' || f.has g') := by
  cases g <;> cases g' <;> simp [add, has]

theorem long?_eq_add (h : f.has g = false) (top : Bool) : f.long? top g.name = some (.ok (f.add g)) := by
  cases g <;> simp_all [Flags.long?, Flag.name, Flags.has, Flags.setVerbose, Flags.setDebug, Flags.add]

theorem short_v (h : f.has .verbose = false) (top : Bool) : f.short top 'v' = .ok (f.add .verbose) := by
  simp_all [Flags.short, Flags.has, Flags.setVerbose, Flags.add]

theorem ofString_of_mem_spellings {word : String} (h : word ∈ g.spellings) :
    Argument.ofString word = .long g.name none ∨ g = .verbose ∧ Argument.ofString word = .short ['v'] := by
  cases g with
  | verbose =>
      have hword : word = "--verbose" ∨ word = "-v" := by simpa [Flag.spellings] using h
      rcases hword with rfl | rfl
      · exact .inl (by decide)
      · exact .inr ⟨rfl, by decide⟩
  | debug =>
      have hword : word = "--debug" := by simpa [Flag.spellings] using h
      exact .inl (by rw [hword]; decide)

structure Form.IsSound (form : Form) : Prop where
  nonempty : "" ∉ form.options
  noEquals : ∀ name ∈ form.options, '=' ∉ name.toList
  noFlag : ∀ g : Flag, g.name ∉ form.options
  nodup : form.options.Nodup

namespace State

def Has (st : State) : Flag ⊕ String → Prop
  | .inl g => st.flags.has g
  | .inr name => name ∈ st.options.map (·.1)

def take (st : State) : Item → State
  | .flag g => { st with flags := st.flags.add g }
  | .option name value => { st with options := st.options ++ [(name, value)] }

theorem has_take_iff (st : State) (i : Item) (k : Flag ⊕ String) : (st.take i).Has k ↔ st.Has k ∨ i.key = k := by
  cases i with
  | flag g =>
      cases k with
      | inl g' => simp [Has, take, Item.key, or_comm]
      | inr name => simp [Has, take, Item.key]
  | option name value =>
      cases k with
      | inl g => simp [Has, take, Item.key]
      | inr name' => simp [Has, take, Item.key, eq_comm]

theorem add_eq_ok (h : ¬ st.Has (.inr name)) :
    st.add name value = .ok { st with options := st.options ++ [(name, value)], pending := none } := by
  rw [add, if_neg]
  simpa [Has] using h

theorem eq_of_settle (h : st.settle = .ok st') : st' = { st with options := st'.options, pending := none } := by
  unfold settle at h
  split at h
  · next hp =>
      cases h
      rw [← hp]
  · contradiction
  · unfold add at h
    split at h
    · contradiction
    · cases h
      rfl

theorem settle_of_pending (h : st.pending = none) : st.settle = .ok st := by
  rw [settle, h]

end State

theorem readOptions_flag (hform : form.IsSound) (h : st.settle = .ok st') {word : String}
    (hword : word ∈ g.spellings) (hnew : ¬ st'.Has (.inl g)) (rest : List String) :
    readOptions form st (word :: rest) = readOptions form (st'.take (.flag g)) rest := by
  have hflags : st.flags = st'.flags := by rw [State.eq_of_settle h]
  have hnew : st'.flags.has g = false := eq_false_of_ne_true hnew
  rw [readOptions]
  rcases ofString_of_mem_spellings hword with hlong | ⟨rfl, hshort⟩
  · have hread : st.long form g.name none = .ok (st'.take (.flag g)) := by
      rw [State.long, if_neg (by simpa using hform.noFlag g), hflags, long?_eq_add hnew]
      simp [h, State.take, bind, Except.bind, pure, Except.pure]
    rw [hlong]
    dsimp only
    rw [hread]
    rfl
  · have hread : st.short ['v'] = .ok (st'.take (.flag .verbose)) := by
      simp [State.short, Flags.isShort, h, short_v hnew, State.take, bind, Except.bind]
    rw [hshort]
    dsimp only
    rw [hread]
    rfl

theorem readOptions_attached (hform : form.IsSound) (h : st.settle = .ok st') (hname : name ∈ form.options)
    (hnew : ¬ st'.Has (.inr name)) (rest : List String) :
    readOptions form st (("--" ++ name ++ "=" ++ value) :: rest) =
      readOptions form (st'.take (.option name value)) rest := by
  have hread : st.long form name (some value) = .ok (st'.take (.option name value)) := by
    rw [State.long, if_pos (by simpa using hname), h]
    have hpending : st'.pending = none := by rw [State.eq_of_settle h]
    simp only [bind, Except.bind, State.add_eq_ok hnew, State.take, hpending]
  rw [readOptions, ofString_attached (hform.noEquals name hname)]
  dsimp only
  rw [hread]
  rfl

/-- An option whose value comes after it stays pending, and is settled later. -/
theorem readOptions_apart (hform : form.IsSound) (h : st.settle = .ok st') (hname : name ∈ form.options)
    (hvalue : value.toList.head? ≠ some '-') (rest : List String) :
    readOptions form st (("--" ++ name) :: value :: rest) =
      readOptions form { st' with pending := some (name, some value) } rest := by
  have hne : name ≠ "" := fun hempty => hform.nonempty (hempty ▸ hname)
  have hread : st.long form name none = .ok { st' with pending := some (name, none) } := by
    rw [State.long, if_pos (by simpa using hname), h]
    rfl
  rw [readOptions, ofString_apart (hform.noEquals name hname) hne]
  dsimp only
  rw [hread]
  show readOptions form { st' with pending := some (name, none) } (value :: rest) = _
  rw [readOptions, ofString_plain hvalue]
  rfl

theorem readOptions_words (hform : form.IsSound) (h : st.settle = .ok st') (hi : i.Words words)
    (hoption : ∀ name value, i = .option name value → name ∈ form.options) (hnew : ¬ st'.Has i.key)
    (rest : List String) :
    ∃ next, readOptions form st (words ++ rest) = readOptions form next rest ∧ next.settle = .ok (st'.take i) := by
  have hpending : (st'.take i).pending = none := by
    rw [State.eq_of_settle h]
    cases i <;> rfl
  cases hi with
  | flag hword =>
      exact ⟨_, readOptions_flag hform h hword hnew rest, State.settle_of_pending hpending⟩
  | attached =>
      exact ⟨_, readOptions_attached hform h (hoption _ _ rfl) hnew rest, State.settle_of_pending hpending⟩
  | @apart name value hvalue =>
      refine ⟨_, readOptions_apart hform h (hoption _ _ rfl) hvalue rest, ?_⟩
      rw [State.settle]
      dsimp only
      have hadd : State.add { st' with pending := some (name, some value) } name value = .ok _ :=
        State.add_eq_ok hnew
      rw [hadd, ← hpending]
      rfl

theorem readOptions_spells (hform : form.IsSound) (hw : Spells is words) (h : st.settle = .ok st')
    (hoption : ∀ name value, .option name value ∈ is → name ∈ form.options) (hnodup : (is.map Item.key).Nodup)
    (hnew : ∀ i ∈ is, ¬ st'.Has i.key) (rest : List String) :
    ∃ next, readOptions form st (words ++ rest) = readOptions form next rest ∧
      next.settle = .ok (is.foldl State.take st') := by
  induction hw generalizing st st' with
  | nil => exact ⟨st, rfl, h⟩
  | @cons i is words more hi hw ih =>
      rw [List.map_cons, List.nodup_cons] at hnodup
      obtain ⟨next, hread, hnext⟩ := readOptions_words hform h hi
        (fun name value hi => hoption name value (hi ▸ .head _)) (hnew i (.head _)) (more ++ rest)
      obtain ⟨last, hmore, hlast⟩ := ih hnext (fun name value hi => hoption name value (.tail _ hi)) hnodup.2
        fun j hj hhas => by
          rcases (State.has_take_iff st' i j.key).mp hhas with hhas | hkey
          · exact hnew j (.tail _ hj) hhas
          · exact hnodup.1 (List.mem_map.mpr ⟨j, hj, hkey.symm⟩)
      exact ⟨last, by rw [List.append_assoc, hread, hmore], hlast⟩

theorem foldlM_addPlain (hform : form.takesPlain) (h : st.settle = .ok st') (patterns : List String) :
    (patterns.foldlM (·.addPlain form ·) st >>= State.settle) =
      .ok { st' with plain := st'.plain ++ patterns } := by
  induction patterns generalizing st st' with
  | nil => simpa [bind, Except.bind, pure, Except.pure] using h
  | cons s patterns ih =>
      have hadd : st.addPlain form s = .ok { st' with plain := st'.plain ++ [s] } := by
        rw [State.addPlain, if_pos hform, h]
        rfl
      have hpending : st'.pending = none := by rw [State.eq_of_settle h]
      have hsettle : State.settle { st' with plain := st'.plain ++ [s] } = .ok _ := State.settle_of_pending hpending
      have hnext := ih hsettle
      rw [List.foldlM_cons, hadd]
      simpa [bind, Except.bind] using hnext

theorem State.has_foldl_take_iff (st : State) (is : List Item) (k : Flag ⊕ String) :
    (is.foldl take st).Has k ↔ st.Has k ∨ ∃ i ∈ is, i.key = k := by
  induction is generalizing st with
  | nil => simp
  | cons i is ih => simp [ih, has_take_iff, or_assoc]

theorem State.foldl_take_eq (st : State) (is : List Item) : is.foldl take st =
    { st with flags := (is.foldl take st).flags, options := st.options ++ is.filterMap Item.option? } := by
  induction is generalizing st with
  | nil => simp
  | cons i is ih =>
      rw [List.foldl_cons, ih]
      cases i with
      | flag g => rw [List.filterMap_cons_none rfl, take]
      | option name value =>
          rw [List.filterMap_cons, Item.option?, take, List.append_assoc, List.singleton_append]

theorem Flags.has_foldl_add_iff (f : Flags) (gs : List Flag) (g : Flag) :
    (gs.foldl add f).has g ↔ f.has g ∨ g ∈ gs := by
  induction gs generalizing f with
  | nil => simp
  | cons g' gs ih =>
      simp only [List.foldl_cons, ih, has_add, Bool.or_eq_true, beq_iff_eq, List.mem_cons, eq_comm (a := g')]
      rw [or_assoc, or_left_comm]

theorem Flags.has_union (f f' : Flags) (g : Flag) : (f.union f').has g = (f.has g || f'.has g) := by
  cases g <;> rfl

end PushAudit.Command
