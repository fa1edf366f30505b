import Mathlib.Data.List.Nodup
import PushAudit.Proofs.Command.Options

namespace PushAudit

namespace Command

def name : Command → String
  | version => "version"
  | rules _ => "rules"
  | scan .. => "scan"
  | push .. => "push"

def fields : Command → List (String × Option String)
  | version => []
  | rules output => [("output", output)]
  | scan _ name repoRoot output => [("name", name), ("repo-root", repoRoot), ("output", output)]
  | push event commitsDir repoRoot output =>
    [("event", some event), ("commits-dir", commitsDir), ("repo-root", repoRoot), ("output", output)]

def present (fields : List (String × Option String)) : List (String × String) :=
  fields.filterMap fun (name, value) => value.map (name, ·)

def form : Command → Form
  | version => ⟨[], false⟩
  | rules _ => rulesForm
  | scan .. => scanForm
  | push .. => pushForm

def patterns : Command → List String
  | scan patterns _ _ _ => patterns
  | _ => []

/-- What stands after all options: the patterns of a scan, which an escape lets be anything. -/
def closing : Command → List String
  | scan patterns _ _ _ => "--" :: patterns
  | _ => []

end Command

namespace Invocation

def flags (i : Invocation) : List Command.Flag :=
  (if i.verbose then [.verbose] else []) ++ (if i.debug then [.debug] else [])

def items (i : Invocation) : List Command.Item :=
  i.flags.map Command.Item.flag ++
    (Command.present i.command.fields).map fun (name, value) => .option name value

/-- The arguments of an invocation: each flag before the command or among its options, the options in any
order. -/
inductive IsWritten (i : Invocation) : List String → Prop
  | mk {before : List Command.Flag} {among : List Command.Item} {front back : List String}
      (h : (before.map Command.Item.flag ++ among).Perm i.items)
      (hfront : Command.Spells (before.map Command.Item.flag) front) (hback : Command.Spells among back) :
      IsWritten i (front ++ i.command.name :: (back ++ i.command.closing))

end Invocation

namespace Command

variable {st st' : State} {f : Flags} {g : Flag} {name value : String} {words rest : List String}

theorem readFrom_flag {word : String} (hword : word ∈ g.spellings) (hnew : f.has g = false) (rest : List String) :
    readFrom f (word :: rest) = readFrom (f.add g) rest := by
  have hplain : word ≠ "help" ∧ forms.find? (·.1 == word) = none := by
    cases g with
    | verbose =>
        rcases (by simpa [Flag.spellings] using hword : word = "--verbose" ∨ word = "-v") with rfl | rfl <;> decide
    | debug =>
        rw [(by simpa [Flag.spellings] using hword : word = "--debug")]
        decide
  rw [readFrom, if_neg hplain.1, hplain.2]
  dsimp only
  rcases ofString_of_mem_spellings hword with hlong | ⟨rfl, hshort⟩
  · rw [hlong]
    dsimp only
    rw [long?_eq_add hnew]
    rfl
  · rw [hshort]
    dsimp only
    rw [List.foldlM_cons, short_v hnew]
    rfl

theorem readFrom_spells {gs : List Flag} (hw : Spells (gs.map .flag) words) (hnodup : gs.Nodup)
    (hnew : ∀ g ∈ gs, f.has g = false) (rest : List String) :
    readFrom f (words ++ rest) = readFrom (gs.foldl Flags.add f) rest := by
  induction gs generalizing f words with
  | nil =>
      cases hw
      rfl
  | cons g gs ih =>
      rw [List.nodup_cons] at hnodup
      cases hw with
      | cons hi hw =>
          cases hi with
          | flag hword =>
              rw [List.append_assoc, List.singleton_append, readFrom_flag hword (hnew g (.head _)),
                ih hw hnodup.2, List.foldl_cons]
              intro g' hg'
              have hne : g ≠ g' := fun h => hnodup.1 (h ▸ hg')
              simp [hne, hnew g' (.tail _ hg')]

theorem mem_present_iff {fields : List (String × Option String)} :
    (name, value) ∈ present fields ↔ (name, some value) ∈ fields := by
  simp [present]

theorem option?_of_perm {fields : List (String × Option String)} (hperm : st.options.Perm (present fields))
    (hnodup : (fields.map (·.1)).Nodup) {value : Option String} (hmem : (name, value) ∈ fields) :
    st.option? name = value := by
  have hsome (e : String × String) (he : e ∈ st.options) (hname : e.1 = name) : value = some e.2 := by
    have hfield : (e.1, some e.2) ∈ fields := mem_present_iff.mp (hperm.mem_iff.mp he)
    exact congrArg Prod.snd (List.inj_on_of_nodup_map hnodup hmem hfield hname.symm)
  unfold State.option?
  cases hfind : st.options.find? (·.1 == name) with
  | some e => exact (hsome e (List.mem_of_find?_eq_some hfind) (by simpa using List.find?_some hfind)).symm
  | none =>
      cases value with
      | none => rfl
      | some v =>
          have hv : (name, v) ∈ st.options := hperm.mem_iff.mpr (mem_present_iff.mpr hmem)
          exact absurd (beq_self_eq_true name) (List.find?_eq_none.mp hfind (name, v) hv)

theorem form_isSound (c : Command) : c.form.IsSound := by
  have hall : ∀ f ∈ [⟨[], false⟩, rulesForm, scanForm, pushForm], ("" ∉ f.options ∧
      ∀ name ∈ f.options, '=' ∉ name.toList) ∧ (Flag.verbose.name ∉ f.options ∧ Flag.debug.name ∉ f.options) ∧
        f.options.Nodup := by decide
  have hmem : c.form ∈ [⟨[], false⟩, rulesForm, scanForm, pushForm] := by cases c <;> simp [form]
  obtain ⟨⟨hempty, hequals⟩, ⟨hverbose, hdebug⟩, hnodup⟩ := hall _ hmem
  exact ⟨hempty, hequals, fun g => by cases g <;> assumption, hnodup⟩

theorem map_fields (c : Command) : c.fields.map (·.1) = c.form.options := by
  cases c <;> rfl

theorem exists_make (c : Command) : ∃ make, forms.find? (·.1 == c.name) = some (c.name, c.form, make) ∧
    ∀ st : State, (∀ field ∈ c.fields, st.option? field.1 = field.2) → st.plain = c.patterns →
      make st = .ok c := by
  cases c with
  | version => exact ⟨_, rfl, fun st _ _ => rfl⟩
  | rules output =>
      refine ⟨_, rfl, fun st hfields _ => ?_⟩
      rw [hfields ("output", output) (by simp [fields])]
  | scan patterns name repoRoot output =>
      refine ⟨_, rfl, fun st hfields hplain => ?_⟩
      rw [hfields ("name", name) (by simp [fields]), hfields ("repo-root", repoRoot) (by simp [fields]),
        hfields ("output", output) (by simp [fields]), hplain]
      rfl
  | push event commitsDir repoRoot output =>
      refine ⟨_, rfl, fun st hfields _ => ?_⟩
      rw [hfields ("event", some event) (by simp [fields]), hfields ("commits-dir", commitsDir) (by simp [fields]),
        hfields ("repo-root", repoRoot) (by simp [fields]), hfields ("output", output) (by simp [fields])]

theorem readOptions_closing (c : Command) (h : st.settle = .ok st') (hplain : st'.plain = []) :
    readOptions c.form st c.closing = .ok { st' with plain := c.patterns } := by
  have hnone : readOptions c.form st [] = .ok { st' with plain := [] } := by
    rw [readOptions, h, ← hplain]
  cases c with
  | version | rules | push => exact hnone
  | scan patterns name repoRoot output =>
      have hescape : Argument.ofString "--" = .escape := by decide
      have hpatterns := foldlM_addPlain (show scanForm.takesPlain from rfl) h patterns
      rw [hplain, List.nil_append] at hpatterns
      rw [closing, readOptions, hescape]
      exact hpatterns

theorem map_present_sublist (fields : List (String × Option String)) :
    ((present fields).map (·.1)).Sublist (fields.map (·.1)) := by
  induction fields with
  | nil => exact .slnil
  | cons field fields ih =>
      obtain ⟨name, value⟩ := field
      cases value with
      | none => exact ih.cons name
      | some value => exact ih.cons_cons name

theorem readFrom_name {c : Command} {make : State → Except Usage Command}
    (hfind : forms.find? (·.1 == c.name) = some (c.name, c.form, make))
    (hread : readOptions c.form .start rest = .ok st) (hmake : make st = .ok c) (f : Flags) :
    readFrom f (c.name :: rest) = .ok ⟨(f.union st.flags).verbose, (f.union st.flags).debug, c⟩ := by
  have hname : c.name ≠ "help" := by cases c <;> simp [name]
  rw [readFrom, if_neg hname, hfind]
  dsimp only
  rw [hread]
  simp only [bind, Except.bind, hmake]
  rfl

theorem exists_spells (is : List Item) : ∃ words, Spells is words := by
  induction is with
  | nil => exact ⟨[], .nil⟩
  | cons i is ih =>
      obtain ⟨words, hwords⟩ := ih
      cases i with
      | flag g =>
          have hword : "--" ++ g.name ∈ g.spellings := by cases g <;> decide
          exact ⟨_, .cons (.flag hword) hwords⟩
      | option name value => exact ⟨_, .cons .attached hwords⟩

end Command

namespace Invocation

open Command (Flag Flags Form Item State)

variable {i : Invocation}

theorem mem_flags_iff (i : Invocation) (g : Flag) : g ∈ i.flags ↔ (Command.Flags.mk i.verbose i.debug).has g := by
  cases g <;> simp [flags, Flags.has]

theorem flag_mem_items_iff (g : Flag) : .flag g ∈ i.items ↔ g ∈ i.flags := by simp [items]

theorem option_mem_items_iff (name value : String) :
    .option name value ∈ i.items ↔ (name, some value) ∈ i.command.fields := by
  simp [items, Command.mem_present_iff]

theorem filterMap_option?_items (i : Invocation) :
    i.items.filterMap Item.option? = Command.present i.command.fields := by
  simp [items, Function.comp_def, Item.option?]

theorem nodup_keys (i : Invocation) : (i.items.map Item.key).Nodup := by
  have hflags : i.flags.Nodup := by
    rw [flags]
    cases i.verbose <;> cases i.debug <;> decide
  have hnames : ((Command.present i.command.fields).map (·.1)).Nodup :=
    (Command.map_present_sublist _).nodup (Command.map_fields i.command ▸ (Command.form_isSound i.command).nodup)
  have hkeys : i.items.map Item.key =
      i.flags.map Sum.inl ++ ((Command.present i.command.fields).map (·.1)).map Sum.inr := by
    simp [items, Function.comp_def, Item.key]
  rw [hkeys, List.nodup_append]
  refine ⟨hflags.map fun _ _ => Sum.inl.inj, hnames.map fun _ _ => Sum.inr.inj, ?_⟩
  intro a ha b hb hab
  obtain ⟨g, -, rfl⟩ := List.mem_map.mp ha
  obtain ⟨name, -, rfl⟩ := List.mem_map.mp hb
  contradiction

section

variable {before : List Flag} {among : List Item}

theorem nodup_of_perm (h : (before.map Item.flag ++ among).Perm i.items) :
    before.Nodup ∧ (among.map Item.key).Nodup := by
  have hkeys : ((before.map Item.flag ++ among).map Item.key).Nodup := (h.map Item.key).nodup_iff.mpr (nodup_keys i)
  rw [List.map_append, List.map_map, List.nodup_append] at hkeys
  exact ⟨hkeys.1.of_map, hkeys.2.1⟩

theorem options_perm (h : (before.map Item.flag ++ among).Perm i.items) :
    (among.foldl State.take .start).options.Perm (Command.present i.command.fields) := by
  have hoptions := h.filterMap Item.option?
  have hbefore : (before.map Item.flag).filterMap Item.option? = [] := by simp [Item.option?]
  rw [filterMap_option?_items, List.filterMap_append, hbefore, List.nil_append] at hoptions
  rw [State.foldl_take_eq]
  exact hoptions

theorem has_union_iff (h : (before.map Item.flag ++ among).Perm i.items) (g : Flag) :
    ((before.foldl Flags.add .none).union (among.foldl State.take .start).flags).has g =
      (Flags.mk i.verbose i.debug).has g := by
  have hnone : (Flags.none.has g) = false := by cases g <;> rfl
  have hstart : ¬ State.start.Has (.inl g) := by cases g <;> exact Bool.false_ne_true
  have hamong : (among.foldl State.take .start).flags.has g ↔ .flag g ∈ among := by
    have hkey (i : Item) : i.key = .inl g ↔ i = .flag g := by cases i <;> simp [Item.key]
    exact (State.has_foldl_take_iff .start among (.inl g)).trans (by simp [hstart, hkey])
  rw [Bool.eq_iff_iff, ← mem_flags_iff, ← flag_mem_items_iff, ← h.mem_iff, Flags.has_union, Bool.or_eq_true,
    Flags.has_foldl_add_iff, hamong, hnone]
  simp

end

/-- An invocation can be written, and however it is written it is read back. -/
theorem written_reads_back (i : Invocation) :
    (∃ args, i.IsWritten args) ∧ ∀ args, i.IsWritten args → Command.read args = .ok i := by
  constructor
  · obtain ⟨words, hwords⟩ := Command.exists_spells i.items
    have hitems : (([] : List Flag).map Item.flag ++ i.items).Perm i.items := List.Perm.refl _
    exact ⟨_, .mk hitems .nil hwords⟩
  · rintro _ (@⟨before, among, front, back, hperm, hfront, hback⟩)
    obtain ⟨hbefore, hamong⟩ := nodup_of_perm hperm
    obtain ⟨make, hfind, hmake⟩ := Command.exists_make i.command
    have hoption (name value : String) (h : .option name value ∈ among) : name ∈ i.command.form.options := by
      have hfield := (option_mem_items_iff name value).mp (hperm.mem_iff.mp (List.mem_append_right _ h))
      exact Command.map_fields i.command ▸ List.mem_map_of_mem hfield
    have hstart (k : Flag ⊕ String) : ¬ State.start.Has k := by
      rcases k with (_ | _) | name <;> simp [State.start, State.Has, Flags.has, Flags.none]
    obtain ⟨next, hread, hnext⟩ := Command.readOptions_spells (Command.form_isSound i.command) hback
      (State.settle_of_pending rfl) hoption hamong (fun i _ => hstart i.key) i.command.closing
    have hplain : (among.foldl State.take .start).plain = [] := by rw [State.foldl_take_eq, State.start]
    rw [Command.readOptions_closing i.command hnext hplain] at hread
    rw [Command.read, Command.readFrom_spells hfront hbefore fun g _ => by cases g <;> rfl,
      Command.readFrom_name hfind hread (hmake _ ?_ rfl)]
    · have hverbose := has_union_iff hperm .verbose
      have hdebug := has_union_iff hperm .debug
      simp only [Flags.has] at hverbose hdebug
      rw [hverbose, hdebug]
    · rintro ⟨name, value⟩ hfield
      exact Command.option?_of_perm (options_perm hperm)
        (Command.map_fields i.command ▸ (Command.form_isSound i.command).nodup) hfield

def sample : Invocation := ⟨true, true, .scan ["-x", "--", "push"] (some "") none (some "-j=1")⟩

def sampleArguments : List String :=
  ["-v", "scan", "--output=-j=1", "--debug", "--name", "", "--", "-x", "--", "push"]

/-- A value that looks like flags, an empty one, and patterns that look like an escape and a command. -/
theorem written_reads_back_sample :
    sample.IsWritten sampleArguments ∧ Command.read sampleArguments = .ok sample := by
  have hfront : Command.Spells ([Flag.verbose].map Item.flag) ["-v"] := .cons (.flag (by decide)) .nil
  have hback : Command.Spells [.option "output" "-j=1", .flag .debug, .option "name" ""]
      ["--output=-j=1", "--debug", "--name", ""] :=
    .cons .attached (.cons (.flag (by decide)) (.cons (.apart (by decide)) .nil))
  have hwritten : sample.IsWritten sampleArguments := .mk (by decide) hfront hback
  exact ⟨hwritten, (written_reads_back sample).2 sampleArguments hwritten⟩

end Invocation

end PushAudit
