import PushAudit.Config.Discovery
import PushAudit.Proofs.Host.Place

namespace PushAudit

section Search

variable {α : Type} {f g : α → Bool} {as : List α} {a : α}

/-- A search for the first element of a kind gets to this one: none of those before it is of the kind. -/
def Reached (f : α → Bool) (as : List α) (a : α) : Prop :=
  ∃ before after, as = before ++ a :: after ∧ ∀ b ∈ before, ¬ f b

theorem Reached.mem (h : Reached f as a) : a ∈ as := by
  obtain ⟨before, after, rfl, -⟩ := h
  simp

theorem Reached.eq_head {b : α} (h : Reached f (b :: as) a) (hb : f b) : a = b := by
  obtain ⟨before, after, heq, hbefore⟩ := h
  cases before with
  | nil => exact (List.cons.inj heq).1.symm
  | cons c before => exact absurd ((List.cons.inj heq).1 ▸ hb) (hbefore c (.head _))

theorem Reached.cons {b : α} (hb : ¬ f b) (h : Reached f as a) : Reached f (b :: as) a := by
  obtain ⟨before, after, rfl, hbefore⟩ := h
  exact ⟨b :: before, after, rfl, List.forall_mem_cons.mpr ⟨hb, hbefore⟩⟩

theorem find?_eq_some_iff_reached : as.find? f = some a ↔ Reached f as a ∧ f a := by
  rw [List.find?_eq_some_iff_append, and_comm]
  simp [Reached]

theorem find?_congr_of_reached (h : ∀ a, Reached f as a → f a = g a) : as.find? f = as.find? g := by
  induction as with
  | nil => rfl
  | cons b as ih =>
      have hb : f b = g b := h b ⟨[], as, rfl, nofun⟩
      rw [List.find?_cons, List.find?_cons, ← hb]
      cases hf : f b with
      | true => rfl
      | false => exact ih fun a ha => h a (ha.cons (Bool.eq_false_iff.mp hf))

theorem any_congr_of_reached (h : ∀ a, Reached f as a → f a = g a) : as.any f = as.any g := by
  rw [← List.isSome_find?, ← List.isSome_find?, find?_congr_of_reached h]

theorem not_reached_of_mem_after {before after : List α} {b : α} (hnodup : (before ++ b :: after).Nodup) (hb : f b)
    (ha : a ∈ after) : ¬ Reached f (before ++ b :: after) a := by
  intro h
  induction before with
  | nil =>
      obtain rfl := h.eq_head hb
      exact (List.nodup_cons.mp hnodup).1 ha
  | cons c before ih =>
      rw [List.cons_append, List.nodup_cons] at hnodup
      obtain ⟨skipped, rest, heq, hskipped⟩ := h
      cases skipped with
      | nil =>
          obtain ⟨rfl, -⟩ := List.cons.inj heq
          exact hnodup.1 (List.mem_append_right _ (.tail _ ha))
      | cons d skipped =>
          obtain ⟨-, heq⟩ := List.cons.inj heq
          exact ih hnodup.2 ⟨skipped, rest, heq, fun b hb => hskipped b (.tail _ hb)⟩

end Search

namespace Host.FileSystem

def has (fs : FileSystem) (p : Path) : Bool := (fs.lookUp p).isOk

theorem has_iff {fs : FileSystem} {p : Path} : fs.has p ↔ ∃ t, fs.lookUp p = .ok t := by
  rw [has]
  cases fs.lookUp p <;> simp [Except.isOk, Except.toBool]

theorem value_exists (fs : FileSystem) (input : ByteArray) (p : Path) :
    (exists_ p).value (fs.answer input) = fs.has p := by
  rw [Bool.eq_iff_iff, has_iff, value_exists_iff]

end Host.FileSystem

namespace Config

open Host (FileSystem)

variable {fs fs' : FileSystem} {input : ByteArray} {root p : Path} {f : Format}

def isMarked (fs : FileSystem) (p : Path) : Bool := rootMarks.any fun name => fs.has (p.join ⟨name⟩)

theorem value_isRoot (fs : FileSystem) (input : ByteArray) (p : Path) :
    (isRoot p).value (fs.answer input) = isMarked fs p := by
  rw [isRoot, Script.value_anyM, isMarked]
  simp only [FileSystem.value_exists]

theorem logged_isRoot (answer : (q : Host.Question) → Host.Answer q) (p : Path) :
    Script.logged (S := Host) answer (isRoot p) = [] :=
  Script.logged_anyM (S := Host) answer (fun _ => rfl) rootMarks

theorem value_firstRoot (fs : FileSystem) (input : ByteArray) (ps : List Path) :
    (firstRoot ps).value (fs.answer input) = ps.find? (isMarked fs) := by
  induction ps with
  | nil => rfl
  | cons p ps ih =>
      rw [firstRoot, Script.value_bind, value_isRoot, List.find?_cons]
      cases isMarked fs p with
      | false => exact ih
      | true => rfl

theorem value_findRoot (fs : FileSystem) (input : ByteArray) (start : Path) :
    (findRoot start).value (fs.answer input) = ((start :: start.above).find? (isMarked fs)).getD start := by
  rw [findRoot, Script.value_bind, value_firstRoot, Script.value_pure]

theorem logged_firstRoot (answer : (q : Host.Question) → Host.Answer q) (ps : List Path) :
    Script.logged (S := Host) answer (firstRoot ps) = [] := by
  induction ps with
  | nil => rfl
  | cons p ps ih =>
      rw [firstRoot, Script.logged_bind, logged_isRoot, List.nil_append]
      cases Script.value (S := Host) answer (isRoot p) with
      | false => exact ih
      | true => rfl

theorem logged_findRoot (answer : (q : Host.Question) → Host.Answer q) (start : Path) :
    Script.logged (S := Host) answer (findRoot start) = [] := by
  rw [findRoot, Script.logged_bind, logged_firstRoot]
  rfl

/-- The configuration file of a directory, the only one that counts there. -/
def IsFile (fs : FileSystem) (root p : Path) (f : Format) : Prop :=
  ∃ name, p = root.join ⟨name⟩ ∧ Reached (fun e => fs.has (root.join ⟨e.1⟩)) fileNames (name, f) ∧ fs.has p

theorem value_firstFile (fs : FileSystem) (input : ByteArray) (root : Path) (names : List (String × Format)) :
    (firstFile root names).value (fs.answer input) =
      (names.find? fun e => fs.has (root.join ⟨e.1⟩)).map fun e => (root.join ⟨e.1⟩, e.2) := by
  induction names with
  | nil => rfl
  | cons e names ih =>
      rw [firstFile, Script.value_bind, FileSystem.value_exists, List.find?_cons]
      cases fs.has (root.join ⟨e.1⟩) with
      | false => exact ih
      | true => rfl

theorem value_firstFile_eq_some_iff (input : ByteArray) :
    (firstFile root fileNames).value (fs.answer input) = some (p, f) ↔ IsFile fs root p f := by
  rw [value_firstFile, Option.map_eq_some_iff]
  constructor
  · rintro ⟨e, he, heq⟩
    obtain ⟨hp, hf⟩ := Prod.mk.inj heq
    obtain ⟨hreached, hhas⟩ := find?_eq_some_iff_reached.mp he
    exact ⟨e.1, hp.symm, hf ▸ hreached, hp ▸ hhas⟩
  · rintro ⟨name, rfl, hreached, hhas⟩
    exact ⟨(name, f), find?_eq_some_iff_reached.mpr ⟨hreached, hhas⟩, rfl⟩

theorem logged_firstFile (answer : (q : Host.Question) → Host.Answer q) (root : Path)
    (names : List (String × Format)) : Script.logged (S := Host) answer (firstFile root names) = [] := by
  induction names with
  | nil => rfl
  | cons e names ih =>
      rw [firstFile, Script.logged_bind]
      cases Script.value (S := Host) answer (Host.exists_ (root.join ⟨e.1⟩)) with
      | false => exact ih
      | true => rfl

def warning (message : String) (p : Path) : Log.Entry := ⟨.warn, message, [("path", p.text)]⟩

/-- The configuration that a directory gives, with the warnings on it. -/
inductive Configures (fs : FileSystem) (root : Path) : Config → List Log.Entry → Prop
  | absent (h : ∀ e ∈ fileNames, ¬ fs.has (root.join ⟨e.1⟩)) : Configures fs root .empty []
  | decoded {p : Path} {f : Format} {text : String} {c : Config} (hfile : IsFile fs root p f)
      (hread : fs.read p = .ok text.toUTF8) (h : parse f text = some c) : Configures fs root c []
  | invalid {p : Path} {f : Format} {text : String} (hfile : IsFile fs root p f)
      (hread : fs.read p = .ok text.toUTF8) (h : parse f text = none) :
      Configures fs root .empty [warning "ignoring invalid config" p]
  | unreadable {p : Path} {f : Format} (hfile : IsFile fs root p f) (h : Host.Unreadable (fs.read p)) :
      Configures fs root .empty [warning "cannot read config" p]

theorem value_firstFile_of_absent (h : ∀ e ∈ fileNames, ¬ fs.has (root.join ⟨e.1⟩)) :
    (firstFile root fileNames).value (fs.answer input) = none := by
  rw [value_firstFile, List.find?_eq_none.mpr h, Option.map_none]

theorem exists_configures (fs : FileSystem) (root : Path) : ∃ c warnings, Configures fs root c warnings := by
  cases hfirst : (firstFile root fileNames).value (fs.answer .empty) with
  | none =>
      rw [value_firstFile, Option.map_eq_none_iff, List.find?_eq_none] at hfirst
      exact ⟨_, _, .absent hfirst⟩
  | some file =>
      have hfile : IsFile fs root file.1 file.2 := (value_firstFile_eq_some_iff _).mp hfirst
      cases hread : (fs.read file.1).bind Host.decode with
      | error why => exact ⟨_, _, .unreadable hfile ((Host.unreadable_iff _).mpr ⟨why, hread⟩)⟩
      | ok text =>
          rw [Host.bind_decode_eq_ok_iff] at hread
          cases hparse : parse file.2 text with
          | none => exact ⟨_, _, .invalid hfile hread hparse⟩
          | some c => exact ⟨c, _, .decoded hfile hread hparse⟩

theorem Configures.load {c : Config} {warnings : List Log.Entry} (input : ByteArray)
    (h : Configures fs root c warnings) :
    ((load root).value (fs.answer input)).getD .empty = c ∧ (load root).logged (fs.answer input) = warnings := by
  have hcontent (p : Path) : (Host.readText p).value (fs.answer input) = (fs.read p).bind Host.decode := rfl
  have hquiet (p : Path) : (Host.readText p).logged (fs.answer input) = [] := rfl
  rw [Config.load, Script.value_bind, Script.logged_bind, logged_firstFile, List.nil_append]
  cases h with
  | absent h =>
      rw [value_firstFile_of_absent h]
      exact ⟨rfl, rfl⟩
  | decoded hfile hread h =>
      rw [(value_firstFile_eq_some_iff input).mpr hfile]
      simp only [Script.value_bind, Script.logged_bind, hcontent, hquiet,
        (Host.bind_decode_eq_ok_iff _ _).mpr hread, h]
      exact ⟨rfl, rfl⟩
  | invalid hfile hread h =>
      rw [(value_firstFile_eq_some_iff input).mpr hfile]
      simp only [Script.value_bind, Script.logged_bind, hcontent, hquiet,
        (Host.bind_decode_eq_ok_iff _ _).mpr hread, h]
      exact ⟨rfl, rfl⟩
  | unreadable hfile h =>
      obtain ⟨why, hwhy⟩ := (Host.unreadable_iff _).mp h
      rw [(value_firstFile_eq_some_iff input).mpr hfile]
      simp only [Script.value_bind, Script.logged_bind, hcontent, hquiet, hwhy]
      exact ⟨rfl, rfl⟩

theorem configures_iff {c : Config} {warnings : List Log.Entry} (input : ByteArray) :
    Configures fs root c warnings ↔
    ((load root).value (fs.answer input)).getD .empty = c ∧ (load root).logged (fs.answer input) = warnings := by
  refine ⟨fun h => h.load input, ?_⟩
  rintro ⟨rfl, rfl⟩
  obtain ⟨c, warnings, h⟩ := exists_configures fs root
  obtain ⟨hc, hwarnings⟩ := h.load input
  exact hc ▸ hwarnings ▸ h

/-- The paths of which it matters whether there is anything: the marks of directories and the names of
configuration files, as far as the search for them goes. -/
inductive Probed (fs : FileSystem) (start root : Path) : Path → Prop
  | mark {dir : Path} {name : String} (hdir : Reached (isMarked fs) (start :: start.above) dir)
      (hname : Reached (fun name => fs.has (dir.join ⟨name⟩)) rootMarks name) :
      Probed fs start root (dir.join ⟨name⟩)
  | file {e : String × Format} (h : Reached (fun e => fs.has (root.join ⟨e.1⟩)) fileNames e) :
      Probed fs start root (root.join ⟨e.1⟩)

variable {start : Path}

/-- A file of a directory that would configure it if another one were not there. -/
def IsPassedOver (fs : FileSystem) (root p : Path) : Prop :=
  ∃ before e after other, fileNames = before ++ e :: after ∧ fs.has (root.join ⟨e.1⟩) ∧ other ∈ after ∧
    p = root.join ⟨other.1⟩

theorem not_mem_slash_of_mem_rootMarks {name : String} (h : name ∈ rootMarks) : '/' ∉ name.toList := by
  have hall : ∀ name ∈ rootMarks, '/' ∉ name.toList := by decide
  exact hall name h

theorem mem_rootMarks_of_mem_fileNames {e : String × Format} (h : e ∈ fileNames) : e.1 ∈ rootMarks :=
  List.mem_append_left _ (List.mem_map_of_mem h)

theorem isMarked_congr_of_slashed {q : Path} (h : Path.slashed p.text.toList = Path.slashed q.text.toList) :
    isMarked fs p = isMarked fs q := by
  refine any_congr_of_reached fun name hname => ?_
  have hslash := not_mem_slash_of_mem_rootMarks hname.mem
  rw [(Path.join_name_eq_iff hslash hslash).mpr ⟨h, rfl⟩]

theorem eq_of_fileNames {e e' : String × Format} (he : e ∈ fileNames) (he' : e' ∈ fileNames) (h : e.1 = e'.1) :
    e = e' := by
  have hall : ∀ e ∈ fileNames, ∀ e' ∈ fileNames, e.1 = e'.1 → e = e' := by decide
  exact hall e he e' he' h

theorem not_reached_fileNames {before after : List (String × Format)} {e other : String × Format}
    (hnames : fileNames = before ++ e :: after) (hhas : fs.has (root.join ⟨e.1⟩)) (hother : other ∈ after) :
    ¬ Reached (fun e => fs.has (root.join ⟨e.1⟩)) fileNames other := by
  have hnodup : fileNames.Nodup := by decide
  rw [hnames] at hnodup ⊢
  exact not_reached_of_mem_after hnodup hhas hother

theorem not_reached_rootMarks {before after : List (String × Format)} {e other : String × Format}
    (hnames : fileNames = before ++ e :: after) (hhas : fs.has (root.join ⟨e.1⟩)) (hother : other ∈ after) :
    ¬ Reached (fun name => fs.has (root.join ⟨name⟩)) rootMarks other.1 := by
  have hnodup : rootMarks.Nodup := by decide
  have hmarks : rootMarks = before.map (·.1) ++ e.1 :: (after.map (·.1) ++ [".git"]) := by
    rw [rootMarks, hnames]
    simp
  rw [hmarks] at hnodup ⊢
  exact not_reached_of_mem_after hnodup hhas (List.mem_append_left _ (List.mem_map_of_mem hother))

/-- Of a file that is passed over it does not matter whether it is there. -/
theorem not_probed_of_isPassedOver (hroot : (findRoot start).value (fs.answer input) = root)
    (h : IsPassedOver fs root p) : ¬ Probed fs start root p := by
  obtain ⟨before, e, after, other, hnames, hhas, hother, hp⟩ := h
  have he : e ∈ fileNames := by simp [hnames]
  have hmem : other ∈ fileNames := by simp [hnames, hother]
  have hslash := not_mem_slash_of_mem_rootMarks (mem_rootMarks_of_mem_fileNames hmem)
  intro hprobed
  cases hprobed with
  | @mark dir name hdir hname =>
      -- A directory that has a mark under this path is the root, whose search ends before that mark.
      obtain ⟨hslashed, rfl⟩ := (Path.join_name_eq_iff (not_mem_slash_of_mem_rootMarks hname.mem) hslash).mp hp
      have hmarked : isMarked fs dir := by
        rw [isMarked_congr_of_slashed hslashed]
        exact List.any_eq_true.mpr ⟨e.1, mem_rootMarks_of_mem_fileNames he, hhas⟩
      rw [value_findRoot, find?_eq_some_iff_reached.mpr ⟨hdir, hmarked⟩, Option.getD_some] at hroot
      exact not_reached_rootMarks hnames hhas hother (hroot ▸ hname)
  | @file e' hfile =>
      have hslash' := not_mem_slash_of_mem_rootMarks (mem_rootMarks_of_mem_fileNames hfile.mem)
      obtain rfl := eq_of_fileNames hfile.mem hmem ((Path.join_name_eq_iff hslash' hslash).mp hp).2
      exact not_reached_fileNames hnames hhas hother hfile

theorem not_isFile_of_isPassedOver (h : IsPassedOver fs root p) : ¬ IsFile fs root p f := by
  obtain ⟨before, e, after, other, hnames, hhas, hother, rfl⟩ := h
  rintro ⟨name, hp, hreached, -⟩
  have hmem : other ∈ fileNames := by simp [hnames, hother]
  have hslash {e : String × Format} (he : e ∈ fileNames) : '/' ∉ e.1.toList :=
    not_mem_slash_of_mem_rootMarks (mem_rootMarks_of_mem_fileNames he)
  obtain ⟨-, heq⟩ := (Path.join_name_eq_iff (hslash hmem) (hslash hreached.mem)).mp hp
  exact not_reached_fileNames hnames hhas hother (eq_of_fileNames hmem hreached.mem heq ▸ hreached)

section First

variable (h : fs.has (root.join ⟨"pushcheck.toml"⟩))

include h

theorem isMarked_of_first : isMarked fs root := List.any_eq_true.mpr ⟨"pushcheck.toml", .head _, h⟩

theorem findRoot_of_first (input : ByteArray) : (findRoot root).value (fs.answer input) = root := by
  rw [value_findRoot, List.find?_cons_of_pos (isMarked_of_first h), Option.getD_some]

theorem isFile_iff_of_first : IsFile fs root p f ↔ p = root.join ⟨"pushcheck.toml"⟩ ∧ f = .toml := by
  constructor
  · rintro ⟨name, rfl, hreached, -⟩
    obtain ⟨rfl, rfl⟩ := Prod.mk.inj (hreached.eq_head h)
    exact ⟨rfl, rfl⟩
  · rintro ⟨rfl, rfl⟩
    exact ⟨"pushcheck.toml", rfl, ⟨[], _, rfl, List.forall_mem_nil _⟩, h⟩

/-- Where the first configuration file is in the directory of the start, the search ends with it. -/
theorem Probed.eq_of_first (hp : Probed fs root root p) : p = root.join ⟨"pushcheck.toml"⟩ := by
  cases hp with
  | mark hdir hname =>
      obtain rfl := hdir.eq_head (isMarked_of_first h)
      rw [hname.eq_head h]
  | file hfile => rw [hfile.eq_head h]

end First

theorem find?_isMarked_congr (h : ∀ p, Probed fs start root p → fs.has p = fs'.has p) :
    (start :: start.above).find? (isMarked fs) = (start :: start.above).find? (isMarked fs') :=
  find?_congr_of_reached fun _ hdir => any_congr_of_reached fun _ hname => h _ (.mark hdir hname)

theorem find?_fileNames_congr (h : ∀ p, Probed fs start root p → fs.has p = fs'.has p) :
    (fileNames.find? fun e => fs.has (root.join ⟨e.1⟩)) = fileNames.find? fun e => fs'.has (root.join ⟨e.1⟩) :=
  find?_congr_of_reached fun _ hreached => h _ (.file hreached)

theorem IsFile.congr (h : ∀ p, Probed fs start root p → fs.has p = fs'.has p) (hfile : IsFile fs root p f) :
    IsFile fs' root p f := by
  rw [← value_firstFile_eq_some_iff .empty, value_firstFile] at hfile ⊢
  rwa [← find?_fileNames_congr h]

theorem Configures.congr (h : ∀ p, Probed fs start root p → fs.has p = fs'.has p)
    (hread : ∀ p f, IsFile fs root p f → fs.read p = fs'.read p) {c : Config} {warnings : List Log.Entry}
    (hc : Configures fs root c warnings) : Configures fs' root c warnings := by
  cases hc with
  | absent hnone =>
      rw [← List.find?_eq_none, find?_fileNames_congr h, List.find?_eq_none] at hnone
      exact .absent hnone
  | decoded hfile htext hparse => exact .decoded (hfile.congr h) (hread _ _ hfile ▸ htext) hparse
  | invalid hfile htext hparse => exact .invalid (hfile.congr h) (hread _ _ hfile ▸ htext) hparse
  | unreadable hfile hcontent => exact .unreadable (hfile.congr h) (hread _ _ hfile ▸ hcontent)

end Config

end PushAudit
