import PushAudit.Proofs.Config.Discovery
import PushAudit.Settings

namespace PushAudit.Settings

open Host (FileSystem)

variable {α : Type} {layers : List (Option α)} {fallback a : α}

/-- The first layer that says something decides. -/
inductive Decides : List (Option α) → α → α → Prop
  | fallback (a : α) : Decides [] a a
  | given {layers : List (Option α)} {fallback a : α} : Decides (some a :: layers) fallback a
  | passed {layers : List (Option α)} {fallback a : α} (h : Decides layers fallback a) :
      Decides (none :: layers) fallback a

theorem decides_iff : Decides layers fallback a ↔ layers.foldr (fun layer a => layer.getD a) fallback = a := by
  constructor
  · intro h
    induction h with
    | fallback a => rfl
    | given => rfl
    | passed h ih => exact ih
  · rintro rfl
    induction layers with
    | nil => exact .fallback _
    | cons layer layers ih =>
        cases layer with
        | none => exact .passed ih
        | some a => exact .given

theorem Decides.unique {a' : α} (h : Decides layers fallback a) (h' : Decides layers fallback a') : a = a' :=
  (decides_iff.mp h).symm.trans (decides_iff.mp h')

/-- How arguments and a configuration make settings. Of the configuration, an empty list of branches and
a blank author name say nothing. -/
structure Follows (o : Overrides) (root : Path) (c : Config) (s : Settings) : Prop where
  output : Decides [o.output, c.output] "human" s.output
  branches : Decides [c.branches.filter (· ≠ [])] ["main", "master"] s.branches
  commitsDir : Decides [o.commitsDir.map Path.mk, c.commitsDir.map fun dir => root.join ⟨dir⟩]
    (root.join ⟨".pushcheck/commits"⟩) s.commitsDir
  absolute : ∀ dir, o.commitsDir = none → c.commitsDir = some dir → Path.isAbsolute ⟨dir⟩ → s.commitsDir = ⟨dir⟩
  unknownAuthor : Decides [c.unknownAuthor.filter (·.toList.any (!Text.isBlank ·))] "unknown" s.unknownAuthor
  root : s.root = root

theorem merge_follows (root : Path) (o : Overrides) (c : Config) : (merge root o c).Follows o root c where
  output := decides_iff.mpr (by simp [merge, defaultOutput, Option.getD_or])
  branches := by
    have hsaid : (fun branches : List String => decide (branches ≠ [])) = (!·.isEmpty) := by
      funext branches
      cases branches <;> rfl
    rw [decides_iff, hsaid]
    rfl
  commitsDir := decides_iff.mpr (by simp [merge, defaultCommitsDir])
  absolute dir ho hc hdir := by simp [merge, ho, hc, Path.join, hdir]
  unknownAuthor := by
    have hsaid : (fun name : String => name.toList.any (!Text.isBlank ·)) = (!Text.isBlankText ·.toList) := by
      funext name
      rw [Text.isBlankText, List.not_all_eq_any_not]
    rw [decides_iff, hsaid]
    rfl
  root := rfl

structure AgreeAs (c c' : Config) (s s' : Settings) : Prop where
  root : s'.root = s.root
  output : c'.output = c.output → s'.output = s.output
  branches : c'.branches = c.branches → s'.branches = s.branches
  commitsDir : c'.commitsDir = c.commitsDir → s'.commitsDir = s.commitsDir
  unknownAuthor : c'.unknownAuthor = c.unknownAuthor → s'.unknownAuthor = s.unknownAuthor

theorem Follows.agreeAs {o : Overrides} {root : Path} {c c' : Config} {s s' : Settings} (h : s.Follows o root c)
    (h' : s'.Follows o root c') : AgreeAs c c' s s' where
  root := h'.root.trans h.root.symm
  output heq := h'.output.unique (heq ▸ h.output)
  branches heq := h'.branches.unique (heq ▸ h.branches)
  commitsDir heq := h'.commitsDir.unique (heq ▸ h.commitsDir)
  unknownAuthor heq := h'.unknownAuthor.unique (heq ▸ h.unknownAuthor)

theorem Follows.unique {o : Overrides} {root : Path} {c : Config} {s s' : Settings} (h : s.Follows o root c)
    (h' : s'.Follows o root c) : s = s' := by
  have hagree := h'.agreeAs h
  cases s
  cases s'
  rw [Settings.mk.injEq]
  exact ⟨hagree.root, hagree.output rfl, hagree.branches rfl, hagree.commitsDir rfl, hagree.unknownAuthor rfl⟩

def resolved (root : Path) : Log.Entry := ⟨.debug, "resolved repository root", [("root", root.text)]⟩

section

variable {o : Overrides} {fs : FileSystem} {input : ByteArray} {root : Path} {c : Config}
  {warnings : List Log.Entry}

theorem value_resolve (hroot : (Config.findRoot ⟨o.root.getD "."⟩).value (fs.answer input) = root)
    (h : Config.Configures fs root c warnings) : (resolve o).value (fs.answer input) = merge root o c := by
  simp only [resolve, Script.value_bind, Script.value_pure, hroot, (h.load input).1]

theorem resolve_follows (hroot : (Config.findRoot ⟨o.root.getD "."⟩).value (fs.answer input) = root)
    (h : Config.Configures fs root c warnings) : ((resolve o).value (fs.answer input)).Follows o root c := by
  rw [value_resolve hroot h]
  exact merge_follows root o c

theorem logged_resolve (hroot : (Config.findRoot ⟨o.root.getD "."⟩).value (fs.answer input) = root)
    (h : Config.Configures fs root c warnings) :
    (resolve o).logged (fs.answer input) = warnings ++ [resolved root] := by
  simp only [resolve, Script.logged_bind, Script.logged_pure, Script.logged_log, Config.logged_findRoot,
    List.nil_append, List.append_nil, hroot, (h.load input).2, resolved]

end

/-- The arguments count before the configuration and this before the defaults, setting by setting; the
configuration is that of the first file there is. Nothing else matters: not the files that are passed
over, not what lies off the search, and to a setting no other one. -/
theorem resolve_layered (o : Overrides) (fs : FileSystem) (input : ByteArray) :
    let start : Path := ⟨o.root.getD "."⟩
    let root := (Config.findRoot start).value (fs.answer input)
    let s := (resolve o).value (fs.answer input)
    (∃ c warnings, (∀ c' warnings', Config.Configures fs root c' warnings' ↔ c' = c ∧ warnings' = warnings) ∧
      s.Follows o root c ∧ (resolve o).logged (fs.answer input) = warnings ++ [resolved root]) ∧
    (∀ p, Config.IsPassedOver fs root p → ¬ Config.Probed fs start root p ∧ ∀ f, ¬ Config.IsFile fs root p f) ∧
    ∀ (fs' : FileSystem) (input' : ByteArray), (∀ p, Config.Probed fs start root p → fs.has p = fs'.has p) →
      let s' := (resolve o).value (fs'.answer input')
      (∀ c c' warnings warnings', Config.Configures fs root c warnings → Config.Configures fs' root c' warnings' →
        AgreeAs c c' s s') ∧
      ((∀ p f, Config.IsFile fs root p f → fs.read p = fs'.read p) →
        s' = s ∧ (resolve o).logged (fs'.answer input') = (resolve o).logged (fs.answer input)) := by
  intro start root s
  obtain ⟨c, warnings, hc⟩ := Config.exists_configures fs root
  refine ⟨⟨c, warnings, fun c' warnings' => ?_, resolve_follows rfl hc, logged_resolve rfl hc⟩,
    fun p hp => ⟨Config.not_probed_of_isPassedOver rfl hp, fun f => Config.not_isFile_of_isPassedOver hp⟩,
    fun fs' input' hprobed => ?_⟩
  · obtain ⟨rfl, rfl⟩ := hc.load input
    rw [Config.configures_iff input, eq_comm, @eq_comm _ warnings']
  · have hroot : (Config.findRoot start).value (fs'.answer input') = root := by
      rw [Config.value_findRoot, ← Config.find?_isMarked_congr hprobed, ← Config.value_findRoot fs input]
    refine ⟨fun d d' _ _ hd hd' => (resolve_follows rfl hd).agreeAs (resolve_follows hroot hd'), fun hread => ?_⟩
    have hc' := hc.congr hprobed hread
    exact ⟨(value_resolve hroot hc').trans (value_resolve rfl hc).symm,
      (logged_resolve hroot hc').trans (logged_resolve rfl hc).symm⟩

/-- A repository with a configuration file and one of a lower rank. -/
def repository (content : ByteArray) : FileSystem :=
  (((⟨.empty, []⟩ : FileSystem).makeDirectory ⟨".git"⟩).write ⟨"pushcheck.yaml"⟩ "output: json".toUTF8).write
    ⟨"pushcheck.toml"⟩ content

theorem lookUp_repository (content : ByteArray) :
    (repository content).lookUp (Path.join ⟨"."⟩ ⟨"pushcheck.toml"⟩) = .ok (.file content) := by
  rw [FileSystem.lookUp_eq]
  rfl

theorem lookUp_remove_repository (content : ByteArray) :
    ((repository content).remove ⟨"pushcheck.yaml"⟩).lookUp (Path.join ⟨"."⟩ ⟨"pushcheck.toml"⟩) =
      .ok (.file content) := by
  rw [FileSystem.lookUp_eq]
  rfl

/-- An argument before a file that says otherwise, two fields of the file, and a default. The file of a lower rank is
not looked at, even if the first one cannot be read. -/
theorem resolve_layered_sample :
    let text := "output = \"json\"\nbranches = [\"dev\"]\ncommits_dir = \"data\"\n"
    let o : Overrides := ⟨none, some "human", none⟩
    let unreadable := repository ⟨#[0xff]⟩
    (resolve o).value ((repository text.toUTF8).answer .empty) =
        ⟨⟨"."⟩, "human", ["dev"], ⟨"./data"⟩, "unknown"⟩ ∧
      (resolve o).value ((unreadable.remove ⟨"pushcheck.yaml"⟩).answer .empty) =
        (resolve o).value (unreadable.answer .empty) := by
  intro text o unreadable
  have hhas (content : ByteArray) : (repository content).has (Path.join ⟨"."⟩ ⟨"pushcheck.toml"⟩) :=
    FileSystem.has_iff.mpr ⟨_, lookUp_repository content⟩
  have hroot (content : ByteArray) := Config.findRoot_of_first (hhas content) .empty
  constructor
  · obtain ⟨c, warnings, honly, hfollows, -⟩ := (resolve_layered o (repository text.toUTF8) .empty).1
    have hparse : Config.parse .toml text = some ⟨some "json", some ["dev"], some "data", none⟩ := by decide +kernel
    have hfile := (Config.isFile_iff_of_first (hhas text.toUTF8)).mpr ⟨rfl, rfl⟩
    have hread := FileSystem.read_of_file (lookUp_repository text.toUTF8)
    rw [Option.getD_none, hroot] at honly hfollows
    obtain ⟨rfl, -⟩ := (honly _ _).mp (.decoded hfile hread hparse)
    apply hfollows.unique
    refine ⟨.given, .given, .passed .given, ?_, .passed (.fallback _), rfl⟩
    rintro dir - ⟨⟩ habsolute
    exact absurd habsolute (by decide +kernel)
  · have hframe := (resolve_layered o unreadable .empty).2.2 (unreadable.remove ⟨"pushcheck.yaml"⟩) .empty
    rw [Option.getD_none, hroot] at hframe
    refine ((hframe fun p hp => ?_).2 fun p f hp => ?_).1
    · rw [hp.eq_of_first (hhas _), hhas]
      exact (FileSystem.has_iff.mpr ⟨_, lookUp_remove_repository _⟩).symm
    · obtain ⟨rfl, -⟩ := (Config.isFile_iff_of_first (hhas _)).mp hp
      rw [FileSystem.read_of_file (lookUp_repository _), FileSystem.read_of_file (lookUp_remove_repository _)]

end PushAudit.Settings
