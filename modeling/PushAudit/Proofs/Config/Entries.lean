import Mathlib.Data.List.Nodup
import PushAudit.Config.Document

namespace PushAudit.Config

variable {V α : Type} {r : Reading V} {read : V → Option (Option α)} {entries : List (String × V)} {name : String}
  {a : Option α} {c c' : Config}

/-- What entries say of one field: what its value is read as, and nothing without an entry of its name. -/
inductive Says (read : V → Option (Option α)) (name : String) (entries : List (String × V)) : Option α → Prop
  | absent (h : name ∉ entries.map (·.1)) : Says read name entries none
  | given {v : V} {a : Option α} (hv : (name, v) ∈ entries) (h : read v = some a) : Says read name entries a

structure IsMadeOf (r : Reading V) (entries : List (String × V)) (c : Config) : Prop where
  once : ∀ name ∈ names, (entries.map (·.1)).count name ≤ 1
  output : Says r.text "output" entries c.output
  branches : Says r.texts "branches" entries c.branches
  commitsDir : Says r.text "commits_dir" entries c.commitsDir
  unknownAuthor : Says r.text "unknown_author" entries c.unknownAuthor

/-- What one entry makes of a field. -/
def put (read : V → Option (Option α)) (name : String) (a : Option α) (entry : String × V) : Option (Option α) :=
  if entry.1 = name then read entry.2 else some a

theorem set_eq_some_iff {entry : String × V} : set r c entry = some c' ↔
    put r.text "output" c.output entry = some c'.output ∧
      put r.texts "branches" c.branches entry = some c'.branches ∧
      put r.text "commits_dir" c.commitsDir entry = some c'.commitsDir ∧
      put r.text "unknown_author" c.unknownAuthor entry = some c'.unknownAuthor := by
  obtain ⟨key, v⟩ := entry
  cases c
  cases c'
  unfold set
  split
  case h_1 v h =>
    obtain ⟨rfl, rfl⟩ := Prod.mk.inj h
    simp [put]
  case h_2 v h =>
    obtain ⟨rfl, rfl⟩ := Prod.mk.inj h
    simp [put, and_left_comm]
  case h_3 v h =>
    obtain ⟨rfl, rfl⟩ := Prod.mk.inj h
    simp [put, and_left_comm]
  case h_4 v h =>
    obtain ⟨rfl, rfl⟩ := Prod.mk.inj h
    simp [put, and_assoc, and_left_comm, and_comm]
  case h_5 ho hb hd ha =>
    have hkey (name : String) (h : ∀ v', (key, v) = (name, v') → False) : key ≠ name := by
      rintro rfl
      exact h v rfl
    simp [put, hkey _ ho, hkey _ hb, hkey _ hd, hkey _ ha]

/-- The fields do not depend on each other. -/
theorem foldlM_set_eq_some_iff : entries.foldlM (set r) c = some c' ↔
    entries.foldlM (put r.text "output") c.output = some c'.output ∧
      entries.foldlM (put r.texts "branches") c.branches = some c'.branches ∧
      entries.foldlM (put r.text "commits_dir") c.commitsDir = some c'.commitsDir ∧
      entries.foldlM (put r.text "unknown_author") c.unknownAuthor = some c'.unknownAuthor := by
  induction entries generalizing c with
  | nil =>
      cases c
      cases c'
      simp
  | cons entry entries ih =>
      simp only [List.foldlM_cons, Option.bind_eq_bind, Option.bind_eq_some_iff, set_eq_some_iff, ih]
      constructor
      · rintro ⟨d, ⟨ho, hb, hd, ha⟩, ho', hb', hd', ha'⟩
        exact ⟨⟨_, ho, ho'⟩, ⟨_, hb, hb'⟩, ⟨_, hd, hd'⟩, _, ha, ha'⟩
      · -- what the four fields are after the first entry makes up the configuration after it
        rintro ⟨⟨o, ho, ho'⟩, ⟨b, hb, hb'⟩, ⟨d, hd, hd'⟩, u, ha, ha'⟩
        exact ⟨⟨o, b, d, u⟩, ⟨ho, hb, hd, ha⟩, ho', hb', hd', ha'⟩

theorem foldlM_put_of_not_mem (h : name ∉ entries.map (·.1)) (a : Option α) :
    entries.foldlM (put read name) a = some a := by
  induction entries with
  | nil => rfl
  | cons entry entries ih =>
      rw [List.map_cons, List.mem_cons, not_or] at h
      rw [List.foldlM_cons, put, if_neg (Ne.symm h.1)]
      exact ih h.2

theorem exists_entry (h : (entries.map (·.1)).count name ≤ 1) (hname : name ∈ entries.map (·.1)) :
    ∃ before v after, entries = before ++ (name, v) :: after ∧ name ∉ before.map (·.1) ∧
      name ∉ after.map (·.1) := by
  obtain ⟨⟨_, v⟩, hv, rfl⟩ := List.mem_map.mp hname
  obtain ⟨before, after, rfl⟩ := List.append_of_mem hv
  rw [List.map_append, List.map_cons, List.count_append, List.count_cons_self] at h
  refine ⟨before, v, after, rfl, List.count_eq_zero.mp ?_, List.count_eq_zero.mp ?_⟩
  · omega
  · omega

theorem foldlM_put_eq {before after : List (String × V)} (hbefore : name ∉ before.map (·.1))
    (hafter : name ∉ after.map (·.1)) (v : V) (a : Option α) :
    (before ++ (name, v) :: after).foldlM (put read name) a = read v := by
  rw [List.foldlM_append, foldlM_put_of_not_mem hbefore, Option.bind_eq_bind, Option.bind_some, List.foldlM_cons,
    put, if_pos rfl]
  simp only [foldlM_put_of_not_mem hafter]
  exact bind_pure (read v)

theorem foldlM_put_eq_some_iff (h : (entries.map (·.1)).count name ≤ 1) :
    entries.foldlM (put read name) none = some a ↔ Says read name entries a := by
  by_cases hname : name ∈ entries.map (·.1)
  · obtain ⟨before, v, after, rfl, hbefore, hafter⟩ := exists_entry h hname
    rw [foldlM_put_eq hbefore hafter]
    constructor
    · intro hv
      exact .given (List.mem_append_right _ List.mem_cons_self) hv
    · intro hsays
      cases hsays with
      | absent hno => exact absurd hname hno
      | @given v' _ hv' hread =>
          have hnot {es : List (String × V)} (hes : name ∉ es.map (·.1)) : (name, v') ∉ es :=
            fun hmem => hes (List.mem_map_of_mem hmem)
          have hv : v' = v := by simpa [hnot hbefore, hnot hafter] using hv'
          rwa [hv] at hread
  · rw [foldlM_put_of_not_mem hname, Option.some_inj]
    constructor
    · rintro rfl
      exact .absent hname
    · intro hsays
      cases hsays with
      | absent => rfl
      | given hv => exact absurd (List.mem_map_of_mem hv) hname

theorem nodup_known_iff {keys : List String} :
    (keys.filter names.contains).Nodup ↔ ∀ name ∈ names, keys.count name ≤ 1 := by
  rw [List.nodup_iff_count_le_one]
  constructor
  · intro h name hname
    rw [← List.count_filter (List.contains_iff_mem.mpr hname)]
    exact h name
  · intro h name
    by_cases hname : name ∈ names
    · exact Nat.le_trans (List.filter_sublist.count_le name) (h name hname)
    · rw [List.count_eq_zero.mpr]
      · omega
      · simp [hname]

/-- Entries make a configuration if each known name is there once at most and each value can be read. In which
order they come does not matter, nor what stands under other names. -/
theorem ofEntries_eq_some_iff : ofEntries r entries = some c ↔ IsMadeOf r entries c := by
  rw [ofEntries]
  split
  case isTrue h =>
    have honce := nodup_known_iff.mp h
    rw [foldlM_set_eq_some_iff, empty, foldlM_put_eq_some_iff (honce _ (by decide)),
      foldlM_put_eq_some_iff (honce _ (by decide)), foldlM_put_eq_some_iff (honce _ (by decide)),
      foldlM_put_eq_some_iff (honce _ (by decide))]
    constructor
    · rintro ⟨ho, hb, hd, ha⟩
      exact ⟨honce, ho, hb, hd, ha⟩
    · intro hc
      exact ⟨hc.output, hc.branches, hc.commitsDir, hc.unknownAuthor⟩
  case isFalse h =>
    constructor
    · intro hc
      simp at hc
    · intro hc
      exact absurd (nodup_known_iff.mpr hc.once) h

theorem ofToml_eq_some_iff {v : Toml.Value} : ofToml v = some c ↔ ∃ origin entries, v = .table origin entries ∧
    IsMadeOf ⟨fun v => v.text?.map some, fun v => v.texts?.map some⟩ entries c := by
  cases v with
  | table origin entries => simp [ofToml, ofEntries_eq_some_iff]
  | _ => simp [ofToml]

theorem ofYaml_eq_some_iff {d : Yaml.Document} : ofYaml d = some c ↔ ∃ entries, d.entries? = some entries ∧
    IsMadeOf ⟨d.optional d.text?, d.optional d.texts?⟩ entries c := by
  rw [ofYaml, Option.bind_eq_bind, Option.bind_eq_some_iff]
  simp only [ofEntries_eq_some_iff]

end PushAudit.Config
