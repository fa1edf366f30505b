import PushAudit.Host.FileTree

namespace PushAudit.Host

def FileSystem.trail (fs : FileSystem) (p : Path) : List String :=
  if p.isAbsolute then p.layout.segments else fs.workingDirectory ++ Path.segments p.text.toList

theorem FileSystem.lookUp_eq (fs : FileSystem) (p : Path) : fs.lookUp p =
    if '\x00' ∈ p.text.toList then .error .nulInName
    else if p.text = "" then .error .notFound
    else if maxPathSize < p.text.utf8ByteSize then .error .nameTooLong
    else fs.root.walk [] (fs.trail p) := by
  simp only [FileSystem.lookUp, FileSystem.trail, String.contains_char_eq, decide_eq_true_eq]
  cases p.isAbsolute <;> rfl

namespace FileTree

variable {above : List FileTree} {t : FileTree} {entries : List (String × FileTree)} {name : String}
  {segments : List String}

@[simp] theorem walk_nil : t.walk above [] = .ok t := by
  cases t <;> rw [walk]

@[simp] theorem walk_file {content : ByteArray} :
    (file content).walk above (name :: segments) = .error .notDirectory := by
  rw [walk]

theorem walk_void (hvoid : Path.isVoid name) :
    (directory entries).walk above (name :: segments) = (directory entries).walk above segments := by
  cases above <;> simp [walk, hvoid]

theorem walk_up_root : (directory entries).walk [] (".." :: segments) = (directory entries).walk [] segments := by
  simp [walk, Path.isVoid]

theorem walk_up : (directory entries).walk (t :: above) (".." :: segments) = t.walk above segments := by
  simp [walk, Path.isVoid]

theorem walk_longName (hvoid : ¬ Path.isVoid name) (hup : name ≠ "..") (hsize : maxNameSize < name.utf8ByteSize) :
    (directory entries).walk above (name :: segments) = .error .nameTooLong := by
  cases above <;> simp [walk, hvoid, hup, hsize]

theorem walk_missing (hvoid : ¬ Path.isVoid name) (hup : name ≠ "..") (hsize : ¬ maxNameSize < name.utf8ByteSize)
    (h : entries.find? (·.1 == name) = none) :
    (directory entries).walk above (name :: segments) = .error .notFound := by
  cases above <;> simp [walk, hvoid, hup, hsize, h]

theorem walk_entry (hvoid : ¬ Path.isVoid name) (hup : name ≠ "..") (hsize : ¬ maxNameSize < name.utf8ByteSize)
    {e : String × FileTree} (h : entries.find? (·.1 == name) = some e) :
    (directory entries).walk above (name :: segments) = e.2.walk (directory entries :: above) segments := by
  cases above <;> simp [walk, hvoid, hup, hsize, h]

end FileTree

theorem eq_of_isVoid {name : String} (h : Path.isVoid name) : name = "" ∨ name = "." := by
  simpa [Path.isVoid] using h

/-- Why a place cannot be gone on from to what has the next name. -/
inductive Stops : FileTree → String → Fault → Prop
  | file {content : ByteArray} {name : String} : Stops (.file content) name .notDirectory
  | longName {entries : List (String × FileTree)} {name : String} (h : maxNameSize < name.utf8ByteSize) :
      Stops (.directory entries) name .nameTooLong
  | missing {entries : List (String × FileTree)} {name : String} (hvoid : ¬ Path.isVoid name) (hup : name ≠ "..")
      (hsize : name.utf8ByteSize ≤ maxNameSize) (h : ∀ e ∈ entries, e.1 ≠ name) :
      Stops (.directory entries) name .notFound

variable {above above' : List FileTree} {t t' : FileTree} {entries : List (String × FileTree)} {name : String}
  {segments : List String} {why : Fault}

theorem stops_file_iff {content : ByteArray} : Stops (.file content) name why ↔ why = .notDirectory := by
  constructor
  · rintro ⟨⟩
    rfl
  · rintro rfl
    exact .file

theorem not_stops_of_isVoid (h : Path.isVoid name) : ¬ Stops (.directory entries) name why := by
  rintro (_ | hlong | ⟨hvoid, -, -, -⟩)
  · rcases eq_of_isVoid h with rfl | rfl <;> contradiction
  · exact hvoid h

theorem not_stops_up : ¬ Stops (.directory entries) ".." why := by
  rintro (_ | hlong | ⟨-, hup, -, -⟩)
  · contradiction
  · exact hup rfl

/-- A walk gets to a place from which it cannot go on. -/
def Halts (above : List FileTree) (t : FileTree) (segments : List String) (why : Fault) : Prop :=
  ∃ before name after t', segments = before ++ name :: after ∧ t.walk above before = .ok t' ∧ Stops t' name why

theorem not_halts_nil : ¬ Halts above t [] why := by
  rintro ⟨before, name, after, t', h, -⟩
  cases before <;> contradiction

theorem halts_cons_iff : Halts above t (name :: segments) why ↔ Stops t name why ∨
    ∃ before other after t', segments = before ++ other :: after ∧ t.walk above (name :: before) = .ok t' ∧
      Stops t' other why := by
  constructor
  · rintro ⟨_ | ⟨s, before⟩, other, after, t', h, hwalk, hstops⟩
    · cases h
      rw [FileTree.walk_nil] at hwalk
      exact .inl (Except.ok.inj hwalk ▸ hstops)
    · cases h
      exact .inr ⟨before, other, after, t', rfl, hwalk, hstops⟩
  · rintro (hstops | ⟨before, other, after, t', rfl, hwalk, hstops⟩)
    · exact ⟨[], name, segments, t, rfl, FileTree.walk_nil, hstops⟩
    · exact ⟨name :: before, other, after, t', rfl, hwalk, hstops⟩

theorem halts_iff_of_step (hstep : ∀ before, t.walk above (name :: before) = t'.walk above' before)
    (hgo : ∀ why, ¬ Stops t name why) : Halts above t (name :: segments) why ↔ Halts above' t' segments why := by
  simp only [halts_cons_iff, hgo, false_or, hstep]
  rfl

theorem halts_iff_of_fault {fault : Fault} (hstep : ∀ before, t.walk above (name :: before) = .error fault) :
    Halts above t (name :: segments) why ↔ Stops t name why := by
  simp [halts_cons_iff, hstep]

theorem stops_of_longName_iff (hsize : maxNameSize < name.utf8ByteSize) :
    Stops (.directory entries) name why ↔ why = .nameTooLong := by
  constructor
  · rintro (_ | _ | ⟨-, -, hle, -⟩)
    · rfl
    · omega
  · rintro rfl
    exact .longName hsize

theorem stops_of_missing_iff (hvoid : ¬ Path.isVoid name) (hup : name ≠ "..")
    (hsize : ¬ maxNameSize < name.utf8ByteSize) (h : entries.find? (·.1 == name) = none) :
    Stops (.directory entries) name why ↔ why = .notFound := by
  constructor
  · rintro (_ | hlong | _)
    · exact absurd hlong hsize
    · rfl
  · rintro rfl
    exact .missing hvoid hup (by omega) (by simpa using h)

theorem not_stops_of_entry (hsize : ¬ maxNameSize < name.utf8ByteSize) {e : String × FileTree}
    (h : entries.find? (·.1 == name) = some e) : ¬ Stops (.directory entries) name why := by
  rintro (_ | hlong | ⟨-, -, -, hno⟩)
  · exact hsize hlong
  · exact hno e (List.mem_of_find?_eq_some h) (by simpa using List.find?_some h)

theorem walk_eq_error_iff : t.walk above segments = .error why ↔ Halts above t segments why := by
  fun_induction FileTree.walk above t segments with
  | case1 above t => simp [not_halts_nil]
  | case2 above content name segments =>
      rw [halts_iff_of_fault fun _ => FileTree.walk_file, stops_file_iff]
      simp [eq_comm]
  | case3 above entries name segments hvoid ih =>
      rw [ih, halts_iff_of_step (fun _ => FileTree.walk_void hvoid) fun _ => not_stops_of_isVoid hvoid]
  | case4 entries segments hvoid ih =>
      rw [ih, halts_iff_of_step (fun _ => FileTree.walk_up_root) fun _ => not_stops_up]
  | case5 entries segments t above hvoid ih =>
      rw [ih, halts_iff_of_step (fun _ => FileTree.walk_up) fun _ => not_stops_up]
  | case6 above entries name segments hvoid hup hsize =>
      rw [halts_iff_of_fault fun _ => FileTree.walk_longName hvoid hup hsize, stops_of_longName_iff hsize]
      simp [eq_comm]
  | case7 above entries name segments hvoid hup hsize hfind =>
      rw [halts_iff_of_fault fun _ => FileTree.walk_missing hvoid hup hsize hfind,
        stops_of_missing_iff hvoid hup hsize hfind]
      simp [eq_comm]
  | case8 above entries name segments hvoid hup hsize other t hfind ih =>
      rw [ih, halts_iff_of_step (fun _ => FileTree.walk_entry hvoid hup hsize hfind)
        fun _ => not_stops_of_entry hsize hfind]

/-- What bars the way to a place, whether there is anything or not. -/
inductive FileSystem.Bars (fs : FileSystem) (p : Path) : Prop
  | nul (h : '\x00' ∈ p.text.toList)
  | longPath (h : maxPathSize < p.text.utf8ByteSize)
  | longName {before after : List String} {name : String} {entries : List (String × FileTree)}
      (htrail : fs.trail p = before ++ name :: after) (hwalk : fs.root.walk [] before = .ok (.directory entries))
      (h : maxNameSize < name.utf8ByteSize)
  | file {before after : List String} {name : String} {content : ByteArray}
      (htrail : fs.trail p = before ++ name :: after) (hwalk : fs.root.walk [] before = .ok (.file content))

theorem FileSystem.exists_fault_iff_bars {fs : FileSystem} {p : Path} (hp : p.text ≠ "") :
    (∃ why, why ≠ .notFound ∧ fs.lookUp p = .error why) ↔ fs.Bars p := by
  constructor
  · rintro ⟨why, hwhy, h⟩
    rw [lookUp_eq, if_neg hp] at h
    split at h
    · next hnul => exact .nul hnul
    · split at h
      · next hlong => exact .longPath hlong
      · obtain ⟨before, name, after, t, htrail, hwalk, hstops⟩ := walk_eq_error_iff.mp h
        cases hstops with
        | file => exact .file htrail hwalk
        | longName hlong => exact .longName htrail hwalk hlong
        | missing => exact absurd rfl hwhy
  · intro h
    rw [lookUp_eq, if_neg hp]
    split
    · exact ⟨_, by simp, rfl⟩
    · next hnul =>
        split
        · exact ⟨_, by simp, rfl⟩
        · next hlong =>
            cases h with
            | nul h => exact absurd h hnul
            | longPath h => exact absurd h hlong
            | longName htrail hwalk h =>
                exact ⟨.nameTooLong, by simp, walk_eq_error_iff.mpr ⟨_, _, _, _, htrail, hwalk, .longName h⟩⟩
            | file htrail hwalk =>
                exact ⟨.notDirectory, by simp, walk_eq_error_iff.mpr ⟨_, _, _, _, htrail, hwalk, .file⟩⟩

namespace FileSystem

variable {fs : FileSystem} {p : Path}

theorem read_of_fault (h : fs.lookUp p = .error why) : fs.read p = .error why := by
  rw [read, h]
  rfl

theorem read_of_file {content : ByteArray} (h : fs.lookUp p = .ok (.file content)) : fs.read p = .ok content := by
  rw [read, h]
  rfl

theorem read_of_directory (h : fs.lookUp p = .ok (.directory entries)) : fs.read p = .error .isDirectory := by
  rw [read, h]
  rfl

end FileSystem

end PushAudit.Host
