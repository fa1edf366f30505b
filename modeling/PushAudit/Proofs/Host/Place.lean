import Mathlib.Data.String.Basic
import PushAudit.Proofs.Host.Content
import PushAudit.Proofs.Host.Walk
import PushAudit.Proofs.Path

namespace PushAudit.Host

open PushAudit.Path (isVoid)

def FileTree.IsDirectory (t : FileTree) : Prop := ∃ entries, t = .directory entries

variable {above : List FileTree} {t t' : FileTree} {entries : List (String × FileTree)} {name : String}
  {segments before after : List String} {content : ByteArray}

/-- A walk can be broken off and gone on with; what is above it stays made of directories. -/
theorem walk_append_of_ok (h : t.walk above before = .ok t') :
    ∃ above', (∀ segments, t.walk above (before ++ segments) = t'.walk above' segments) ∧
      ((∀ a ∈ above, a.IsDirectory) → ∀ a ∈ above', a.IsDirectory) := by
  fun_induction FileTree.walk above t before with
  | case1 above t =>
      cases h
      exact ⟨above, fun _ => rfl, fun habove => habove⟩
  | case2 | case6 | case7 => contradiction
  | case3 above entries name before hvoid ih =>
      obtain ⟨above', hwalk, hdirs⟩ := ih h
      exact ⟨above', fun segments => (FileTree.walk_void hvoid).trans (hwalk segments), hdirs⟩
  | case4 entries before hvoid ih =>
      obtain ⟨above', hwalk, hdirs⟩ := ih h
      exact ⟨above', fun segments => FileTree.walk_up_root.trans (hwalk segments), hdirs⟩
  | case5 entries before t above hvoid ih =>
      obtain ⟨above', hwalk, hdirs⟩ := ih h
      refine ⟨above', fun segments => FileTree.walk_up.trans (hwalk segments), fun habove => ?_⟩
      exact hdirs fun a ha => habove a (.tail _ ha)
  | case8 above entries name before hvoid hup hsize other t hfind ih =>
      obtain ⟨above', hwalk, hdirs⟩ := ih h
      refine ⟨above', fun segments => (FileTree.walk_entry hvoid hup hsize hfind).trans (hwalk segments),
        fun habove => hdirs fun a ha => ?_⟩
      rcases List.mem_cons.mp ha with rfl | ha
      · exact ⟨entries, rfl⟩
      · exact habove a ha

theorem exists_walk_of_append (h : t.walk above (before ++ after) = .ok t') :
    ∃ t'', t.walk above before = .ok t'' := by
  cases hwalk : t.walk above before with
  | ok t'' => exact ⟨t'', rfl⟩
  | error why =>
      obtain ⟨first, name, rest, t'', rfl, hfirst, hstops⟩ := walk_eq_error_iff.mp hwalk
      have herror : t.walk above (first ++ name :: rest ++ after) = .error why :=
        walk_eq_error_iff.mpr ⟨first, name, rest ++ after, t'', by simp, hfirst, hstops⟩
      rw [h] at herror
      contradiction

theorem isDirectory_of_walk_cons (h : t.walk above (name :: segments) = .ok t') : t.IsDirectory := by
  cases t with
  | file content => simp at h
  | directory entries => exact ⟨entries, rfl⟩

theorem exists_walk_of_walk_append (h : t.walk above (before ++ after) = .ok (.directory entries)) :
    ∃ entries', t.walk above before = .ok (.directory entries') := by
  obtain ⟨t'', hbefore⟩ := exists_walk_of_append h
  obtain ⟨above', happend, -⟩ := walk_append_of_ok hbefore
  rw [happend] at h
  cases after with
  | nil =>
      rw [FileTree.walk_nil] at h
      exact ⟨entries, Except.ok.inj h ▸ hbefore⟩
  | cons name after =>
      obtain ⟨entries', rfl⟩ := isDirectory_of_walk_cons h
      exact ⟨entries', hbefore⟩

theorem walk_filter_eq_ok_directory_iff :
    t.walk above (segments.filter (!isVoid ·)) = .ok (.directory entries) ↔
      t.walk above segments = .ok (.directory entries) := by
  fun_induction FileTree.walk above t segments with
  | case1 above t => simp
  | case2 above content name segments =>
      cases (name :: segments).filter (!isVoid ·) with
      | nil => simp
      | cons name segments => simp
  | case3 above entries name segments hvoid ih => rw [List.filter_cons_of_neg (by simpa using hvoid), ih]
  | case4 entries segments hvoid ih =>
      rw [List.filter_cons_of_pos (by decide), FileTree.walk_up_root, ih]
  | case5 entries segments t above hvoid ih => rw [List.filter_cons_of_pos (by decide), FileTree.walk_up, ih]
  | case6 above entries name segments hvoid hup hsize =>
      rw [List.filter_cons_of_pos (by simpa using hvoid), FileTree.walk_longName hvoid hup hsize]
  | case7 above entries name segments hvoid hup hsize hfind =>
      rw [List.filter_cons_of_pos (by simpa using hvoid), FileTree.walk_missing hvoid hup hsize hfind]
  | case8 above entries name segments hvoid hup hsize other t hfind ih =>
      rw [List.filter_cons_of_pos (by simpa using hvoid), FileTree.walk_entry hvoid hup hsize hfind, ih]

/-- A directory has something under a name. -/
def Holds (entries : List (String × FileTree)) (name : String) (t : FileTree) : Prop :=
  name.utf8ByteSize ≤ maxNameSize ∧ ∃ e, entries.find? (·.1 == name) = some e ∧ e.2 = t

theorem walk_append_name_iff (hvoid : ¬ isVoid name) (hup : name ≠ "..") :
    t.walk above (before ++ [name]) = .ok t' ↔
      ∃ entries, t.walk above before = .ok (.directory entries) ∧ Holds entries name t' := by
  constructor
  · intro h
    obtain ⟨t'', hbefore⟩ := exists_walk_of_append h
    obtain ⟨above', happend, -⟩ := walk_append_of_ok hbefore
    rw [happend] at h
    obtain ⟨entries, rfl⟩ := isDirectory_of_walk_cons h
    refine ⟨entries, hbefore, ?_⟩
    by_cases hsize : maxNameSize < name.utf8ByteSize
    · rw [FileTree.walk_longName hvoid hup hsize] at h
      contradiction
    · cases hfind : entries.find? (·.1 == name) with
      | none =>
          rw [FileTree.walk_missing hvoid hup hsize hfind] at h
          contradiction
      | some e =>
          rw [FileTree.walk_entry hvoid hup hsize hfind, FileTree.walk_nil] at h
          exact ⟨Nat.le_of_not_lt hsize, e, hfind, Except.ok.inj h⟩
  · rintro ⟨entries, hbefore, hsize, e, hfind, rfl⟩
    obtain ⟨above', happend, -⟩ := walk_append_of_ok hbefore
    rw [happend, FileTree.walk_entry hvoid hup (Nat.not_lt_of_le hsize) hfind, FileTree.walk_nil]

theorem isDirectory_of_walk_dots (habove : ∀ a ∈ above, a.IsDirectory) (hname : name = "." ∨ name = "..")
    (h : t.walk above (before ++ [name]) = .ok t') : t'.IsDirectory := by
  obtain ⟨t'', hbefore⟩ := exists_walk_of_append h
  obtain ⟨above', happend, hdirs⟩ := walk_append_of_ok hbefore
  rw [happend] at h
  obtain ⟨entries, rfl⟩ := isDirectory_of_walk_cons h
  rcases hname with rfl | rfl
  · rw [FileTree.walk_void (by decide), FileTree.walk_nil] at h
    exact ⟨entries, (Except.ok.inj h).symm⟩
  · cases above' with
    | nil =>
        rw [FileTree.walk_up_root, FileTree.walk_nil] at h
        exact ⟨entries, (Except.ok.inj h).symm⟩
    | cons a above' =>
        rw [FileTree.walk_up, FileTree.walk_nil] at h
        exact Except.ok.inj h ▸ hdirs habove a (.head _)

/-- A path that the system takes at all. -/
structure IsTaken (p : Path) : Prop where
  noNul : '\x00' ∉ p.text.toList
  nonempty : p.text ≠ ""
  size : p.text.utf8ByteSize ≤ maxPathSize

theorem IsTaken.of_sublist {p q : Path} (hq : IsTaken q) (hp : p.text ≠ "")
    (h : p.text.toList.Sublist q.text.toList) : IsTaken p := by
  refine ⟨fun hnul => hq.noNul (h.subset hnul), hp, ?_⟩
  have hsize := String.utf8Len_le_of_sublist h
  rw [String.utf8Len_toList, String.utf8Len_toList] at hsize
  exact hsize.trans hq.size

namespace FileSystem

variable {fs : FileSystem} {p q : Path}

def start (fs : FileSystem) (p : Path) : List String := if p.isAbsolute then [] else fs.workingDirectory

theorem trail_eq (fs : FileSystem) (p : Path) : fs.trail p = fs.start p ++ p.parts := by
  unfold trail start
  split
  · next h => rw [Path.layout_segments_of_absolute h, List.nil_append]
  · next h => rw [Path.parts, Path.inner, if_neg h]

theorem names_eq (fs : FileSystem) (p : Path) : fs.names p = (p.parts.filter (!isVoid ·)).foldl
    (fun names s => if s = ".." then names.dropLast else names ++ [s]) (fs.start p) := by
  unfold names start
  split
  · next h => rw [Path.layout_segments_of_absolute h]
  · next h => rw [Path.parts, Path.inner, if_neg h]

/-- The trail without the segments that mean nothing. -/
def route (fs : FileSystem) (p : Path) : List String := (fs.trail p).filter (!isVoid ·)

theorem route_eq (fs : FileSystem) (p : Path) :
    fs.route p = (fs.start p).filter (!isVoid ·) ++ p.parts.filter (!isVoid ·) := by
  rw [route, trail_eq, List.filter_append]

theorem exists_trail_of_parts (fs : FileSystem) (habsolute : q.isAbsolute = p.isAbsolute)
    (h : ∃ before, q.parts = before ++ [name] ∧ before.filter (!isVoid ·) = p.parts.filter (!isVoid ·)) :
    ∃ before, fs.trail q = before ++ [name] ∧ before.filter (!isVoid ·) = fs.route p := by
  obtain ⟨before, hparts, hfilter⟩ := h
  refine ⟨fs.start p ++ before, ?_, ?_⟩
  · rw [trail_eq, hparts, ← List.append_assoc, start, start, habsolute]
  · rw [route_eq, List.filter_append, hfilter]

theorem lookUp_of_isTaken (hp : IsTaken p) : fs.lookUp p = fs.root.walk [] (fs.trail p) := by
  rw [lookUp_eq, if_neg hp.noNul, if_neg hp.nonempty, if_neg (Nat.not_lt_of_le hp.size)]

theorem lookUp_eq_ok_iff : fs.lookUp p = .ok t ↔ IsTaken p ∧ fs.root.walk [] (fs.trail p) = .ok t := by
  constructor
  · intro h
    rw [lookUp_eq] at h
    split at h
    · contradiction
    · next hnul =>
        split at h
        · contradiction
        · next hempty =>
            split at h
            · contradiction
            · next hsize => exact ⟨⟨hnul, hempty, Nat.le_of_not_lt hsize⟩, h⟩
  · rintro ⟨htaken, h⟩
    rw [lookUp_of_isTaken htaken, h]

theorem lookUp_eq_ok_directory_iff : fs.lookUp p = .ok (.directory entries) ↔
    IsTaken p ∧ fs.root.walk [] (fs.route p) = .ok (.directory entries) := by
  rw [lookUp_eq_ok_iff, route, walk_filter_eq_ok_directory_iff]

variable {input : ByteArray}

theorem kindAt_eq_file_iff :
    kindAt (fs.answer input) p = some .file ↔ ∃ content, fs.lookUp p = .ok (.file content) := by
  have hkind : kindAt (fs.answer input) p = (fs.lookUp p).toOption.map FileTree.kind := rfl
  rw [hkind]
  cases fs.lookUp p with
  | error why => simp [Except.toOption]
  | ok t => cases t <;> simp [Except.toOption, FileTree.kind]

theorem value_isDirectory_iff (fs : FileSystem) (input : ByteArray) (p : Path) :
    (isDirectory p).value (fs.answer input) ↔
    ∃ entries, fs.lookUp p = .ok (.directory entries) := by
  have hkind : (isDirectory p).value (fs.answer input) =
      ((fs.lookUp p).toOption.map FileTree.kind == some .directory) := rfl
  rw [hkind]
  cases fs.lookUp p with
  | error why => simp [Except.toOption]
  | ok t => cases t <;> simp [Except.toOption, FileTree.kind]

theorem value_exists_iff (fs : FileSystem) (input : ByteArray) (p : Path) :
    (exists_ p).value (fs.answer input) ↔ ∃ t, fs.lookUp p = .ok t := by
  have hkind : (exists_ p).value (fs.answer input) = ((fs.lookUp p).toOption.map FileTree.kind).isSome := rfl
  rw [hkind]
  cases fs.lookUp p with
  | error why => simp [Except.toOption]
  | ok t => simp [Except.toOption]

end FileSystem

theorem mem_distinct_foldl_iff (name : String) (entries seen : List (String × FileTree)) :
    (∃ e ∈ entries.foldl (fun seen e => if !isName e.1 || seen.any (·.1 == e.1) then seen else e :: seen) seen,
      e.1 = name) ↔ (∃ e ∈ seen, e.1 = name) ∨ isName name ∧ ∃ e ∈ entries, e.1 = name := by
  induction entries generalizing seen with
  | nil => simp
  | cons e entries ih =>
      rw [List.foldl_cons, ih]
      split
      · next hskip =>
          have hseen : isName name ∧ e.1 = name → ∃ e ∈ seen, e.1 = name := by
            rintro ⟨hname, rfl⟩
            simpa [hname] using hskip
          simp only [List.mem_cons, exists_eq_or_imp, and_or_left, ← or_assoc, or_iff_left_of_imp hseen]
      · next hnew =>
          have hname : e.1 = name → isName name := by
            rintro rfl
            simp only [Bool.or_eq_true, Bool.not_eq_true', not_or, Bool.not_eq_false] at hnew
            exact hnew.1
          simp only [List.mem_cons, exists_eq_or_imp, and_or_left, and_iff_right_of_imp hname]
          exact or_assoc.trans or_left_comm

theorem mem_map_distinct_iff : name ∈ (FileTree.distinct entries).map (·.1) ↔
    isName name ∧ ∃ e ∈ entries, e.1 = name := by
  rw [FileTree.distinct, List.mem_map]
  simpa using mem_distinct_foldl_iff name entries []

end PushAudit.Host
