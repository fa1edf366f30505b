import Mathlib.Data.List.Forall2
import PushAudit.Proofs.Glob.Component
import PushAudit.Proofs.Glob.Place

namespace PushAudit.Glob

open Host (FileSystem FileTree isName)

section

variable (answer : (q : Host.Question) → Host.Answer q)

theorem value_collect {α : Type} (search : α → Script Host (List Path)) (as : List α) :
    (collect search as).value answer = as.flatMap fun a => (search a).value answer := by
  induction as with
  | nil => rfl
  | cons a as ih => simp [collect, ih]

theorem asked_collect {α : Type} (search : α → Script Host (List Path)) (as : List α) :
    (collect search as).asked answer = as.flatMap fun a => (search a).asked answer := by
  induction as with
  | nil => rfl
  | cons a as ih => simp [collect, ih]

theorem read_not_mem_asked_follow {directoriesOnly : Bool} {steps : List Step} (h : .anyDepth ∉ steps)
    (p x : Path) : Host.Question.read x ∉ (follow directoriesOnly steps p).asked answer := by
  have hdirectory (q : Path) : (Host.isDirectory q).asked answer = [.kind q] := rfl
  have hexists (q : Path) : (Host.exists_ q).asked answer = [.kind q] := rfl
  have hentries (q : Path) : (Host.entries q).asked answer = [.entries q] := rfl
  induction steps generalizing p with
  | nil =>
      rw [follow, yield]
      split
      · rw [Script.asked_bind, hdirectory]
        split <;> simp
      · simp
  | cons step steps ih =>
      rw [List.mem_cons, not_or] at h
      have hnext := ih h.2
      cases step with
      | anyDepth => exact absurd rfl h.1
      | name s =>
          simp only [follow]
          split <;> rw [Script.asked_bind]
          · rw [hdirectory]
            split <;> simp [hnext]
          · rw [hexists]
            split <;> simp [hnext]
      | matching ts =>
          simp only [follow, Script.asked_bind, hentries]
          split
          · simp [asked_collect, hnext]
          · simp

end

/-- A component of a pattern that names something below a directory. -/
structure IsPart (s : List Char) : Prop where
  not_mem : '/' ∉ s
  nonempty : s ≠ []
  ne_here : s ≠ ['.']
  ne_up : s ≠ ['.', '.']

variable {fs : FileSystem} {input : ByteArray} {p x : Path} {name : String} {names : List String}
  {ts : List Token} {steps : List Step}

theorem IsPart.not_isVoid {s : List Char} (h : IsPart s) : ¬ Path.isVoid (String.ofList s) := by
  have hempty : String.ofList s ≠ "" := fun he => h.nonempty (by simpa using congrArg String.toList he)
  have hdot : String.ofList s ≠ "." := fun he => h.ne_here (by simpa using congrArg String.toList he)
  simp [Path.isVoid, hempty, hdot]

theorem IsPart.not_up {s : List Char} (h : IsPart s) : String.ofList s ≠ ".." :=
  fun he => h.ne_up (by simpa using congrArg String.toList he)

theorem IsPart.not_dots {s : List Char} (h : IsPart s) : ¬ (String.ofList s = "." ∨ String.ofList s = "..") := by
  rintro (he | he)
  · exact h.not_isVoid (by rw [he]; decide)
  · exact h.not_up he

def found (fs : FileSystem) (input : ByteArray) (steps : List Step) (p : Path) : List Path :=
  (follow false steps p).value (fs.answer input)

@[simp] theorem found_nil : found fs input [] p = [p] := rfl

theorem mem_found_name_iff : x ∈ found fs input (.name name :: steps) p ↔
    (if name = "." ∨ name = ".." then ∃ entries, fs.lookUp p = .ok (.directory entries)
      else ∃ t, fs.lookUp (extend p name) = .ok t) ∧ x ∈ found fs input steps (extend p name) := by
  rw [found, follow]
  split
  · rw [Script.value_bind, ← FileSystem.value_isDirectory_iff fs input]
    cases (Host.isDirectory p).value (fs.answer input) <;> simp [found]
  · rw [Script.value_bind, ← FileSystem.value_exists_iff fs input]
    cases (Host.exists_ (extend p name)).value (fs.answer input) <;> simp [found]

theorem mem_found_matching_iff : x ∈ found fs input (.matching ts :: steps) p ↔
    ∃ entries, fs.lookUp p = .ok (.directory entries) ∧
      ((∃ dots, (Step.matching ts).takesDots ∧ (dots = ".." ∨ dots = ".") ∧ fits ts dots ∧
          x ∈ found fs input steps (p.join ⟨dots⟩)) ∨
        ∃ name, isName name ∧ (∃ e ∈ entries, e.1 = name) ∧ fits ts name ∧
          x ∈ found fs input steps (extend p name)) := by
  have hentries : (Host.entries p).value (fs.answer input) = ((fs.directory? p).map fun entries =>
      (FileTree.distinct entries).map fun e => (e.1, e.2.kind == Host.Kind.directory)) := rfl
  simp only [found, follow, Script.value_bind, hentries, FileSystem.directory?]
  cases hlook : fs.lookUp p with
  | error why => simp
  | ok t =>
      cases t with
      | file content => simp
      | directory entries =>
          have hnames : ((FileTree.distinct entries).map fun e => (e.1, e.2.kind == Host.Kind.directory)).map (·.1) =
              (FileTree.distinct entries).map (·.1) := by simp [Function.comp_def]
          have hfits (s : String) : (Step.matching ts).fits s = fits ts s := rfl
          simp only [Option.map_some, Script.value_bind, Script.value_pure, value_collect, hnames, List.mem_append,
            List.mem_flatMap, List.mem_mergeSort, List.mem_filter, Host.mem_map_distinct_iff, hfits,
            List.mem_ite_nil_right, List.mem_cons, List.not_mem_nil, or_false, and_assoc, Except.ok.injEq,
            FileTree.directory.injEq, exists_eq_left']

theorem mem_found_matching_of_directory {entries : List (String × FileTree)}
    (hdir : fs.lookUp p = .ok (.directory entries)) (hdots : (Step.matching ts).takesDots = false) :
    x ∈ found fs input (.matching ts :: steps) p ↔
      ∃ e ∈ entries, isName e.1 ∧ fits ts e.1 ∧ x ∈ found fs input steps (extend p e.1) := by
  simp only [mem_found_matching_iff, hdir, hdots, Except.ok.injEq, FileTree.directory.injEq, exists_eq_left',
    Bool.false_eq_true, false_and, exists_false, false_or]
  constructor
  · rintro ⟨name, hname, ⟨e, he, rfl⟩, h⟩
    exact ⟨e, he, hname, h⟩
  · rintro ⟨e, he, hname, h⟩
    exact ⟨e.1, hname, ⟨e, he, rfl⟩, h⟩

theorem exists_of_mem_found {s : List Char} (hp : Spelled p) (hs : IsPart s)
    (hdots : ∀ dots, dots = ".." ∨ dots = "." → Fits s dots.toList → '*' ∈ s → s.head? = some '.' →
      x ∉ found fs input steps (p.join ⟨dots⟩))
    (hx : x ∈ found fs input (.ofComponent s :: steps) p) :
    ∃ name, isName name ∧ Fits s name.toList ∧ x ∈ found fs input steps (extend p name) := by
  by_cases hstar : '*' ∈ s
  · rw [Step.ofComponent_matching hstar, mem_found_matching_iff] at hx
    obtain ⟨entries, hdir, ⟨dots, htakes, hdots', hfits, hx⟩ | ⟨name, hname, -, hfits, hx⟩⟩ := hx
    · exact absurd hx (hdots dots hdots' (fits_iff.mp hfits) hstar (takesDots_matching_iff.mp htakes))
    · exact ⟨name, hname, fits_iff.mp hfits, hx⟩
  · rw [Step.ofComponent_name hstar, mem_found_name_iff, if_neg hs.not_dots] at hx
    obtain ⟨⟨t, hlook⟩, hx⟩ := hx
    refine ⟨_, ?_, by rw [String.toList_ofList, fits_of_no_star hstar], hx⟩
    exact hp.isName_of_lookUp (by simpa using hs.not_mem) hs.not_isVoid hs.not_up hlook

theorem mem_found_of_lookUp {s : List Char} (hp : Spelled p) (hs : IsPart s) (hname : isName name)
    (hfits : Fits s name.toList) {t : FileTree} (hlook : fs.lookUp (extend p name) = .ok t)
    (hx : x ∈ found fs input steps (extend p name)) : x ∈ found fs input (.ofComponent s :: steps) p := by
  by_cases hstar : '*' ∈ s
  · obtain ⟨⟨hvoid, hup⟩, hslash, -⟩ := isName_iff.mp hname
    obtain ⟨-, entries, hdir, -, e, hfind, -⟩ := (hp.lookUp_extend_iff hslash hvoid hup).mp hlook
    rw [Step.ofComponent_matching hstar, mem_found_matching_iff]
    exact ⟨entries, hdir, .inr ⟨name, hname,
      ⟨e, List.mem_of_find?_eq_some hfind, by simpa using List.find?_some hfind⟩, fits_iff.mpr hfits, hx⟩⟩
  · obtain rfl : name = String.ofList s := by
      rw [← (fits_of_no_star hstar).mp hfits, String.ofList_toList]
    rw [Step.ofComponent_name hstar, mem_found_name_iff, if_neg hs.not_dots]
    exact ⟨⟨t, hlook⟩, hx⟩


/-- Stars after a dot stand neither for a directory itself nor for the one above. -/
def PassesDots (s : List Char) : Prop :=
  '*' ∈ s → s.head? = some '.' → ¬ Fits s ['.'] ∧ ¬ Fits s ['.', '.']

theorem not_mem_found_dots {s : List Char} {rest : List (List Char)} {content : ByteArray}
    (hp : Spelled p) (hpass : rest ≠ [] → PassesDots s) (hx : fs.lookUp x = .ok (.file content)) {dots : String}
    (hdots : dots = ".." ∨ dots = ".") (hfits : Fits s dots.toList) (hstar : '*' ∈ s)
    (hhead : s.head? = some '.') :
    x ∉ found fs input (rest.map Step.ofComponent) (p.join ⟨dots⟩) := by
  intro hmem
  cases rest with
  | nil =>
      obtain rfl : x = p.join ⟨dots⟩ := List.mem_singleton.mp hmem
      exact hp.lookUp_join_dots_ne_file hdots hx
  | cons s' rest =>
      obtain ⟨hhere, hup⟩ := hpass (List.cons_ne_nil _ _) hstar hhead
      rcases hdots with rfl | rfl
      · exact hup hfits
      · exact hhere hfits

/-- The files that the components of a pattern lead to, along names that fit them. -/
theorem mem_found_iff {components : List (List Char)} {content : ByteArray} (hp : Spelled p)
    (hparts : ∀ s ∈ components, IsPart s) (hdots : ∀ s ∈ components.dropLast, PassesDots s)
    (hx : fs.lookUp x = .ok (.file content)) : x ∈ found fs input (components.map Step.ofComponent) p ↔
      ∃ names, (∀ name ∈ names, isName name) ∧
        List.Forall₂ (fun s name => Fits s name.toList) components names ∧ x = under p names := by
  -- Each component goes on from another directory, and all of them have to be spelled.
  induction components generalizing p with
  | nil => simp
  | cons s rest ih =>
      rw [List.forall_mem_cons] at hparts
      have hpass : rest ≠ [] → PassesDots s := fun hrest =>
        hdots s (by rw [List.dropLast_cons_of_ne_nil hrest]; exact .head _)
      have hrest : ∀ s ∈ rest.dropLast, PassesDots s := by
        intro s' hs'
        refine hdots s' ?_
        cases rest with
        | nil => contradiction
        | cons s'' rest => exact .tail _ hs'
      constructor
      · intro hmem
        obtain ⟨name, hname, hfits, hmem⟩ := exists_of_mem_found hp hparts.1
          (fun dots hdots => not_mem_found_dots hp hpass hx hdots) hmem
        obtain ⟨names, hnames, hall, rfl⟩ := (ih (hp.extend_name hname) hparts.2 hrest).mp hmem
        exact ⟨name :: names, List.forall_mem_cons.mpr ⟨hname, hnames⟩, .cons hfits hall, rfl⟩
      · -- The search goes on only where there is something, and there is: the file lies below it.
        rintro ⟨names, hnames, hall, rfl⟩
        cases hall with
        | @cons s name rest names hfits hall =>
            rw [List.forall_mem_cons] at hnames
            have hnext := hp.extend_name hnames.1
            obtain ⟨t, hlook⟩ := hnext.exists_lookUp_of_under hnames.2 hx
            exact mem_found_of_lookUp hp hparts.1 hnames.1 hfits hlook
              ((ih hnext hparts.2 hrest).mpr ⟨names, hnames.2, hall, rfl⟩)

end PushAudit.Glob
