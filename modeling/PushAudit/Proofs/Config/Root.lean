import Mathlib.Data.List.Induction
import PushAudit.Proofs.Config.Discovery
import PushAudit.Proofs.Host.Resolve

namespace PushAudit.Config

open Host (FileSystem FileTree IsTaken resolve maxPathSize)
open PushAudit.Path (IsAbove isVoid slashed)

variable {fs : FileSystem} {input : ByteArray} {start d : Path} {entries : List (String × FileTree)}
  {place other here : List String} {mark : String}

/-- There is a directory at a place and a mark of a root in it. -/
def MarkedPlace (fs : FileSystem) (place : List String) : Prop :=
  ∃ entries, fs.root.walk [] place = .ok (.directory entries) ∧ ∃ mark ∈ rootMarks, ∃ e ∈ entries, e.1 = mark

/-- The first marked place on the way up from a place. -/
structure Nearest (fs : FileSystem) (here place : List String) : Prop where
  marked : MarkedPlace fs place
  above : place <+: here
  nearest : ∀ other, MarkedPlace fs other → other <+: here → other <+: place

/-- What is asked of a root: it is the first marked place from the start on, or the start itself if there
is none. -/
structure IsRootFor (fs : FileSystem) (start root : Path) : Prop where
  nearest : ∀ place, Nearest fs (fs.place start) place → fs.place root = place
  start : (∀ place, ¬ Nearest fs (fs.place start) place) → root = start

theorem exists_nearest (h : MarkedPlace fs other) (habove : other <+: here) : ∃ place, Nearest fs here place := by
  induction here using List.reverseRecOn with
  | nil =>
      rw [List.prefix_nil] at habove
      exact ⟨[], habove ▸ h, List.prefix_refl _, fun _ _ hplace => hplace⟩
  | append_singleton here name ih =>
      by_cases hhere : MarkedPlace fs (here ++ [name])
      · exact ⟨_, hhere, List.prefix_refl _, fun _ _ hplace => hplace⟩
      · have hup {place : List String} (hmarked : MarkedPlace fs place) (hplace : place <+: here ++ [name]) :
            place <+: here :=
          (List.prefix_concat_iff.mp hplace).resolve_left fun heq => hhere (heq ▸ hmarked)
        obtain ⟨place, hplace⟩ := ih (hup h habove)
        exact ⟨place, hplace.marked, hplace.above.trans (List.prefix_append _ _),
          fun other hmarked hother => hplace.nearest other hmarked (hup hmarked hother)⟩

theorem has_join_iff (hmark : mark ∈ rootMarks) (htaken : IsTaken (d.join ⟨mark⟩))
    (hdir : fs.root.walk [] (fs.route d) = .ok (.directory entries)) :
    fs.has (d.join ⟨mark⟩) ↔ ∃ e ∈ entries, e.1 = mark := by
  have hname : ∀ mark ∈ rootMarks, ¬ isVoid mark ∧ mark ≠ ".." ∧ mark.utf8ByteSize ≤ Host.maxNameSize := by decide
  obtain ⟨hvoid, hup, hsize⟩ := hname mark hmark
  have hslash := not_mem_slash_of_mem_rootMarks hmark
  obtain ⟨before, htrail, hfilter⟩ := fs.exists_trail_of_parts (Path.isAbsolute_join_name d hslash)
    (Path.exists_parts_join_name d hslash)
  rw [← hfilter, Host.walk_filter_eq_ok_directory_iff] at hdir
  rw [FileSystem.has_iff]
  simp only [FileSystem.lookUp_eq_ok_iff, htaken, true_and, htrail, Host.walk_append_name_iff hvoid hup, hdir]
  constructor
  · rintro ⟨t, entries', hentries, -, e, hfind, -⟩
    obtain rfl : entries = entries' := by simpa using hentries
    exact ⟨e, List.mem_of_find?_eq_some hfind, by simpa using List.find?_some hfind⟩
  · rintro ⟨e, he, hname⟩
    cases hfind : entries.find? (·.1 == mark) with
    | none => exact absurd (by simpa using hname) (List.find?_eq_none.mp hfind e he)
    | some e' => exact ⟨e'.2, entries, rfl, hsize, e', hfind, rfl⟩

/-- Where the marks of a path have room, so have those of the paths above it. -/
theorem isTaken_join (habove : IsAbove d start) (hstart : IsTaken start) (hmark : mark ∈ rootMarks)
    (hroom : (start.join ⟨mark⟩).text.utf8ByteSize ≤ maxPathSize) : IsTaken (d.join ⟨mark⟩) := by
  have hname : ¬ Path.isAbsolute ⟨mark⟩ := Path.not_isAbsolute_of_not_mem (not_mem_slash_of_mem_rootMarks hmark)
  have hfacts : ∀ mark ∈ rootMarks, '\x00' ∉ mark.toList ∧ mark.toList ≠ [] := by decide
  obtain ⟨hnul, hne⟩ := hfacts mark hmark
  have hnonempty (p : Path) : (p.join ⟨mark⟩).text ≠ "" := by
    rw [Ne, ← String.toList_eq_nil_iff, Path.toList_text_join hname]
    exact fun hnil => hne (List.append_eq_nil_iff.mp hnil).2
  have htaken : IsTaken (start.join ⟨mark⟩) := by
    refine ⟨?_, hnonempty start, hroom⟩
    rw [Path.toList_text_join hname, List.mem_append, not_or]
    refine ⟨fun hmem => ?_, hnul⟩
    unfold slashed at hmem
    split at hmem
    · exact hstart.noNul hmem
    · simp [hstart.noNul] at hmem
  refine htaken.of_sublist (hnonempty d) ?_
  rw [Path.toList_text_join hname, Path.toList_text_join hname]
  exact (Path.slashed_sublist habove.text).append_right _

theorem isMarked_iff (habove : IsAbove d start) (hdir : fs.lookUp start = .ok (.directory entries))
    (hroom : ∀ mark ∈ rootMarks, (start.join ⟨mark⟩).text.utf8ByteSize ≤ maxPathSize) :
    isMarked fs d ↔ MarkedPlace fs (fs.place d) := by
  obtain ⟨hstart, hwalk⟩ := FileSystem.lookUp_eq_ok_directory_iff.mp hdir
  have hroute : ∃ rest, fs.route start = fs.route d ++ rest := by
    obtain ⟨rest, hrest⟩ := habove.steps
    refine ⟨rest, ?_⟩
    rw [FileSystem.route_eq, FileSystem.route_eq, FileSystem.start, FileSystem.start, habove.isAbsolute,
      List.append_assoc]
    exact congrArg _ hrest.symm
  obtain ⟨rest, hrest⟩ := hroute
  rw [hrest] at hwalk
  obtain ⟨entries', hentries⟩ := Host.exists_walk_of_walk_append hwalk
  have hplace : fs.root.walk [] (fs.place d) = .ok (.directory entries') := by
    rw [FileSystem.route, Host.walk_filter_eq_ok_directory_iff] at hentries
    exact Host.walk_resolve hentries
  have hmarked : MarkedPlace fs (fs.place d) ↔ ∃ mark ∈ rootMarks, ∃ e ∈ entries', e.1 = mark := by
    simp [MarkedPlace, hplace]
  rw [hmarked, isMarked, List.any_eq_true]
  refine exists_congr fun mark => and_congr_right fun hmark => ?_
  exact has_join_iff hmark (isTaken_join habove hstart hmark (hroom mark hmark)) hentries

/-- The place that the first steps of a path lead to. -/
def passed (fs : FileSystem) (start : Path) (way : List String) : List String := resolve (fs.start start ++ way)

theorem place_of_isAbove (habove : IsAbove d start) : fs.place d = passed fs start d.steps := by
  rw [FileSystem.place_eq, FileSystem.start, habove.isAbsolute]
  rfl

theorem place_start (fs : FileSystem) (start : Path) : fs.place start = passed fs start start.steps :=
  place_of_isAbove (Path.isAbove_of_mem (.head _))

variable {before way rest : List String}

theorem passed_append (fs : FileSystem) (hway : before ++ rest <+: start.steps) (hplain : ".." ∉ rest) :
    passed fs start (before ++ rest) = passed fs start before ++ rest := by
  have hmeans : rest.filter (!isVoid ·) = rest := by
    refine List.filter_eq_self.mpr fun s hs => ?_
    have hmem : s ∈ start.steps := hway.subset (List.mem_append_right _ hs)
    exact (List.mem_filter.mp hmem).2
  rw [passed, ← List.append_assoc, Host.resolve_append_of_plain hplain, hmeans]
  rfl

/-- A beginning of a path leads to a marked place, and none that goes farther does. -/
structure LastMarked (fs : FileSystem) (start : Path) (way : List String) : Prop where
  begins : way <+: start.steps
  marked : MarkedPlace fs (passed fs start way)
  last : ∀ longer, longer <+: start.steps → way.length < longer.length → ¬ MarkedPlace fs (passed fs start longer)

section

variable (input : ByteArray) (hdir : fs.lookUp start = .ok (.directory entries))
  (hroom : ∀ mark ∈ rootMarks, (start.join ⟨mark⟩).text.utf8ByteSize ≤ maxPathSize)

include hdir hroom

theorem place_findRoot_of_lastMarked (h : LastMarked fs start way) :
    fs.place ((findRoot start).value (fs.answer input)) = passed fs start way := by
  obtain ⟨nearer, d, after, hsplit, hd, hnearer⟩ := Path.exists_split_above h.begins
  have habove (p : Path) (hp : p ∈ nearer ++ d :: after) : IsAbove p start := Path.isAbove_of_mem (hsplit ▸ hp)
  have hplace : fs.place d = passed fs start way := hd ▸ place_of_isAbove (habove d (by simp))
  have hfind : (start :: start.above).find? (isMarked fs) = some d := by
    refine find?_eq_some_iff_reached.mpr ⟨⟨nearer, after, hsplit, fun b hb => ?_⟩, ?_⟩
    · have hb' := habove b (List.mem_append_left _ hb)
      rw [isMarked_iff hb' hdir hroom, place_of_isAbove hb']
      exact h.last b.steps hb'.steps (hnearer b hb)
    · rw [isMarked_iff (habove d (by simp)) hdir hroom, hplace]
      exact h.marked
  rw [value_findRoot, hfind, Option.getD_some, hplace]

theorem findRoot_of_unmarked (h : ∀ way, way <+: start.steps → ¬ MarkedPlace fs (passed fs start way)) :
    (findRoot start).value (fs.answer input) = start := by
  have hfind : (start :: start.above).find? (isMarked fs) = none := by
    refine List.find?_eq_none.mpr fun d hd => ?_
    have habove : IsAbove d start := Path.isAbove_of_mem hd
    rw [isMarked_iff habove hdir hroom, place_of_isAbove habove]
    exact h d.steps habove.steps
  rw [value_findRoot, hfind, Option.getD_none]

end

theorem exists_lastMarked_of_nearest {place : List String} (hsteps : start.steps = before ++ rest)
    (hplain : ".." ∉ rest) (hnearest : Nearest fs (fs.place start) place)
    (hlimit : passed fs start before <+: place) :
    ∃ way, LastMarked fs start way ∧ passed fs start way = place := by
  have hwhole : before ++ rest <+: start.steps := hsteps ▸ List.prefix_refl _
  have hhere : fs.place start = passed fs start before ++ rest := by
    rw [place_start, hsteps, passed_append fs hwhole hplain]
  obtain ⟨down, rfl⟩ := hlimit
  have hdown : down <+: rest := by
    have habove := hnearest.above
    rwa [hhere, List.prefix_append_right_inj] at habove
  have hway : before ++ down <+: start.steps := hsteps ▸ (List.prefix_append_right_inj before).mpr hdown
  have hplace := passed_append fs hway fun hup => hplain (hdown.subset hup)
  refine ⟨before ++ down, ⟨hway, hplace ▸ hnearest.marked, fun longer hlonger hlength hmarked => ?_⟩, hplace⟩
  -- A longer beginning leads to somewhere between the nearest marked place and the start.
  obtain ⟨more, rfl⟩ := List.prefix_of_prefix_length_le hway hlonger hlength.le
  rw [List.append_assoc] at hlonger hmarked hlength
  have hmore : down ++ more <+: rest := by
    rwa [hsteps, List.prefix_append_right_inj] at hlonger
  rw [passed_append fs hlonger fun hup => hplain (hmore.subset hup)] at hmarked
  have hle := (hnearest.nearest _ hmarked (hhere ▸ (List.prefix_append_right_inj _).mpr hmore)).length_le
  simp only [List.length_append] at hle hlength
  omega

theorem isAbove_findRoot (fs : FileSystem) (input : ByteArray) (start : Path) :
    IsAbove ((findRoot start).value (fs.answer input)) start := by
  rw [value_findRoot]
  cases hfind : (start :: start.above).find? (isMarked fs) with
  | none => exact Path.isAbove_of_mem (.head _)
  | some d => exact Path.isAbove_of_mem (List.mem_of_find?_eq_some hfind)

theorem passed_prefix_of_plain (hway : way <+: start.steps) (hplain : ".." ∉ start.steps) :
    resolve (fs.start start) <+: passed fs start way ∧ passed fs start way <+: fs.place start := by
  have hbase : passed fs start [] = resolve (fs.start start) := by rw [passed, List.append_nil]
  have hdown {way : List String} (hway : way <+: start.steps) :
      passed fs start way = resolve (fs.start start) ++ way := by
    have hnil : [] ++ way <+: start.steps := hway
    rw [← hbase]
    exact passed_append fs hnil fun hup => hplain (hway.subset hup)
  rw [place_start, hdown hway, hdown (List.prefix_refl _), List.prefix_append_right_inj]
  exact ⟨List.prefix_append _ _, hway⟩

/-- The search for a root goes back along the path, to the last marked place that it has passed. This is the
nearest marked directory as long as going back is going up: not beyond the last step up in the path, and
not out of the working directory if the path starts there. -/
theorem findRoot_nearest (input : ByteArray) (hdir : fs.lookUp start = .ok (.directory entries))
    (hroom : ∀ mark ∈ rootMarks, (start.join ⟨mark⟩).text.utf8ByteSize ≤ maxPathSize) :
    let root := (findRoot start).value (fs.answer input)
    fs.root.walk [] (fs.place start) = .ok (.directory entries) ∧
    (∀ way, LastMarked fs start way → fs.place root = passed fs start way) ∧
    ((∀ way, way <+: start.steps → ¬ MarkedPlace fs (passed fs start way)) → root = start) ∧
    (∀ before rest, start.steps = before ++ rest → ".." ∉ rest → ∀ place, Nearest fs (fs.place start) place →
      passed fs start before <+: place → fs.place root = place) ∧
    (".." ∉ start.steps → (IsRootFor fs start root ↔
      ∀ place, Nearest fs (fs.place start) place → resolve (fs.start start) <+: place)) := by
  intro root
  have hnearest (before rest : List String) (hsteps : start.steps = before ++ rest) (hplain : ".." ∉ rest)
      (place : List String) (hplace : Nearest fs (fs.place start) place)
      (hlimit : passed fs start before <+: place) : fs.place root = place := by
    obtain ⟨way, hway, rfl⟩ := exists_lastMarked_of_nearest hsteps hplain hplace hlimit
    exact place_findRoot_of_lastMarked input hdir hroom hway
  refine ⟨Host.walk_resolve (FileSystem.lookUp_eq_ok_iff.mp hdir).2,
    fun way => place_findRoot_of_lastMarked input hdir hroom, findRoot_of_unmarked input hdir hroom, hnearest,
    fun hplain => ⟨fun hroot place hplace => ?_, fun hlimit => ⟨fun place hplace => ?_, fun hnone => ?_⟩⟩⟩
  · have habove := isAbove_findRoot fs input start
    rw [← hroot.nearest place hplace, place_of_isAbove habove]
    exact (passed_prefix_of_plain habove.steps hplain).1
  · have hbase : passed fs start [] <+: place := by
      rw [passed, List.append_nil]
      exact hlimit place hplace
    exact hnearest [] start.steps rfl hplain place hplace hbase
  · refine findRoot_of_unmarked input hdir hroom fun way hway hmarked => ?_
    obtain ⟨place, hplace⟩ := exists_nearest hmarked (passed_prefix_of_plain hway hplain).2
    exact hnone place hplace

def sampleClone : FileSystem :=
  ⟨.directory [("a", .directory [(".git", .directory []), ("b", .directory [])])], []⟩

theorem lookUp_sampleClone : sampleClone.lookUp ⟨"a/b"⟩ = .ok (.directory []) := by
  have htrail : sampleClone.trail ⟨"a/b"⟩ = ["a", "b"] := by decide +kernel
  rw [FileSystem.lookUp_eq, if_neg (by decide), if_neg (by decide), if_neg (by decide), htrail]
  rfl

theorem nearest_sampleClone : Nearest sampleClone ["a", "b"] ["a"] := by
  refine ⟨⟨_, rfl, ".git", by decide, _, .head _, rfl⟩, by decide, fun other hmarked hother => ?_⟩
  have hcases : other = ["a"] ++ ["b"] ∨ other <+: ["a"] := List.prefix_concat_iff.mp hother
  refine hcases.resolve_left ?_
  rintro rfl
  obtain ⟨entries, hwalk, mark, -, e, he, -⟩ := hmarked
  obtain rfl : [] = entries := FileTree.directory.inj (Except.ok.inj hwalk)
  contradiction

theorem findRoot_nearest_sample : sampleClone.place ⟨"a/b"⟩ = ["a", "b"] ∧ Nearest sampleClone ["a", "b"] ["a"] ∧
    sampleClone.place ((findRoot ⟨"a/b"⟩).value (sampleClone.answer .empty)) = ["a"] := by
  have hplace : sampleClone.place ⟨"a/b"⟩ = ["a", "b"] := by decide +kernel
  have hroom : ∀ mark ∈ rootMarks, (Path.join ⟨"a/b"⟩ ⟨mark⟩).text.utf8ByteSize ≤ maxPathSize := by decide +kernel
  obtain ⟨-, -, -, hnearest, -⟩ := findRoot_nearest .empty lookUp_sampleClone hroom
  refine ⟨hplace, nearest_sampleClone, ?_⟩
  exact hnearest [] ["a", "b"] (by decide +kernel) (by decide) ["a"] (hplace ▸ nearest_sampleClone) (by decide +kernel)

def sampleNested : FileSystem := ⟨.directory [("a", .directory [("pushcheck.toml", .file .empty)])], []⟩

theorem lookUp_sampleNested : sampleNested.lookUp ⟨"a/.."⟩ = .ok sampleNested.root := by
  have htrail : sampleNested.trail ⟨"a/.."⟩ = ["a", ".."] := by decide +kernel
  rw [FileSystem.lookUp_eq, if_neg (by decide), if_neg (by decide), if_neg (by decide), htrail]
  rfl

theorem not_markedPlace_sampleNested : ¬ MarkedPlace sampleNested [] := by
  rintro ⟨entries, hwalk, mark, hmark, e, he, rfl⟩
  obtain rfl := FileTree.directory.inj (Except.ok.inj hwalk)
  obtain rfl := List.mem_singleton.mp he
  exact absurd hmark (by decide)

theorem lastMarked_sampleNested : LastMarked sampleNested ⟨"a/.."⟩ ["a"] := by
  have hsteps : Path.steps ⟨"a/.."⟩ = ["a", ".."] := by decide +kernel
  have hplace : passed sampleNested ⟨"a/.."⟩ ["a"] = ["a"] := by decide +kernel
  refine ⟨hsteps ▸ by decide, hplace ▸ ⟨_, rfl, "pushcheck.toml", by decide, _, .head _, rfl⟩, ?_⟩
  intro longer hlonger hlength
  rw [hsteps] at hlonger
  have hcases : longer = ["a"] ++ [".."] ∨ longer <+: ["a"] := List.prefix_concat_iff.mp hlonger
  have hwhole : passed sampleNested ⟨"a/.."⟩ ["a", ".."] = [] := by decide +kernel
  obtain rfl := hcases.resolve_right fun hshort => Nat.not_le_of_lt hlength hshort.length_le
  exact hwhole ▸ not_markedPlace_sampleNested

/-- Behind a step up, going back along the path is going down: no directory at the start or over it is
marked, but the one that the path has come out of is. -/
theorem findRoot_below_start : (∃ entries, sampleNested.lookUp ⟨"a/.."⟩ = .ok (.directory entries)) ∧
    (∀ place, ¬ Nearest sampleNested (sampleNested.place ⟨"a/.."⟩) place) ∧
    sampleNested.place ((findRoot ⟨"a/.."⟩).value (sampleNested.answer .empty)) = ["a"] ∧
    ¬ IsRootFor sampleNested ⟨"a/.."⟩ ((findRoot ⟨"a/.."⟩).value (sampleNested.answer .empty)) := by
  have hstart : sampleNested.place ⟨"a/.."⟩ = [] := by decide +kernel
  have hroom : ∀ mark ∈ rootMarks, (Path.join ⟨"a/.."⟩ ⟨mark⟩).text.utf8ByteSize ≤ maxPathSize := by decide +kernel
  have hnone : ∀ place, ¬ Nearest sampleNested (sampleNested.place ⟨"a/.."⟩) place := by
    rw [hstart]
    intro place hplace
    exact not_markedPlace_sampleNested (List.prefix_nil.mp hplace.above ▸ hplace.marked)
  have hroot := place_findRoot_of_lastMarked .empty lookUp_sampleNested hroom lastMarked_sampleNested
  have hplace : passed sampleNested ⟨"a/.."⟩ ["a"] = ["a"] := by decide +kernel
  rw [hplace] at hroot
  refine ⟨⟨_, lookUp_sampleNested⟩, hnone, hroot, fun hasked => ?_⟩
  rw [hasked.start hnone, hstart] at hroot
  contradiction

end PushAudit.Config
