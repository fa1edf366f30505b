import Mathlib.Data.List.Forall2
import PushAudit.Proofs.Diff.Matched
import PushAudit.Proofs.Glob.Once
import PushAudit.Proofs.Path.Components

namespace PushAudit.Diff

open Attempt (result)
open Glob (ListsOnce SameFiles)
open Host (FileSystem contentAt inputContent kindAt)

section

variable {α : Type} {answer : (q : Host.Question) → Host.Answer q} {read : α → Attempt (List Fragment)}
  {as : List α}

theorem gather_ok_iff {fs : List Fragment} : result answer (gather read as) = .ok fs ↔
    ∃ parts, List.Forall₂ (fun a part => result answer (read a) = .ok part) as parts ∧ fs = parts.flatten := by
  induction as generalizing fs with
  | nil =>
      simp only [List.forall₂_nil_left_iff, exists_eq_left, List.flatten_nil]
      exact ⟨fun h => (Except.ok.inj h).symm, fun h => h ▸ rfl⟩
  | cons a as ih =>
      rw [gather_cons, Attempt.result_bind]
      cases hread : result answer (read a) with
      | error why => simp [Except.bind, List.forall₂_cons_left_iff, hread]
      | ok part =>
          simp only [Except.bind, Attempt.result_map]
          constructor
          · intro h
            cases hrest : result answer (gather read as) with
            | error why =>
                rw [hrest] at h
                contradiction
            | ok rest =>
                rw [hrest] at h
                obtain ⟨parts, hparts, rfl⟩ := ih.mp hrest
                exact ⟨part :: parts, .cons hread hparts, (Except.ok.inj h).symm⟩
          · rintro ⟨_, hparts, rfl⟩
            cases hparts with
            | @cons a part' as parts hfirst hparts =>
                cases hread.symm.trans hfirst
                rw [ih.mpr ⟨parts, hparts, rfl⟩]
                rfl

theorem gather_error_iff {why : Failure} : result answer (gather read as) = .error why ↔
    ∃ before a after, as = before ++ a :: after ∧ (∀ b ∈ before, ∃ part, result answer (read b) = .ok part) ∧
      result answer (read a) = .error why := by
  induction as with
  | nil => simp [gather]
  | cons a as ih =>
      rw [gather_cons, Attempt.result_bind]
      cases hread : result answer (read a) with
      | error why' =>
          simp only [Except.bind]
          constructor
          · intro h
            exact ⟨[], a, as, rfl, List.forall_mem_nil _, hread.trans h⟩
          · rintro ⟨_ | ⟨b, before⟩, a', after, heq, hbefore, ha'⟩
            · cases heq
              exact hread.symm.trans ha'
            · cases heq
              obtain ⟨part, hpart⟩ := hbefore a (.head _)
              rw [hread] at hpart
              contradiction
      | ok part =>
          simp only [Except.bind, Attempt.result_map]
          have hmap : (result answer (gather read as)).map (part ++ ·) = .error why ↔
              result answer (gather read as) = .error why := by
            cases result answer (gather read as) <;> simp [Except.map]
          rw [hmap, ih]
          constructor
          · rintro ⟨before, a', after, rfl, hbefore, ha'⟩
            exact ⟨a :: before, a', after, rfl, List.forall_mem_cons.mpr ⟨⟨part, hread⟩, hbefore⟩, ha'⟩
          · rintro ⟨_ | ⟨b, before⟩, a', after, heq, hbefore, ha'⟩
            · cases heq
              rw [hread] at ha'
              contradiction
            · cases heq
              exact ⟨before, a', after, rfl, fun b hb => hbefore b (.tail _ hb), ha'⟩

end

inductive Faulty : Except Host.Fault ByteArray → Host.Fault → Prop
  | unread (why : Host.Fault) : Faulty (.error why) why
  | notUtf8 {bytes : ByteArray} (h : ¬ bytes.IsValidUTF8) : Faulty (.ok bytes) .notUtf8

theorem bind_decode_eq_error_iff {content : Except Host.Fault ByteArray} {why : Host.Fault} :
    content.bind Host.decode = .error why ↔ Faulty content why := by
  constructor
  · intro h
    cases content with
    | error fault => exact Except.error.inj h ▸ .unread fault
    | ok bytes =>
        by_cases hvalid : bytes.IsValidUTF8
        · rw [Except.bind, Host.decode_of_valid hvalid] at h
          contradiction
        · rw [Except.bind, Host.decode_of_not_valid hvalid] at h
          exact Except.error.inj h ▸ .notUtf8 hvalid
  · rintro (_ | h)
    · rfl
    · exact Host.decode_of_not_valid h

/-- What a diff without headers goes by: the given name, else the file's path from the root, else its path. -/
inductive IsFallback (root p : Path) : Option String → String → Prop
  | given (name : String) : IsFallback root p (some name) name
  | below {q : Path} (h : p.components = root.components ++ q.components) (htext : q.text.toList <:+: p.text.toList) :
      IsFallback root p none q.text
  | elsewhere (h : ¬ root.components <+: p.components) : IsFallback root p none p.text

theorem isFallback_fallback (root : Path) (name : Option String) (p : Path) :
    IsFallback root p name (fallback root name p) := by
  cases name with
  | some name => exact .given name
  | none =>
      cases h : p.relativeTo? root with
      | none =>
          have htext : fallback root none p = p.text := by simp [fallback, h]
          exact htext ▸ .elsewhere (Path.relativeTo?_eq_none_iff.mp h)
      | some q =>
          have htext : fallback root none p = q.text := by simp [fallback, h]
          obtain ⟨hcomponents, hspelled⟩ := Path.components_of_relativeTo? h
          exact htext ▸ .below hcomponents hspelled

variable {answer answer' : (q : Host.Question) → Host.Answer q} {root p : Path} {name : Option String}
  {pattern : String} {g : Glob.Pattern}

def filesOf (answer : (q : Host.Question) → Host.Answer q) (g : Glob.Pattern) : List Path :=
  Path.sort ((g.expand.value answer).filter fun p => kindAt answer p == some .file)

def LoadsFile (answer : (q : Host.Question) → Host.Answer q) (root : Path) (name : Option String) (p : Path)
    (part : List Fragment) : Prop :=
  ∃ text, contentAt answer p = .ok text.toUTF8 ∧ part = fragments text (fallback root name p)

/-- What all files of a pattern hold, one after the other. -/
inductive Loads (answer : (q : Host.Question) → Host.Answer q) (root : Path) (name : Option String)
    (pattern : String) : List Fragment → Prop
  | intro {g : Glob.Pattern} {parts : List (List Fragment)}
      (hread : Glob.Pattern.read (root.join ⟨pattern⟩).text = .ok g) (hfiles : filesOf answer g ≠ [])
      (hparts : List.Forall₂ (LoadsFile answer root name) (filesOf answer g) parts) :
      Loads answer root name pattern parts.flatten

/-- Why a pattern cannot be loaded. Of the files the first one that is no text counts. -/
inductive Rejects (answer : (q : Host.Question) → Host.Answer q) (root : Path) (pattern : String) : Failure → Prop
  | badPattern {why : Glob.Error} (hread : Glob.Pattern.read (root.join ⟨pattern⟩).text = .error why) :
      Rejects answer root pattern (.badPattern pattern why)
  | noMatch {g : Glob.Pattern} (hread : Glob.Pattern.read (root.join ⟨pattern⟩).text = .ok g)
      (hfiles : filesOf answer g = []) : Rejects answer root pattern (.noMatch pattern)
  | unreadable {g : Glob.Pattern} {before after : List Path} {p : Path} {why : Host.Fault}
      (hread : Glob.Pattern.read (root.join ⟨pattern⟩).text = .ok g) (hfiles : filesOf answer g = before ++ p :: after)
      (hbefore : ∀ q ∈ before, ∃ text : String, contentAt answer q = .ok text.toUTF8)
      (hp : Faulty (contentAt answer p) why) : Rejects answer root pattern (.unreadable p why)

theorem result_ofFile (answer : (q : Host.Question) → Host.Answer q) (root : Path) (name : Option String) (p : Path) :
    result answer (ofFile root name p) = match (contentAt answer p).bind Host.decode with
      | .error why => .error (.unreadable p why)
      | .ok text => .ok (fragments text (fallback root name p)) := by
  rw [ofFile, Attempt.result_bind, Attempt.result_lift, Except.bind, Host.value_readText]
  cases (contentAt answer p).bind Host.decode <;> rfl

theorem ofFile_ok_iff {part : List Fragment} :
    result answer (ofFile root name p) = .ok part ↔ LoadsFile answer root name p part := by
  simp only [LoadsFile, result_ofFile, ← Host.bind_decode_eq_ok_iff]
  cases (contentAt answer p).bind Host.decode with
  | error why => simp
  | ok text => simp [eq_comm]

theorem ofFile_error_iff {why : Failure} : result answer (ofFile root name p) = .error why ↔
    ∃ fault, Faulty (contentAt answer p) fault ∧ why = .unreadable p fault := by
  simp only [result_ofFile, ← bind_decode_eq_error_iff]
  cases (contentAt answer p).bind Host.decode with
  | error why => simp [eq_comm]
  | ok text => simp

theorem exists_loadsFile_iff : (∃ part, LoadsFile answer root name p part) ↔
    ∃ text : String, contentAt answer p = .ok text.toUTF8 :=
  ⟨fun ⟨_, text, h, _⟩ => ⟨text, h⟩, fun ⟨text, h⟩ => ⟨_, text, h, rfl⟩⟩

theorem result_ofPattern (answer : (q : Host.Question) → Host.Answer q) (root : Path) (name : Option String)
    (pattern : String) : result answer (ofPattern root name pattern) =
      match Glob.Pattern.read (root.join ⟨pattern⟩).text with
      | .error why => .error (.badPattern pattern why)
      | .ok g => if filesOf answer g = [] then .error (.noMatch pattern)
        else result answer (gather (ofFile root name) (filesOf answer g)) := by
  rw [ofPattern, Attempt.result_bind]
  cases hread : Glob.Pattern.read (root.join ⟨pattern⟩).text with
  | error why =>
      rw [matchedFiles, hread]
      rfl
  | ok g =>
      have hempty : filesOf answer g = [] ↔
          ((g.expand.value answer).filter fun p => kindAt answer p == some .file).isEmpty := by
        rw [List.isEmpty_iff, ← List.length_eq_zero_iff, ← List.length_eq_zero_iff, filesOf,
          (Path.sort_perm _).length_eq]
      simp only [result_matchedFiles answer hread, hempty]
      split <;> rfl

theorem ofPattern_ok_iff {fs : List Fragment} :
    result answer (ofPattern root name pattern) = .ok fs ↔ Loads answer root name pattern fs := by
  rw [result_ofPattern]
  constructor
  · intro h
    split at h
    · contradiction
    · next g hread =>
        split at h
        · contradiction
        · next hfiles =>
            obtain ⟨parts, hparts, rfl⟩ := gather_ok_iff.mp h
            exact .intro hread hfiles (by simpa only [ofFile_ok_iff] using hparts)
  · rintro ⟨hread, hfiles, hparts⟩
    rw [hread]
    simp only [if_neg hfiles]
    exact gather_ok_iff.mpr ⟨_, by simpa only [ofFile_ok_iff] using hparts, rfl⟩

theorem ofPattern_error_iff {why : Failure} :
    result answer (ofPattern root name pattern) = .error why ↔ Rejects answer root pattern why := by
  rw [result_ofPattern]
  constructor
  · intro h
    split at h
    · next hread => exact Except.error.inj h ▸ .badPattern hread
    · next g hread =>
        split at h
        · next hfiles => exact Except.error.inj h ▸ .noMatch hread hfiles
        · obtain ⟨before, p, after, hfiles, hbefore, hp⟩ := gather_error_iff.mp h
          obtain ⟨fault, hfault, rfl⟩ := ofFile_error_iff.mp hp
          simp only [ofFile_ok_iff, exists_loadsFile_iff] at hbefore
          exact .unreadable hread hfiles hbefore hfault
  · rintro (hread | ⟨hread, hfiles⟩ | ⟨hread, hfiles, hbefore, hp⟩)
    · rw [hread]
    · rw [hread]
      simp only [if_pos hfiles]
    · rw [hread]
      have hne := hfiles ▸ List.append_ne_nil_of_right_ne_nil _ (List.cons_ne_nil _ _)
      simp only [if_neg hne]
      refine gather_error_iff.mpr ⟨_, _, _, hfiles, ?_, ofFile_error_iff.mpr ⟨_, hp, rfl⟩⟩
      simpa only [ofFile_ok_iff, exists_loadsFile_iff] using hbefore

/-- The files of a pattern in the order of their components. Only a pattern with two runs of any number
of directories, or with wildcards after a dot, may lead to one of them more than once. -/
structure InOrder (answer : (q : Host.Question) → Host.Answer q) (g : Glob.Pattern) (files : List Path) : Prop where
  perm : files.Perm ((g.expand.value answer).filter fun p => kindAt answer p == some .file)
  sorted : files.Pairwise fun p q => (Path.order p q).isLE
  nodup : g.steps.count .anyDepth ≤ 1 → (∀ step ∈ g.steps, step.takesDots = false) → files.Nodup

theorem inOrder_filesOf (honce : ListsOnce answer) (hread : Glob.Pattern.read (root.join ⟨pattern⟩).text = .ok g) :
    InOrder answer g (filesOf answer g) where
  perm := Path.sort_perm _
  sorted := Path.pairwise_sort _
  nodup hcount hdots := by
    rw [filesOf, (Path.sort_perm _).nodup_iff]
    exact (Glob.nodup_expand honce hread hcount hdots).filter _

theorem filesOf_eq_of_sameFiles (h : SameFiles answer answer') (honce : ListsOnce answer) (g : Glob.Pattern) :
    filesOf answer g = filesOf answer' g := by
  have hexpand : g.expand.value answer = g.expand.value answer' := h.value_follow honce g.directoriesOnly g.steps _
  simp only [filesOf, hexpand, h.kind]

theorem gather_congr {α : Type} {read : α → Attempt (List Fragment)}
    (h : ∀ a, result answer (read a) = result answer' (read a)) (as : List α) :
    result answer (gather read as) = result answer' (gather read as) := by
  induction as with
  | nil => rfl
  | cons a as ih => simp only [gather_cons, Attempt.result_bind, Attempt.result_map, h, ih]

/-- What is loaded does not depend on the order in which directories are listed. -/
theorem result_ofPatterns_of_sameFiles (h : SameFiles answer answer') (honce : ListsOnce answer) (root : Path)
    (patterns : List String) (name : Option String) :
    result answer (ofPatterns root patterns name) = result answer' (ofPatterns root patterns name) := by
  refine gather_congr (fun pattern => ?_) patterns
  have hfile (p : Path) : result answer (ofFile root name p) = result answer' (ofFile root name p) := by
    simp only [result_ofFile, h.content]
  simp only [result_ofPattern, filesOf_eq_of_sameFiles h honce, gather_congr hfile]

/-- One source read in two ways: what it holds, or the same fault of the file and of the input. -/
inductive LoadedAlike (p : Path) : Except Failure (List Fragment) → Except Failure (List Fragment) → Prop
  | ok (fs : List Fragment) : LoadedAlike p (.ok fs) (.ok fs)
  | error (why : Host.Fault) : LoadedAlike p (.error (.unreadable p why)) (.error (.unreadable ⟨"<stdin>"⟩ why))

theorem result_ofInput (answer : (q : Host.Question) → Host.Answer q) (name : String) :
    result answer (ofInput name) = match (inputContent answer).bind Host.decode with
      | .error why => .error (.unreadable ⟨"<stdin>"⟩ why)
      | .ok text => .ok (fragments text name) := by
  rw [ofInput, Attempt.result_bind, Attempt.result_lift, Except.bind, Host.value_inputText]
  cases (inputContent answer).bind Host.decode <;> rfl

theorem loadedAlike_ofInput {n : String} (hread : Glob.Pattern.read (root.join ⟨pattern⟩).text = .ok g)
    (hfiles : filesOf answer g = [p]) (hinput : inputContent answer' = contentAt answer p) :
    LoadedAlike p (result answer (ofPatterns root [pattern] (some n))) (result answer' (ofInput n)) := by
  have hfile : result answer (ofPatterns root [pattern] (some n)) = result answer (ofFile root (some n) p) := by
    rw [ofPatterns, gather_singleton, result_ofPattern, hread]
    simp only [hfiles, List.cons_ne_nil, if_false, gather_singleton]
  rw [hfile, result_ofFile, result_ofInput, hinput]
  cases (contentAt answer p).bind Host.decode with
  | error why => exact .error why
  | ok text => exact .ok _

/-- Patterns are loaded all or not at all: either every file that one of them leads to is split, pattern
by pattern and in the order of the files, or the first pattern that cannot be loaded says why. Of the
order in which directories are listed nothing depends. -/
theorem ofPatterns_all_or_nothing (fs : FileSystem) (input : ByteArray) (root : Path) (name : Option String)
    (patterns : List String) :
    let answer := fs.answer input
    let loaded := result answer (ofPatterns root patterns name)
    (∀ found, loaded = .ok found ↔
      ∃ parts, List.Forall₂ (Loads answer root name) patterns parts ∧ found = parts.flatten) ∧
    (∀ why, loaded = .error why ↔ ∃ before pattern after, patterns = before ++ pattern :: after ∧
      (∀ p ∈ before, ∃ part, Loads answer root name p part) ∧ Rejects answer root pattern why) ∧
    (∀ answer', SameFiles answer answer' → result answer' (ofPatterns root patterns name) = loaded) ∧
    (Glob.IsLiteral root.text.toList → ∀ pattern,
      (∃ g, Glob.Pattern.read (root.join ⟨pattern⟩).text = .ok g) ↔ ∃ g, Glob.Pattern.read pattern = .ok g) ∧
    (∀ pattern g, Glob.Pattern.read (root.join ⟨pattern⟩).text = .ok g → InOrder answer g (filesOf answer g)) ∧
    (∀ p, IsFallback root p name (fallback root name p)) ∧
    ∀ n pattern g p answer', name = some n → patterns = [pattern] →
      Glob.Pattern.read (root.join ⟨pattern⟩).text = .ok g → filesOf answer g = [p] →
      inputContent answer' = contentAt answer p → LoadedAlike p loaded (result answer' (ofInput n)) := by
  intro answer loaded
  have honce : ListsOnce answer := Glob.listsOnce_answer fs input
  refine ⟨fun found => ?_, fun why => ?_,
    fun answer' h => (result_ofPatterns_of_sameFiles h honce root patterns name).symm,
    fun hroot => Glob.read_join_ok_iff hroot, fun pattern g hread => inOrder_filesOf honce hread,
    isFallback_fallback root name, ?_⟩
  · have h : loaded = .ok found ↔ _ := gather_ok_iff
    simpa only [ofPattern_ok_iff] using h
  · have h : loaded = .error why ↔ _ := gather_error_iff
    simpa only [ofPattern_ok_iff, ofPattern_error_iff] using h
  · rintro n pattern g p answer' rfl rfl hread hfiles hinput
    exact loadedAlike_ofInput hread hfiles hinput

section

open Host (FileTree IsTaken isName)

theorem lookUp_of_trail {fs : FileSystem} {segments : List String} (hp : IsTaken p)
    (htrail : fs.trail p = segments) : fs.lookUp p = fs.root.walk [] segments := by
  rw [FileSystem.lookUp_of_isTaken hp, htrail]

def diffs : List (String × FileTree) := [("1.diff", .file "+x\n".toUTF8), ("2.diff", .file "+y\n".toUTF8)]

def shelf : FileSystem := ⟨.directory [("p", .directory diffs)], []⟩

def starDiff : List Glob.Token := "*.diff".toList.map Glob.Token.ofChar

def shelfPattern : Glob.Pattern := ⟨false, [.name "p", .matching starDiff], false⟩

theorem read_shelf : Glob.Pattern.read ((⟨"p"⟩ : Path).join ⟨"*.diff"⟩).text = .ok shelfPattern :=
  Glob.read_eq_of_toOption (by decide +kernel)

theorem lookUp_shelf : shelf.lookUp ⟨"p"⟩ = .ok (.directory diffs) := by
  rw [lookUp_of_trail ⟨by decide, by decide, by decide⟩ (by decide : shelf.trail ⟨"p"⟩ = ["p"])]
  rfl

theorem lookUp_shelf_first : shelf.lookUp ⟨"p/1.diff"⟩ = .ok (.file "+x\n".toUTF8) := by
  rw [lookUp_of_trail ⟨by decide, by decide, by decide⟩
    (by decide : shelf.trail ⟨"p/1.diff"⟩ = ["p", "1.diff"])]
  rfl

theorem lookUp_shelf_second : shelf.lookUp ⟨"p/2.diff"⟩ = .ok (.file "+y\n".toUTF8) := by
  rw [lookUp_of_trail ⟨by decide, by decide, by decide⟩
    (by decide : shelf.trail ⟨"p/2.diff"⟩ = ["p", "2.diff"])]
  rfl

theorem chosen_shelf : Glob.chosen starDiff [("1.diff", false), ("2.diff", false)] = ["1.diff", "2.diff"] := by
  have hfits : ["1.diff", "2.diff"].filter (Glob.Step.matching starDiff).fits = ["1.diff", "2.diff"] := by
    decide
  have hsorted : ["1.diff", "2.diff"].mergeSort (fun a b => a ≤ b) = ["1.diff", "2.diff"] :=
    List.mergeSort_of_pairwise (by decide)
  exact (congrArg (·.mergeSort fun a b => a ≤ b) hfits).trans hsorted

theorem filesOf_shelf : filesOf (shelf.answer .empty) shelfPattern = [⟨"p/1.diff"⟩, ⟨"p/2.diff"⟩] := by
  have hkind : kindAt (shelf.answer .empty) ⟨"p/1.diff"⟩ = some .file ∧
      kindAt (shelf.answer .empty) ⟨"p/2.diff"⟩ = some .file :=
    ⟨Glob.kindAt_of_lookUp lookUp_shelf_first, Glob.kindAt_of_lookUp lookUp_shelf_second⟩
  have hextend : Glob.extend ⟨"."⟩ "p" = ⟨"p"⟩ ∧ Glob.extend ⟨"p"⟩ "1.diff" = ⟨"p/1.diff"⟩ ∧
      Glob.extend ⟨"p"⟩ "2.diff" = ⟨"p/2.diff"⟩ := by decide
  have hthere : Glob.isThere (shelf.answer .empty) ⟨"."⟩ "p" := by
    rw [Glob.isThere, if_neg (by decide), hextend.1, Glob.kindAt_of_lookUp lookUp_shelf]
    rfl
  have hlisted : Glob.entriesAt (shelf.answer .empty) ⟨"p"⟩ = some [("1.diff", false), ("2.diff", false)] := by
    have hnames : isName "1.diff" ∧ isName "2.diff" := by
      rw [Glob.isName_iff, Glob.isName_iff]
      decide
    have hdistinct : FileTree.distinct diffs = diffs := by simp [diffs, FileTree.distinct, hnames]
    rw [Glob.entriesAt_of_directory lookUp_shelf, hdistinct]
    rfl
  have hfound : shelfPattern.expand.value (shelf.answer .empty) = [⟨"p/1.diff"⟩, ⟨"p/2.diff"⟩] := by
    have hfollow : shelfPattern.expand.value (shelf.answer .empty) =
        (Glob.follow false [.name "p", .matching starDiff] ⟨"."⟩).value (shelf.answer .empty) := rfl
    rw [hfollow, Glob.value_follow_name, if_pos hthere, hextend.1, Glob.value_follow_matching, hlisted,
      Glob.dots_eq_nil (by decide)]
    simp [chosen_shelf, hextend, Glob.value_follow_nil]
  have hsorted : Path.sort [⟨"p/1.diff"⟩, ⟨"p/2.diff"⟩] = [⟨"p/1.diff"⟩, ⟨"p/2.diff"⟩] :=
    List.mergeSort_of_pairwise (by decide)
  rw [filesOf, hfound]
  simpa [hkind] using hsorted

theorem ofPatterns_all_or_nothing_backwards :
    result (Glob.backwards (shelf.answer .empty)) (ofPatterns ⟨"p"⟩ ["*.diff"] none) =
      .ok [⟨"1.diff", "+x\n"⟩, ⟨"2.diff", "+y\n"⟩] := by
  obtain ⟨hok, -, hlisted, -⟩ :=
    ofPatterns_all_or_nothing shelf .empty ⟨"p"⟩ none ["*.diff"]
  have hloads : Loads (shelf.answer .empty) ⟨"p"⟩ none "*.diff" [⟨"1.diff", "+x\n"⟩, ⟨"2.diff", "+y\n"⟩] := by
    change Loads _ _ _ _ [[⟨"1.diff", "+x\n"⟩], [⟨"2.diff", "+y\n"⟩]].flatten
    refine .intro read_shelf ?_ ?_
    · rw [filesOf_shelf]
      exact List.cons_ne_nil _ _
    · rw [filesOf_shelf]
      refine .cons ⟨"+x\n", FileSystem.read_of_file lookUp_shelf_first, by decide⟩ (.cons ?_ .nil)
      exact ⟨"+y\n", FileSystem.read_of_file lookUp_shelf_second, by decide⟩
  exact (hlisted _ (Glob.sameFiles_backwards _)).trans ((hok _).mpr ⟨[_], .cons hloads .nil, rfl⟩)

def leaf : List (String × FileTree) := [("c.diff", .file "+x\n".toUTF8)]

def nested : FileSystem := ⟨.directory [("a", .directory [("b", .directory [("b", .directory leaf)])])], []⟩

def nestedPattern : Glob.Pattern :=
  ⟨false, [.name "a", .anyDepth, .name "b", .anyDepth, .name "c.diff"], false⟩

theorem read_nested : Glob.Pattern.read ((⟨"a"⟩ : Path).join ⟨"**/b/**/c.diff"⟩).text = .ok nestedPattern :=
  Glob.read_eq_of_toOption (by decide +kernel)

theorem lookUp_nested_top : nested.lookUp ⟨"a"⟩ = .ok (.directory [("b", .directory [("b", .directory leaf)])]) := by
  rw [lookUp_of_trail ⟨by decide, by decide, by decide⟩ (by decide : nested.trail ⟨"a"⟩ = ["a"])]
  rfl

theorem lookUp_nested_outer : nested.lookUp ⟨"a/b"⟩ = .ok (.directory [("b", .directory leaf)]) := by
  rw [lookUp_of_trail ⟨by decide, by decide, by decide⟩ (by decide : nested.trail ⟨"a/b"⟩ = ["a", "b"])]
  rfl

theorem lookUp_nested_inner : nested.lookUp ⟨"a/b/b"⟩ = .ok (.directory leaf) := by
  rw [lookUp_of_trail ⟨by decide, by decide, by decide⟩
    (by decide : nested.trail ⟨"a/b/b"⟩ = ["a", "b", "b"])]
  rfl

theorem lookUp_nested_file : nested.lookUp ⟨"a/b/b/c.diff"⟩ = .ok (.file "+x\n".toUTF8) := by
  rw [lookUp_of_trail ⟨by decide, by decide, by decide⟩
    (by decide : nested.trail ⟨"a/b/b/c.diff"⟩ = ["a", "b", "b", "c.diff"])]
  rfl

theorem listEntries_nested : FileTree.listEntries [] leaf = [.file "c.diff"] ∧
    FileTree.listEntries [] [("b", .directory leaf)] = [.directory "b" [.file "c.diff"]] ∧
    FileTree.listEntries [] [("b", .directory [("b", .directory leaf)])] =
      [.directory "b" [.directory "b" [.file "c.diff"]]] := by
  have hnames : isName "b" ∧ isName "c.diff" := by
    rw [Glob.isName_iff, Glob.isName_iff]
    decide
  have hleaf : FileTree.listEntries [] leaf = [.file "c.diff"] := by simp [leaf, FileTree.listEntries, hnames]
  simp [FileTree.listEntries, FileTree.listing, hnames, hleaf]

theorem extend_nested : Glob.extend ⟨"."⟩ "a" = ⟨"a"⟩ ∧ Glob.extend ⟨"a"⟩ "b" = ⟨"a/b"⟩ ∧
    Glob.extend ⟨"a/b"⟩ "b" = ⟨"a/b/b"⟩ ∧ Glob.extend ⟨"a/b/b"⟩ "c.diff" = ⟨"a/b/b/c.diff"⟩ := by decide

open Glob in
theorem found_nested :
    nestedPattern.expand.value (nested.answer .empty) = [⟨"a/b/b/c.diff"⟩, ⟨"a/b/b/c.diff"⟩] := by
  obtain ⟨hleaf, hinner, houter⟩ := listEntries_nested
  obtain ⟨ha, hb, hbb, hc⟩ := extend_nested
  have hfollow : nestedPattern.expand.value (nested.answer .empty) =
      (follow false nestedPattern.steps ⟨"."⟩).value (nested.answer .empty) := rfl
  have hthere : isThere (nested.answer .empty) ⟨"."⟩ "a" := by
    rw [isThere, if_neg (by decide), ha, kindAt_of_lookUp lookUp_nested_top]
    rfl
  rw [hfollow, nestedPattern, value_follow_name, if_pos hthere, ha, value_follow_anyDepth,
    subtreeAt_of_directory lookUp_nested_top, houter]
  simp [byName, sortEntries, sortListing, descend, descendEntry, visitAfter, listingName, Step.fits, hb, hbb, hc,
    value_follow_anyDepth, subtreeAt_of_directory lookUp_nested_outer, subtreeAt_of_directory lookUp_nested_inner,
    hinner, hleaf, value_follow_nil]

/-- A file that one pattern leads to in two ways is loaded twice. -/
theorem nested_file_loaded_twice :
    Glob.Pattern.read ((⟨"a"⟩ : Path).join ⟨"**/b/**/c.diff"⟩).text = .ok nestedPattern ∧
    (∀ x, x ∈ nestedPattern.expand.value (nested.answer .empty) ↔ x = ⟨"a/b/b/c.diff"⟩) ∧
    nested.lookUp ⟨"a/b/b/c.diff"⟩ = .ok (.file "+x\n".toUTF8) ∧
    fragments "+x\n" (fallback ⟨"a"⟩ none ⟨"a/b/b/c.diff"⟩) = [⟨"b/b/c.diff", "+x\n"⟩] ∧
    result (nested.answer .empty) (ofPatterns ⟨"a"⟩ ["**/b/**/c.diff"] none) =
      .ok [⟨"b/b/c.diff", "+x\n"⟩, ⟨"b/b/c.diff", "+x\n"⟩] := by
  have hsorted : Path.sort [⟨"a/b/b/c.diff"⟩, ⟨"a/b/b/c.diff"⟩] = [⟨"a/b/b/c.diff"⟩, ⟨"a/b/b/c.diff"⟩] :=
    List.mergeSort_of_pairwise (by decide)
  have hfiles : filesOf (nested.answer .empty) nestedPattern = [⟨"a/b/b/c.diff"⟩, ⟨"a/b/b/c.diff"⟩] := by
    rw [filesOf, found_nested]
    simpa [Glob.kindAt_of_lookUp lookUp_nested_file, FileTree.kind] using hsorted
  have hfile : LoadsFile (nested.answer .empty) ⟨"a"⟩ none ⟨"a/b/b/c.diff"⟩ [⟨"b/b/c.diff", "+x\n"⟩] :=
    ⟨"+x\n", FileSystem.read_of_file lookUp_nested_file, by decide⟩
  refine ⟨read_nested, by simp [found_nested], lookUp_nested_file, by decide, ?_⟩
  rw [ofPatterns, gather_singleton, ofPattern_ok_iff]
  change Loads _ _ _ _ [[⟨"b/b/c.diff", "+x\n"⟩], [⟨"b/b/c.diff", "+x\n"⟩]].flatten
  refine .intro read_nested ?_ ?_
  · rw [hfiles]
    exact List.cons_ne_nil _ _
  · rw [hfiles]
    exact .cons hfile (.cons hfile .nil)

end

end PushAudit.Diff
