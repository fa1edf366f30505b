import PushAudit.Proofs.Diff.Source
import PushAudit.Proofs.Glob.Root

namespace PushAudit.Diff

open Attempt (asked result)
open Glob (Fits IsKept IsLiteral IsPart IsSimple PassesDots)
open Host (FileSystem FileTree)

section

variable {α : Type} {read : α → Attempt (List Fragment)} {answer : (q : Host.Question) → Host.Answer q}
  {as : List α} {q : Host.Question}

theorem gather_cons (a : α) (as : List α) :
    gather read (a :: as) = read a >>= fun fs => (fs ++ ·) <$> gather read as := by
  simp [gather]

theorem exists_asked_of_gather (h : q ∈ asked answer (gather read as)) : ∃ a ∈ as, q ∈ asked answer (read a) := by
  induction as with
  | nil => simp [gather] at h
  | cons a as ih =>
      rw [gather_cons] at h
      cases hread : result answer (read a) with
      | error why =>
          rw [Attempt.asked_bind_of_error answer hread] at h
          exact ⟨a, .head _, h⟩
      | ok fs =>
          rw [Attempt.asked_bind_of_ok answer hread, Attempt.asked_map, List.mem_append] at h
          rcases h with h | h
          · exact ⟨a, .head _, h⟩
          · obtain ⟨b, hb, h⟩ := ih h
            exact ⟨b, .tail _ hb, h⟩

theorem asked_gather_of_head {a : α} (h : q ∈ asked answer (read a)) :
    q ∈ asked answer (gather read (a :: as)) := by
  rw [gather_cons]
  cases hread : result answer (read a) with
  | error why => rwa [Attempt.asked_bind_of_error answer hread]
  | ok fs =>
      rw [Attempt.asked_bind_of_ok answer hread, List.mem_append]
      exact .inl h

theorem asked_of_gather_ok {fs : List Fragment} (hr : result answer (gather read as) = .ok fs) {a : α}
    (ha : a ∈ as) (h : q ∈ asked answer (read a)) : q ∈ asked answer (gather read as) := by
  induction as generalizing fs with
  | nil => contradiction
  | cons b as ih =>
      rw [gather_cons, Attempt.result_bind] at hr
      cases hread : result answer (read b) with
      | error why =>
          rw [hread] at hr
          contradiction
      | ok gs =>
          simp only [hread, Except.bind, Attempt.result_map] at hr
          rw [gather_cons, Attempt.asked_bind_of_ok answer hread, Attempt.asked_map, List.mem_append]
          rcases List.mem_cons.mp ha with rfl | ha
          · exact .inl h
          · cases hrest : result answer (gather read as) with
            | error why =>
                rw [hrest] at hr
                contradiction
            | ok hs => exact .inr (ih hrest ha)

theorem exists_of_gather_error {why : Failure} (h : result answer (gather read as) = .error why) :
    ∃ a ∈ as, result answer (read a) = .error why := by
  induction as with
  | nil => contradiction
  | cons a as ih =>
      rw [gather_cons, Attempt.result_bind] at h
      cases hread : result answer (read a) with
      | error why' =>
          rw [hread] at h
          exact ⟨a, .head _, hread.trans h⟩
      | ok fs =>
          simp only [hread, Except.bind, Attempt.result_map] at h
          cases hrest : result answer (gather read as) with
          | error why' =>
              rw [hrest] at h
              obtain ⟨b, hb, hread⟩ := ih (hrest.trans h)
              exact ⟨b, .tail _ hb, hread⟩
          | ok gs =>
              rw [hrest] at h
              contradiction

end

section

variable {answer : (q : Host.Question) → Host.Answer q} {root p : Path} {name : Option String} {pattern : String}

theorem asked_ofFile : asked answer (ofFile root name p) = [.read p] := by
  have hread : (Host.readText p).asked answer = [.read p] := rfl
  rw [ofFile, Attempt.asked_bind_lift, hread]
  split <;> rfl

theorem exists_fault_of_ofFile {why : Failure} (h : result answer (ofFile root name p) = .error why) :
    ∃ fault, why = .unreadable p fault ∧ (Host.contentAt answer p).bind Host.decode = .error fault := by
  rw [ofFile, Attempt.result_bind, Attempt.result_lift, Except.bind, Host.value_readText] at h
  cases hcontent : (Host.contentAt answer p).bind Host.decode with
  | error fault =>
      rw [hcontent] at h
      exact ⟨fault, (Except.error.inj h).symm, rfl⟩
  | ok text =>
      rw [hcontent] at h
      contradiction

theorem read_not_mem_asked_matchedFiles (answer : (q : Host.Question) → Host.Answer q) {g : Glob.Pattern}
    (hread : Glob.Pattern.read (root.join ⟨pattern⟩).text = .ok g) (hdepth : .anyDepth ∉ g.steps)
    (p : Path) : Host.Question.read p ∉ asked answer (matchedFiles root pattern) := by
  have hfile (q : Path) : (Host.isFile q).asked answer = [.kind q] := rfl
  have hexpand : Host.Question.read p ∉ g.expand.asked answer := Glob.read_not_mem_asked_follow answer hdepth _ p
  rw [matchedFiles, hread]
  simp only [Attempt.asked_bind_lift, List.mem_append, hexpand, false_or]
  rw [Attempt.asked_bind_of_ok answer (Attempt.result_filterM answer _ _), Attempt.asked_filterM, List.mem_append]
  simp only [List.mem_flatMap, hfile]
  split <;> simp

theorem gather_singleton {α : Type} (read : α → Attempt (List Fragment)) (a : α) : gather read [a] = read a := by
  simp [gather]

theorem ofPattern_cases (answer : (q : Host.Question) → Host.Answer q) {g : Glob.Pattern}
    (hread : Glob.Pattern.read (root.join ⟨pattern⟩).text = .ok g) (hdepth : .anyDepth ∉ g.steps) (name : Option String) :
    ((∀ x ∈ g.expand.value answer, Host.kindAt answer x ≠ some .file) ∧
      result answer (ofPattern root name pattern) = .error (.noMatch pattern) ∧
      ∀ x, Host.Question.read x ∉ asked answer (ofPattern root name pattern)) ∨
    ∃ files, files ≠ [] ∧ (∀ x, x ∈ files ↔ x ∈ g.expand.value answer ∧ Host.kindAt answer x = some .file) ∧
      result answer (ofPattern root name pattern) = result answer (gather (ofFile root name) files) ∧
      ∀ x, Host.Question.read x ∈ asked answer (ofPattern root name pattern) ↔
        Host.Question.read x ∈ asked answer (gather (ofFile root name) files) := by
  have hfind := read_not_mem_asked_matchedFiles answer hread hdepth
  have hresult := result_matchedFiles answer hread
  cases hfiles : result answer (matchedFiles root pattern) with
  | error why =>
      simp only [hfiles] at hresult
      have hnone := (fails_matchedFiles_iff hread).mp ⟨why, hfiles⟩
      refine .inl ⟨hnone, ?_, fun x => ?_⟩
      · rw [ofPattern, Attempt.result_bind, hfiles]
        split at hresult
        · exact congrArg _ (Except.error.inj hresult)
        · contradiction
      · rw [ofPattern, Attempt.asked_bind_of_error answer hfiles]
        exact hfind x
  | ok files =>
      have hmem := mem_matchedFiles_iff hread hfiles
      refine .inr ⟨files, ?_, hmem, ?_, fun x => ?_⟩
      · rintro rfl
        have hfails := (fails_matchedFiles_iff hread).mpr fun x hx hkind =>
          List.not_mem_nil ((hmem x).mpr ⟨hx, hkind⟩)
        exact (Attempt.not_fails_iff answer _).mpr ⟨_, hfiles⟩ hfails
      · rw [ofPattern, Attempt.result_bind, hfiles]
        rfl
      · rw [ofPattern, Attempt.asked_bind_of_ok answer hfiles, List.mem_append, or_iff_right (hfind x)]

end

/-- A pattern built of plain names and stars. -/
structure IsRelative (pattern : String) : Prop where
  simple : IsSimple pattern.toList
  parts : ∀ s ∈ pattern.toList.splitOn '/', IsPart s

/-- A file below a root, under names that fit the pattern one by one. -/
inductive Matched (fs : FileSystem) (root : Path) (pattern : String) (x : Path) : Prop
  | intro {names : List String} {content : ByteArray} (hnames : ∀ name ∈ names, Host.isName name)
      (hfits : List.Forall₂ (fun s name => Fits s name.toList) (pattern.toList.splitOn '/') names)
      (hpath : x = Glob.under (Glob.base root) names) (hplace : fs.names x = fs.names root ++ names)
      (hfile : fs.lookUp x = .ok (.file content))

variable {fs : FileSystem} {input : ByteArray} {root x : Path} {name : Option String} {pattern : String}
  {entries : List (String × FileTree)}

theorem IsRelative.not_mem_nil (h : IsRelative pattern) : [] ∉ pattern.toList.splitOn '/' :=
  fun hnil => (h.parts [] hnil).nonempty rfl

/-- What a pattern is read as under a root that has no meaning of its own. -/
def patternUnder (root : Path) (pattern : String) : Glob.Pattern :=
  ⟨root.isAbsolute,
    (Glob.rootNames root).map .name ++ (pattern.toList.splitOn '/').map Glob.Step.ofComponent, false⟩

theorem anyDepth_not_mem_patternUnder : .anyDepth ∉ (patternUnder root pattern).steps := by
  simp [patternUnder, Glob.ofComponent_ne_anyDepth]

theorem matched_iff (input : ByteArray) (hdir : fs.lookUp root = .ok (.directory entries)) (hkept : IsKept root)
    (hpattern : IsRelative pattern)
    (hdots : ∀ s ∈ (pattern.toList.splitOn '/').dropLast, PassesDots s) (x : Path) :
    Matched fs root pattern x ↔ x ∈ (patternUnder root pattern).expand.value (fs.answer input) ∧
      Host.kindAt (fs.answer input) x = some .file := by
  have hne := (FileSystem.lookUp_eq_ok_iff.mp hdir).1.nonempty
  have hleads := Glob.leads_base hne hkept
  have hfound : (patternUnder root pattern).expand.value (fs.answer input) =
      Glob.found fs input (patternUnder root pattern).steps ⟨if root.isAbsolute then "/" else "."⟩ := rfl
  rw [FileSystem.kindAt_eq_file_iff, hfound, patternUnder,
    Glob.mem_found_names_iff hleads (Glob.lookUp_base hkept hdir)]
  constructor
  · rintro ⟨hnames, hfits, rfl, -, hfile⟩
    refine ⟨(Glob.mem_found_iff hleads.spelled_under hpattern.parts hdots hfile).mpr ?_, _, hfile⟩
    exact ⟨_, hnames, hfits, rfl⟩
  · rintro ⟨hmem, content, hfile⟩
    obtain ⟨names, hnames, hfits, rfl⟩ :=
      (Glob.mem_found_iff hleads.spelled_under hpattern.parts hdots hfile).mp hmem
    have hplace := hleads.spelled_under.names_under fs hnames
    exact ⟨hnames, hfits, rfl, by rw [← Glob.names_base hne hkept]; exact hplace, hfile⟩

theorem Matched.exists_file (h : Matched fs root pattern x) : ∃ content, fs.lookUp x = .ok (.file content) := by
  obtain ⟨-, -, -, -, hfile⟩ := h
  exact ⟨_, hfile⟩

inductive Stopped (fs : FileSystem) (root : Path) (pattern : String) : Failure → Prop
  | intro {x : Path} {content : ByteArray} (hx : Matched fs root pattern x)
      (hfile : fs.lookUp x = .ok (.file content)) (hcontent : ¬ content.IsValidUTF8) :
      Stopped fs root pattern (.unreadable x .notUtf8)

theorem Matched.stopped {why : Failure} (hx : Matched fs root pattern x)
    (h : result (fs.answer input) (ofFile root name x) = .error why) : Stopped fs root pattern why := by
  obtain ⟨fault, rfl, hfault⟩ := exists_fault_of_ofFile h
  obtain ⟨content, hfile⟩ := hx.exists_file
  have hcontent : Host.contentAt (fs.answer input) x = fs.read x := rfl
  rw [hcontent, FileSystem.read_of_file hfile, Except.bind] at hfault
  by_cases hvalid : content.IsValidUTF8
  · rw [Host.decode_of_valid hvalid] at hfault
    contradiction
  · rw [Host.decode_of_not_valid hvalid] at hfault
    exact Except.error.inj hfault ▸ .intro hx hfile hvalid

/-- The files below a root that match a pattern are read, and no others. The root is read as a part of
the pattern, so that it must have nothing that has a meaning there. -/
theorem reads_matched (fs : FileSystem) (input : ByteArray) (root : Path) (name : Option String) (pattern : String)
    {entries : List (String × FileTree)} (hdir : fs.lookUp root = .ok (.directory entries))
    (hliteral : IsLiteral root.text.toList) (hkept : IsKept root) (hpattern : IsRelative pattern)
    (hdots : ∀ s ∈ (pattern.toList.splitOn '/').dropLast, PassesDots s) :
    let answer := fs.answer input
    let script := ofPatterns root [pattern] name
    fs.lookUp (Glob.base root) = fs.lookUp root ∧
      (result answer script = .error (.noMatch pattern) ↔ ¬ ∃ x, Matched fs root pattern x) ∧
      (∀ x, .read x ∈ asked answer script → Matched fs root pattern x) ∧
      (∀ fragments, result answer script = .ok fragments →
        ∀ x, Matched fs root pattern x → .read x ∈ asked answer script) ∧
      ∀ why, result answer script = .error why → why = .noMatch pattern ∨ Stopped fs root pattern why := by
  intro answer script
  have hne := (FileSystem.lookUp_eq_ok_iff.mp hdir).1.nonempty
  have hread : Glob.Pattern.read (root.join ⟨pattern⟩).text = .ok (patternUnder root pattern) :=
    Glob.read_join hne hliteral hpattern.simple hpattern.not_mem_nil
  have hmatched := matched_iff input hdir hkept hpattern hdots
  have hscript : script = ofPattern root name pattern := gather_singleton _ _
  refine ⟨(Glob.lookUp_base hkept hdir).trans hdir.symm, ?_⟩
  rw [hscript]
  rcases ofPattern_cases answer hread anyDepth_not_mem_patternUnder name with
    ⟨hnone, hresult, hasked⟩ | ⟨files, hfiles, hmem, hresult, hasked⟩
  · have hno (x : Path) : ¬ Matched fs root pattern x := fun hx =>
      hnone x ((hmatched x).mp hx).1 ((hmatched x).mp hx).2
    rw [hresult]
    exact ⟨by simp [hno], fun x hx => absurd hx (hasked x), by simp,
      fun why hwhy => .inl (Except.error.inj hwhy).symm⟩
  · have hfile (x : Path) : x ∈ files ↔ Matched fs root pattern x := (hmem x).trans (hmatched x).symm
    have hstopped (why : Failure) (hwhy : result answer (ofPattern root name pattern) = .error why) :
        Stopped fs root pattern why := by
      obtain ⟨x, hx, hread⟩ := exists_of_gather_error (hresult ▸ hwhy)
      exact ((hfile x).mp hx).stopped hread
    refine ⟨⟨fun hnone => ?_, fun hno => ?_⟩, fun x hx => ?_, fun fragments hok x hx => ?_,
      fun why hwhy => .inr (hstopped why hwhy)⟩
    · have hno := hstopped _ hnone
      contradiction
    · obtain ⟨x, hx⟩ := List.exists_mem_of_ne_nil files hfiles
      exact absurd ⟨x, (hfile x).mp hx⟩ hno
    · obtain ⟨y, hy, hq⟩ := exists_asked_of_gather ((hasked x).mp hx)
      rw [asked_ofFile, List.mem_singleton, Host.Question.read.injEq] at hq
      exact (hfile x).mp (hq ▸ hy)
    · refine (hasked x).mpr (asked_of_gather_ok (hresult ▸ hok) ((hfile x).mpr hx) ?_)
      rw [asked_ofFile]
      exact .head _

def elsewhere : FileTree := .directory [("a.diff", .file "+x\n".toUTF8)]

/-- A directory whose name, as a pattern, stands for another one's. -/
def bracketed : FileSystem :=
  ⟨.directory [("r1", elsewhere), ("r[1]", .directory [("b.diff", .file "+y\n".toUTF8)])], []⟩

def bracketedPattern : Glob.Pattern :=
  ⟨false, [.matching [.char 'r', .within [.char '1']], .matching ("*.diff".toList.map Glob.Token.ofChar)], false⟩

theorem lookUp_bracketed {p : Path} (segments : List String) (hp : Host.IsTaken p)
    (habsolute : p.isAbsolute = false) (hsegments : Path.segments p.text.toList = segments) :
    bracketed.lookUp p = bracketed.root.walk [] segments := by
  rw [FileSystem.lookUp_of_isTaken hp, FileSystem.trail, habsolute, hsegments]
  rfl

theorem lookUp_elsewhere :
    bracketed.lookUp ⟨"r1"⟩ = .ok (.directory [("a.diff", .file "+x\n".toUTF8)]) := by
  rw [lookUp_bracketed ["r1"] ⟨by decide, by decide, by decide⟩ (by decide) (by decide)]
  rfl

theorem lookUp_elsewhere_file : bracketed.lookUp ⟨"r1/a.diff"⟩ = .ok (.file "+x\n".toUTF8) := by
  rw [lookUp_bracketed ["r1", "a.diff"] ⟨by decide, by decide, by decide⟩ (by decide) (by decide)]
  rfl

theorem splitOn_starDiff : "*.diff".toList.splitOn '/' = ["*.diff".toList] := by decide

theorem isRelative_starDiff : IsRelative "*.diff" := by
  refine ⟨⟨by decide, by decide, by decide⟩, fun s hs => ?_⟩
  rw [splitOn_starDiff, List.mem_singleton] at hs
  exact hs ▸ ⟨by decide, by decide, by decide, by decide⟩

theorem isName_aDiff : Host.isName "a.diff" := Glob.isName_iff.mpr (by decide)

theorem matched_elsewhere : Matched bracketed ⟨"r1"⟩ "*.diff" ⟨"r1/a.diff"⟩ := by
  have hfits : Fits "*.diff".toList "a.diff".toList := Glob.fits_iff.mp (by decide)
  refine ⟨List.forall_mem_singleton.mpr isName_aDiff, ?_, by decide, by decide,
    lookUp_elsewhere_file⟩
  rw [splitOn_starDiff]
  exact .cons hfits .nil

theorem reads_matched_sample : result (bracketed.answer .empty) (ofPatterns ⟨"r1"⟩ ["*.diff"] none) ≠
    .error (.noMatch "*.diff") := by
  have hkept : IsKept ⟨"r1"⟩ := .inr fun n name rest h => by
    have hparts : Path.parts ⟨"r1"⟩ = ["r1"] := by decide
    have hlength := congrArg List.length (hparts.symm.trans h)
    simp only [List.length_append, List.length_cons, List.length_nil] at hlength
    omega
  obtain ⟨-, hnone, -⟩ := reads_matched bracketed .empty ⟨"r1"⟩ none "*.diff" lookUp_elsewhere
    ⟨by decide, by decide, by decide⟩ hkept isRelative_starDiff (by rw [splitOn_starDiff]; simp)
  exact fun h => hnone.mp h ⟨_, matched_elsewhere⟩

theorem mem_found_bracketed {x : Path} :
    x ∈ bracketedPattern.expand.value (bracketed.answer .empty) ↔ x = ⟨"r1/a.diff"⟩ := by
  have hroot : bracketed.lookUp ⟨"."⟩ =
      .ok (.directory [("r1", elsewhere), ("r[1]", .directory [("b.diff", .file "+y\n".toUTF8)])]) := by
    rw [lookUp_bracketed ["."] ⟨by decide, by decide, by decide⟩ (by decide) (by decide)]
    rfl
  have hname : Host.isName "r1" := Glob.isName_iff.mpr (by decide)
  have hextend : Glob.extend ⟨"."⟩ "r1" = ⟨"r1"⟩ ∧ Glob.extend ⟨"r1"⟩ "a.diff" = ⟨"r1/a.diff"⟩ := by decide
  have hset : Glob.fits [.char 'r', .within [.char '1']] "r1" ∧
      ¬ Glob.fits [.char 'r', .within [.char '1']] "r[1]" := by decide
  have hstar : Glob.fits ("*.diff".toList.map Glob.Token.ofChar) "a.diff" := by decide
  have hfound : bracketedPattern.expand.value (bracketed.answer .empty) =
      Glob.found bracketed .empty bracketedPattern.steps ⟨"."⟩ := rfl
  rw [hfound, bracketedPattern, Glob.mem_found_matching_of_directory hroot (by decide)]
  simp only [List.exists_mem_cons_iff, hname, hextend, hset, List.not_mem_nil, Bool.false_eq_true, false_and,
    exists_false, or_false, and_false, true_and]
  rw [Glob.mem_found_matching_of_directory lookUp_elsewhere (by decide)]
  simp only [List.exists_mem_cons_iff, isName_aDiff, hextend, hstar]
  simp

theorem read_bracketed :
    Glob.Pattern.read ((⟨"r[1]"⟩ : Path).join ⟨"*.diff"⟩).text = .ok bracketedPattern :=
  Glob.read_eq_of_toOption (by decide +kernel)

theorem matched_bracketed : Matched bracketed ⟨"r[1]"⟩ "*.diff" ⟨"r[1]/b.diff"⟩ := by
  have hname : Host.isName "b.diff" := Glob.isName_iff.mpr (by decide)
  have hfits : Fits "*.diff".toList "b.diff".toList := Glob.fits_iff.mp (by decide)
  have hfile : bracketed.lookUp ⟨"r[1]/b.diff"⟩ = .ok (.file "+y\n".toUTF8) := by
    rw [lookUp_bracketed ["r[1]", "b.diff"] ⟨by decide, by decide, by decide⟩ (by decide) (by decide)]
    rfl
  refine ⟨List.forall_mem_singleton.mpr hname, ?_, by decide, by decide, hfile⟩
  rw [splitOn_starDiff]
  exact .cons hfits .nil

/-- What the name of a root means as a pattern is taken for the root: the file in it that matches
is not read, and one outside is. -/
theorem bracketed_root_left : (∃ entries, bracketed.lookUp ⟨"r[1]"⟩ = .ok (.directory entries)) ∧
    IsRelative "*.diff" ∧ Matched bracketed ⟨"r[1]"⟩ "*.diff" ⟨"r[1]/b.diff"⟩ ∧
    bracketed.names ⟨"r[1]"⟩ = ["r[1]"] ∧ bracketed.names ⟨"r1/a.diff"⟩ = ["r1", "a.diff"] ∧
    ∀ x, .read x ∈ asked (bracketed.answer .empty) (ofPatterns ⟨"r[1]"⟩ ["*.diff"] none) ↔ x = ⟨"r1/a.diff"⟩ := by
  refine ⟨⟨[("b.diff", .file "+y\n".toUTF8)], ?_⟩, isRelative_starDiff, matched_bracketed, by decide,
    by decide, fun x => ?_⟩
  · rw [lookUp_bracketed ["r[1]"] ⟨by decide, by decide, by decide⟩ (by decide) (by decide)]
    rfl
  · have hkind : Host.kindAt (bracketed.answer .empty) ⟨"r1/a.diff"⟩ = some .file :=
      FileSystem.kindAt_eq_file_iff.mpr ⟨_, lookUp_elsewhere_file⟩
    rw [ofPatterns, gather_singleton]
    rcases ofPattern_cases (bracketed.answer .empty) read_bracketed (by decide) none with
      ⟨hnone, -⟩ | ⟨files, hfiles, hmem, -, hasked⟩
    · exact absurd hkind (hnone _ (mem_found_bracketed.mpr rfl))
    · have hfile (y : Path) (hy : y ∈ files) : y = ⟨"r1/a.diff"⟩ := mem_found_bracketed.mp ((hmem y).mp hy).1
      rw [hasked]
      constructor
      · intro h
        obtain ⟨y, hy, hq⟩ := exists_asked_of_gather h
        rw [asked_ofFile, List.mem_singleton, Host.Question.read.injEq] at hq
        exact hq ▸ hfile y hy
      · rintro rfl
        obtain ⟨y, rest, rfl⟩ := List.exists_cons_of_ne_nil hfiles
        refine asked_gather_of_head ?_
        rw [hfile y (.head _), asked_ofFile]
        exact .head _

end PushAudit.Diff
