import PushAudit.Proofs.Diff.Section
import PushAudit.Proofs.Report.Rows

namespace PushAudit.Report

open Diff (afterMark?)

abbrev Item : Type := Severity × String

def item (v : Violation) : Item := (v.severity, v.issue)

structure Draft where
  commit : String
  author : String
  message : String
  summary : String
  groups : List (String × List Item)
deriving DecidableEq, Repr

def draft (vs : List Violation) (s : Subject) : Draft where
  commit := shortId s.commit
  author := s.author
  message := s.message
  summary := (ofViolations vs).summary
  groups := (files vs).map fun file => (file, (ofFile vs file).map item)

def readText? (label : String) (row : List Char) : Option String :=
  (afterMark? label.toList row).map String.ofList

def readItem? (row : List Char) : Option Item :=
  Severity.all.findSome? fun s => (readText? (bulletLabel s) row).map fun issue => (s, issue)

def readFile? (row : List Char) : Option String :=
  (afterMark? fileLabel.toList row).map fun name => String.ofList name.dropLast

/-- Groups are read from the last row to the first: `items` waits for the heading of its file. -/
structure Reading where
  items : List Item
  groups : List (String × List Item)

def Reading.push (row : List Char) (r : Reading) : Reading :=
  match readItem? row with
  | some i => { r with items := i :: r.items }
  | none =>
    match readFile? row with
    | some file => ⟨[], (file, r.items) :: r.groups⟩
    | none => r

def readGroups (rows : List (List Char)) : List (String × List Item) :=
  (rows.foldr Reading.push ⟨[], []⟩).groups

def readDraft? (body : String) : Option Draft :=
  match body.toList.splitOn '\n' with
  | _ :: _ :: commit :: author :: message :: _ :: _ :: _ :: summary :: rest => do
    let commit ← readText? commitLabel commit
    let author ← readText? authorLabel author
    let message ← readText? messageLabel message
    return ⟨commit, author, message, String.ofList summary, readGroups rest⟩
  | _ => none

theorem readText?_append (label text : String) : readText? label (label ++ text).toList = some text := by
  rw [readText?, String.toList_append, Diff.afterMark?_eq_some_iff.mpr rfl, Option.map_some,
    String.ofList_toList]

theorem readText?_eq_none {label : String} {row : List Char} (h : ¬ label.toList <+: row) :
    readText? label row = none := by
  rw [readText?, Diff.afterMark?_eq_none h, Option.map_none]

theorem eq_of_prefix_bulletLabel :
    ∀ s t, (bulletLabel s).toList <+: (bulletLabel t).toList → s = t := by
  intro s t
  cases s <;> cases t <;> decide +kernel

theorem readText?_bulletRow (s : Severity) (v : Violation) :
    readText? (bulletLabel s) (bulletRow v).toList = if s = v.severity then some v.issue else none := by
  split
  case isTrue h =>
    subst h
    exact readText?_append _ _
  case isFalse h =>
    apply readText?_eq_none
    rw [bulletRow, String.toList_append]
    refine not_prefix_append ⟨?_, ?_⟩ _
    · exact fun hp => h (eq_of_prefix_bulletLabel s v.severity hp)
    · exact fun hp => h (eq_of_prefix_bulletLabel v.severity s hp).symm

theorem readItem?_bulletRow (v : Violation) : readItem? (bulletRow v).toList = some (item v) := by
  simp only [readItem?, Severity.all, readText?_bulletRow, item]
  cases v.severity <;> rfl

theorem readItem?_eq_none {row : List Char} (h : isBullet row = false) : readItem? row = none := by
  rw [← Bool.not_eq_true, isBullet_iff] at h
  rw [readItem?, List.findSome?_eq_none_iff]
  intro s _
  rw [readText?_eq_none fun hp => h ((bullet_prefix_bulletLabel s).trans hp), Option.map_none]

theorem readFile?_eq_none {row : List Char} (h : isFileHeading row = false) : readFile? row = none := by
  rw [← Bool.not_eq_true, isFileHeading_iff] at h
  rw [readFile?, Diff.afterMark?_eq_none fun hp => h (file_prefix_fileLabel.trans hp), Option.map_none]

theorem readFile?_fileRow (file : String) : readFile? (fileRow file).toList = some file := by
  have hrow : (fileRow file).toList = fileLabel.toList ++ (file.toList ++ ['\x60']) := by
    rw [fileRow, String.toList_append, String.toList_append, List.append_assoc]
    rfl
  rw [readFile?, hrow, Diff.afterMark?_eq_some_iff.mpr rfl, Option.map_some, List.dropLast_concat,
    String.ofList_toList]

section Push

variable (r : Reading)

theorem push_bulletRow (v : Violation) :
    r.push (bulletRow v).toList = { r with items := item v :: r.items } := by
  rw [Reading.push, readItem?_bulletRow]

theorem push_fileRow (file : String) :
    r.push (fileRow file).toList = ⟨[], (file, r.items) :: r.groups⟩ := by
  simp only [Reading.push, readItem?_eq_none (isBullet_fileRow file), readFile?_fileRow]

theorem push_of_isPlain {row : List Char} (h : IsPlain row) : r.push row = r := by
  simp only [Reading.push, readItem?_eq_none h.1, readFile?_eq_none h.2]

theorem foldr_push_of_isPlain {rows : List (List Char)} (h : ∀ row ∈ rows, IsPlain row) :
    rows.foldr Reading.push r = r := by
  induction rows with
  | nil => rfl
  | cons row rows ih =>
      obtain ⟨hrow, hrows⟩ := List.forall_mem_cons.mp h
      rw [List.foldr_cons, ih hrows, push_of_isPlain r hrow]

theorem foldr_push_bulletRows (vs : List Violation) :
    ((vs.map bulletRow).map String.toList).foldr Reading.push r = { r with items := vs.map item ++ r.items } := by
  induction vs with
  | nil => rfl
  | cons v vs ih => rw [List.map_cons, List.map_cons, List.foldr_cons, ih, push_bulletRow]; rfl

theorem foldr_push_sectionRows (groups : List (String × List Item)) (file : String) (vs : List Violation) :
    ((sectionRows file vs).map String.toList).foldr Reading.push ⟨[], groups⟩ =
      ⟨[], (file, vs.map item) :: groups⟩ := by
  rw [sectionRows, List.map_append, List.foldr_append, foldr_push_bulletRows, List.append_nil]
  simp only [List.map_cons, List.map_nil, List.foldr_cons, List.foldr_nil, push_of_isPlain _ isPlain_empty,
    push_fileRow]

/-- Read from its end, each section hands on its file with its items, and leaves none waiting. -/
theorem foldr_push_sections (groups : List (String × List Violation)) :
    ((groups.flatMap fun (file, vs) => sectionRows file vs).map String.toList).foldr Reading.push ⟨[], []⟩ =
      ⟨[], groups.map fun (file, vs) => (file, vs.map item)⟩ := by
  induction groups with
  | nil => rfl
  | cons g groups ih =>
      rw [List.flatMap_cons, List.map_append, List.foldr_append, ih, foldr_push_sectionRows, List.map_cons]

end Push

theorem foldr_push_violationRows (s : Subject) (vs : List Violation) :
    ((violationRows vs).map String.toList).foldr Reading.push ⟨[], []⟩ = ⟨[], (draft vs s).groups⟩ := by
  rw [violationRows, List.map_append, List.map_append, List.foldr_append, List.foldr_append,
    foldr_push_of_isPlain _ isPlain_closingRows, foldr_push_sections,
    foldr_push_of_isPlain _ isPlain_openingRows, byFile_eq, List.map_map]
  rfl

theorem readGroups_rest (vs : List Violation) (s : Subject) :
    readGroups ((if (ofViolations vs).passed then [] else violationRows vs).map String.toList ++ ["".toList]) =
      (draft vs s).groups := by
  rw [readGroups, List.foldr_append, List.foldr_cons, List.foldr_nil, push_of_isPlain _ isPlain_empty]
  by_cases hvs : vs = []
  · subst hvs
    rfl
  · rw [passed_ofViolations_iff.mpr hvs, if_neg Bool.false_ne_true, foldr_push_violationRows s]

theorem readDraft?_eq {vs : List Violation} {s : Subject} (h : Unbroken vs s) :
    readDraft? ((ofViolations vs).body s) = some (draft vs s) := by
  rw [readDraft?, splitOn_body h, rows, List.map_append, List.append_assoc]
  unfold preambleRows
  simp only [List.map_cons, List.map_nil, List.cons_append, List.nil_append, readText?_append,
    Option.bind_eq_bind, Option.bind_some, String.ofList_toList]
  rw [show (ofViolations vs).violations = vs from rfl, readGroups_rest vs s]
  rfl

theorem ofFile_eq_of_draft_eq {vs ws : List Violation} {s t : Subject} (h : draft vs s = draft ws t) (file : String) :
    (ofFile vs file).map item = (ofFile ws file).map item := by
  have hgroups := congrArg Draft.groups h
  have hfiles : files vs = files ws := by
    have hnames := congrArg (List.map Prod.fst) hgroups
    simpa [draft, List.map_map, Function.comp_def] using hnames
  by_cases hf : file ∈ files vs
  · simp only [draft, hfiles, List.map_inj_left] at hgroups
    exact (Prod.mk.inj (hgroups file (hfiles ▸ hf))).2
  · rw [ofFile_eq_nil hf, ofFile_eq_nil (hfiles ▸ hf)]

/-- A body loses nothing: what it says can be read back, its bullets are as many as the violations and
its file headings as many as the files, and two bodies that are alike say the same. -/
theorem body_readable (vs : List Violation) (s : Subject) (h : Unbroken vs s) :
    let r := ofViolations vs
    let ls := (r.body s).toList.splitOn '\n'
    readDraft? (r.body s) = some (draft vs s) ∧
      ls.countP isBullet = r.counts.total ∧ ls.countP isFileHeading = (files vs).length ∧
      ∀ ws t, Unbroken ws t → (ofViolations ws).body t = r.body s →
        shortId t.commit = shortId s.commit ∧ t.author = s.author ∧ t.message = s.message ∧
          ∀ file, (ofFile ws file).map item = (ofFile vs file).map item := by
  intro r ls
  obtain ⟨hb, hf⟩ := countP_splitOn_body h
  refine ⟨readDraft?_eq h, hb, hf, ?_⟩
  intro ws t hw hbody
  have hdraft : draft ws t = draft vs s := by
    apply Option.some.inj
    rw [← readDraft?_eq hw, ← readDraft?_eq h, hbody]
  exact ⟨congrArg Draft.commit hdraft, congrArg Draft.author hdraft, congrArg Draft.message hdraft,
    ofFile_eq_of_draft_eq hdraft⟩

/-- Names, issues and a message that look like layout. The other list tells the files apart in another
order, and its body is the same. -/
theorem body_readable_of_markup :
    let vs : List Violation :=
      [⟨"- 🔴 **HIGH**: \x60", "#### \x60z\x60", .low⟩, ⟨"z", "### Violations", .high⟩,
        ⟨"- 🔴 **HIGH**: \x60", "\r", .medium⟩]
    let ws : List Violation :=
      [⟨"- 🔴 **HIGH**: \x60", "#### \x60z\x60", .low⟩, ⟨"- 🔴 **HIGH**: \x60", "\r", .medium⟩,
        ⟨"z", "### Violations", .high⟩]
    let s : Subject := ⟨"0123456789", "---", "**Message:** "⟩
    let ls := ((ofViolations vs).body s).toList.splitOn '\n'
    Unbroken vs s ∧ Unbroken ws s ∧ (ofViolations ws).body s = (ofViolations vs).body s ∧
      readDraft? ((ofViolations vs).body s) =
        some ⟨"0123456", "**Message:** ", "---", "❌ Found 3 violation(s): 1 high, 1 medium, 1 low",
          [("- 🔴 **HIGH**: \x60", [(.low, "#### \x60z\x60"), (.medium, "\r")]),
            ("z", [(.high, "### Violations")])]⟩ ∧
      ls.countP isBullet = 3 ∧ ls.countP isFileHeading = 2 ∧
      ∀ file, (ofFile ws file).map item = (ofFile vs file).map item := by
  intro vs ws s ls
  have hvs : Unbroken vs s := ⟨by decide, by decide, by decide, by decide +kernel, by decide +kernel⟩
  have hws : Unbroken ws s := ⟨by decide, by decide, by decide, by decide +kernel, by decide +kernel⟩
  have hbody : (ofViolations ws).body s = (ofViolations vs).body s := by decide +kernel
  obtain ⟨hread, hb, hf, hsame⟩ := body_readable vs s hvs
  exact ⟨hvs, hws, hbody, hread.trans (by decide +kernel), hb, hf.trans (by decide +kernel),
    (hsame ws s hws hbody).2.2.2⟩

end PushAudit.Report
