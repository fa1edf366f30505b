import PushAudit.Console.Print
import PushAudit.Proofs.Json.Printer

namespace PushAudit

namespace Json

def text? : Json → Option String
  | text s => some s
  | _ => none

def bool? : Json → Option Bool
  | bool b => some b
  | _ => none

def nat? : Json → Option Nat
  | number w => if w.toList.all Char.isDigit then some (Nat.ofDigitChars 10 w.toList 0) else none
  | _ => none

def list? {α : Type} (read : Json → Option α) : Json → Option (List α)
  | list vs => vs.mapM read
  | _ => none

@[simp] theorem text?_text (s : String) : (text s).text? = some s := rfl

@[simp] theorem bool?_bool (b : Bool) : (bool b).bool? = some b := rfl

@[simp] theorem nat?_nat (n : Nat) : (nat n).nat? = some n := by
  have hdigits : (toString n).toList = Nat.toDigits 10 n := Nat.toList_repr
  have hall : (Nat.toDigits 10 n).all Char.isDigit = true :=
    List.all_eq_true.mpr fun c hc => Nat.isDigit_of_mem_toDigits (by decide) (by decide) hc
  rw [nat, nat?, hdigits, if_pos hall, Nat.ofDigitChars_ten_toDigits]

theorem list?_map {α : Type} {read : Json → Option α} {write : α → Json} (h : ∀ a, read (write a) = some a)
    (as : List α) : (list (as.map write)).list? read = some as := by
  induction as with
  | nil => rfl
  | cons a as ih =>
      rw [list?] at ih ⊢
      rw [List.map_cons, List.mapM_cons, h, ih]
      rfl

@[simp] theorem list?_texts (ss : List String) : (texts ss).list? text? = some ss := list?_map text?_text ss

theorem isWhole_list_map {α : Type} {write : α → Json} (h : ∀ a, (write a).IsWhole) (as : List α) :
    (list (as.map write)).IsWhole := by
  refine .list fun v hv => ?_
  obtain ⟨a, -, rfl⟩ := List.mem_map.mp hv
  exact h a

end Json

/-! Each document below is read with exactly its fields, in their order. -/

def Counts.ofDocument? : Json → Option Counts
  | .record [("total", total), ("high", high), ("medium", medium), ("low", low)] => do
    return ⟨← total.nat?, ← high.nat?, ← medium.nat?, ← low.nat?⟩
  | _ => none

@[simp] theorem Counts.ofDocument?_document (c : Counts) : ofDocument? c.document = some c := by
  simp [document, ofDocument?]

theorem Counts.isWhole_document (c : Counts) : c.document.IsWhole := by
  refine .record ?_
  simp only [List.forall_mem_cons]
  exact ⟨.nat _, .nat _, .nat _, .nat _, nofun⟩

@[simp] theorem Severity.ofName?_name (s : Severity) : ofName? s.name = some s := by
  cases s <;> decide

def Violation.ofDocument? : Json → Option Violation
  | .record [("file", file), ("issue", issue), ("severity", severity)] => do
    return ⟨← file.text?, ← issue.text?, ← Severity.ofName? (← severity.text?)⟩
  | _ => none

@[simp] theorem Violation.ofDocument?_document (v : Violation) : ofDocument? v.document = some v := by
  simp [document, ofDocument?]

theorem Violation.isWhole_document (v : Violation) : v.document.IsWhole := by
  refine .record ?_
  simp only [List.forall_mem_cons]
  exact ⟨.text _, .text _, .text _, nofun⟩

@[simp] theorem Violation.list?_documents (vs : List Violation) :
    (Json.list (vs.map document)).list? ofDocument? = some vs := Json.list?_map ofDocument?_document vs

def Report.ofDocument? : Json → Option (Report × Nat)
  | .record [("passed", passed), ("summary", summary), ("counts", counts), ("files", files),
      ("violations", violations)] => do
    return (⟨← violations.list? Violation.ofDocument?, ← passed.bool?, ← Counts.ofDocument? counts,
      ← summary.text?⟩, ← files.nat?)
  | _ => none

theorem Report.ofDocument?_document (r : Report) (files : Nat) : ofDocument? (r.document files) = some (r, files) := by
  simp [document, ofDocument?]

theorem Report.isWhole_document (r : Report) (files : Nat) : (r.document files).IsWhole := by
  refine .record ?_
  simp only [List.forall_mem_cons]
  exact ⟨.bool _, .text _, r.counts.isWhole_document, .nat _,
    Json.isWhole_list_map Violation.isWhole_document r.violations, nofun⟩

namespace Push

/-- What the document on a push shows of its outcome. -/
structure Shown where
  repository : String
  issue : Issue
  passed : Bool
  counts : Counts
  violations : List Violation
  failed : List String

def Outcome.shown (o : Outcome) : Shown :=
  ⟨o.repository.path, o.issue, o.report.passed, o.report.counts, o.report.violations, o.failed⟩

def Shown.ofDocument? : Json → Option Shown
  | .record [("repository", repository), ("title", title), ("body", body), ("labels", labels), ("passed", passed),
      ("counts", counts), ("violations", violations), ("failed_commits", failed)] => do
    let issue : Issue := ⟨← title.text?, ← body.text?, ← labels.list? Json.text?⟩
    return ⟨← repository.text?, issue, ← passed.bool?, ← Counts.ofDocument? counts,
      ← violations.list? Violation.ofDocument?, ← failed.list? Json.text?⟩
  | _ => none

theorem Shown.ofDocument?_document (o : Outcome) : ofDocument? o.document = some o.shown := by
  simp [Outcome.document, ofDocument?, Outcome.shown]

theorem Outcome.isWhole_document (o : Outcome) : o.document.IsWhole := by
  refine .record ?_
  simp only [List.forall_mem_cons]
  exact ⟨.text _, .text _, .text _, Json.isWhole_list_map .text _, .bool _, o.report.counts.isWhole_document,
    Json.isWhole_list_map Violation.isWhole_document _, Json.isWhole_list_map .text _, nofun⟩

def skippedOfDocument? : Json → Option (String × List String)
  | .record [("skipped", .bool true), ("ref", ref), ("branches", branches)] => do
    return (← ref.text?, ← branches.list? Json.text?)
  | _ => none

theorem skippedOfDocument?_skippedDocument (ref : String) (branches : List String) :
    skippedOfDocument? (skippedDocument ref branches) = some (ref, branches) := by
  simp [skippedDocument, skippedOfDocument?]

theorem isWhole_skippedDocument (ref : String) (branches : List String) : (skippedDocument ref branches).IsWhole := by
  refine .record ?_
  simp only [List.forall_mem_cons]
  exact ⟨.bool _, .text _, Json.isWhole_list_map .text _, nofun⟩

end Push

namespace Console

/-- Colored or not, a document and a line feed are printed to standard output, and nothing else. The
document is the only one that can be read there, and what it is about is read from it. -/
structure Conveys {α : Type} (print : Bool → Printed) (j : Json) (read : Json → Option α) (a : α) : Prop where
  plain : ∀ color, print color = print false
  err : (print false).err = ""
  out : ∃ text, (print false).out = text ++ "\n" ∧ j.IsWrittenAs text ∧ ∀ j' : Json, j'.IsReadFrom text ↔ j' = j
  read : read j = some a

theorem conveys_documentLine {α : Type} {j : Json} {read : Json → Option α} {a : α} (hwhole : j.IsWhole)
    (hread : read j = some a) : Conveys (fun _ => documentLine j) j read a where
  plain _ := rfl
  err := rfl
  out := ⟨j.print, rfl, hwhole.isWrittenAs_print, fun _ => hwhole.isReadFrom_print_iff⟩
  read := hread

theorem json_conveys :
    (∀ (r : Report) (files : Nat), Conveys (fun color => printReport color (.ofName "json") r files)
      (r.document files) Report.ofDocument? (r, files)) ∧
    (∀ o : Push.Outcome, Conveys (fun color => printOutcome color (.ofName "json") o) o.document
      Push.Shown.ofDocument? o.shown) ∧
    ∀ (ref : String) (branches : List String), Conveys (fun color => printSkipped color (.ofName "json") ref branches)
      (Push.skippedDocument ref branches) Push.skippedOfDocument? (ref, branches) :=
  ⟨fun r files => conveys_documentLine (r.isWhole_document files) (r.ofDocument?_document files),
    fun o => conveys_documentLine o.isWhole_document (Push.Shown.ofDocument?_document o),
    fun ref branches => conveys_documentLine (Push.isWhole_skippedDocument ref branches)
      (Push.skippedOfDocument?_skippedDocument ref branches)⟩

end Console

end PushAudit
