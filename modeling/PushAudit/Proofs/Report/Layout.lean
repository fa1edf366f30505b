import Mathlib.Data.List.Basic
import PushAudit.Proofs.Text.Lines
import PushAudit.Report.Issue

namespace PushAudit.Report

open Text (unlines)

def titleRow : String := "## 🔍 Compliance Check Report"

def commitLabel : String := "**Commit:** "

def authorLabel : String := "**Author:** "

def messageLabel : String := "**Message:** "

def ruler : String := "---"

def violationsHeading : String := "### Violations"

def fileLabel : String := "#### \x60"

def bulletLabel (s : Severity) : String := "- " ++ s.glyph ++ " **" ++ s.label ++ "**: "

def adviceRow : String := "Please address these violations before merging further changes."

def preambleRows (r : Report) (s : Subject) : List String :=
  [titleRow, "", commitLabel ++ shortId s.commit, authorLabel ++ s.author, messageLabel ++ s.message, "",
    ruler, "", r.summary]

def bulletRow (v : Violation) : String := bulletLabel v.severity ++ v.issue

def fileRow (file : String) : String := fileLabel ++ file ++ "\x60"

def sectionRows (file : String) (vs : List Violation) : List String :=
  ["", fileRow file, ""] ++ vs.map bulletRow

def openingRows : List String := ["", violationsHeading]

def closingRows : List String := ["", ruler, "", adviceRow]

def violationRows (vs : List Violation) : List String :=
  openingRows ++ ((byFile vs).flatMap fun (file, vs) => sectionRows file vs) ++ closingRows

/-- What a body puts on lines, each followed by a line feed. A text that holds line feeds itself is
a single row here. -/
def rows (r : Report) (s : Subject) : List String :=
  r.preambleRows s ++ if r.passed then [] else violationRows r.violations

theorem passed_ofViolations_iff {vs : List Violation} : (ofViolations vs).passed = false ↔ vs ≠ [] :=
  List.isEmpty_eq_false_iff

theorem rows_nil (s : Subject) : (ofViolations []).rows s = (ofViolations []).preambleRows s :=
  List.append_nil _

theorem rows_of_ne_nil {vs : List Violation} (h : vs ≠ []) (s : Subject) :
    (ofViolations vs).rows s = (ofViolations vs).preambleRows s ++ violationRows vs := by
  rw [rows, passed_ofViolations_iff.mpr h]
  rfl

theorem toList_preamble (r : Report) (s : Subject) :
    (r.preamble s).toList = unlines ((r.preambleRows s).map String.toList) := by
  have htitle : "## 🔍 Compliance Check Report\n\n".toList = titleRow.toList ++ ['\n', '\n'] := by
    decide
  have hauthor : "\n**Author:** ".toList = '\n' :: authorLabel.toList := by decide
  have hmessage : "\n**Message:** ".toList = '\n' :: messageLabel.toList := by decide
  have hruler : "\n\n---\n\n".toList = '\n' :: '\n' :: (ruler.toList ++ ['\n', '\n']) := by decide
  have hcommit : "**Commit:** " = commitLabel := rfl
  unfold preamble preambleRows
  simp only [String.toList_append, List.map_cons, List.map_nil, htitle, hcommit, hauthor, hmessage, hruler,
    Text.unlines_cons, Text.unlines_nil, String.toList_empty, List.append_assoc, List.cons_append,
    List.nil_append]
  rfl

theorem toList_bullet (v : Violation) : (bullet v).toList = (bulletRow v).toList ++ ['\n'] :=
  String.toList_append

theorem toList_fileSection (file : String) (vs : List Violation) :
    (fileSection file vs).toList = unlines ((sectionRows file vs).map String.toList) := by
  have hbullets : (String.join (vs.map bullet)).toList = unlines ((vs.map bulletRow).map String.toList) := by
    rw [String.toList_join, List.flatMap_map, unlines, List.flatMap_map, List.flatMap_map]
    exact List.flatMap_congr fun v _ => toList_bullet v
  have hlabel : "\n#### \x60".toList = '\n' :: fileLabel.toList := by decide
  have hend : "\x60\n\n".toList = "\x60".toList ++ ['\n', '\n'] := by decide
  rw [sectionRows, List.map_append, Text.unlines_append, ← hbullets]
  unfold fileSection
  simp only [fileRow, String.toList_append, List.map_cons, List.map_nil, hlabel, hend, Text.unlines_cons,
    Text.unlines_nil, String.toList_empty, List.append_assoc, List.cons_append, List.nil_append]

theorem toList_body (r : Report) (s : Subject) :
    (r.body s).toList = unlines ((r.rows s).map String.toList) := by
  rw [body, rows]
  split
  case isTrue => rw [toList_preamble, List.append_nil]
  case isFalse =>
    have hsections : (String.join ((byFile r.violations).map fun (file, vs) => fileSection file vs)).toList =
        unlines (((byFile r.violations).flatMap fun (file, vs) => sectionRows file vs).map String.toList) := by
      rw [String.toList_join, List.flatMap_map, unlines, List.flatMap_map, List.flatMap_assoc]
      apply List.flatMap_congr
      intro g _
      rw [toList_fileSection, unlines, List.flatMap_map]
    have hopening : "\n### Violations\n".toList = unlines (openingRows.map String.toList) := by
      decide
    have hclosing : closing.toList = unlines (closingRows.map String.toList) := by decide
    simp only [violationRows, String.toList_append, List.map_append, Text.unlines_append, toList_preamble,
      hopening, hsections, hclosing, List.append_assoc]

end PushAudit.Report
