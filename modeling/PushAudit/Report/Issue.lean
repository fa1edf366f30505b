import PushAudit.Report.Basic

namespace PushAudit

structure Issue where
  title : String
  body : String
  labels : List String
deriving DecidableEq, Repr

structure Subject where
  commit : String
  message : String
  author : String
deriving DecidableEq, Repr

namespace Report

def shortId (id : String) : String := String.ofList (id.toList.take 7)

def title (r : Report) (commit : String) : String :=
  (if r.passed then "✅ Compliance Check Passed - " else "🚨 Compliance Violations Detected - ") ++
    shortId commit

def labels (r : Report) : List String :=
  ["compliance", if r.passed then "passed" else "violation"]

def insertByFile (v : Violation) : List (String × List Violation) → List (String × List Violation)
  | [] => [(v.file, [v])]
  | (file, vs) :: groups =>
    if file = v.file then (file, vs ++ [v]) :: groups else (file, vs) :: insertByFile v groups

/-- The violations of each file, files in the order of their first violation. -/
def byFile (vs : List Violation) : List (String × List Violation) :=
  vs.foldl (fun groups v => insertByFile v groups) []

def bullet (v : Violation) : String :=
  "- " ++ v.severity.glyph ++ " **" ++ v.severity.label ++ "**: " ++ v.issue ++ "\n"

def fileSection (file : String) (vs : List Violation) : String :=
  "\n#### \x60" ++ file ++ "\x60\n\n" ++ String.join (vs.map bullet)

def preamble (r : Report) (s : Subject) : String :=
  "## 🔍 Compliance Check Report\n\n" ++ "**Commit:** " ++ shortId s.commit ++ "\n**Author:** " ++
    s.author ++ "\n**Message:** " ++ s.message ++ "\n\n---\n\n" ++ r.summary ++ "\n"

def closing : String :=
  "\n---\n\nPlease address these violations before merging further changes.\n"

/-- The issue text in Markdown. A report that passed ends with its summary. -/
def body (r : Report) (s : Subject) : String :=
  if r.passed then r.preamble s
  else
    r.preamble s ++ "\n### Violations\n" ++
      String.join ((byFile r.violations).map fun (file, vs) => fileSection file vs) ++ closing

def issue (r : Report) (s : Subject) : Issue := ⟨r.title s.commit, r.body s, r.labels⟩

end Report

end PushAudit
