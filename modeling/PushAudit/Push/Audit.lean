import PushAudit.Push.Fetch
import PushAudit.Report.Issue

namespace PushAudit.Push

def defaultBranches : List String := ["main", "master"]

def branchMark : String := "refs/heads/"

def branchName (ref : String) : String :=
  if branchMark.toList.isPrefixOf ref.toList then String.ofList (ref.toList.drop branchMark.length) else ref

def isWatched (ref : String) (branches : List String) : Bool := branches.contains (branchName ref)

structure Findings where
  violations : List Violation
  failed : List String
deriving DecidableEq, Repr

def fragments (files : List ChangedFile) : List Fragment :=
  files.filterMap fun f => f.patch.map fun text => ⟨f.name, text⟩

def violations (files : List ChangedFile) : List Violation :=
  (fragments files).flatMap fun f => Rule.violations f.file f.text

def patchless (files : List ChangedFile) : List Log.Entry :=
  (files.filter (·.patch.isNone)).map fun f =>
    ⟨.debug, "no textual patch, skipping", [("file", f.name)]⟩

/-- The warning on a commit that could not be fetched. The text of the error, which is logged with it, is left out. -/
def fetchFailed (id : String) : Log.Entry := ⟨.warn, "failed to fetch commit details", [("commit", id)]⟩

/-- What the fetched commits show, with the log entries on them. A commit that could not be fetched
leaves the others as they are. -/
def findings : List (String × Fetched) → Findings × List Log.Entry
  | [] => (⟨[], []⟩, [])
  | (_, .ok files) :: rest =>
    let (f, log) := findings rest
    ({ f with violations := violations files ++ f.violations }, patchless files ++ log)
  | (id, .error _) :: rest =>
    let (f, log) := findings rest
    ({ f with failed := id :: f.failed }, fetchFailed id :: log)

/-- The commit that an issue is about: the head commit, else the last one, else the bare id. -/
def headline (e : Event) : Commit :=
  (e.headCommit.or e.commits.getLast?).getD ⟨e.after.getD "", "", none⟩

structure Outcome where
  repository : Location
  report : Report
  issue : Issue
  failed : List String
deriving DecidableEq, Repr

def fetchAll (repository : Location) : List Commit → Script Service (List (String × Fetched))
  | [] => return []
  | c :: cs => do
    let fetched ← Script.question (S := Service) ⟨repository, c.id⟩
    return (c.id, fetched) :: (← fetchAll repository cs)

def subject (e : Event) (unknownAuthor : String) : Subject :=
  let c := headline e
  ⟨c.id, c.message, c.authorName.getD unknownAuthor⟩

def outcome (e : Event) (unknownAuthor : String) (f : Findings) : Outcome :=
  let report := Report.ofViolations f.violations
  ⟨e.repository.location, report, report.issue (subject e unknownAuthor), f.failed⟩

/-- Checks the commits of a push. A branch that is not watched has no outcome, and nothing is
fetched for it. -/
def audit (e : Event) (branches : List String) (unknownAuthor : String) : Script Service (Option Outcome) := do
  if isWatched e.ref branches then
    let repository := e.repository.location
    Script.log .info "processing push"
      [("repo", repository.path), ("commits", toString e.commits.length)]
    let fetched ← fetchAll repository e.commits
    let (found, log) := findings fetched
    Script.notes log
    let o := outcome e unknownAuthor found
    Script.log .debug "report ready"
      [("passed", toString o.report.passed), ("total", toString o.report.counts.total)]
    return some o
  else
    Script.log .info "skipping push to unwatched branch" [("git_ref", e.ref)]
    return none

def auditFrom (dir : Path) (e : Event) (branches : List String) (unknownAuthor : String) :
    Script Host (Option Outcome) :=
  (audit e branches unknownAuthor).handle fun (q : Query) => fetchFrom dir q.commit

end PushAudit.Push
