import PushAudit.Config.Discovery
import PushAudit.Push.Audit

namespace PushAudit

structure Settings where
  root : Path
  output : String
  branches : List String
  commitsDir : Path
  unknownAuthor : String
deriving DecidableEq, Repr

structure Overrides where
  root : Option String
  output : Option String
  commitsDir : Option String
deriving DecidableEq, Repr

namespace Settings

def defaultOutput : String := "human"

def defaultCommitsDir : String := ".pushcheck/commits"

def defaultUnknownAuthor : String := "unknown"

/-- A directory that the configuration names is seen from the root, one that an argument names is
not. A list of no branches and a blank author name count as left out. -/
def merge (root : Path) (o : Overrides) (c : Config) : Settings where
  root := root
  output := (o.output.or c.output).getD defaultOutput
  branches := (c.branches.filter (!·.isEmpty)).getD Push.defaultBranches
  commitsDir := (o.commitsDir.map Path.mk).getD (root.join ⟨c.commitsDir.getD defaultCommitsDir⟩)
  unknownAuthor := (c.unknownAuthor.filter (!Text.isBlankText ·.toList)).getD defaultUnknownAuthor

def resolve (o : Overrides) : Script Host Settings := do
  let root ← Config.findRoot ⟨o.root.getD "."⟩
  let c ← Config.load root
  Script.log .debug "resolved repository root" [("root", root.text)]
  return merge root o (c.getD .empty)

end Settings

end PushAudit
