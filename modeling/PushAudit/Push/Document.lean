import PushAudit.Push.Event

namespace PushAudit.Push

open Json (Schema Fields)

namespace Person

def schema : Schema :=
  .record "Person" (.field "name" false (.optional .text) (.field "login" false (.optional .text) .none))

def ofRow : schema.Val → Person
  | (name, login, ()) => ⟨name, login⟩

end Person

namespace Repository

def schema : Schema :=
  .record "Repository" (.field "name" true .text (.field "owner" false (.optional Person.schema) .none))

def ofRow : schema.Val → Repository
  | (name, owner, ()) => ⟨name, owner.map Person.ofRow⟩

end Repository

namespace Commit

def schema : Schema :=
  .record "Commit" (.field "id" true .text (.field "message" false .text
    (.field "author" false (.optional Person.schema) .none)))

def ofRow : schema.Val → Commit
  | (id, message, author, ()) => ⟨id, message, author.map Person.ofRow⟩

end Commit

namespace Event

def schema : Schema :=
  .record "PushEvent" (.field "ref" true .text (.field "after" false (.optional .text)
    (.field "pusher" false (.optional Person.schema) (.field "repository" true Repository.schema
      (.field "commits" false (.list Commit.schema)
        (.field "head_commit" false (.optional Commit.schema) .none))))))

def ofRow : schema.Val → Event
  | (ref, after, pusher, repository, commits, headCommit, ()) =>
    ⟨ref, after, pusher.map Person.ofRow, .ofRow repository, commits.map Commit.ofRow,
      headCommit.map Commit.ofRow⟩

def parse (text : String) : Except Json.Error Event := (schema.parse text).map ofRow

end Event

namespace ChangedFile

def schema : Schema :=
  .record "ChangedFile" (.field "filename" true .text (.field "patch" false (.optional .text) .none))

def ofRow : schema.Val → ChangedFile
  | (name, patch, ()) => ⟨name, patch⟩

end ChangedFile

def detailsSchema : Schema :=
  .record "CommitDetails" (.field "files" false (.list ChangedFile.schema) .none)

def parseDetails (text : String) : Except Json.Error (List ChangedFile) :=
  (detailsSchema.parse text).map fun (files, ()) => files.map ChangedFile.ofRow

end PushAudit.Push
