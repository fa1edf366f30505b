import PushAudit.Proofs.Script.Run
import PushAudit.Push.Audit

namespace PushAudit.Push

variable (id : String) (results : List (String × Fetched))

def retrieved : List ChangedFile := (results.filterMap fun r => r.2.toOption).flatten

def unretrieved : List String := (results.filter fun r => r.2.toOption.isNone).map Prod.fst

theorem retrieved_ok (files : List ChangedFile) :
    retrieved ((id, .ok files) :: results) = files ++ retrieved results := rfl

theorem retrieved_error (why : FetchError) :
    retrieved ((id, .error why) :: results) = retrieved results := rfl

theorem unretrieved_ok (files : List ChangedFile) :
    unretrieved ((id, .ok files) :: results) = unretrieved results := rfl

theorem unretrieved_error (why : FetchError) :
    unretrieved ((id, .error why) :: results) = id :: unretrieved results := rfl

theorem violations_append (xs ys : List ChangedFile) :
    violations (xs ++ ys) = violations xs ++ violations ys := by
  simp only [violations, fragments, List.filterMap_append, List.flatMap_append]

/-- Walking through the answers one by one finds what their files hold together, and the ids left
over are those of the errors. -/
theorem findings_eq :
    (findings results).1 = ⟨violations (retrieved results), unretrieved results⟩ := by
  induction results with
  | nil => rfl
  | cons r results ih =>
      obtain ⟨id, fetched⟩ := r
      cases fetched with
      | ok files => simp only [findings, ih, retrieved_ok, unretrieved_ok, violations_append]
      | error why => simp only [findings, ih, retrieved_error, unretrieved_error]

end PushAudit.Push
