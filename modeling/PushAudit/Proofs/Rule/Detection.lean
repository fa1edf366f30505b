import PushAudit.Proofs.Pattern.Reader
import PushAudit.Proofs.Pattern.Search
import PushAudit.Rule

namespace PushAudit.Rule

/-- The patterns as they are written, each under the id of its rule. -/
def written : List (String × String) :=
  [("hardcoded-password", "(password|passwd|pwd)\\s*[:=]\\s*[\"'][^\"']+[\"']"),
    ("hardcoded-api-key", "api[_-]?key\\s*[:=]\\s*[\"'][^\"']+[\"']"),
    ("hardcoded-secret", "(secret|token)\\s*[:=]\\s*[\"'][^\"']+[\"']"),
    ("aws-credentials", "aws_access_key_id|aws_secret_access_key"),
    ("console-statement", "\\bconsole\\.(log|debug|info|warn|error)\\s*\\("),
    ("todo-marker", "\\b(TODO|FIXME|HACK|XXX)\\b:?"),
    ("lint-disabled", "eslint-disable|tslint:disable|@ts-ignore|@ts-nocheck|#\\s*type:\\s*ignore"),
    ("unsafe-eval", "\\beval\\s*\\(")]

theorem appliesTo_iff (r : Rule) (text : String) :
    r.appliesTo text ↔ ∃ b m a, text.toList = b ++ (m ++ a) ∧ r.pattern.Matches b m a :=
  Pattern.occursIn_iff r.pattern text.toList

theorem violations_sublist {text text' : String} (h : ∀ r ∈ catalog, r.appliesTo text → r.appliesTo text')
    (file : String) : (violations file text).Sublist (violations file text') := by
  have hfilter : applying text = (applying text').filter (·.appliesTo text) := by
    rw [applying, applying, List.filter_filter]
    refine List.filter_congr fun r hr => ?_
    rw [Bool.eq_iff_iff, Bool.and_eq_true]
    exact (and_iff_left_of_imp (h r hr)).symm
  rw [violations, hfilter]
  exact List.filter_sublist.map _

theorem violations_congr {text text' : String} (h : ∀ r ∈ catalog, r.appliesTo text ↔ r.appliesTo text')
    (file : String) : violations file text = violations file text' := by
  have happlying : applying text = applying text' := List.filter_congr fun r hr => Bool.eq_iff_iff.mpr (h r hr)
  rw [violations, happlying, violations]

end PushAudit.Rule
