import PushAudit.Script

namespace PushAudit.Script

variable {S : Surroundings} {α β : Type} (answer : (q : S.Question) → S.Answer q)

@[simp] theorem run_pure (a : α) : (pure a : Script S α).run answer = ⟨a, [], []⟩ := rfl

@[simp] theorem run_log (level : Log.Level) (message : String) (fields : List (String × String)) :
    (log (S := S) level message fields).run answer = ⟨(), [], [⟨level, message, fields⟩]⟩ := rfl

@[simp] theorem run_notes (es : List Log.Entry) :
    (notes (S := S) es).run answer = ⟨(), [], es⟩ := by
  induction es with
  | nil => rfl
  | cons e es ih => simp [notes, run, ih]

end PushAudit.Script
