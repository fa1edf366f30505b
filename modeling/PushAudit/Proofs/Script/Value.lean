import PushAudit.Failure
import PushAudit.Proofs.Script.Run

namespace PushAudit

namespace Script

variable {S T : Surroundings} {α β : Type}

/-- What a script comes to, with its questions and its log left out. -/
def value (answer : (q : S.Question) → S.Answer q) (x : Script S α) : α := (x.run answer).value

variable (answer : (q : S.Question) → S.Answer q)

@[simp] theorem value_pure (a : α) : (pure a : Script S α).value answer = a := rfl

@[simp] theorem value_bind (x : Script S α) (f : α → Script S β) :
    (x >>= f).value answer = (f (x.value answer)).value answer := by
  rw [value, run_bind]
  rfl

@[simp] theorem value_map (x : Script S α) (f : α → β) : (f <$> x).value answer = f (x.value answer) := by
  rw [map_eq_pure_bind, value_bind, value_pure]

def asked (x : Script S α) : List S.Question := (x.run answer).asked

@[simp] theorem asked_pure (a : α) : (pure a : Script S α).asked answer = [] := rfl

@[simp] theorem asked_bind (x : Script S α) (f : α → Script S β) :
    (x >>= f).asked answer = x.asked answer ++ (f (x.value answer)).asked answer := by
  rw [asked, run_bind]
  rfl

@[simp] theorem asked_map (x : Script S α) (f : α → β) : (f <$> x).asked answer = x.asked answer := by
  rw [map_eq_pure_bind, asked_bind, asked_pure, List.append_nil]

theorem value_anyM (f : α → Script S Bool) (as : List α) :
    (as.anyM f).value answer = as.any fun a => (f a).value answer := by
  induction as with
  | nil => rfl
  | cons a as ih =>
      rw [List.anyM, value_bind, List.any_cons]
      cases (f a).value answer with
      | false => exact ih
      | true => rfl

def logged (x : Script S α) : List Log.Entry := (x.run answer).log

@[simp] theorem logged_pure (a : α) : (pure a : Script S α).logged answer = [] := rfl

@[simp] theorem logged_log (level : Log.Level) (message : String) (fields : List (String × String)) :
    (log (S := S) level message fields).logged answer = [⟨level, message, fields⟩] := rfl

@[simp] theorem logged_bind (x : Script S α) (f : α → Script S β) :
    (x >>= f).logged answer = x.logged answer ++ (f (x.value answer)).logged answer := by
  rw [logged, run_bind]
  rfl

theorem logged_anyM {f : α → Script S Bool} (h : ∀ a, (f a).logged answer = []) (as : List α) :
    (as.anyM f).logged answer = [] := by
  induction as with
  | nil => rfl
  | cons a as ih =>
      rw [List.anyM, logged_bind, h, List.nil_append]
      cases (f a).value answer with
      | false => exact ih
      | true => rfl

/-- To answer the questions of a script by scripts is to answer them by what these come to. -/
theorem value_handle (answer : (q : T.Question) → T.Answer q) (f : (q : S.Question) → Script T (S.Answer q))
    (x : Script S α) : (x.handle f).value answer = x.value fun q => (f q).value answer := by
  induction x with
  | done a => rfl
  | ask q next ih =>
      have hbind := value_bind answer (f q) fun a => (next a).handle f
      exact hbind.trans (ih ((f q).value answer))
  | note e next ih => exact ih

theorem run_handle (answer : (q : T.Question) → T.Answer q) (f : (q : S.Question) → Script T (S.Answer q))
    (hlog : ∀ q, ((f q).run answer).log = []) (x : Script S α) : (x.handle f).run answer =
      let t := x.run fun q => (f q).value answer
      ⟨t.value, t.asked.flatMap fun q => ((f q).run answer).asked, t.log⟩ := by
  induction x with
  | done a => rfl
  | ask q next ih =>
      have hbind := run_bind answer (f q) fun a => (next a).handle f
      refine hbind.trans ?_
      have hnext := ih ((f q).run answer).value
      simp only [hnext, hlog, List.nil_append]
      rfl
  | note e next ih =>
      simp only [handle, run, ih]

end Script

namespace Attempt

variable {α β : Type} (answer : (q : Host.Question) → Host.Answer q)

def result (x : Attempt α) : Except Failure α := Script.value (S := Host) answer x.run

def Fails (x : Attempt α) : Prop := ∃ why, result answer x = .error why

@[simp] theorem result_pure (a : α) : result answer (pure a) = .ok a := rfl

@[simp] theorem result_lift (x : Script Host α) : result answer (liftM x) = .ok (x.value answer) :=
  Script.value_map (S := Host) answer x Except.ok

@[simp] theorem result_bind (x : Attempt α) (f : α → Attempt β) :
    result answer (x >>= f) = (result answer x).bind fun a => result answer (f a) := by
  rw [result, ExceptT.run_bind, Script.value_bind, ← result]
  cases result answer x with
  | error why => rfl
  | ok a => rfl

@[simp] theorem not_fails_pure (a : α) : ¬ Fails answer (pure a) := by simp [Fails]

@[simp] theorem fails_throw (why : Failure) : Fails answer (throw why : Attempt α) := ⟨why, rfl⟩

@[simp] theorem not_fails_lift (x : Script Host α) : ¬ Fails answer (liftM x) := by simp [Fails]

def asked (x : Attempt α) : List Host.Question := Script.asked (S := Host) answer x.run

@[simp] theorem asked_pure (a : α) : asked answer (pure a) = [] := rfl

@[simp] theorem asked_throw (why : Failure) : asked answer (throw why : Attempt α) = [] := rfl

@[simp] theorem asked_lift (x : Script Host α) : asked answer (liftM x) = x.asked answer :=
  Script.asked_map (S := Host) answer x Except.ok

theorem asked_bind_of_ok {x : Attempt α} {a : α} (h : result answer x = .ok a) (f : α → Attempt β) :
    asked answer (x >>= f) = asked answer x ++ asked answer (f a) := by
  rw [asked, ExceptT.run_bind, Script.asked_bind, ← result, h]
  rfl

theorem asked_bind_of_error {x : Attempt α} {why : Failure} (h : result answer x = .error why)
    (f : α → Attempt β) : asked answer (x >>= f) = asked answer x := by
  rw [asked, ExceptT.run_bind, Script.asked_bind, ← result, h]
  exact List.append_nil _

theorem asked_bind_lift (x : Script Host α) (f : α → Attempt β) :
    asked answer (liftM x >>= f) = x.asked answer ++ asked answer (f (x.value answer)) := by
  rw [asked_bind_of_ok answer (result_lift answer x), asked_lift]

@[simp] theorem asked_map (f : α → β) (x : Attempt α) : asked answer (f <$> x) = asked answer x := by
  rw [map_eq_pure_bind]
  cases h : result answer x with
  | error why => rw [asked_bind_of_error answer h]
  | ok a => rw [asked_bind_of_ok answer h, asked_pure, List.append_nil]

@[simp] theorem result_map (f : α → β) (x : Attempt α) : result answer (f <$> x) = (result answer x).map f := by
  rw [map_eq_pure_bind, result_bind]
  cases result answer x <;> rfl

theorem fails_bind_iff (x : Attempt α) (f : α → Attempt β) :
    Fails answer (x >>= f) ↔ Fails answer x ∨ ∃ a, result answer x = .ok a ∧ Fails answer (f a) := by
  rw [Fails, Fails, result_bind]
  cases result answer x with
  | error why => simp [Except.bind]
  | ok a => simp [Except.bind, Fails]

@[simp] theorem fails_map_iff (f : α → β) (x : Attempt α) : Fails answer (f <$> x) ↔ Fails answer x := by
  rw [map_eq_pure_bind, fails_bind_iff]
  simp

@[simp] theorem fails_lift_bind_iff (x : Script Host α) (f : α → Attempt β) :
    Fails answer (liftM x >>= f) ↔ Fails answer (f (x.value answer)) := by
  rw [Fails, result_bind, result_lift]
  rfl

theorem not_fails_iff (x : Attempt α) : ¬ Fails answer x ↔ ∃ a, result answer x = .ok a := by
  cases h : result answer x with
  | error why => simp [Fails, h]
  | ok a => simp [Fails, h]

@[simp] theorem result_filterM (p : α → Script Host Bool) (as : List α) :
    result answer (as.filterM fun a => liftM (p a)) = .ok (as.filter fun a => (p a).value answer) := by
  have haux (kept : List α) :
      result answer (as.filterAuxM (fun a => liftM (p a)) kept) =
        .ok ((as.filter fun a => (p a).value answer).reverse ++ kept) := by
    induction as generalizing kept with
    | nil => rfl
    | cons a as ih =>
        rw [List.filterAuxM, result_bind, result_lift, Except.bind, ih, List.filter_cons]
        cases (p a).value answer with
        | false => rfl
        | true => simp
  rw [List.filterM, result_bind, haux, Except.bind, result_pure, List.append_nil, List.reverse_reverse]

@[simp] theorem asked_filterM (p : α → Script Host Bool) (as : List α) :
    asked answer (as.filterM fun a => liftM (p a)) = as.flatMap fun a => (p a).asked answer := by
  have haux (kept : List α) :
      asked answer (as.filterAuxM (fun a => liftM (p a)) kept) = as.flatMap fun a => (p a).asked answer := by
    induction as generalizing kept with
    | nil => rfl
    | cons a as ih => rw [List.filterAuxM, asked_bind_lift, ih, List.flatMap_cons]
  rw [List.filterM, bind_pure_comp, asked_map, haux]

end Attempt

end PushAudit
