import PushAudit.Log

namespace PushAudit

/-- The questions that can be put to some surroundings, each with the type of its answers. -/
structure Surroundings where
  Question : Type
  Answer : Question → Type

/-- A computation that puts questions to its surroundings and writes a log. -/
inductive Script (S : Surroundings) (α : Type) : Type
  | done (a : α)
  | ask (q : S.Question) (next : S.Answer q → Script S α)
  | note (e : Log.Entry) (next : Script S α)

structure Trace (S : Surroundings) (α : Type) where
  value : α
  asked : List S.Question
  log : List Log.Entry

namespace Script

variable {S T : Surroundings} {α β : Type}

def bind : Script S α → (α → Script S β) → Script S β
  | done a, f => f a
  | ask q next, f => ask q fun x => (next x).bind f
  | note e next, f => note e (next.bind f)

instance : Monad (Script S) where
  pure := done
  bind := bind

theorem bind_done (x : Script S α) : x.bind done = x := by
  induction x with
  | done a => rfl
  | ask q next ih => exact congrArg (ask q) (funext ih)
  | note e next ih => exact congrArg (note e) ih

theorem bind_bind {γ : Type} (x : Script S α) (f : α → Script S β) (g : β → Script S γ) :
    (x.bind f).bind g = x.bind fun a => (f a).bind g := by
  induction x with
  | done a => rfl
  | ask q next ih => exact congrArg (ask q) (funext ih)
  | note e next ih => exact congrArg (note e) ih

instance : LawfulMonad (Script S) :=
  LawfulMonad.mk' _ bind_done (fun _ _ => rfl) bind_bind

def question (q : S.Question) : Script S (S.Answer q) := ask q done

def log (level : Log.Level) (message : String) (fields : List (String × String)) : Script S Unit :=
  note ⟨level, message, fields⟩ (done ())

def notes : List Log.Entry → Script S Unit
  | [] => done ()
  | e :: es => note e (notes es)

/-- Runs a script in surroundings that always give the same answer to the same question. -/
def run (answer : (q : S.Question) → S.Answer q) : Script S α → Trace S α
  | done a => ⟨a, [], []⟩
  | ask q next =>
    let t := (next (answer q)).run answer
    { t with asked := q :: t.asked }
  | note e next =>
    let t := next.run answer
    { t with log := e :: t.log }

theorem run_bind (answer : (q : S.Question) → S.Answer q) (x : Script S α) (f : α → Script S β) :
    (x >>= f).run answer =
      ⟨((f (x.run answer).value).run answer).value,
        (x.run answer).asked ++ ((f (x.run answer).value).run answer).asked,
        (x.run answer).log ++ ((f (x.run answer).value).run answer).log⟩ := by
  induction x with
  | done a => rfl
  | ask q next ih =>
      have h := ih (answer q)
      simp only [Bind.bind] at h
      simp only [Bind.bind, bind, run, h, List.cons_append]
  | note e next ih =>
      simp only [Bind.bind] at ih
      simp only [Bind.bind, bind, run, ih, List.cons_append]

def runM {m : Type → Type} [Monad m] (answer : (q : S.Question) → m (S.Answer q))
    (write : Log.Entry → m Unit) : Script S α → m α
  | done a => pure a
  | ask q next => do
    let x ← answer q
    (next x).runM answer write
  | note e next => do
    write e
    next.runM answer write

/-- Answers each question by a script of its own. -/
def handle (answer : (q : S.Question) → Script T (S.Answer q)) : Script S α → Script T α
  | done a => done a
  | ask q next => (answer q).bind fun x => (next x).handle answer
  | note e next => note e (next.handle answer)

end Script

end PushAudit
