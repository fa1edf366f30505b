import PushAudit.Push.Source
import PushAudit.Proofs.Host.Content
import PushAudit.Proofs.Push.Audit

namespace PushAudit.Push

open Attempt (Fails result)
open Host (Unreadable contentAt)

variable {answer : (q : Host.Question) → Host.Answer q}

/-- What keeps a push event from being loaded. -/
inductive Event.Blocked (answer : (q : Host.Question) → Host.Answer q) (p : Path) : Prop
  | unreadable (h : Unreadable (contentAt answer p))
  | malformed {text : String} {why : Json.Error} (h : contentAt answer p = .ok text.toUTF8)
      (hparse : Event.parse text = .error why)

def Event.IsAt (answer : (q : Host.Question) → Host.Answer q) (p : Path) (e : Event) : Prop :=
  ∃ text : String, contentAt answer p = .ok text.toUTF8 ∧ Event.parse text = .ok e

theorem Event.Blocked.fails {p : Path} (h : Event.Blocked answer p) : Fails answer (Event.ofFile p) := by
  rw [Event.ofFile, Attempt.fails_lift_bind_iff, Host.value_readText]
  cases h with
  | unreadable h =>
      obtain ⟨why, hc⟩ := (Host.unreadable_iff _).mp h
      rw [hc]
      exact Attempt.fails_throw answer _
  | malformed h hparse =>
      rw [(Host.bind_decode_eq_ok_iff _ _).mpr h]
      simp only [hparse, Attempt.fails_throw]

theorem Event.IsAt.result_eq {p : Path} {e : Event} (h : e.IsAt answer p) :
    result answer (Event.ofFile p) = .ok e := by
  obtain ⟨text, hc, hparse⟩ := h
  rw [Event.ofFile, Attempt.result_bind, Attempt.result_lift, Host.value_readText,
    (Host.bind_decode_eq_ok_iff _ _).mpr hc]
  simp only [Except.bind, hparse, Attempt.result_pure]

theorem Event.blocked_or_isAt (answer : (q : Host.Question) → Host.Answer q) (p : Path) :
    Event.Blocked answer p ∨ ∃ e : Event, e.IsAt answer p := by
  cases hc : (contentAt answer p).bind Host.decode with
  | error fault => exact .inl (.unreadable ((Host.unreadable_iff _).mpr ⟨fault, hc⟩))
  | ok text =>
      have hbytes := (Host.bind_decode_eq_ok_iff _ _).mp hc
      cases hparse : Event.parse text with
      | error why => exact .inl (.malformed hbytes hparse)
      | ok e => exact .inr ⟨e, text, hbytes, hparse⟩

theorem Event.IsAt.not_blocked {p : Path} {e : Event} (h : e.IsAt answer p) : ¬ Event.Blocked answer p := by
  intro hb
  obtain ⟨why, hf⟩ := hb.fails
  rw [h.result_eq] at hf
  contradiction

theorem Event.IsAt.unique {p : Path} {e e' : Event} (h : e.IsAt answer p) (h' : e'.IsAt answer p) : e = e' := by
  have hr := h.result_eq
  rw [h'.result_eq] at hr
  exact (Except.ok.inj hr).symm

variable (answer)

def served (dir : Path) (q : Query) : Fetched := (fetchFrom dir q.commit).value answer

theorem value_auditFrom (dir : Path) (e : Event) (branches : List String) (unknownAuthor : String) :
    (auditFrom dir e branches unknownAuthor).value answer =
      ((audit e branches unknownAuthor).run (served answer dir)).value :=
  Script.value_handle (S := Service) (T := Host) answer (fun q : Query => fetchFrom dir q.commit)
    (audit e branches unknownAuthor)

end PushAudit.Push
