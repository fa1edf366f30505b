import PushAudit.Command.Run
import PushAudit.Proofs.Diff.Source
import PushAudit.Proofs.Push.Source
import PushAudit.Proofs.Report.Verdict

namespace PushAudit

open Attempt (Fails result)
open Console (Format)

def Settings.audit (answer : (q : Host.Question) → Host.Answer q) (s : Settings) (e : Push.Event) :
    Option Push.Outcome :=
  (Push.auditFrom s.commitsDir e s.branches s.unknownAuthor).value answer

namespace Settings

variable (answer : (q : Host.Question) → Host.Answer q) {s : Settings} {e : Push.Event}

theorem audit_unwatched (h : Push.branchName e.ref ∉ s.branches) : s.audit answer e = none := by
  rw [audit, Push.value_auditFrom]
  exact (Push.audit_run_unwatched _ e s.branches s.unknownAuthor h).1

theorem audit_watched (h : Push.branchName e.ref ∈ s.branches) :
    ∃ found, s.audit answer e = some (Push.outcome e s.unknownAuthor found) := by
  rw [audit, Push.value_auditFrom]
  exact ⟨_, (Push.audit_run_watched _ e s.branches s.unknownAuthor h).1⟩

end Settings

/-- A scan or a push without anything that only says how to show it. -/
inductive Check
  | scan (patterns : List String) (name repoRoot : Option String)
  | push (event : String) (commitsDir repoRoot : Option String)

structure Manner where
  color : Bool
  verbose : Bool
  debug : Bool
  output : Option String

/-- What a check comes to before any of it is shown. -/
inductive Conclusion
  | failed (why : Failure)
  | skipped (e : Push.Event) (branches : List String)
  | scanned (fs : List Fragment)
  | audited (o : Push.Outcome)

namespace Conclusion

def code : Conclusion → Nat
  | failed _ => 2
  | skipped _ _ => 0
  | scanned fs => if (Report.ofFragments fs).passed then 0 else 1
  | audited o => if o.report.passed then 0 else 1

def ending (color : Bool) (f : Format) : Conclusion → Ending
  | failed why => .failed color why
  | skipped e branches => ⟨0, Console.printSkipped color f e.ref branches⟩
  | scanned fs => Command.scanned color f fs
  | audited o => .ofVerdict o.report.passed (Console.printOutcome color f o)

theorem code_ending (color : Bool) (f : Format) (x : Conclusion) : (x.ending color f).code = x.code := by
  cases x <;> rfl

end Conclusion

namespace Check

def command (output : Option String) : Check → Command
  | scan patterns name repoRoot => .scan patterns name repoRoot output
  | push event commitsDir repoRoot => .push event commitsDir repoRoot output

def invocation (c : Check) (m : Manner) : Invocation := ⟨m.verbose, m.debug, c.command m.output⟩

def overrides (output : Option String) : Check → Overrides
  | scan _ _ repoRoot => ⟨repoRoot, output, none⟩
  | push _ commitsDir repoRoot => ⟨repoRoot, output, commitsDir⟩

variable (answer : (q : Host.Question) → Host.Answer q)

def ending (c : Check) (m : Manner) : Ending := ((c.invocation m).run m.color).value answer

def settings (c : Check) (output : Option String) : Settings :=
  (Settings.resolve (c.overrides output)).value answer

def format (c : Check) (m : Manner) : Format := .ofName (c.settings answer m.output).output

def Blocked (c : Check) : Prop :=
  match c with
  | scan patterns _ _ => Diff.Blocked answer (c.settings answer none).root patterns
  | push event _ _ => Push.Event.Blocked answer ⟨event⟩

inductive Unwatched : Check → Prop
  | push {event : String} {commitsDir repoRoot : Option String} {e : Push.Event} (he : e.IsAt answer ⟨event⟩)
      (h : Push.branchName e.ref ∉ (settings answer (.push event commitsDir repoRoot) none).branches) :
      Unwatched (.push event commitsDir repoRoot)

def conclusion (c : Check) : Conclusion :=
  let s := c.settings answer none
  match c with
  | scan patterns name _ =>
    match result answer (Diff.ofArguments s.root patterns name) with
    | .error why => .failed why
    | .ok fs => .scanned fs
  | push event _ _ =>
    match result answer (Push.Event.ofFile ⟨event⟩) with
    | .error why => .failed why
    | .ok e =>
      match s.audit answer e with
      | none => .skipped e s.branches
      | some o => .audited o

/-- The report of a check whose input could be loaded and whose branch, if any, is watched. -/
inductive Reports : Check → Report → Prop
  | scan {patterns : List String} {name repoRoot : Option String} {fs : List Fragment}
      (h : result answer
        (Diff.ofArguments (settings answer (.scan patterns name repoRoot) none).root patterns name) = .ok fs) :
      Reports (.scan patterns name repoRoot) (.ofFragments fs)
  | push {event : String} {commitsDir repoRoot : Option String} {e : Push.Event} {o : Push.Outcome}
      (he : e.IsAt answer ⟨event⟩)
      (ho : (settings answer (.push event commitsDir repoRoot) none).audit answer e = some o) :
      Reports (.push event commitsDir repoRoot) o.report

/-- Output of a check that gives the verdict of a report wherever it gives one. -/
inductive Shows (r : Report) (f : Format) (out : String) : Check → Prop
  | scan {patterns : List String} {name repoRoot : Option String} (h : Console.StatesScan r f out) :
      Shows r f out (.scan patterns name repoRoot)
  | push {event : String} {commitsDir repoRoot : Option String} {i : Issue} (hi : i.Coherent r)
      (h : Console.StatesPush r i f out) : Shows r f out (.push event commitsDir repoRoot)

variable {answer}

theorem settings_output (answer : (q : Host.Question) → Host.Answer q) (c : Check) (output : Option String) :
    c.settings answer output = { c.settings answer none with output := (c.settings answer output).output } := by
  cases c <;>
    simp only [settings, overrides, Settings.resolve, Script.value_bind, Script.value_pure, Settings.merge]

theorem ending_eq (c : Check) (m : Manner) :
    c.ending answer m = (c.conclusion answer).ending m.color (c.format answer m) := by
  have hrun : c.ending answer m = ((c.command m.output).run m.color).value answer := by
    rw [ending, invocation, Invocation.run, Script.value_bind]
  have hs := settings_output answer c m.output
  rw [hrun, format]
  cases c with
  | scan patterns name repoRoot =>
      let c := Check.scan patterns name repoRoot
      have hresolve : (Settings.resolve ⟨repoRoot, m.output, none⟩).value answer =
          c.settings answer m.output := rfl
      rw [command, Command.run, Command.runScan, Script.value_bind, hresolve, hs, conclusion, Script.value_bind,
        ← result]
      cases result answer (Diff.ofArguments (c.settings answer none).root patterns name) with
      | error why => rfl
      | ok fs => rfl
  | push event commitsDir repoRoot =>
      let c := Check.push event commitsDir repoRoot
      have hresolve : (Settings.resolve ⟨repoRoot, m.output, commitsDir⟩).value answer =
          c.settings answer m.output := rfl
      rw [command, Command.run, Command.runPush, Script.value_bind, hresolve, hs, conclusion, Script.value_bind,
        ← result]
      cases result answer (Push.Event.ofFile ⟨event⟩) with
      | error why => rfl
      | ok e =>
          dsimp only
          rw [Script.value_bind, Script.value_bind, Script.value_pure, ← Settings.audit]
          cases (c.settings answer none).audit answer e with
          | none => rfl
          | some o => rfl

theorem code_ending (c : Check) (m : Manner) : (c.ending answer m).code = (c.conclusion answer).code := by
  rw [ending_eq, Conclusion.code_ending]

/-- What a check comes to fits its input. -/
inductive Sound (answer : (q : Host.Question) → Host.Answer q) : Check → Conclusion → Prop
  | failed {c : Check} {why : Failure} (h : c.Blocked answer) : Sound answer c (.failed why)
  | skipped {c : Check} {e : Push.Event} {branches : List String} (hb : ¬ c.Blocked answer)
      (h : c.Unwatched answer) : Sound answer c (.skipped e branches)
  | scanned {patterns : List String} {name repoRoot : Option String} {fs : List Fragment}
      (hb : ¬ Blocked answer (.scan patterns name repoRoot))
      (hr : Reports answer (.scan patterns name repoRoot) (.ofFragments fs)) :
      Sound answer (.scan patterns name repoRoot) (.scanned fs)
  | audited {event : String} {commitsDir repoRoot : Option String} {o : Push.Outcome}
      (hb : ¬ Blocked answer (.push event commitsDir repoRoot))
      (hw : ¬ Unwatched answer (.push event commitsDir repoRoot))
      (hr : Reports answer (.push event commitsDir repoRoot) o.report)
      (hreport : o.report.Coherent) (hissue : o.issue.Coherent o.report) :
      Sound answer (.push event commitsDir repoRoot) (.audited o)

theorem sound_scan (patterns : List String) (name repoRoot : Option String) :
    Sound answer (.scan patterns name repoRoot) (conclusion answer (.scan patterns name repoRoot)) := by
  let c := Check.scan patterns name repoRoot
  have hf : Fails answer (Diff.ofArguments (c.settings answer none).root patterns name) ↔ c.Blocked answer :=
    Diff.fails_ofArguments_iff _ patterns name
  rw [conclusion]
  cases hr : result answer (Diff.ofArguments (c.settings answer none).root patterns name) with
  | error why => exact .failed (hf.mp ⟨why, hr⟩)
  | ok fs =>
      have hb : ¬ c.Blocked answer := by
        rw [← hf, Attempt.not_fails_iff]
        exact ⟨fs, hr⟩
      exact .scanned hb (.scan hr)

theorem sound_push (event : String) (commitsDir repoRoot : Option String) :
    Sound answer (.push event commitsDir repoRoot) (conclusion answer (.push event commitsDir repoRoot)) := by
  rw [conclusion]
  obtain hb | ⟨e, he⟩ := Push.Event.blocked_or_isAt answer ⟨event⟩
  · obtain ⟨why, hr⟩ := hb.fails
    rw [hr]
    exact .failed hb
  · rw [he.result_eq]
    have hb : ¬ Blocked answer (.push event commitsDir repoRoot) := he.not_blocked
    by_cases hw : Push.branchName e.ref ∈ (settings answer (.push event commitsDir repoRoot) none).branches
    · obtain ⟨found, ho⟩ := Settings.audit_watched answer hw
      have hwatched : ¬ Unwatched answer (.push event commitsDir repoRoot) := by
        rintro ⟨he', hw'⟩
        rw [he'.unique he] at hw'
        exact hw' hw
      simp only [ho]
      exact .audited hb hwatched (.push he ho) (Report.coherent_ofViolations _) (Report.coherent_issue _ _)
    · simp only [Settings.audit_unwatched answer hw]
      exact .skipped hb (.push he hw)

theorem sound_conclusion (answer : (q : Host.Question) → Host.Answer q) (c : Check) :
    c.Sound answer (c.conclusion answer) := by
  cases c with
  | scan patterns name repoRoot => exact sound_scan patterns name repoRoot
  | push event commitsDir repoRoot => exact sound_push event commitsDir repoRoot

theorem Unwatched.not_blocked {c : Check} (h : c.Unwatched answer) : ¬ c.Blocked answer := by
  cases h with
  | push he hw => exact he.not_blocked

section

variable {c : Check} {x : Conclusion}

theorem Sound.code_eq_two_iff (h : c.Sound answer x) : x.code = 2 ↔ c.Blocked answer := by
  cases h with
  | failed hb => exact iff_of_true rfl hb
  | skipped hb hw => exact iff_of_false (by simp [Conclusion.code]) hb
  | @scanned _ _ _ fs hb hr =>
      refine iff_of_false ?_ hb
      cases h : (Report.ofFragments fs).passed <;> simp [Conclusion.code, h]
  | @audited _ _ _ o hb hw hr hreport hissue =>
      refine iff_of_false ?_ hb
      cases h : o.report.passed <;> simp [Conclusion.code, h]

theorem Sound.code_of_unwatched (h : c.Sound answer x) (hw : c.Unwatched answer) : x.code = 0 := by
  cases h with
  | failed hb => exact absurd hb hw.not_blocked
  | skipped hb hw => rfl
  | scanned hb hr => nomatch hw
  | audited hb hw' hr hreport hissue => exact absurd hw hw'

theorem Sound.exists_report (h : c.Sound answer x) (hb : ¬ c.Blocked answer) (hw : ¬ c.Unwatched answer)
    (color : Bool) (f : Format) :
    ∃ r : Report, c.Reports answer r ∧ r.Coherent ∧ x.code = (if r.violations = [] then 0 else 1) ∧
      c.Shows r f (x.ending color f).printed.out := by
  cases h with
  | failed hb' => exact absurd hb' hb
  | skipped hb' hw' => exact absurd hw' hw
  | @scanned _ _ _ fs hb' hr =>
      have hc : (Report.ofFragments fs).Coherent := Report.coherent_ofViolations _
      exact ⟨_, hr, hc, if_congr hc.passed_iff_nil rfl rfl,
        .scan (Console.statesScan_printReport color f _ fs.length)⟩
  | @audited _ _ _ o hb' hw' hr hreport hissue =>
      exact ⟨_, hr, hreport, if_congr hreport.passed_iff_nil rfl rfl,
        .push hissue (Console.statesPush_printOutcome color f o)⟩

end

/-- A check ends with 2 exactly if its input cannot be loaded, and with 0 if it is about a branch that
is not watched. Otherwise it ends with 1 if its report has a violation and with 0 if not, and all
that it prints says the same. The manner does not change how it ends, and the log level does not
change what it prints to the standard output. -/
theorem verdict_agrees (answer : (q : Host.Question) → Host.Answer q) (c : Check) (m : Manner) :
    let run (m : Manner) : Ending := c.ending answer m
    ((run m).code = 2 ↔ c.Blocked answer) ∧
      (c.Unwatched answer → (run m).code = 0) ∧
      (¬ c.Blocked answer → ¬ c.Unwatched answer → ∃ r : Report,
        c.Reports answer r ∧ r.Coherent ∧ (run m).code = (if r.violations = [] then 0 else 1) ∧
          c.Shows r (c.format answer m) (run m).printed.out) ∧
      (∀ m' : Manner, (run m').code = (run m).code) ∧
      ∀ verbose debug : Bool, (run { m with verbose, debug }).printed.out = (run m).printed.out := by
  intro run
  have hcode (m : Manner) : (run m).code = (c.conclusion answer).code := code_ending c m
  have hsound := sound_conclusion answer c
  refine ⟨?_, ?_, ?_, ?_, ?_⟩
  · rw [hcode]
    exact hsound.code_eq_two_iff
  · rw [hcode]
    exact hsound.code_of_unwatched
  · intro hb hw
    have hr := hsound.exists_report hb hw m.color (c.format answer m)
    rwa [← hcode m, ← ending_eq] at hr
  · intro m'
    rw [hcode, hcode]
  · intro verbose debug
    simp only [run, ending_eq]
    rfl

/-- A diff on the standard input, once unreadable and once with a violation. -/
theorem verdict_agrees_on_input :
    let host (input : Except Host.Fault ByteArray) : (q : Host.Question) → Host.Answer q := fun
      | .input => input
      | .read _ => .error .notFound
      | .kind _ => none
      | .entries _ => none
      | .subtree _ => none
    let c := Check.scan [] (some "a.js") none
    let m : Manner := ⟨true, false, true, some "json"⟩
    let h := host (.ok "+eval(x)\n".toUTF8)
    (c.ending (host (.error .isDirectory)) m).code = 2 ∧ (c.ending h m).code = 1 ∧
      ∃ r, c.Reports h r ∧ r.violations ≠ [] ∧ c.Shows r .json (c.ending h m).printed.out := by
  intro host c m h
  obtain ⟨hfailed, -⟩ := verdict_agrees (host (.error .isDirectory)) c m
  obtain ⟨htwo, -, hreport, -⟩ := verdict_agrees h c m
  have hone : (c.ending h m).code = 1 := by decide +kernel
  have hb : ¬ c.Blocked h := by
    rw [← htwo, hone]
    decide
  have hw : ¬ Unwatched h (.scan [] (some "a.js") none) := nofun
  obtain ⟨r, hr, -, hcode, hshows⟩ := hreport hb hw
  have hjson : c.format h m = .json := by decide +kernel
  refine ⟨hfailed.mpr (.input (.fault _)), hone, r, hr, ?_, hjson ▸ hshows⟩
  intro hnil
  rw [if_pos hnil, hone] at hcode
  contradiction

end Check

end PushAudit
