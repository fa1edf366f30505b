import PushAudit.Diff.Source
import PushAudit.Proofs.Host.Content

namespace PushAudit.Diff

open Attempt (Fails result)
open Host (Unreadable)

inductive PatternBlocked (answer : (q : Host.Question) → Host.Answer q) (root : Path) (pattern : String) : Prop
  | malformed {why : Glob.Error} (h : Glob.Pattern.read (root.join ⟨pattern⟩).text = .error why)
  | unmatched {g : Glob.Pattern} (h : Glob.Pattern.read (root.join ⟨pattern⟩).text = .ok g)
      (hnone : ∀ p ∈ g.expand.value answer, Host.kindAt answer p ≠ some .file)
  | unreadable {g : Glob.Pattern} {p : Path} (h : Glob.Pattern.read (root.join ⟨pattern⟩).text = .ok g)
      (hp : p ∈ g.expand.value answer) (hfile : Host.kindAt answer p = some .file)
      (hread : Unreadable (Host.contentAt answer p))

/-- What keeps the input of a scan from being loaded. -/
inductive Blocked (answer : (q : Host.Question) → Host.Answer q) (root : Path) : List String → Prop
  | input (h : Unreadable (Host.inputContent answer)) : Blocked answer root []
  | pattern {patterns : List String} {pattern : String} (hp : pattern ∈ patterns)
      (h : PatternBlocked answer root pattern) : Blocked answer root patterns

variable {answer : (q : Host.Question) → Host.Answer q}

theorem fails_ofFile_iff (root : Path) (name : Option String) (p : Path) :
    Fails answer (ofFile root name p) ↔ Unreadable (Host.contentAt answer p) := by
  rw [Host.unreadable_iff, ← Host.value_readText, ofFile, Attempt.fails_lift_bind_iff]
  cases (Host.readText p).value answer with
  | error why => simp
  | ok text => simp

theorem fails_gather_iff {α : Type} (read : α → Attempt (List Fragment)) (as : List α) :
    Fails answer (gather read as) ↔ ∃ a ∈ as, Fails answer (read a) := by
  induction as with
  | nil => simp [gather]
  | cons a as ih =>
      rw [gather, Attempt.fails_bind_iff]
      simp only [bind_pure_comp, Attempt.fails_map_iff, ih, List.mem_cons, exists_eq_or_imp]
      cases h : result answer (read a) with
      | error why => simp [Fails, h]
      | ok fs => simp [Fails, h]

section

variable {root : Path} {pattern : String} {g : Glob.Pattern}

theorem result_matchedFiles (answer : (q : Host.Question) → Host.Answer q)
    (h : Glob.Pattern.read (root.join ⟨pattern⟩).text = .ok g) :
    let files := (g.expand.value answer).filter fun p => Host.kindAt answer p == some .file
    result answer (matchedFiles root pattern) =
      if files.isEmpty then .error (.noMatch pattern) else .ok (Path.sort files) := by
  intro files
  have hfiles := Attempt.result_filterM answer (fun p => Host.isFile p) (g.expand.value answer)
  simp only [Host.value_isFile] at hfiles
  rw [matchedFiles, h]
  simp only [Attempt.result_bind, Attempt.result_lift, Except.bind, hfiles]
  split <;> rfl

theorem fails_matchedFiles_iff (h : Glob.Pattern.read (root.join ⟨pattern⟩).text = .ok g) :
    Fails answer (matchedFiles root pattern) ↔
      ∀ p ∈ g.expand.value answer, Host.kindAt answer p ≠ some .file := by
  rw [Fails, result_matchedFiles answer h]
  split
  · next hnone => simpa using hnone
  · next hsome => simpa using hsome

theorem mem_matchedFiles_iff (h : Glob.Pattern.read (root.join ⟨pattern⟩).text = .ok g) {files : List Path}
    (hr : result answer (matchedFiles root pattern) = .ok files) (p : Path) :
    p ∈ files ↔ p ∈ g.expand.value answer ∧ Host.kindAt answer p = some .file := by
  rw [result_matchedFiles answer h] at hr
  split at hr
  · contradiction
  · cases hr
    rw [Path.sort, List.mem_mergeSort, List.mem_filter, beq_iff_eq]

end

theorem fails_ofPattern_iff (root : Path) (name : Option String) (pattern : String) :
    Fails answer (ofPattern root name pattern) ↔ PatternBlocked answer root pattern := by
  rw [ofPattern, Attempt.fails_bind_iff]
  simp only [fails_gather_iff, fails_ofFile_iff]
  constructor
  · intro hf
    cases h : Glob.Pattern.read (root.join ⟨pattern⟩).text with
    | error why => exact .malformed h
    | ok g =>
        obtain hnone | ⟨files, hr, p, hp, hread⟩ := hf
        · exact .unmatched h ((fails_matchedFiles_iff h).mp hnone)
        · obtain ⟨hmem, hfile⟩ := (mem_matchedFiles_iff h hr p).mp hp
          exact .unreadable h hmem hfile hread
  · rintro (h | ⟨h, hnone⟩ | ⟨h, hp, hfile, hread⟩)
    · left
      rw [matchedFiles, h]
      exact Attempt.fails_throw answer _
    · exact .inl ((fails_matchedFiles_iff h).mpr hnone)
    · by_cases hm : Fails answer (matchedFiles root pattern)
      · exact .inl hm
      · obtain ⟨files, hr⟩ := (Attempt.not_fails_iff answer _).mp hm
        exact .inr ⟨files, hr, _, (mem_matchedFiles_iff h hr _).mpr ⟨hp, hfile⟩, hread⟩

theorem fails_ofArguments_iff (root : Path) (patterns : List String) (name : Option String) :
    Fails answer (ofArguments root patterns name) ↔ Blocked answer root patterns := by
  cases patterns with
  | nil =>
      have hf : Fails answer (ofInput (name.getD "stdin")) ↔ Unreadable (Host.inputContent answer) := by
        rw [Host.unreadable_iff, ← Host.value_inputText, ofInput, Attempt.fails_lift_bind_iff]
        cases Host.inputText.value answer with
        | error why => simp
        | ok text => simp
      refine hf.trans ⟨.input, ?_⟩
      rintro (h | ⟨hp, -⟩)
      · exact h
      · cases hp
  | cons pattern patterns =>
      have hf : Fails answer (ofPatterns root (pattern :: patterns) name) ↔
          ∃ p ∈ pattern :: patterns, PatternBlocked answer root p := by
        simp only [ofPatterns, fails_gather_iff, fails_ofPattern_iff]
      refine hf.trans ⟨fun ⟨p, hp, h⟩ => .pattern hp h, ?_⟩
      rintro (_ | ⟨hp, h⟩)
      exact ⟨_, hp, h⟩

end PushAudit.Diff
