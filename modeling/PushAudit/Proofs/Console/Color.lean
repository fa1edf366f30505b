import PushAudit.Proofs.Console.Document
import PushAudit.Proofs.Json.Shown
import PushAudit.Proofs.Report.Layout

namespace PushAudit

namespace Console

def isParameter (c : Char) : Bool := c.isDigit || c == ';'

/-- A control sequence: the escape character, a bracket, digits and semicolons, and an m. -/
inductive IsSequence : List Char → Prop
  | mk {ps : List Char} (h : ∀ c ∈ ps, isParameter c) : IsSequence ('\x1b' :: '[' :: (ps ++ ['m']))

def afterSequence? : List Char → Option (List Char)
  | '\x1b' :: '[' :: rest =>
    match rest.dropWhile isParameter with
    | 'm' :: after => some after
    | _ => none
  | _ => none

theorem dropWhile_isParameter {ps : List Char} (h : ∀ c ∈ ps, isParameter c) (rest : List Char) :
    (ps ++ 'm' :: rest).dropWhile isParameter = 'm' :: rest := by
  rw [List.dropWhile_append_of_pos h]
  exact List.dropWhile_cons_of_neg (by decide)

theorem afterSequence?_eq_some_iff {text rest : List Char} :
    afterSequence? text = some rest ↔ ∃ w, IsSequence w ∧ text = w ++ rest := by
  constructor
  · intro h
    unfold afterSequence? at h
    split at h
    case h_1 inner =>
      split at h
      case h_1 after hinner =>
        obtain rfl := Option.some.inj h
        refine ⟨_, @IsSequence.mk (inner.takeWhile isParameter) (List.all_eq_true.mp List.all_takeWhile), ?_⟩
        have hsplit : inner.takeWhile isParameter ++ inner.dropWhile isParameter = inner :=
          List.takeWhile_append_dropWhile
        rw [hinner] at hsplit
        simp [hsplit]
      case h_2 => contradiction
    case h_2 => contradiction
  · rintro ⟨_, ⟨h⟩, rfl⟩
    simp [afterSequence?, dropWhile_isParameter h]

theorem length_lt_of_afterSequence? {text rest : List Char} (h : afterSequence? text = some rest) :
    rest.length < text.length := by
  obtain ⟨_, ⟨-⟩, rfl⟩ := afterSequence?_eq_some_iff.mp h
  simp only [List.cons_append, List.length_cons, List.length_append]
  omega

/-- What is left of a text without its control sequences. -/
def strip : List Char → List Char
  | [] => []
  | c :: cs =>
    match _h : afterSequence? (c :: cs) with
    | some after => strip after
    | none => c :: strip cs
termination_by text => text.length
decreasing_by
  · exact length_lt_of_afterSequence? _h
  · exact Nat.lt_succ_self _

theorem strip_sequence_append {w : List Char} (hw : IsSequence w) (rest : List Char) :
    strip (w ++ rest) = strip rest := by
  have hafter : afterSequence? (w ++ rest) = some rest := afterSequence?_eq_some_iff.mpr ⟨w, hw, rfl⟩
  obtain ⟨h⟩ := hw
  rw [List.cons_append] at hafter ⊢
  rw [strip]
  split
  case h_1 after h' => rw [Option.some.inj (h'.symm.trans hafter)]
  case h_2 h' =>
    rw [hafter] at h'
    contradiction

theorem strip_cons {c : Char} (hc : c ≠ '\x1b') (cs : List Char) : strip (c :: cs) = c :: strip cs := by
  rw [strip]
  split
  case h_1 after h =>
    obtain ⟨_, ⟨-⟩, hcs⟩ := afterSequence?_eq_some_iff.mp h
    exact absurd (List.cons.inj hcs).1 hc
  case h_2 => rfl

def IsUncolored (s : String) : Prop := '\x1b' ∉ s.toList

instance : DecidablePred IsUncolored := fun s => inferInstanceAs (Decidable ('\x1b' ∉ s.toList))

theorem strip_uncolored_append {cs : List Char} (h : '\x1b' ∉ cs) (rest : List Char) :
    strip (cs ++ rest) = cs ++ strip rest := by
  induction cs with
  | nil => rfl
  | cons c cs ih =>
      rw [List.mem_cons, not_or] at h
      rw [List.cons_append, strip_cons (Ne.symm h.1), ih h.2, List.cons_append]

/-- The first text, colored, is the second, plain, whatever follows. -/
def Decorates (colored plain : String) : Prop :=
  ∀ rest, strip (colored.toList ++ rest) = plain.toList ++ strip rest

section

variable {s t s' t' : String}

theorem IsUncolored.decorates (h : IsUncolored s) : Decorates s s := strip_uncolored_append h

theorem Decorates.append (h : Decorates s t) (h' : Decorates s' t') : Decorates (s ++ s') (t ++ t') := by
  intro rest
  rw [String.toList_append, String.toList_append, List.append_assoc, h, h', List.append_assoc]

theorem Decorates.strip_eq (h : Decorates s t) : strip s.toList = t.toList := by
  have h' := h []
  rwa [List.append_nil, strip, List.append_nil] at h'

theorem decorates_sgr (code : String) (h : code.toList.all isParameter) : Decorates (sgr code) "" := by
  intro rest
  have hcode : (sgr code).toList = '\x1b' :: '[' :: (code.toList ++ ['m']) := by
    simp [sgr]
  rw [hcode, strip_sequence_append (.mk (List.all_eq_true.mp h))]
  rfl

theorem Decorates.paint (h : Decorates s t) (c : Color) : Decorates (c.paint s) t := by
  have hcode : Decorates (sgr c.code) "" := decorates_sgr _ (by cases c <;> decide)
  have hpainted := (hcode.append h).append (decorates_sgr "39" (by decide))
  rwa [String.empty_append, String.append_empty] at hpainted

theorem Decorates.bold (h : Decorates s t) : Decorates (bold s) t := by
  have hbold := ((decorates_sgr "1" (by decide)).append h).append (decorates_sgr "0" (by decide))
  rwa [String.empty_append, String.append_empty] at hbold

theorem decorates_line (h : Decorates s t) : Decorates (line s) (line t) :=
  h.append (IsUncolored.decorates (by decide : IsUncolored "\n"))

theorem decorates_join {α : Type} {f g : α → String} {as : List α} (h : ∀ a ∈ as, Decorates (f a) (g a)) :
    Decorates (String.join (as.map f)) (String.join (as.map g)) := by
  intro rest
  rw [String.toList_join, String.toList_join]
  induction as with
  | nil => rfl
  | cons a as ih =>
      obtain ⟨ha, has⟩ := List.forall_mem_cons.mp h
      simp only [List.map_cons, List.flatMap_cons, List.append_assoc]
      rw [ha, ih has]

end

section

variable {s t : String}

theorem IsUncolored.append (hs : IsUncolored s) (ht : IsUncolored t) : IsUncolored (s ++ t) := by
  rw [IsUncolored, String.toList_append]
  exact List.not_mem_append hs ht

theorem isUncolored_of_isShown (h : Json.IsShown s.toList) : IsUncolored s := fun hm =>
  absurd (h _ hm) (by decide)

theorem isUncolored_toString (n : Nat) : IsUncolored (toString n) := isUncolored_of_isShown (Json.isShown_digits n)

theorem isUncolored_intercalate {separator : String} (hs : IsUncolored separator) {ss : List String}
    (h : ∀ s ∈ ss, IsUncolored s) : IsUncolored (separator.intercalate ss) := by
  induction ss with
  | nil => exact List.not_mem_nil
  | cons s ss ih =>
      obtain ⟨hfirst, hrest⟩ := List.forall_mem_cons.mp h
      cases ss with
      | nil =>
          rw [String.intercalate_singleton]
          exact hfirst
      | cons s' ss =>
          rw [String.intercalate_cons_cons]
          exact (hfirst.append hs).append (ih hrest)

def HasSequence (s : String) : Prop := ∃ w, IsSequence w ∧ w <:+: s.toList

theorem IsUncolored.not_hasSequence (h : IsUncolored s) : ¬ HasSequence s := by
  rintro ⟨_, ⟨-⟩, hi⟩
  exact h (hi.subset (.head _))

end

end Console

structure Report.IsUncolored (r : Report) : Prop where
  summary : Console.IsUncolored r.summary
  file : ∀ v ∈ r.violations, Console.IsUncolored v.file
  issue : ∀ v ∈ r.violations, Console.IsUncolored v.issue

structure Push.Outcome.IsUncolored (o : Push.Outcome) : Prop where
  title : Console.IsUncolored o.issue.title
  body : Console.IsUncolored o.issue.body
  labels : ∀ label ∈ o.issue.labels, Console.IsUncolored label
  failed : ∀ id ∈ o.failed, Console.IsUncolored id

namespace Console

def Printed.stripped (p : Printed) : Printed := ⟨String.ofList (strip p.out.toList), String.ofList (strip p.err.toList)⟩

theorem stripped_eq {out err out' err' : String} (hout : Decorates out out') (herr : Decorates err err') :
    (Printed.mk out err).stripped = ⟨out', err'⟩ := by
  rw [Printed.stripped, hout.strip_eq, herr.strip_eq, String.ofList_toList, String.ofList_toList]

theorem decorates_empty : Decorates "" "" := IsUncolored.decorates (by decide)

theorem decorates_severityTag (s : Severity) : Decorates (severityTag true s) (severityTag false s) := by
  have hname : IsUncolored ("⟦" ++ s.name ++ "⟧") := by cases s <;> decide +kernel
  exact (hname.decorates.paint _).bold

theorem decorates_severityIcon (s : Severity) : Decorates (severityIcon true s) (severityIcon false s) := by
  cases s with
  | high => exact Decorates.paint (IsUncolored.decorates (by decide)) _
  | medium => exact Decorates.paint (IsUncolored.decorates (by decide)) _
  | low => exact Decorates.paint (IsUncolored.decorates (by decide)) _

theorem decorates_violationLine {v : Violation} (hf : IsUncolored v.file) (hi : IsUncolored v.issue) :
    Decorates (violationLine true v) (violationLine false v) := by
  have hspace : Decorates " " " " := IsUncolored.decorates (by decide)
  have hdash : Decorates " — " " — " := IsUncolored.decorates (by decide)
  have hmarks := ((decorates_severityIcon v.severity).append hspace).append (decorates_severityTag v.severity)
  exact decorates_line ((((hmarks.append hspace).append hf.decorates.bold).append hdash).append hi.decorates)

theorem decorates_summaryLine {r : Report} (h : IsUncolored r.summary) (files : Nat) :
    Decorates (summaryLine true r files) (summaryLine false r files) := by
  have hlabel : IsUncolored "— Summary — " := by decide
  have hfiles : IsUncolored " files=" := by decide
  have htext := ((hlabel.append h).append hfiles).append (isUncolored_toString files)
  exact decorates_line htext.decorates.bold

theorem decorates_failedLine {failed : List String} (h : ∀ id ∈ failed, IsUncolored id) :
    Decorates (failedLine true failed) (failedLine false failed) := by
  rw [failedLine, failedLine]
  split
  case isTrue => exact decorates_empty
  case isFalse =>
    have hlabel : IsUncolored "skipped commits: " := by decide
    have htext := hlabel.append (isUncolored_intercalate (by decide : IsUncolored ", ") h)
    exact decorates_line (htext.decorates.paint .yellow)

theorem decorates_noteTag : Decorates (noteTag true) (noteTag false) :=
  ((IsUncolored.decorates (by decide : IsUncolored "note:")).paint .cyan).bold

theorem decorates_errorTag : Decorates (errorTag true) (errorTag false) :=
  ((IsUncolored.decorates (by decide : IsUncolored "error:")).paint .red).bold

theorem isUncolored_documentLine {j : Json} (h : j.IsWhole) : IsUncolored (documentLine j).out :=
  (isUncolored_of_isShown (h.isShown_printAt 0)).append (by decide)

theorem stripped_documentLine {j : Json} (h : j.IsWhole) : (documentLine j).stripped = documentLine j :=
  stripped_eq (isUncolored_documentLine h).decorates decorates_empty

theorem stripped_printReport (f : Format) {r : Report} (h : r.IsUncolored) (files : Nat) :
    (printReport true f r files).stripped = printReport false f r files := by
  cases f with
  | json => exact stripped_documentLine (r.isWhole_document files)
  | human =>
      have hlines := decorates_join fun v hv => decorates_violationLine (h.file v hv) (h.issue v hv)
      exact stripped_eq (hlines.append (decorates_summaryLine h.summary files)) decorates_empty

theorem stripped_printOutcome (f : Format) {o : Push.Outcome} (h : o.IsUncolored) :
    (printOutcome true f o).stripped = printOutcome false f o := by
  cases f with
  | json => exact stripped_documentLine o.isWhole_document
  | human =>
      have htitle := decorates_line h.title.decorates.bold
      have hlabel : IsUncolored "labels: " := by decide
      have hlabels := hlabel.append (isUncolored_intercalate (by decide : IsUncolored ", ") h.labels)
      have hhead := (htitle.append (decorates_line hlabels.decorates)).append (decorates_failedLine h.failed)
      exact stripped_eq ((hhead.append (decorates_line decorates_empty)).append h.body.decorates) decorates_empty

theorem stripped_printSkipped (f : Format) {ref : String} {branches : List String} (hr : IsUncolored ref)
    (hb : ∀ b ∈ branches, IsUncolored b) :
    (printSkipped true f ref branches).stripped = printSkipped false f ref branches := by
  cases f with
  | json => exact stripped_documentLine (Push.isWhole_skippedDocument ref branches)
  | human =>
      have hpush : Decorates " Push to '" " Push to '" := IsUncolored.decorates (by decide)
      have hskipped : Decorates "' skipped; watched branches: " "' skipped; watched branches: " :=
        IsUncolored.decorates (by decide)
      have hbranches := (isUncolored_intercalate (by decide : IsUncolored ", ") hb).decorates
      have hnote := (decorates_noteTag.append hpush).append hr.decorates
      exact stripped_eq decorates_empty (decorates_line ((hnote.append hskipped).append hbranches))

/-- Color is only decoration. Without its control sequences all that is printed in color is what is printed
plain, on either stream. No control sequence at all is printed in a document, not even one that a text
in it holds. -/
theorem color_stripped :
    (∀ (mode : String) (r : Report) (files : Nat), r.IsUncolored →
      (printReport true (.ofName mode) r files).stripped = printReport false (.ofName mode) r files) ∧
    (∀ (mode : String) (o : Push.Outcome), o.IsUncolored →
      (printOutcome true (.ofName mode) o).stripped = printOutcome false (.ofName mode) o) ∧
    (∀ (mode ref : String) (branches : List String), IsUncolored ref → (∀ b ∈ branches, IsUncolored b) →
      (printSkipped true (.ofName mode) ref branches).stripped = printSkipped false (.ofName mode) ref branches) ∧
    (strip (errorTag true).toList = (errorTag false).toList ∧
      strip (noteTag true).toList = (noteTag false).toList) ∧
    (∀ color r files, ¬ HasSequence (printReport color (.ofName "json") r files).out) ∧
    (∀ color o, ¬ HasSequence (printOutcome color (.ofName "json") o).out) ∧
    ∀ color ref branches, ¬ HasSequence (printSkipped color (.ofName "json") ref branches).out := by
  refine ⟨fun mode r files h => stripped_printReport _ h files, fun mode o h => stripped_printOutcome _ h,
    fun mode ref branches hr hb => stripped_printSkipped _ hr hb,
    ⟨decorates_errorTag.strip_eq, decorates_noteTag.strip_eq⟩, fun color r files => ?_, fun color o => ?_,
    fun color ref branches => ?_⟩
  · exact (isUncolored_documentLine (r.isWhole_document files)).not_hasSequence
  · exact (isUncolored_documentLine o.isWhole_document).not_hasSequence
  · exact (isUncolored_documentLine (Push.isWhole_skippedDocument ref branches)).not_hasSequence

/-- A file whose name looks like the end of a control sequence. -/
def bracketedReport : Report := .ofViolations [⟨"[31m;0m", "Unsafe eval() usage detected", .high⟩]

theorem isUncolored_bracketedReport : bracketedReport.IsUncolored := by
  refine ⟨by decide +kernel, ?_, ?_⟩
  · exact List.forall_mem_singleton.mpr (by decide)
  · exact List.forall_mem_singleton.mpr (by decide)

def bracketedOutcome : Push.Outcome :=
  ⟨⟨"acme", "app"⟩, bracketedReport, bracketedReport.issue ⟨"0[1m", "two\nlines", "Ada"⟩, ["1;m", "x"]⟩

theorem isUncolored_bracketedOutcome : bracketedOutcome.IsUncolored := by
  refine ⟨by decide +kernel, ?_, by decide, by decide⟩
  -- Row by row, since the text of the body as a whole is long to evaluate.
  have hbody : bracketedOutcome.issue.body.toList = _ := Report.toList_body bracketedReport _
  rw [IsUncolored, hbody]
  decide +kernel

theorem color_stripped_bracketed :
    (printReport true .human bracketedReport 1).stripped =
      ⟨"✖ ⟦high⟧ [31m;0m — Unsafe eval() usage detected\n" ++
        "— Summary — ❌ Found 1 violation(s): 1 high, 0 medium, 0 low files=1\n", ""⟩ ∧
    (printOutcome true .human bracketedOutcome).stripped = printOutcome false .human bracketedOutcome ∧
    (printSkipped true .human "refs/heads/[m" ["main", "1;m"]).stripped =
      ⟨"", "note: Push to 'refs/heads/[m' skipped; watched branches: main, 1;m\n"⟩ := by
  obtain ⟨hreport, houtcome, hskipped, -⟩ := color_stripped
  refine ⟨?_, houtcome "human" _ isUncolored_bracketedOutcome, ?_⟩
  · exact (hreport "human" _ 1 isUncolored_bracketedReport).trans (by decide +kernel)
  · exact (hskipped "human" "refs/heads/[m" ["main", "1;m"] (by decide) (by decide)).trans (by decide +kernel)

end Console

end PushAudit
