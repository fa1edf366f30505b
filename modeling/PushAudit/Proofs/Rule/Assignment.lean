import PushAudit.Proofs.Rule.Quoted

namespace PushAudit.Rule

def IsLink (c : Char) : Prop := Text.IsBlank c ∨ c ∈ [':', '='] ∨ c ∈ quoteMarks

instance : DecidablePred IsLink := fun c =>
  inferInstanceAs (Decidable (Text.IsBlank c ∨ c ∈ [':', '='] ∨ c ∈ quoteMarks))

theorem IsLink.fold_eq {c : Char} (h : IsLink c) : Text.fold c = c := by
  have hall : ([':', '='] ++ quoteMarks).all fun c => Text.fold c = c := by decide
  rcases h with h | h | h
  · exact Text.fold_of_isBlank ((Text.isBlank_iff c).mpr h)
  · exact of_decide_eq_true (List.all_eq_true.mp hall c (List.mem_append_left _ h))
  · exact of_decide_eq_true (List.all_eq_true.mp hall c (List.mem_append_right _ h))

theorem not_isBlank_of_mem {c : Char} (h : c ∈ [':', '='] ++ quoteMarks) : ¬ Text.IsBlank c := by
  have hall : ([':', '='] ++ quoteMarks).all fun c => ¬ Text.IsBlank c := by decide
  exact of_decide_eq_true (List.all_eq_true.mp hall c h)

namespace Opening

variable {names : List String}

theorem isLink_of_mem_link (o : Opening names) : ∀ c ∈ o.link, IsLink c := by
  rw [link, List.forall_mem_append, List.forall_mem_cons, List.forall_mem_append, List.forall_mem_singleton]
  exact ⟨fun c hc => .inl (o.blank_gapBefore c hc), .inr (.inl o.sign_mem), fun c hc => .inl (o.blank_gapAfter c hc),
    .inr (.inr o.mark_mem)⟩

theorem not_isBlank_sign (o : Opening names) (text : List Char) :
    ∀ c ∈ (o.sign :: text).head?, ¬ Text.IsBlank c := by
  rintro _ ⟨⟩
  exact not_isBlank_of_mem (List.mem_append_left _ o.sign_mem)

theorem not_isBlank_mark (o : Opening names) (text : List Char) :
    ∀ c ∈ (o.mark :: text).head?, ¬ Text.IsBlank c := by
  rintro _ ⟨⟩
  exact not_isBlank_of_mem (List.mem_append_right _ o.mark_mem)

theorem link_append (o : Opening names) (text : List Char) :
    o.link ++ text = o.gapBefore ++ o.sign :: (o.gapAfter ++ o.mark :: text) := by
  simp [link]

theorem eq_of_link_append_eq {o o' : Opening names} {x y : List Char} (h : o.link ++ x = o'.link ++ y) : x = y := by
  rw [link_append, link_append] at h
  obtain ⟨-, hsign⟩ := Text.run_unique o.blank_gapBefore o'.blank_gapBefore (o.not_isBlank_sign _)
    (o'.not_isBlank_sign _) h
  obtain ⟨-, hmark⟩ := Text.run_unique o.blank_gapAfter o'.blank_gapAfter (o.not_isBlank_mark x)
    (o'.not_isBlank_mark y) (List.cons_eq_cons.mp hsign).2
  exact (List.cons_eq_cons.mp hmark).2

end Opening

namespace Credential

variable {s : Credential}

theorem not_isLink_of_mem_name (o : Opening s.names) : ∀ c ∈ o.name, ¬ IsLink c := by
  obtain ⟨w, hw, hname⟩ := o.name_mem
  intro c hc hlink
  have hmem : Text.fold c ∈ w.toList.map Text.fold := Text.sameWord_iff.mp hname ▸ List.mem_map_of_mem hc
  have hall : ∀ w ∈ s.names, (w.toList.map Text.fold).all fun d => ¬ IsLink d := by cases s <;> decide
  rw [hlink.fold_eq] at hmem
  exact of_decide_eq_true (List.all_eq_true.mp (hall w hw) c hmem) hlink

theorem name_ne_nil (o : Opening s.names) : o.name ≠ [] := by
  obtain ⟨w, hw, hname⟩ := o.name_mem
  have hall : ∀ w ∈ s.names, w.toList.map Text.fold ≠ [] := by cases s <;> decide
  intro h
  rw [Text.sameWord_iff, h] at hname
  exact hall w hw hname.symm

theorem eq_nil_of_name_eq_append {o o' : Opening s.names} {before : List Char} (h : o.name = before ++ o'.name) :
    before = [] := by
  obtain ⟨w, hw, hname⟩ := o.name_mem
  obtain ⟨w', hw', hname'⟩ := o'.name_mem
  rw [Text.sameWord_iff] at hname hname'
  have hsuffix : w'.toList.map Text.fold <:+ w.toList.map Text.fold :=
    ⟨before.map Text.fold, by rw [← hname, ← hname', h, List.map_append]⟩
  have hall : ∀ w ∈ s.names, ∀ w' ∈ s.names, w'.toList.map Text.fold <:+ w.toList.map Text.fold → w' = w := by
    cases s <;> decide
  obtain rfl := hall w hw w' hw' hsuffix
  have hlength := congrArg List.length (hname.trans hname'.symm)
  rw [h, List.map_append, List.length_append, List.length_map] at hlength
  exact List.length_eq_zero_iff.mp (by omega)

/-- An opening that begins within another one is that one. -/
theorem opening_overlap {o o' : Opening s.names} {before x y : List Char}
    (h : o.chars ++ x = before ++ (o'.chars ++ y)) :
    (before = [] ∧ x = y) ∨ ∃ z, x = z ++ (o'.chars ++ y) := by
  rcases List.append_eq_append_iff.mp h with ⟨z, -, hz⟩ | ⟨u, hu, hrest⟩
  · exact .inr ⟨z, hz⟩
  · -- The second opening begins in what `u` is of the first one: in its link or in its name.
    rw [Opening.chars, List.append_assoc] at hrest
    rcases List.append_eq_append_iff.mp hu with ⟨v, -, hv⟩ | ⟨v, hname, rfl⟩
    · cases u with
      | nil => exact .inr ⟨[], by rw [Opening.chars, List.append_assoc, hrest]; rfl⟩
      | cons c u =>
          obtain ⟨d, name, hd⟩ := List.exists_cons_of_ne_nil (name_ne_nil o')
          have hc : IsLink c := o.isLink_of_mem_link c (hv ▸ List.mem_append_right v List.mem_cons_self)
          obtain rfl : d = c := (List.cons_eq_cons.mp (hd ▸ hrest)).1
          exact absurd hc (not_isLink_of_mem_name o' d (hd ▸ List.mem_cons_self))
    · rw [List.append_assoc] at hrest
      have hlinks (o : Opening s.names) (z : List Char) : ∀ c ∈ (o.link ++ z).head?, ¬ ¬ IsLink c := by
        intro c hc
        rw [List.head?_append_of_ne_nil _ (by simp [Opening.link])] at hc
        exact not_not_intro (o.isLink_of_mem_link c (List.mem_of_head? hc))
      have hv : ∀ c ∈ v, ¬ IsLink c := fun c hc =>
        not_isLink_of_mem_name o c (hname ▸ List.mem_append_right before hc)
      obtain ⟨rfl, hlink⟩ := Text.run_unique (not_isLink_of_mem_name o') hv (hlinks o' y) (hlinks o x) hrest
      exact .inl ⟨eq_nil_of_name_eq_append hname, (Opening.eq_of_link_append_eq hlink).symm⟩

end Credential

/-- An assignment of a quoted text. This does not hold the mark that it stands between, but perhaps the
other one. -/
structure Assignment (names : List String) extends Opening names where
  content : List Char
  content_ne_nil : content ≠ []
  mark_not_mem_content : mark ∉ content

namespace Opening

variable {names : List String} (o : Opening names)

def otherMark : Char := if o.mark = '"' then '\'' else '"'

theorem mem_quoteMarks_iff (c : Char) : c ∈ quoteMarks ↔ c = o.mark ∨ c = o.otherMark := by
  have hmark : o.mark = '"' ∨ o.mark = '\'' := by simpa [quoteMarks] using o.mark_mem
  rcases hmark with h | h
  · simp [quoteMarks, otherMark, h]
  · simp [quoteMarks, otherMark, h, or_comm]

end Opening

namespace Assignment

variable {names : List String} (a : Assignment names)

def chars : List Char := a.toOpening.chars ++ (a.content ++ [a.mark])

theorem isQuoted_content_iff (after : List Char) :
    IsQuoted (a.content ++ a.mark :: after) ↔ a.content.head? ≠ some a.otherMark := by
  obtain ⟨c, content, hcontent⟩ := List.exists_cons_of_ne_nil a.content_ne_nil
  have hc : c ∈ quoteMarks ↔ c = a.otherMark := by
    rw [a.mem_quoteMarks_iff, or_iff_right]
    rintro rfl
    exact a.mark_not_mem_content (hcontent ▸ List.mem_cons_self)
  rw [isQuoted_iff, hcontent, List.head?_cons, Ne, Option.some.injEq, ← hc]
  constructor
  · rintro ⟨d, rest, heq, hd, -⟩
    rwa [(List.cons_eq_cons.mp heq).1]
  · intro h
    exact ⟨c, _, List.cons_append, h, a.mark, List.mem_append_right _ List.mem_cons_self, a.mark_mem⟩

end Assignment

namespace Credential

variable (s : Credential)

theorem appliesTo_chars_append_iff (a : Assignment s.names) (after : List Char) :
    s.rule.appliesTo (String.ofList (a.chars ++ after)) ↔
      a.content.head? ≠ some a.otherMark ∨ s.rule.appliesTo (String.ofList (a.content ++ a.mark :: after)) := by
  have hchars : a.chars ++ after = a.toOpening.chars ++ (a.content ++ a.mark :: after) := by
    simp [Assignment.chars]
  rw [appliesTo_iff_opening, appliesTo_iff_opening, hchars, ← a.isQuoted_content_iff after]
  constructor
  · rintro ⟨before, o, inside, htext, hinside⟩
    rcases opening_overlap htext with ⟨-, rfl⟩ | ⟨z, hz⟩
    · exact .inl hinside
    · exact .inr ⟨z, o, inside, hz, hinside⟩
  · rintro (hinside | ⟨before, o, inside, htext, hinside⟩)
    · exact ⟨[], a.toOpening, _, rfl, hinside⟩
    · exact ⟨a.toOpening.chars ++ before, o, inside, by rw [htext, List.append_assoc], hinside⟩

theorem appliesTo_append {text : List Char} (h : s.rule.appliesTo (String.ofList text)) (before : List Char) :
    s.rule.appliesTo (String.ofList (before ++ text)) := by
  obtain ⟨x, o, inside, rfl, hinside⟩ := (s.appliesTo_iff_opening text).mp h
  exact (s.appliesTo_iff_opening _).mpr ⟨before ++ x, o, inside, by rw [List.append_assoc], hinside⟩

/-- An assignment is reported, whatever stands around it, if its quoted text does not begin with the other
mark. If it does, the assignment is passed over: the rule applies only if it does to what follows the opening
mark. -/
theorem assignment_reported (a : Assignment s.names) (file : String) (before after : List Char) :
    (s.rule.appliesTo (String.ofList (a.chars ++ after)) ↔
        a.content.head? ≠ some a.otherMark ∨ s.rule.appliesTo (String.ofList (a.content ++ a.mark :: after))) ∧
      (a.content.head? ≠ some a.otherMark →
        ⟨file, s.rule.issue, .high⟩ ∈ violations file (String.ofList (before ++ (a.chars ++ after)))) := by
  refine ⟨s.appliesTo_chars_append_iff a after, fun hhead => ?_⟩
  have happlies := s.appliesTo_append ((s.appliesTo_chars_append_iff a after).mpr (.inl hhead)) before
  have hcatalog : s.rule ∈ catalog := by cases s <;> decide
  have hviolation : s.rule.violation file = ⟨file, s.rule.issue, .high⟩ := by cases s <;> rfl
  exact hviolation ▸ List.mem_map_of_mem (List.mem_filter.mpr ⟨hcatalog, happlies⟩)

end Credential

def passwordOpening : Opening Credential.password.names where
  name := "Password".toList
  gapBefore := [' ']
  sign := '='
  gapAfter := [' ']
  mark := '"'
  name_mem := by decide
  blank_gapBefore := List.forall_mem_singleton.mpr (by decide)
  sign_mem := by decide
  blank_gapAfter := List.forall_mem_singleton.mpr (by decide)
  mark_mem := by decide

def apostropheInside : Assignment Credential.password.names :=
  ⟨passwordOpening, "it's".toList, by decide, by decide⟩

def apostropheFirst : Assignment Credential.password.names :=
  ⟨passwordOpening, "'tis".toList, by decide, by decide⟩

theorem assignment_reported_of_apostrophe :
    apostropheInside.content.head? ≠ some apostropheInside.otherMark ∧
      ⟨"config.js", "Hardcoded password detected", .high⟩ ∈
        violations "config.js" "+a\n+Password = \"it's\"\n+b" := by
  have hhead : apostropheInside.content.head? ≠ some apostropheInside.otherMark := by decide
  have htext : String.ofList ("+a\n+".toList ++ (apostropheInside.chars ++ "\n+b".toList)) =
      "+a\n+Password = \"it's\"\n+b" := by decide +kernel
  have hreported := (Credential.password.assignment_reported apostropheInside "config.js" "+a\n+".toList
    "\n+b".toList).2 hhead
  exact ⟨hhead, htext ▸ hreported⟩

/-- The same assignment with the apostrophe in front is passed over. -/
theorem apostropheFirst_passed_over :
    String.ofList apostropheFirst.chars = "Password = \"'tis\"" ∧
      violations "config.js" (String.ofList apostropheFirst.chars) = [] := by
  decide +kernel

end PushAudit.Rule
