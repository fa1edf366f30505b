import PushAudit.Proofs.Diff.Printout

namespace PushAudit.Diff

def separator : List Char := " b/".toList

/-- The deletion of a file: the header with its path on both sides, extended header lines, and the
hunk lines. Nothing but the header and the old side tells the path. -/
structure Deletion where
  path : List Char
  extended : List (List Char)
  hunkLines : List (List Char)
  newline_not_mem_path : '\n' ∉ path
  path_trimmed : ∃ xs c, path = xs ++ [c] ∧ ¬ Text.isBlank c
  newline_not_mem_extended : ∀ l ∈ extended, '\n' ∉ l
  unmarked_extended : ∀ l ∈ extended,
    ¬ headerMark <+: l ∧ ¬ newSideMark <+: l ∧ ¬ hunkMark <+: l
  hunk_begins : ∃ l ls, hunkLines = l :: ls ∧ hunkMark <+: l
  newline_not_mem_hunkLine : ∀ l ∈ hunkLines, '\n' ∉ l
  not_header_hunkLine : ∀ l ∈ hunkLines, ¬ headerMark <+: l

/-- A space stands nowhere in the separator but at its beginning, so that it cannot begin within a
text that does not hold all of it. -/
theorem not_prefix_separator {c : Char} {pre rest : List Char} (h : ¬ separator <:+: c :: pre) :
    ¬ separator <+: c :: (pre ++ separator ++ rest) := by
  intro hp
  cases pre with
  | nil => simp [separator] at hp
  | cons d pre =>
      cases pre with
      | nil => simp [separator] at hp
      | cons e pre =>
          refine h (List.IsPrefix.isInfix ?_)
          simpa [separator] using hp

theorem afterFirst?_separator {pre : List Char} (h : ¬ separator <:+: pre) (rest : List Char) :
    afterFirst? separator (pre ++ separator ++ rest) = some rest := by
  induction pre with
  | nil =>
      have hmark : afterMark? separator (separator ++ rest) = some rest := afterMark?_eq_some_iff.mpr rfl
      rw [List.nil_append]
      exact Option.or_eq_some_iff.mpr (.inl hmark)
  | cons c pre ih =>
      have hpre : ¬ separator <:+: pre := fun hi => h (hi.trans (List.suffix_cons c pre).isInfix)
      rw [List.cons_append, List.cons_append, afterFirst?, afterMark?_eq_none (not_prefix_separator h),
        Option.none_or, ih hpre]

theorem exists_first_separator {l : List Char} (h : separator <:+: l) :
    ∃ pre rest, l = pre ++ separator ++ rest ∧ ¬ separator <:+: pre := by
  induction l with
  | nil => exact absurd (List.infix_nil.mp h) (by decide)
  | cons c l ih =>
      by_cases hp : separator <+: c :: l
      · obtain ⟨rest, hrest⟩ := hp
        exact ⟨[], rest, hrest.symm, by decide⟩
      · obtain ⟨pre, rest, rfl, hpre⟩ := ih ((List.infix_cons_iff.mp h).resolve_left hp)
        refine ⟨c :: pre, rest, rfl, fun hi => ?_⟩
        rcases List.infix_cons_iff.mp hi with hi | hi
        · exact hp (hi.trans ⟨separator ++ rest, by simp⟩)
        · exact hpre hi

namespace Deletion

variable (d : Deletion)

def title : List Char := "a/".toList ++ d.path ++ separator ++ d.path

def preface : List (List Char) := d.extended ++ ["--- a/".toList ++ d.path, newSideMark ++ "/dev/null".toList]

def lines : List (List Char) := (headerMark ++ d.title) :: (d.preface ++ d.hunkLines)

def text : String := String.ofList (Text.unlines (d.hunkLines.map Text.chomp))

theorem chomp_append_path (xs : List Char) : Text.chomp (xs ++ d.path) = xs ++ d.path := by
  apply Text.chomp_of_getLast?_ne
  obtain ⟨ys, c, hpath, hc⟩ := d.path_trimmed
  rw [hpath, ← List.append_assoc, List.getLast?_concat]
  rintro ⟨⟩
  exact hc (by decide)

theorem newline_not_mem_lines : ∀ l ∈ d.lines, '\n' ∉ l := by
  rw [lines, title, preface, List.forall_mem_cons, List.forall_mem_append, List.forall_mem_append,
    List.forall_mem_cons, List.forall_mem_singleton]
  have hpath := d.newline_not_mem_path
  refine ⟨?_, ⟨d.newline_not_mem_extended, List.not_mem_append (by decide) hpath, by decide⟩,
    d.newline_not_mem_hunkLine⟩
  exact List.not_mem_append (by decide)
    (List.not_mem_append (List.not_mem_append (List.not_mem_append (by decide) hpath) (by decide)) hpath)

theorem not_header_body : ∀ l ∈ d.preface ++ d.hunkLines, ¬ headerMark <+: l := by
  rw [preface, List.forall_mem_append, List.forall_mem_append, List.forall_mem_cons,
    List.forall_mem_singleton]
  exact ⟨⟨fun l hl => (d.unmarked_extended l hl).1, not_prefix_cons (by decide) _,
    not_prefix_cons (by decide) _⟩, d.not_header_hunkLine⟩

theorem chomp_header : Text.chomp (headerMark ++ d.title) = headerMark ++ d.title := by
  rw [title, ← List.append_assoc]
  exact d.chomp_append_path _

def asSection : Section := ⟨headerMark ++ d.title, (d.preface ++ d.hunkLines).map Text.chomp⟩

theorem sections_lines_append {rest : List (List Char)} (hrest : ∀ l ∈ rest.head?, headerMark <+: l) :
    sections (d.lines.map Text.chomp ++ rest) = d.asSection :: sections rest := by
  have hbody := Text.not_prefix_map_chomp (by decide) d.not_header_body
  rw [lines, List.map_cons, List.cons_append, chomp_header,
    sections_cons_append (List.prefix_append _ _) hbody hrest]
  rfl

theorem lineName?_preface : ∀ l ∈ d.preface.map Text.chomp, Section.lineName? l = none := by
  rw [preface, List.map_append, List.forall_mem_append]
  constructor
  · have hunmarked : ∀ l ∈ d.extended.map Text.chomp, ¬ newSideMark <+: l :=
      Text.not_prefix_map_chomp (by decide) fun l hl => (d.unmarked_extended l hl).2.1
    exact fun l hl => Section.lineName?_of_not_newSide (hunmarked l hl)
  · rw [List.map_cons, List.map_singleton, List.forall_mem_cons, List.forall_mem_singleton,
      d.chomp_append_path]
    exact ⟨Section.lineName?_of_not_newSide (not_prefix_cons (by decide) _), by decide +kernel⟩

theorem not_hunk_preface : ∀ l ∈ d.preface.map Text.chomp, ¬ hunkMark <+: l := by
  apply Text.not_prefix_map_chomp (by decide)
  rw [preface, List.forall_mem_append, List.forall_mem_cons, List.forall_mem_singleton]
  exact ⟨fun l hl => (d.unmarked_extended l hl).2.2, not_prefix_cons (by decide) _,
    not_prefix_cons (by decide) _⟩

theorem fragment?_asSection :
    d.asSection.fragment? = (afterFirst? separator d.title).map fun name => ⟨String.ofList name, d.text⟩ := by
  have hlines : d.asSection.lines = d.preface.map Text.chomp ++ d.hunkLines.map Text.chomp := List.map_append
  obtain ⟨hbegins, hne⟩ := begins_map_chomp d.hunk_begins
  obtain ⟨hpre, hhunk⟩ := Section.preface_hunk_of_lines_eq hlines d.not_hunk_preface hbegins
  have hnone : (d.preface.map Text.chomp).filterMap Section.lineName? = [] :=
    List.filterMap_eq_nil_iff.mpr d.lineName?_preface
  have htitle : afterMark? headerMark (headerMark ++ d.title) = some d.title := afterMark?_eq_some_iff.mpr rfl
  have hname : d.asSection.name? = afterFirst? separator d.title := by
    rw [Section.name?, hpre, hnone, asSection, headerName?, htitle]
    rfl
  rw [Section.fragment?, hhunk, hname, hne, if_neg Bool.false_ne_true]
  rfl

theorem separator_infix_old_iff (xs : List Char) : separator <:+: "a/".toList ++ xs ↔ separator <:+: xs := by
  constructor
  · intro h
    have hold : "a/".toList ++ xs = 'a' :: '/' :: xs := rfl
    rw [hold, List.infix_cons_iff, List.infix_cons_iff] at h
    rcases h with h | h | h
    · exact absurd h (not_prefix_cons (by decide) _)
    · exact absurd h (not_prefix_cons (by decide) _)
    · exact h
  · exact fun h => h.trans (List.suffix_append _ _).isInfix

theorem afterFirst?_title (h : ¬ separator <:+: d.path) : afterFirst? separator d.title = some d.path :=
  afterFirst?_separator (mt (separator_infix_old_iff _).mp h) _

theorem afterFirst?_title_of_eq {first rest : List Char} (hpath : d.path = first ++ separator ++ rest)
    (h : ¬ separator <:+: first) :
    afterFirst? separator d.title = some (rest ++ separator ++ d.path) := by
  have htitle : d.title = ("a/".toList ++ first) ++ separator ++ (rest ++ separator ++ d.path) := by
    rw [title]
    nth_rewrite 1 [hpath]
    simp only [List.append_assoc]
  rw [htitle, afterFirst?_separator (mt (separator_infix_old_iff _).mp h)]

theorem fragments_between {before after : List (List Char)} {name : List Char} (fallback : String)
    (hbefore : ∀ l ∈ before, '\n' ∉ l) (hafter : ∀ l ∈ after, '\n' ∉ l)
    (hnext : ∀ l ∈ after.head?, headerMark <+: l) (hname : afterFirst? separator d.title = some name) :
    fragments (String.ofList (Text.unlines (before ++ d.lines ++ after))) fallback =
      ofLines (before.map Text.chomp) ++ ⟨String.ofList name, d.text⟩ :: ofLines (after.map Text.chomp) := by
  have hlines : Text.lines (String.ofList (Text.unlines (before ++ d.lines ++ after))).toList =
      before.map Text.chomp ++ (d.lines.map Text.chomp ++ after.map Text.chomp) := by
    rw [String.toList_ofList, Text.lines_unlines, List.map_append, List.map_append, List.append_assoc]
    rw [List.forall_mem_append, List.forall_mem_append]
    exact ⟨⟨hbefore, d.newline_not_mem_lines⟩, hafter⟩
  have hbegins : headerMark <+: Text.chomp (headerMark ++ d.title) := by
    rw [d.chomp_header]
    exact List.prefix_append _ _
  have hhead : ∀ l ∈ (d.lines.map Text.chomp ++ after.map Text.chomp).head?, headerMark <+: l := by
    rintro _ ⟨⟩
    exact hbegins
  have hnext' : ∀ l ∈ (after.map Text.chomp).head?, headerMark <+: l := by
    cases after with
    | nil => exact fun l hl => absurd hl (Option.not_mem_none l)
    | cons l after =>
        rintro _ ⟨⟩
        exact (Text.prefix_chomp_iff (by decide) l).mpr (hnext l rfl)
  have hheader : hasHeader (Text.lines (String.ofList (Text.unlines (before ++ d.lines ++ after))).toList) := by
    rw [hlines, hasHeader_iff]
    exact ⟨_, List.mem_append_right _ (.head _), hbegins⟩
  have hfragment : d.asSection.fragment? = some ⟨String.ofList name, d.text⟩ := by
    rw [fragment?_asSection, hname, Option.map_some]
  rw [fragments_eq _ _ hheader, hlines, sections_append hhead, d.sections_lines_append hnext',
    List.filterMap_append, List.filterMap_cons_some hfragment, ofLines_eq, ofLines_eq]

end Deletion

/-- A deletion gives one fragment with its hunk lines, whatever stands before and after it. That goes by
the path of the file exactly if the path does not hold the separator; otherwise it goes by what follows
the first separator in the path, and all of the path once more. -/
theorem deletion_named_iff (d : Deletion) {before after : List (List Char)} (fallback : String)
    (hbefore : ∀ l ∈ before, '\n' ∉ l) (hafter : ∀ l ∈ after, '\n' ∉ l)
    (hnext : ∀ l ∈ after.head?, headerMark <+: l) :
    ∃ name, fragments (String.ofList (Text.unlines (before ++ d.lines ++ after))) fallback =
        ofLines (before.map Text.chomp) ++ ⟨String.ofList name, d.text⟩ :: ofLines (after.map Text.chomp) ∧
      (name = d.path ↔ ¬ separator <:+: d.path) ∧
      ∀ first rest, d.path = first ++ separator ++ rest → ¬ separator <:+: first →
        name = rest ++ separator ++ d.path := by
  by_cases h : separator <:+: d.path
  · obtain ⟨first, rest, hpath, hfirst⟩ := exists_first_separator h
    have hname := d.afterFirst?_title_of_eq hpath hfirst
    refine ⟨_, d.fragments_between fallback hbefore hafter hnext hname, ⟨fun heq => ?_, absurd h⟩,
      fun first' rest' hpath' hfirst' => ?_⟩
    · have hlength := congrArg List.length heq
      simp only [List.length_append, separator] at hlength
      simp at hlength
    · exact Option.some.inj (hname.symm.trans (d.afterFirst?_title_of_eq hpath' hfirst'))
  · refine ⟨_, d.fragments_between fallback hbefore hafter hnext (d.afterFirst?_title h), by simp [h],
      fun first rest hpath => ?_⟩
    exact absurd ⟨first, rest, hpath.symm⟩ h

def Deletion.ofPath (path : List Char) (hnewline : '\n' ∉ path)
    (htrimmed : ∃ xs c, path = xs ++ [c] ∧ ¬ Text.isBlank c) : Deletion :=
  ⟨path, ["deleted file mode 100644".toList], ["@@ -1 +0,0 @@".toList, "-eval(x)".toList], hnewline, htrimmed,
    by decide, by decide, ⟨_, _, rfl, by decide⟩, by decide, by decide⟩

def spacedDeletion : Deletion :=
  .ofPath "my old.js".toList (by decide) ⟨"my old.j".toList, 's', by decide, by decide⟩

def doubledDeletion : Deletion := .ofPath "x b/y".toList (by decide) ⟨"x b/".toList, 'y', by decide, by decide⟩

def renamedLines : List (List Char) := ["diff --git a/x b/y".toList, "rename from x".toList]

def addedLines : List (List Char) :=
  ["diff --git a/z b/z".toList, "+++ b/z".toList, "@@ -0,0 +1 @@".toList, "+1".toList]

/-- Between a file that is renamed only and one that is added, a path with a space. -/
theorem deletion_named_between :
    fragments (String.ofList (Text.unlines (renamedLines ++ spacedDeletion.lines ++ addedLines))) "pushed" =
      [⟨"my old.js", "@@ -1 +0,0 @@\n-eval(x)\n"⟩, ⟨"z", "@@ -0,0 +1 @@\n+1\n"⟩] := by
  have hpath : ¬ separator <:+: spacedDeletion.path := by decide +kernel
  have hnext : ∀ l ∈ addedLines.head?, headerMark <+: l := by
    rintro _ ⟨⟩
    decide
  obtain ⟨name, hfragments, hname, -⟩ :=
    deletion_named_iff spacedDeletion "pushed" (by decide : ∀ l ∈ renamedLines, '\n' ∉ l) (by decide) hnext
  rw [hfragments, hname.mpr hpath]
  decide +kernel

/-- The deletion of `x b/y` goes by another name. -/
theorem deletion_misnamed :
    String.ofList (Text.unlines doubledDeletion.lines) =
        "diff --git a/x b/y b/x b/y\ndeleted file mode 100644\n--- a/x b/y\n+++ /dev/null\n" ++
          "@@ -1 +0,0 @@\n-eval(x)\n" ∧
      String.ofList doubledDeletion.path = "x b/y" ∧
      fragments (String.ofList (Text.unlines doubledDeletion.lines)) "stdin" =
        [⟨"y b/x b/y", "@@ -1 +0,0 @@\n-eval(x)\n"⟩] := by
  decide +kernel

end PushAudit.Diff
