import PushAudit.Proofs.Diff.Section
import PushAudit.Proofs.Rule.Blocks
import PushAudit.Report.Basic

namespace PushAudit

theorem Rule.mem_violations_iff {file text : String} {v : Violation} :
    v ∈ Rule.violations file text ↔
      ∃ r ∈ Rule.catalog, r.appliesTo text ∧ v = ⟨file, r.issue, r.severity⟩ := by
  rw [Rule.violations, List.mem_map]
  constructor
  · rintro ⟨r, hr, rfl⟩
    obtain ⟨hr, ha⟩ := List.mem_filter.mp hr
    exact ⟨r, hr, ha, rfl⟩
  · rintro ⟨r, hr, ha, rfl⟩
    exact ⟨r, List.mem_filter.mpr ⟨hr, ha⟩, rfl⟩

namespace Report

open Diff (sections headerMark)

theorem passed_of_mem {fs : List Fragment} {v : Violation} (h : v ∈ (ofFragments fs).violations) :
    (ofFragments fs).passed = false := by
  rw [ofFragments, ofViolations]
  exact List.isEmpty_eq_false_iff_exists_mem.mpr ⟨v, h⟩

theorem mem_violations_iff {text fallback : String} {v : Violation}
    (h : Diff.hasHeader (Text.lines text.toList)) :
    v ∈ (ofFragments (Diff.fragments text fallback)).violations ↔
      ∃ s ∈ sections (Text.lines text.toList), ∃ r ∈ Rule.catalog, ∃ name,
        s.hunk ≠ [] ∧ s.name? = some name ∧ v = ⟨String.ofList name, r.issue, r.severity⟩ ∧
          r.appliesTo (String.ofList (Text.unlines s.hunk)) := by
  rw [ofFragments, ofViolations, List.mem_flatMap, Diff.fragments_eq text fallback h]
  constructor
  · rintro ⟨f, hf, hv⟩
    obtain ⟨s, hs, hsf⟩ := List.mem_filterMap.mp hf
    obtain ⟨hne, name, hname, rfl⟩ := Diff.Section.fragment?_eq_some_iff.mp hsf
    obtain ⟨r, hr, ha, rfl⟩ := Rule.mem_violations_iff.mp hv
    exact ⟨s, hs, r, hr, name, hne, hname, rfl, ha⟩
  · rintro ⟨s, hs, r, hr, name, hne, hname, rfl, ha⟩
    have hf : s.fragment? = some ⟨String.ofList name, String.ofList (Text.unlines s.hunk)⟩ :=
      Diff.Section.fragment?_eq_some_iff.mpr ⟨hne, name, hname, rfl⟩
    exact ⟨_, List.mem_filterMap.mpr ⟨s, hs, hf⟩, Rule.mem_violations_iff.mpr ⟨r, hr, ha, rfl⟩⟩

/-- Nothing in a hunk can hide, and nothing leaks between files. A rule that applies to some lines of
a hunk, whether or not these still end in carriage returns, is reported under the name of the hunk's
section; and what is reported under a name applies to the hunk of one section of that name alone. -/
theorem hunks_covered (text fallback : String)
    (h : ∃ l ∈ Text.lines text.toList, headerMark <+: l) :
    let ss := sections (Text.lines text.toList)
    let report := ofFragments (Diff.fragments text fallback)
    (∀ s ∈ ss, s.hunk ≠ [] → s.HasName → ∃ name, s.name? = some name ∧
      ∀ r ∈ Rule.catalog, ∀ part block, part <:+: s.hunk → List.Forall₂ Text.ReadsAs block part →
        r.appliesTo (String.ofList (['\n'].intercalate block)) →
        ⟨String.ofList name, r.issue, r.severity⟩ ∈ report.violations ∧ report.passed = false) ∧
      ∀ v ∈ report.violations, ∃ s ∈ ss, ∃ r ∈ Rule.catalog, ∃ name,
        s.hunk ≠ [] ∧ s.name? = some name ∧ v = ⟨String.ofList name, r.issue, r.severity⟩ ∧
          r.appliesTo (String.ofList (Text.unlines s.hunk)) := by
  intro ss report
  have hheader : Diff.hasHeader (Text.lines text.toList) := by
    rw [Diff.hasHeader, List.any_eq_true]
    simpa only [List.isPrefixOf_iff_prefix] using h
  refine ⟨fun s hs hne hname => ?_, fun v hv => (mem_violations_iff hheader).mp hv⟩
  obtain ⟨name, hname⟩ := Option.isSome_iff_exists.mp (s.isSome_name?_iff.mpr hname)
  refine ⟨name, hname, fun r hr part block hpart hblock ha => ?_⟩
  have hv : ⟨String.ofList name, r.issue, r.severity⟩ ∈ report.violations :=
    (mem_violations_iff hheader).mpr
      ⟨s, hs, r, hr, name, hne, hname, rfl, Rule.appliesTo_of_block hr hpart hblock ha⟩
  exact ⟨hv, passed_of_mem hv⟩

/-- A password that begins on one line and ends on the next, with carriage returns. -/
theorem hunks_covered_across_lines :
    let text := "diff --git a/x b/x\r\n@@ -1 +1 @@\r\n+password = '\r\n+secret'\r\n"
    let report := ofFragments (Diff.fragments text "pushed")
    (∃ l ∈ Text.lines text.toList, headerMark <+: l) ∧
      ⟨"x", "Hardcoded password detected", .high⟩ ∈ report.violations ∧ report.passed = false := by
  intro text report
  have hheader : ∃ l ∈ Text.lines text.toList, headerMark <+: l :=
    ⟨"diff --git a/x b/x".toList, by decide +kernel, "a/x b/x".toList, rfl⟩
  let s : Diff.Section :=
    ⟨"diff --git a/x b/x".toList, ["@@ -1 +1 @@".toList, "+password = '".toList, "+secret'".toList]⟩
  have hs : s ∈ sections (Text.lines text.toList) := by decide +kernel
  have hname : s.HasName := .inr ⟨"a/x b/x".toList, rfl, "a/x".toList, "x".toList, rfl⟩
  obtain ⟨name, hn, hr⟩ := (hunks_covered text "pushed" hheader).1 s hs (by decide +kernel) hname
  obtain rfl : "x".toList = name := Option.some.inj hn
  exact ⟨hheader, hr Rule.hardcodedPassword (by decide) ["+password = '".toList, "+secret'".toList]
    ["+password = '\r".toList, "+secret'\r".toList] ⟨["@@ -1 +1 @@".toList], [], rfl⟩
    (.cons (.inr rfl) (.cons (.inr rfl) .nil)) (by decide +kernel)⟩

end Report

end PushAudit
