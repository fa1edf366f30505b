import Mathlib.Data.List.Basic
import PushAudit.Proofs.Diff.Section

namespace PushAudit.Diff

namespace Section

instance : DecidablePred HasName := fun s => decidable_of_iff _ s.isSome_name?_iff

def hunkText (s : Section) : String := String.ofList (Text.unlines s.hunk)

theorem map_text_fragment? (s : Section) :
    s.fragment?.map (·.text) = if s.hunk ≠ [] ∧ s.HasName then some s.hunkText else none := by
  by_cases hh : s.hunk = []
  · simp [fragment?, hh]
  · cases hn : s.name? with
    | none =>
        have hname : ¬ s.HasName := mt s.isSome_name?_iff.mpr (by simp [hn])
        simp [fragment?, hn, hname]
    | some name =>
        have hname : s.HasName := s.isSome_name?_iff.mp (by simp [hn])
        simp [fragment?, hh, hn, hname, hunkText]

end Section

theorem map_text_fragments {text : String} (h : ∃ l ∈ Text.lines text.toList, headerMark <+: l)
    (fallback : String) :
    (fragments text fallback).map (·.text) =
      ((sections (Text.lines text.toList)).filter fun s => s.hunk ≠ [] ∧ s.HasName).map Section.hunkText := by
  rw [fragments_eq text fallback (hasHeader_iff.mpr h), List.map_filterMap, ← List.filterMap_eq_map,
    List.filterMap_filter]
  apply List.filterMap_congr
  intro s _
  rw [s.map_text_fragment?]
  simp

/-- The hunks that are handed on are those of the sections that go by a name, in their order. None is
lost exactly if every section with a hunk goes by a name. -/
theorem hunks_kept_iff_named (text fallback : String)
    (h : ∃ l ∈ Text.lines text.toList, headerMark <+: l) :
    let ss := sections (Text.lines text.toList)
    let kept := (fragments text fallback).map (·.text)
    kept = (ss.filter fun s => s.hunk ≠ [] ∧ s.HasName).map Section.hunkText ∧
      (kept = (ss.filter fun s => s.hunk ≠ []).map Section.hunkText ↔
        ∀ s ∈ ss, s.hunk ≠ [] → s.HasName) := by
  intro ss kept
  have hkept : kept = (ss.filter fun s => s.hunk ≠ [] ∧ s.HasName).map Section.hunkText :=
    map_text_fragments h fallback
  refine ⟨hkept, ?_, ?_⟩
  · intro hall s hs hhunk
    have hsplit : (ss.filter fun s => s.hunk ≠ [] ∧ s.HasName) =
        (ss.filter fun s => s.hunk ≠ []).filter fun s => s.HasName := by
      rw [List.filter_filter]
      simp [and_comm]
    -- Equal texts are equally many, so the second filter leaves nothing out.
    have hlength := congrArg List.length (hkept.symm.trans hall)
    rw [hsplit, List.length_map, List.length_map, List.length_filter_eq_length_iff] at hlength
    exact of_decide_eq_true (hlength s (List.mem_filter.mpr ⟨hs, decide_eq_true hhunk⟩))
  · intro hnamed
    rw [hkept]
    congr 1
    apply List.filter_congr
    intro s hs
    simpa using hnamed s hs

/-- A file that is renamed only, one that changes, and one deleted in a diff without prefixes: the
second hunk is lost, as its section has no name. -/
theorem hunks_kept_of_changed_file :
    let text := "diff --git a/x b/y\nrename from x\ndiff --git a/z b/z\n+++ /dev/null\n@@ -1 +1 @@\n+1\r\n" ++
      "diff --git w w\n--- w\n+++ /dev/null\n@@ -1 +0,0 @@\n-2\n"
    let ss := sections (Text.lines text.toList)
    let kept := (fragments text "pushed").map (·.text)
    (∃ l ∈ Text.lines text.toList, headerMark <+: l) ∧ kept = ["@@ -1 +1 @@\n+1\n"] ∧
      ¬ ∀ s ∈ ss, s.hunk ≠ [] → s.HasName := by
  intro text ss kept
  have hheader : ∃ l ∈ Text.lines text.toList, headerMark <+: l :=
    ⟨"diff --git a/x b/y".toList, by decide +kernel, "a/x b/y".toList, rfl⟩
  obtain ⟨hkept, hall⟩ := hunks_kept_iff_named text "pushed" hheader
  have hone : kept = ["@@ -1 +1 @@\n+1\n"] := hkept.trans (by decide +kernel)
  refine ⟨hheader, hone, mt hall.mpr ?_⟩
  show kept ≠ _
  rw [hone]
  decide +kernel

/-- The deletion of a file, in a diff without prefixes, leaves nothing to be scanned. -/
theorem unprefixed_deletion_lost :
    let text := "diff --git old.js old.js\ndeleted file mode 100644\n--- old.js\n+++ /dev/null\n" ++
      "@@ -1 +0,0 @@\n-eval(x)\n"
    ((sections (Text.lines text.toList)).filter fun s => s.hunk ≠ []).map Section.hunkText =
        ["@@ -1 +0,0 @@\n-eval(x)\n"] ∧
      (fragments text "stdin").map (·.text) = [] := by
  decide +kernel

end PushAudit.Diff
