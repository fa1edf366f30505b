import PushAudit.Proofs.Report.Grouping

namespace PushAudit

variable {vs vs' : List Violation}

namespace Report

theorem files_perm (h : vs.Perm vs') : (files vs).Perm (files vs') := by
  rw [List.perm_ext_iff_of_nodup (nodup_files vs) (nodup_files vs')]
  intro file
  simp only [mem_files_iff, h.mem_iff]

theorem ofFile_perm (h : vs.Perm vs') (file : String) : (ofFile vs file).Perm (ofFile vs' file) := h.filter _

/-- The same files with the same violations each. The files may come in another order, and so may the
violations of each file. -/
structure Regrouped (groups groups' : List (String × List Violation)) : Prop where
  nodup : (groups.map Prod.fst).Nodup
  files : (groups.map Prod.fst).Perm (groups'.map Prod.fst)
  items : ∀ file ws ws', (file, ws) ∈ groups → (file, ws') ∈ groups' → ws.Perm ws'

theorem regrouped_byFile (h : vs.Perm vs') : Regrouped (byFile vs) (byFile vs') := by
  refine ⟨?_, ?_, fun file ws ws' hws hws' => ?_⟩
  · rw [map_fst_byFile]
    exact nodup_files vs
  · rw [map_fst_byFile, map_fst_byFile]
    exact files_perm h
  · rw [(mem_byFile_iff.mp hws).2, (mem_byFile_iff.mp hws').2]
    exact ofFile_perm h file

theorem counts_ofViolations_perm (h : vs.Perm vs') : Counts.ofViolations vs = Counts.ofViolations vs' := by
  simp only [Counts.ofViolations, h.length_eq, h.countP_eq]

structure Reordered (r r' : Report) : Prop where
  violations : r.violations.Perm r'.violations
  passed : r.passed = r'.passed
  counts : r.counts = r'.counts
  summary : r.summary = r'.summary
  groups : Regrouped (byFile r.violations) (byFile r'.violations)

theorem reordered_ofViolations (h : vs.Perm vs') : Reordered (ofViolations vs) (ofViolations vs') := by
  have hcounts := counts_ofViolations_perm h
  refine ⟨h, h.isEmpty_eq, hcounts, ?_, regrouped_byFile h⟩
  simp only [ofViolations, h.isEmpty_eq, hcounts]

theorem Reordered.title_eq {r r' : Report} (h : Reordered r r') (commit : String) :
    r.title commit = r'.title commit := by
  rw [title, title, h.passed]

theorem Reordered.labels_eq {r r' : Report} (h : Reordered r r') : r.labels = r'.labels := by
  rw [labels, labels, h.passed]

end Report

end PushAudit
