import Mathlib.Data.List.Induction
import Mathlib.Data.List.Perm.Basic
import PushAudit.Report.Issue

namespace PushAudit.Report

theorem nodup_eraseDups {α : Type} [BEq α] [LawfulBEq α] (l : List α) : l.eraseDups.Nodup := by
  cases l with
  | nil => exact List.nodup_nil
  | cons a l =>
      rw [List.eraseDups_cons, List.nodup_cons]
      refine ⟨?_, nodup_eraseDups _⟩
      simp [List.mem_eraseDups]
termination_by l.length
decreasing_by
  rw [List.length_cons]
  exact Nat.lt_succ_of_le (List.length_filter_le _ _)

def files (vs : List Violation) : List String := (vs.map (·.file)).eraseDups

def ofFile (vs : List Violation) (file : String) : List Violation := vs.filter (·.file = file)

theorem mem_files_iff {vs : List Violation} {file : String} : file ∈ files vs ↔ ∃ v ∈ vs, v.file = file := by
  rw [files, List.mem_eraseDups, List.mem_map]

theorem nodup_files (vs : List Violation) : (files vs).Nodup := nodup_eraseDups _

theorem files_concat (vs : List Violation) (v : Violation) :
    files (vs ++ [v]) = files vs ++ if v.file ∈ files vs then [] else [v.file] := by
  have hmem : v.file ∈ files vs ↔ v.file ∈ vs.map (·.file) := List.mem_eraseDups
  rw [files, List.map_append, List.eraseDups_append, List.map_singleton, ← files, List.removeAll,
    List.filter_singleton]
  by_cases hv : v.file ∈ files vs
  · simp [hv, hmem.mp hv]
  · simp [hv, mt hmem.mpr hv, List.eraseDups_cons]

theorem ofFile_concat (vs : List Violation) (v : Violation) (file : String) :
    ofFile (vs ++ [v]) file = ofFile vs file ++ if v.file = file then [v] else [] := by
  rw [ofFile, List.filter_append, ← ofFile, List.filter_singleton]
  simp

theorem ofFile_eq_nil {vs : List Violation} {file : String} (h : file ∉ files vs) : ofFile vs file = [] := by
  rw [ofFile, List.filter_eq_nil_iff]
  intro v hv hf
  exact h (mem_files_iff.mpr ⟨v, hv, of_decide_eq_true hf⟩)

/-- Inserting changes the group of the file, and that group alone, where there is one. -/
theorem insertByFile_map_of_mem {v : Violation} {fs : List String} (hn : fs.Nodup) (hv : v.file ∈ fs)
    (group : String → List Violation) :
    insertByFile v (fs.map fun f => (f, group f)) =
      fs.map fun f => (f, group f ++ if v.file = f then [v] else []) := by
  induction fs with
  | nil => exact absurd hv List.not_mem_nil
  | cons f fs ih =>
      obtain ⟨hf, hn⟩ := List.nodup_cons.mp hn
      rw [List.map_cons, insertByFile, List.map_cons]
      split
      case isTrue h =>
        rw [if_pos h.symm]
        congr 1
        apply List.map_congr_left
        intro g hg
        have hne : v.file ≠ g := by
          rintro rfl
          exact hf (h ▸ hg)
        rw [if_neg hne, List.append_nil]
      case isFalse h =>
        have hmem : v.file ∈ fs := (List.mem_cons.mp hv).resolve_left (Ne.symm h)
        rw [ih hn hmem, if_neg (Ne.symm h), List.append_nil]

theorem insertByFile_of_forall_ne {v : Violation} {groups : List (String × List Violation)}
    (h : ∀ g ∈ groups, g.1 ≠ v.file) : insertByFile v groups = groups ++ [(v.file, [v])] := by
  induction groups with
  | nil => rfl
  | cons g groups ih =>
      obtain ⟨hg, h⟩ := List.forall_mem_cons.mp h
      rw [insertByFile, if_neg hg, ih h, List.cons_append]

/-- The groups are those of the files in the order in which they first occur, and each holds the
violations of its file in their order. -/
theorem byFile_eq (vs : List Violation) : byFile vs = (files vs).map fun file => (file, ofFile vs file) := by
  induction vs using List.reverseRecOn with
  | nil => rfl
  | append_singleton vs v ih =>
      rw [byFile, List.foldl_concat, ← byFile, ih, files_concat]
      simp only [ofFile_concat]
      by_cases hv : v.file ∈ files vs
      · rw [insertByFile_map_of_mem (nodup_files vs) hv, if_pos hv, List.append_nil]
      · have hother : ∀ f ∈ files vs, v.file ≠ f := by
          rintro f hf rfl
          exact hv hf
        have hkeep : ((files vs).map fun f => (f, ofFile vs f ++ if v.file = f then [v] else [])) =
            (files vs).map fun f => (f, ofFile vs f) := by
          apply List.map_congr_left
          intro f hf
          rw [if_neg (hother f hf), List.append_nil]
        rw [insertByFile_of_forall_ne, if_neg hv, List.map_append, hkeep, List.map_singleton,
          ofFile_eq_nil hv, if_pos rfl, List.nil_append]
        rw [List.forall_mem_map]
        exact fun f hf => Ne.symm (hother f hf)

theorem map_fst_byFile (vs : List Violation) : (byFile vs).map Prod.fst = files vs := by
  rw [byFile_eq, List.map_map]
  exact List.map_id _

theorem mem_byFile_iff {vs ws : List Violation} {file : String} :
    (file, ws) ∈ byFile vs ↔ file ∈ files vs ∧ ws = ofFile vs file := by
  rw [byFile_eq, List.mem_map]
  constructor
  · rintro ⟨f, hf, hpair⟩
    obtain ⟨rfl, rfl⟩ := Prod.mk.inj hpair
    exact ⟨hf, rfl⟩
  · rintro ⟨hf, rfl⟩
    exact ⟨file, hf, rfl⟩

theorem flatMap_insertByFile_perm (v : Violation) (groups : List (String × List Violation)) :
    ((insertByFile v groups).flatMap (·.2)).Perm (v :: groups.flatMap (·.2)) := by
  induction groups with
  | nil => exact .refl _
  | cons g groups ih =>
      rw [insertByFile]
      split
      case isTrue => simp
      case isFalse =>
        rw [List.flatMap_cons, List.flatMap_cons]
        exact (ih.append_left g.2).trans List.perm_middle

theorem flatMap_byFile_perm (vs : List Violation) : ((byFile vs).flatMap (·.2)).Perm vs := by
  induction vs using List.reverseRecOn with
  | nil => exact .refl _
  | append_singleton vs v ih =>
      rw [byFile, List.foldl_concat, ← byFile]
      exact (flatMap_insertByFile_perm v _).trans ((ih.cons v).trans (List.perm_append_singleton v vs).symm)

def firstOf (vs : List Violation) (file : String) : Nat := (vs.map (·.file)).idxOf file

theorem firstOf_concat_of_mem {vs : List Violation} {file : String} (h : file ∈ files vs) (v : Violation) :
    firstOf (vs ++ [v]) file = firstOf vs file := by
  have hmem : file ∈ vs.map (·.file) := List.mem_eraseDups.mp h
  rw [firstOf, List.map_append, List.idxOf_append, if_pos hmem, firstOf]

theorem firstOf_lt_iff {vs : List Violation} {file : String} : firstOf vs file < vs.length ↔ file ∈ files vs := by
  rw [firstOf, ← List.length_map (f := fun v : Violation => v.file), List.idxOf_lt_length_iff, files,
    List.mem_eraseDups]

theorem length_le_firstOf_concat {vs : List Violation} {v : Violation} (h : v.file ∉ files vs) :
    vs.length ≤ firstOf (vs ++ [v]) v.file := by
  have hmem : v.file ∉ vs.map (·.file) := mt List.mem_eraseDups.mpr h
  rw [firstOf, List.map_append, List.idxOf_append, if_neg hmem, List.length_map]
  omega

theorem pairwise_firstOf_files (vs : List Violation) :
    (files vs).Pairwise fun f g => firstOf vs f < firstOf vs g := by
  induction vs using List.reverseRecOn with
  | nil => exact List.Pairwise.nil
  | append_singleton vs v ih =>
      have hold : (files vs).Pairwise fun f g => firstOf (vs ++ [v]) f < firstOf (vs ++ [v]) g := by
        apply ih.imp_of_mem
        intro f g hf hg hlt
        rwa [firstOf_concat_of_mem hf, firstOf_concat_of_mem hg]
      rw [files_concat]
      split
      case isTrue => rwa [List.append_nil]
      case isFalse hv =>
        apply List.pairwise_append.mpr
        refine ⟨hold, List.pairwise_singleton _ _, fun f hf g hg => ?_⟩
        obtain rfl := List.mem_singleton.mp hg
        have hlt := firstOf_lt_iff.mpr hf
        have hle := length_le_firstOf_concat hv
        rw [firstOf_concat_of_mem hf]
        omega

/-- The groups that some violations make up by their files. -/
structure IsGrouping (vs : List Violation) (groups : List (String × List Violation)) : Prop where
  nodup : (groups.map Prod.fst).Nodup
  file_iff : ∀ file, file ∈ groups.map Prod.fst ↔ ∃ v ∈ vs, v.file = file
  inOrder : (groups.map Prod.fst).Pairwise fun f g => firstOf vs f < firstOf vs g
  ne_nil : ∀ g ∈ groups, g.2 ≠ []
  items_eq : ∀ g ∈ groups, g.2 = vs.filter (·.file = g.1)
  perm : (groups.flatMap (·.2)).Perm vs

theorem isGrouping_byFile (vs : List Violation) : IsGrouping vs (byFile vs) where
  nodup := by
    rw [map_fst_byFile]
    exact nodup_files vs
  file_iff file := by
    rw [map_fst_byFile]
    exact mem_files_iff
  inOrder := by
    rw [map_fst_byFile]
    exact pairwise_firstOf_files vs
  ne_nil := by
    rintro ⟨file, ws⟩ h
    obtain ⟨hfile, rfl⟩ := mem_byFile_iff.mp h
    obtain ⟨v, hv, rfl⟩ := mem_files_iff.mp hfile
    exact List.ne_nil_of_mem (List.mem_filter.mpr ⟨hv, decide_eq_true rfl⟩)
  items_eq := by
    rintro ⟨file, ws⟩ h
    exact (mem_byFile_iff.mp h).2
  perm := flatMap_byFile_perm vs

theorem IsGrouping.map_fst_eq {vs : List Violation} {groups : List (String × List Violation)}
    (h : IsGrouping vs groups) : groups.map Prod.fst = files vs := by
  have hperm : (groups.map Prod.fst).Perm (files vs) := by
    rw [List.perm_ext_iff_of_nodup h.nodup (nodup_files vs)]
    intro file
    rw [h.file_iff, mem_files_iff]
  apply List.Perm.eq_of_pairwise ?_ h.inOrder (pairwise_firstOf_files vs) hperm
  intro f g _ _ hlt hgt
  omega

/-- Sorting violations one by one into the groups of their files comes to the groups that these are to make
up, and to no others: each file once, in the order in which the files first occur, with its violations in their
order, so that none is lost and none stands twice. -/
theorem byFile_eq_iff (vs : List Violation) (groups : List (String × List Violation)) :
    byFile vs = groups ↔ IsGrouping vs groups := by
  constructor
  · rintro rfl
    exact isGrouping_byFile vs
  · intro h
    have hgroups : groups = (groups.map Prod.fst).map fun file => (file, ofFile vs file) := by
      rw [List.map_map]
      apply (List.map_id' groups).symm.trans
      apply List.map_congr_left
      intro g hg
      exact Prod.ext rfl (h.items_eq g hg)
    rw [byFile_eq, hgroups, h.map_fst_eq]

end PushAudit.Report
