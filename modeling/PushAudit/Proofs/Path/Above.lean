import PushAudit.Proofs.Path

namespace PushAudit.Path

variable {p d : Path} {lead : Lead} {ss rs : List String}

def steps (p : Path) : List String := p.parts.filter (!isVoid ·)

theorem filter_segments_intercalate (h : ∀ s ∈ ss, '/' ∉ s.toList) :
    (segments (['/'].intercalate (ss.map String.toList))).filter (!isVoid ·) = ss.filter (!isVoid ·) := by
  by_cases hne : ss = []
  · subst hne
    decide
  · rw [segments, List.splitOn_intercalate '/' (by simpa using h) (by simpa using hne)]
    simp [Function.comp_def]

theorem prefix_intercalate {ls ms : List (List Char)} (h : ls <+: ms) :
    ['/'].intercalate ls <+: ['/'].intercalate ms := by
  obtain ⟨ns, rfl⟩ := h
  induction ls with
  | nil => exact List.nil_prefix
  | cons l ls ih =>
      rw [List.cons_append]
      by_cases hls : ls = []
      · subst hls
        rw [List.nil_append, List.intercalate_singleton]
        cases ns with
        | nil => simp
        | cons n ns =>
            rw [List.intercalate_cons_cons, List.append_assoc]
            exact List.prefix_append l _
      · have hmore : ls ++ ns ≠ [] := fun hnil => hls (List.append_eq_nil_iff.mp hnil).1
        rw [List.intercalate_cons_of_ne_nil hls, List.intercalate_cons_of_ne_nil hmore]
        exact List.prefix_append_right_inj _ |>.mpr ih

theorem toList_text_none (ss : List String) :
    (Layout.path ⟨.none, ss⟩).text.toList = ['/'].intercalate (ss.map String.toList) := String.toList_intercalate

theorem toList_text_root (ss : List String) :
    (Layout.path ⟨.root, ss⟩).text.toList = '/' :: ['/'].intercalate (ss.map String.toList) := by
  rw [Layout.path, String.toList_append, String.toList_intercalate]
  rfl

theorem toList_text_here (ss : List String) :
    (Layout.path ⟨.here, ss⟩).text.toList = ['/'].intercalate (['.'] :: ss.map String.toList) :=
  String.toList_intercalate

theorem layout_path (p : Path) : p.layout.path = p := by
  have htext {q : Path} (h : q.text.toList = p.text.toList) : q = p := by
    cases p
    cases q
    exact congrArg mk (String.toList_inj.mp h)
  apply htext
  unfold layout
  split
  · next h => rw [toList_text_root, intercalate_segments, h]
  · next h => rw [toList_text_here, h]; rfl
  · next rest h =>
      have hne : (segments rest).map String.toList ≠ [] := by
        simp [segments, List.splitOn_ne_nil]
      rw [toList_text_here, List.intercalate_cons_of_ne_nil hne, intercalate_segments, h]
      rfl
  · next h => rw [toList_text_none, intercalate_segments]

/-- A layout whose segments can be told apart again: a lead it has not is not to be seen in them. -/
structure Layout.IsSound (l : Layout) : Prop where
  noSlash : ∀ s ∈ l.segments, '/' ∉ s.toList
  noRoot : l.lead = .none → ¬ l.path.isAbsolute

theorem Layout.IsSound.isAbsolute_iff {l : Layout} (h : l.IsSound) : l.path.isAbsolute ↔ l.lead = .root := by
  rcases l with ⟨_ | _ | _, ss⟩
  · simpa using h.noRoot rfl
  · rw [Path.isAbsolute_iff, toList_text_root]
    simp
  · rw [Path.isAbsolute_iff, toList_text_here]
    cases ss <;> simp

theorem Layout.IsSound.steps_path {l : Layout} (h : l.IsSound) : l.path.steps = l.segments.filter (!isVoid ·) := by
  have habsolute := h.isAbsolute_iff
  rcases l with ⟨_ | _ | _, ss⟩
  · rw [steps, parts, inner, if_neg (by simpa using habsolute), toList_text_none]
    exact filter_segments_intercalate h.noSlash
  · rw [steps, parts, inner, if_pos (by simpa using habsolute), toList_text_root]
    exact filter_segments_intercalate h.noSlash
  · rw [steps, parts, inner, if_neg (by simpa using habsolute), toList_text_here]
    have hslash : ∀ s ∈ "." :: ss, '/' ∉ s.toList := List.forall_mem_cons.mpr ⟨by decide, h.noSlash⟩
    have hdot := filter_segments_intercalate hslash
    rwa [List.filter_cons_of_neg (by decide)] at hdot

theorem text_prefix_text (lead : Lead) (h : ss <+: rs) :
    (Layout.path ⟨lead, ss⟩).text.toList <+: (Layout.path ⟨lead, rs⟩).text.toList := by
  have hmap : ss.map String.toList <+: rs.map String.toList := h.map String.toList
  cases lead with
  | none =>
      rw [toList_text_none, toList_text_none]
      exact prefix_intercalate hmap
  | root =>
      rw [toList_text_root, toList_text_root, List.cons_prefix_cons]
      exact ⟨rfl, prefix_intercalate hmap⟩
  | here =>
      rw [toList_text_here, toList_text_here]
      exact prefix_intercalate (List.cons_prefix_cons.mpr ⟨rfl, hmap⟩)

theorem isSound_layout (p : Path) : p.layout.IsSound where
  noSlash s hs := by
    unfold layout at hs
    split at hs
    · exact not_mem_of_mem_segments hs
    · contradiction
    · exact not_mem_of_mem_segments hs
    · exact not_mem_of_mem_segments hs
  noRoot hlead := by
    rw [layout_path, isAbsolute, hlead]
    decide

theorem Layout.IsSound.of_beginning {l : Layout} (hl : l.IsSound) (h : ss <+: l.segments) :
    Layout.IsSound ⟨l.lead, ss⟩ where
  noSlash s hs := hl.noSlash s (h.subset hs)
  noRoot hlead := by
    have hroot := hl.noRoot hlead
    rw [Path.isAbsolute_iff] at hroot ⊢
    intro hhead
    obtain ⟨t, ht⟩ := List.head?_eq_some_iff.mp hhead
    obtain ⟨u, hu⟩ := text_prefix_text l.lead h
    exact hroot (by rw [← hu, ht]; rfl)

theorem steps_eq (p : Path) : p.steps = p.layout.segments.filter (!isVoid ·) := by
  have h := (isSound_layout p).steps_path
  rwa [layout_path] at h

/-- What is above a path is a beginning of it, or nothing at all where it begins with a dot. -/
theorem exists_prefix_of_mem_aboveSegments (h : d ∈ aboveSegments lead rs) :
    (∃ ss, ss <+: rs.reverse ∧ d = Layout.path ⟨lead, ss⟩) ∨ lead = .here ∧ d = ⟨""⟩ := by
  induction rs with
  | nil =>
      rw [aboveSegments] at h
      split at h
      · next hlead => exact .inr ⟨hlead, List.mem_singleton.mp h⟩
      · contradiction
  | cons s rs ih =>
      have hprefix : rs.reverse <+: (s :: rs).reverse := by
        rw [List.reverse_cons]
        exact List.prefix_append _ _
      have hup (h : d ∈ aboveSegments lead rs) := (ih h).imp_left fun ⟨ss, hss, hd⟩ =>
        (⟨ss, hss.trans hprefix, hd⟩ : ∃ ss, ss <+: (s :: rs).reverse ∧ d = Layout.path ⟨lead, ss⟩)
      rw [aboveSegments] at h
      split at h
      · exact hup h
      · rcases List.mem_cons.mp h with hd | h
        · exact .inl ⟨_, (List.reverse_prefix.mpr (List.dropWhile_suffix _)).trans hprefix, hd⟩
        · exact hup h

theorem filter_reverse_dropWhile (rs : List String) :
    (rs.dropWhile isVoid).reverse.filter (!isVoid ·) = rs.reverse.filter (!isVoid ·) := by
  rw [List.filter_reverse, List.filter_reverse, List.reverse_inj]
  induction rs with
  | nil => rfl
  | cons s rs ih =>
      by_cases hs : isVoid s
      · rw [List.dropWhile_cons_of_pos hs, ih, List.filter_cons_of_neg (by simpa using hs)]
      · rw [List.dropWhile_cons_of_neg hs]

/-- The paths above one lead everywhere on the way to it, the nearest first. -/
theorem exists_split_aboveSegments
    (hsteps : ∀ ss, ss <+: rs.reverse → (Layout.path ⟨lead, ss⟩).steps = ss.filter (!isVoid ·))
    {way rest : List String} {s : String} (hway : rs.reverse.filter (!isVoid ·) = way ++ s :: rest) :
    ∃ before d after, aboveSegments lead rs = before ++ d :: after ∧ d.steps = way ∧
      ∀ b ∈ before, way.length < b.steps.length := by
  induction rs generalizing rest s with
  | nil => simp at hway
  | cons c rs ih =>
      have hprefix : rs.reverse <+: (c :: rs).reverse := by
        rw [List.reverse_cons]
        exact List.prefix_append _ _
      have hshort := fun ss (hss : ss <+: rs.reverse) => hsteps ss (hss.trans hprefix)
      rw [List.reverse_cons, List.filter_append] at hway
      by_cases hc : isVoid c
      · rw [List.filter_cons_of_neg (by simpa using hc), List.filter_nil, List.append_nil] at hway
        rw [aboveSegments, if_pos hc]
        exact ih hshort hway
      · rw [List.filter_cons_of_pos (by simpa using hc), List.filter_nil] at hway
        rw [aboveSegments, if_neg hc]
        have hhead : (Layout.path ⟨lead, (rs.dropWhile isVoid).reverse⟩).steps = rs.reverse.filter (!isVoid ·) := by
          rw [hsteps _ ((List.reverse_prefix.mpr (List.dropWhile_suffix _)).trans hprefix),
            filter_reverse_dropWhile]
        -- The nearest path leads up to this last step; all others lead to less than that.
        rcases List.eq_nil_or_concat rest with rfl | ⟨rest, e, rfl⟩
        · have heq : rs.reverse.filter (!isVoid ·) = way := (List.append_inj' hway rfl).1
          exact ⟨[], _, _, rfl, hhead.trans heq, nofun⟩
        · have heq : rs.reverse.filter (!isVoid ·) = way ++ s :: rest := by
            have hconcat : way ++ s :: rest.concat e = (way ++ s :: rest) ++ [e] := by simp
            exact (List.append_inj' (hway.trans hconcat) rfl).1
          obtain ⟨before, d, after, habove, hd, hbefore⟩ := ih hshort heq
          refine ⟨_ :: before, d, after, by rw [habove]; rfl, hd, List.forall_mem_cons.mpr ⟨?_, hbefore⟩⟩
          rw [hhead, heq, List.length_append, List.length_cons]
          omega

structure IsAbove (d p : Path) : Prop where
  isAbsolute : d.isAbsolute = p.isAbsolute
  text : d.text.toList <+: p.text.toList
  steps : d.steps <+: p.steps

theorem isAbove_of_mem (h : d ∈ p :: p.above) : IsAbove d p := by
  rcases List.mem_cons.mp h with rfl | h
  · exact ⟨rfl, List.prefix_refl _, List.prefix_refl _⟩
  · have hsound := isSound_layout p
    have habsolute := hsound.isAbsolute_iff
    rw [layout_path] at habsolute
    rcases exists_prefix_of_mem_aboveSegments h with ⟨ss, hss, rfl⟩ | ⟨hlead, rfl⟩
    · rw [List.reverse_reverse] at hss
      have hsound' := hsound.of_beginning hss
      refine ⟨?_, ?_, ?_⟩
      · rw [Bool.eq_iff_iff, habsolute, hsound'.isAbsolute_iff]
      · have htext := text_prefix_text p.layout.lead hss
        rwa [show (⟨p.layout.lead, p.layout.segments⟩ : Layout).path = p from layout_path p] at htext
      · rw [hsound'.steps_path, steps_eq p]
        exact hss.filter _
    · refine ⟨?_, List.nil_prefix, ?_⟩
      · rw [Bool.eq_iff_iff, habsolute, hlead]
        decide
      · have hnil : steps ⟨""⟩ = [] := by decide
        rw [hnil]
        exact List.nil_prefix

/-- A path and those above it lead to every place on the way, the nearest first. -/
theorem exists_split_above {way : List String} (h : way <+: p.steps) :
    ∃ before d after, p :: p.above = before ++ d :: after ∧ d.steps = way ∧
      ∀ b ∈ before, way.length < b.steps.length := by
  obtain ⟨rest, hrest⟩ := h
  cases rest with
  | nil => exact ⟨[], p, p.above, rfl, by rw [← hrest, List.append_nil], nofun⟩
  | cons s rest =>
      have hsteps : ∀ ss, ss <+: p.layout.segments.reverse.reverse →
          (Layout.path ⟨p.layout.lead, ss⟩).steps = ss.filter (!isVoid ·) := by
        intro ss hss
        rw [List.reverse_reverse] at hss
        exact ((isSound_layout p).of_beginning hss).steps_path
      have hway : p.layout.segments.reverse.reverse.filter (!isVoid ·) = way ++ s :: rest := by
        rw [List.reverse_reverse, ← steps_eq, hrest]
      obtain ⟨before, d, after, habove, hd, hbefore⟩ := exists_split_aboveSegments hsteps hway
      refine ⟨p :: before, d, after, by rw [above, habove]; rfl, hd, List.forall_mem_cons.mpr ⟨?_, hbefore⟩⟩
      rw [← hrest, List.length_append, List.length_cons]
      omega

end PushAudit.Path
