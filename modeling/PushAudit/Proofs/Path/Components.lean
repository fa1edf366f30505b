import Mathlib.Data.List.Sort
import PushAudit.Proofs.Path.Above

namespace PushAudit.Path

variable {p q base : Path} {s : List Char} {ss : List String}

instance : Std.TransCmp Component.order :=
  inferInstanceAs (Std.TransCmp (compareLex (compareOn Component.rank) (compareOn Component.text)))

instance : Std.TransCmp order where
  eq_swap :=
    have h : Std.OrientedCmp (List.compareLex Component.order) := inferInstance
    h.eq_swap
  isLE_trans hpq hqr :=
    have h : Std.TransCmp (List.compareLex Component.order) := inferInstance
    h.isLE_trans hpq hqr

theorem sort_perm (ps : List Path) : (sort ps).Perm ps := List.mergeSort_perm ps _

theorem pairwise_sort (ps : List Path) : (sort ps).Pairwise fun p q => (order p q).isLE := by
  refine List.pairwise_mergeSort (fun p q r => Std.TransCmp.isLE_trans) (fun p q => ?_) ps
  have hswap : order q p = (order p q).swap := Std.OrientedCmp.eq_swap
  rw [hswap]
  cases order p q <;> rfl

theorem components_eq (p : Path) : p.components = p.layout.lead.components ++ p.steps.map .ofSegment := by
  rw [components, steps_eq]

theorem head?_segments_eq_dot_iff : (segments s).head? = some "." ↔ s = ['.'] ∨ ['.', '/'] <+: s := by
  induction s using Text.cut_induction '/' with
  | single s hs =>
      have hprefix : ¬ ['.', '/'] <+: s := fun h => hs (h.subset (.tail _ (.head _)))
      rw [or_iff_left hprefix, segments, List.splitOn_eq_singleton hs, List.map_singleton, List.head?_cons,
        Option.some.injEq, ← String.toList_inj, String.toList_ofList]
      rfl
  | cons s t hs ih =>
      rw [segments, List.splitOn_append_cons_self_of_not_mem hs, List.map_cons, List.head?_cons,
        Option.some.injEq, ← String.toList_inj, String.toList_ofList]
      constructor
      · rintro rfl
        exact .inr (List.prefix_append _ _)
      · rintro (h | ⟨u, hu⟩)
        · have hmem : '/' ∈ ['.'] := h ▸ List.mem_append_right s (.head t)
          contradiction
        · rcases s with _ | ⟨c, _ | ⟨d, s⟩⟩
          · simp at hu
          · simp only [List.cons_append, List.nil_append, List.cons.injEq] at hu
            rw [← hu.1]
            rfl
          · simp only [List.cons_append, List.nil_append, List.cons.injEq] at hu
            exact absurd (hu.2.1 ▸ .tail c (.head s)) hs

theorem Layout.IsSound.lead_path {l : Layout} (h : l.IsSound) (hhead : l.lead = .none → l.segments.head? ≠ some ".") :
    l.path.layout.lead = l.lead := by
  have hroot : l.path.layout.lead = .root ↔ l.lead = .root := by
    rw [← h.isAbsolute_iff, isAbsolute, beq_iff_eq]
  have hhere : l.path.layout.lead = .here ↔ l.lead = .here := by
    rw [lead_eq_here_iff]
    rcases l with ⟨_ | _ | _, ss⟩
    · rw [← head?_segments_eq_dot_iff, toList_text_none]
      refine iff_of_false ?_ (by simp)
      by_cases hss : ss = []
      · subst hss
        decide
      · rw [Path.segments, List.splitOn_intercalate '/' (by simpa using h.noSlash) (by simpa using hss)]
        simpa [Function.comp_def] using hhead rfl
    · rw [toList_text_root]
      simp
    · rw [toList_text_here]
      cases ss <;> simp
  cases hpath : l.path.layout.lead with
  | root => exact (hroot.mp hpath).symm
  | here => exact (hhere.mp hpath).symm
  | none =>
      cases hlead : l.lead with
      | none => rfl
      | root => exact hpath.symm.trans (hroot.mpr hlead)
      | here => exact hpath.symm.trans (hhere.mpr hlead)

theorem Layout.IsSound.components_path {l : Layout} (h : l.IsSound)
    (hhead : l.lead = .none → l.segments.head? ≠ some ".") :
    l.path.components = l.lead.components ++ (l.segments.filter (!isVoid ·)).map .ofSegment := by
  rw [components_eq, h.lead_path hhead, h.steps_path]

theorem trimVoid_prefix (ss : List String) : trimVoid ss <+: ss := by
  have h : (ss.reverse.dropWhile isVoid).reverse <+: ss.reverse.reverse :=
    List.reverse_prefix.mpr (List.dropWhile_suffix _)
  rwa [List.reverse_reverse] at h

theorem filter_trimVoid (ss : List String) : (trimVoid ss).filter (!isVoid ·) = ss.filter (!isVoid ·) := by
  rw [trimVoid, filter_reverse_dropWhile, List.reverse_reverse]

theorem dropSegments_suffix (n : Nat) (ss : List String) : dropSegments n ss <:+ ss := by
  fun_induction dropSegments n ss with
  | case1 ss => exact List.dropWhile_suffix _
  | case2 n => exact List.suffix_refl _
  | case3 n s ss hvoid ih => exact ih.trans (List.suffix_cons s ss)
  | case4 n s ss hvoid ih => exact ih.trans (List.suffix_cons s ss)

theorem filter_dropSegments (n : Nat) (ss : List String) :
    (dropSegments n ss).filter (!isVoid ·) = (ss.filter (!isVoid ·)).drop n := by
  fun_induction dropSegments n ss with
  | case1 ss =>
      rw [List.drop_zero, ← List.reverse_inj, ← List.filter_reverse, ← List.filter_reverse]
      simpa using filter_reverse_dropWhile ss
  | case2 n => rfl
  | case3 n s ss hvoid ih => rw [ih, List.filter_cons_of_neg (by simpa using hvoid)]
  | case4 n s ss hvoid ih => rw [ih, List.filter_cons_of_pos (by simpa using hvoid), List.drop_succ_cons]

theorem not_isVoid_of_head?_dropSegments {n : Nat} {name : String} (h : (dropSegments n ss).head? = some name) :
    ¬ isVoid name := by
  fun_induction dropSegments n ss with
  | case1 ss =>
      have hhead := List.head?_dropWhile_not isVoid ss
      rw [h] at hhead
      simpa using hhead
  | case2 n => contradiction
  | case3 n s ss hvoid ih => exact ih h
  | case4 n s ss hvoid ih => exact ih h

theorem suffix_intercalate {ls ms : List (List Char)} (h : ls <:+ ms) :
    ['/'].intercalate ls <:+ ['/'].intercalate ms := by
  obtain ⟨ns, rfl⟩ := h
  induction ns with
  | nil => exact List.suffix_refl _
  | cons n ns ih =>
      rw [List.cons_append]
      by_cases hmore : ns ++ ls = []
      · rw [(List.append_eq_nil_iff.mp hmore).2]
        exact List.nil_suffix
      · rw [List.intercalate_cons_of_ne_nil hmore]
        exact ih.trans (List.suffix_append _ _)

theorem isSound_of_head (hslash : ∀ s ∈ ss, '/' ∉ s.toList) (hhead : ∀ s, ss.head? = some s → ¬ isVoid s) :
    Layout.IsSound ⟨.none, ss⟩ where
  noSlash := hslash
  noRoot _ := by
    rw [isAbsolute_iff, toList_text_none]
    cases ss with
    | nil => simp
    | cons s ss =>
        have hprefix : s.toList <+: ['/'].intercalate ((s :: ss).map String.toList) := by
          have h := prefix_intercalate (List.prefix_append [s.toList] (ss.map String.toList))
          rwa [List.intercalate_singleton] at h
        have hne : s.toList ≠ [] := fun hnil => hhead s rfl (by simp [String.toList_eq_nil_iff.mp hnil, isVoid])
        obtain ⟨u, hu⟩ := hprefix
        rw [← hu, List.head?_append_of_ne_nil _ hne]
        exact fun h => hslash s (.head _) (List.mem_of_mem_head? h)

theorem head?_layout_segments (h : p.layout.lead = .none) : p.layout.segments.head? ≠ some "." := by
  intro hhead
  have hsegments : p.layout.segments = segments p.text.toList := by
    unfold layout at h ⊢
    split at h <;> first | contradiction | rfl
  rw [hsegments, head?_segments_eq_dot_iff, ← lead_eq_here_iff, h] at hhead
  contradiction

theorem head?_eq_of_beginning {rs : List String} {name : String} (h : ss <+: rs) (hname : ss.head? = some name) :
    rs.head? = some name := by
  obtain ⟨ts, rfl⟩ := h
  rw [List.head?_append, hname, Option.some_or]

theorem intercalate_segments_suffix (p : Path) :
    ['/'].intercalate (p.layout.segments.map String.toList) <:+ p.text.toList := by
  have htext : (Layout.path ⟨p.layout.lead, p.layout.segments⟩).text = p.text := congrArg text (layout_path p)
  rw [← htext]
  cases p.layout.lead with
  | none => simp [toList_text_none]
  | root =>
      rw [toList_text_root]
      exact List.suffix_cons _ _
  | here =>
      rw [toList_text_here]
      exact suffix_intercalate (List.suffix_cons _ _)

theorem components_dropSegments (p : Path) (n : Nat) :
    let rest := Layout.path ⟨.none, trimVoid (dropSegments n p.layout.segments)⟩
    rest.components = (p.steps.drop n).map .ofSegment ∧ rest.text.toList <:+: p.text.toList := by
  have hdrop := dropSegments_suffix n p.layout.segments
  have htrim := trimVoid_prefix (dropSegments n p.layout.segments)
  have hhead (s : String) (hs : (trimVoid (dropSegments n p.layout.segments)).head? = some s) : ¬ isVoid s :=
    not_isVoid_of_head?_dropSegments (head?_eq_of_beginning htrim hs)
  have hsound : Layout.IsSound ⟨.none, trimVoid (dropSegments n p.layout.segments)⟩ :=
    isSound_of_head (fun s hs => (isSound_layout p).noSlash s (hdrop.subset (htrim.subset hs))) hhead
  refine ⟨?_, ?_⟩
  · rw [hsound.components_path fun _ hdot => hhead _ hdot (by decide), filter_trimVoid, filter_dropSegments, steps_eq]
    rfl
  · rw [toList_text_none]
    have hprefix := prefix_intercalate (htrim.map String.toList)
    have hsuffix := suffix_intercalate (hdrop.map String.toList)
    exact hprefix.isInfix.trans (hsuffix.trans (intercalate_segments_suffix p)).isInfix

theorem components_trimVoid (p : Path) :
    let rest := Layout.path ⟨p.layout.lead, trimVoid p.layout.segments⟩
    rest.components = p.components ∧ rest.text.toList <+: p.text.toList := by
  have htrim := trimVoid_prefix p.layout.segments
  have hhead (hlead : p.layout.lead = .none) : (trimVoid p.layout.segments).head? ≠ some "." :=
    fun hdot => head?_layout_segments hlead (head?_eq_of_beginning htrim hdot)
  have htext : (Layout.path ⟨p.layout.lead, p.layout.segments⟩).text = p.text := congrArg text (layout_path p)
  refine ⟨?_, htext ▸ text_prefix_text p.layout.lead htrim⟩
  rw [((isSound_layout p).of_beginning htrim).components_path hhead, filter_trimVoid]
  rfl

theorem relativeTo?_eq_none_iff : p.relativeTo? base = none ↔ ¬ base.components <+: p.components := by
  rw [relativeTo?, ← List.isPrefixOf_iff_prefix]
  split
  · next h =>
      split <;> simp [h]
  · next h => simp [h]

/-- What is left of a path goes on from where the base leads, and is spelled as in the path. -/
theorem components_of_relativeTo? (h : p.relativeTo? base = some q) :
    p.components = base.components ++ q.components ∧ q.text.toList <:+: p.text.toList := by
  rw [relativeTo?] at h
  split at h
  · next hprefix =>
      obtain ⟨rest, hrest⟩ := List.isPrefixOf_iff_prefix.mp hprefix
      split at h
      · next htaken =>
          obtain rfl := Option.some.inj h
          obtain ⟨hcomponents, htext⟩ := components_trimVoid p
          rw [hcomponents, List.length_eq_zero_iff.mp htaken]
          exact ⟨rfl, htext.isInfix⟩
      · next htaken =>
          obtain rfl := Option.some.inj h
          obtain ⟨hcomponents, htext⟩ :=
            components_dropSegments p (base.components.length - p.layout.lead.components.length)
          refine ⟨?_, htext⟩
          -- The lead is one component at most, so that the base has all of it.
          have hlead : p.layout.lead.components.length ≤ base.components.length := by
            cases p.layout.lead <;> simp only [Lead.components, List.length_cons, List.length_nil] <;> omega
          have hlast : p.components.drop base.components.length =
              (p.steps.drop (base.components.length - p.layout.lead.components.length)).map .ofSegment := by
            rw [components_eq p, List.drop_append, List.drop_eq_nil_of_le hlead, List.nil_append, List.map_drop]
          rw [hcomponents, ← hlast, ← hrest, List.drop_left]
  · contradiction

end PushAudit.Path
