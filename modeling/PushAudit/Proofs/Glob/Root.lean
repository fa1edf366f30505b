import PushAudit.Proofs.Glob.Expand

namespace PushAudit.Glob

open Host (FileSystem FileTree IsTaken)
open PushAudit.Path (isVoid segments slashed)

variable {s t : List Char}

/-- Nothing in a text has a meaning to a pattern. -/
structure IsLiteral (s : List Char) : Prop where
  noRun : '*' ∉ s
  noAny : '?' ∉ s
  noSet : '[' ∉ s

theorem IsLiteral.slashed (h : IsLiteral s) : IsLiteral (slashed s) := by
  unfold Path.slashed
  split
  · exact h
  · exact ⟨by simp [h.noRun], by simp [h.noAny], by simp [h.noSet]⟩

theorem IsLiteral.of_infix (hs : IsLiteral s) (h : t <:+: s) : IsLiteral t :=
  ⟨fun hmem => hs.noRun (h.subset hmem), fun hmem => hs.noAny (h.subset hmem), fun hmem => hs.noSet (h.subset hmem)⟩

theorem IsSimple.of_infix (hs : IsSimple s) (h : t <:+: s) : IsSimple t :=
  ⟨fun hmem => hs.noAny (h.subset hmem), fun hmem => hs.noSet (h.subset hmem),
    fun hdepth => hs.noDepth (hdepth.trans h)⟩

theorem IsLiteral.append_isSimple (hs : IsLiteral s) (ht : IsSimple t) : IsSimple (s ++ t) := by
  refine ⟨List.not_mem_append hs.noAny ht.noAny, List.not_mem_append hs.noSet ht.noSet, ?_⟩
  have hrun := hs.noRun
  clear hs
  induction s with
  | nil => exact ht.noDepth
  | cons c s ih =>
      rw [List.mem_cons, not_or] at hrun
      rw [List.cons_append, List.infix_cons_iff, not_or]
      refine ⟨fun hprefix => hrun.1 ?_, ih hrun.2⟩
      exact (List.cons_prefix_cons.mp hprefix).1

theorem mapM_tokens_of_isSimple {components : List (List Char)} (h : ∀ s ∈ components, IsSimple s) :
    (components.mapM fun s => (tokens s).map Step.ofTokens) = .ok (components.map Step.ofComponent) := by
  induction components with
  | nil => rfl
  | cons s components ih =>
      rw [List.forall_mem_cons] at h
      rw [List.mapM_cons, ih h.2, tokens_of_isSimple h.1]
      rfl

theorem dedupDepth_eq_self {steps : List Step} (h : .anyDepth ∉ steps) : dedupDepth steps = steps := by
  induction steps with
  | nil => rfl
  | cons step steps ih =>
      rw [List.mem_cons, not_or] at h
      cases step with
      | anyDepth => exact absurd rfl h.1
      | name s => rw [dedupDepth, ih h.2]; simp
      | matching ts => rw [dedupDepth, ih h.2]; simp

theorem ofComponent_ne_anyDepth : Step.ofComponent s ≠ .anyDepth := by
  by_cases h : '*' ∈ s
  · simp [Step.ofComponent_matching h]
  · simp [Step.ofComponent_name h]

theorem exists_componentsOf (h : s ≠ []) :
    ∃ t, slashed s = t ++ ['/'] ∧ componentsOf s = t.splitOn '/' ∧
      (s = t ++ ['/'] ∨ s = t ∧ t.getLast? ≠ some '/') := by
  obtain ⟨t, ht, hs | ⟨hs, hlast⟩⟩ := Path.exists_slashed h
  · refine ⟨t, ht, ?_, .inl hs⟩
    have hsplit : s.splitOn '/' = t.splitOn '/' ++ [[]] := by
      rw [hs, List.splitOn_append_cons_self, List.splitOn_nil]
    simp [componentsOf, hsplit]
  · refine ⟨t, ht, ?_, .inr ⟨hs, hlast⟩⟩
    rw [componentsOf, if_neg fun hnil => hlast ?_, hs]
    exact hs ▸ Path.getLast?_of_splitOn h hnil

theorem componentsOf_of_not_mem_nil (h : [] ∉ t.splitOn '/') : componentsOf t = t.splitOn '/' :=
  if_neg fun hnil => h (List.mem_of_getLast? hnil)

theorem componentsOf_slashed (s t : List Char) : componentsOf (slashed s ++ t) = componentsOf s ++ componentsOf t := by
  cases s with
  | nil => rfl
  | cons c s =>
      obtain ⟨u, hu, hcomponents, -⟩ := exists_componentsOf (List.cons_ne_nil c s)
      have hsplit : (u ++ '/' :: t).splitOn '/' = u.splitOn '/' ++ t.splitOn '/' :=
        List.splitOn_append_cons_self u t
      have hne := List.splitOn_ne_nil '/' t
      rw [hu, hcomponents, List.append_assoc, List.singleton_append, componentsOf, componentsOf, hsplit]
      simp only [List.getLast?_append_of_ne_nil _ hne]
      split
      · exact List.dropLast_append_of_ne_nil hne
      · rfl

theorem componentsOf_slashed_append (s : List Char) (h : [] ∉ t.splitOn '/') :
    componentsOf (slashed s ++ t) = componentsOf s ++ t.splitOn '/' := by
  rw [componentsOf_slashed, componentsOf_of_not_mem_nil h]

theorem ne_nil_of_not_mem_nil (h : [] ∉ t.splitOn '/') : t ≠ [] := by
  rintro rfl
  exact h (by simp)

theorem getLast?_ne_of_not_mem_nil (h : [] ∉ t.splitOn '/') : t.getLast? ≠ some '/' := by
  intro hlast
  obtain ⟨u, rfl⟩ := List.getLast?_eq_some_iff.mp hlast
  exact h (by rw [List.splitOn_append_cons_self]; simp)

theorem head?_ne_of_not_mem_nil (h : [] ∉ t.splitOn '/') : t.head? ≠ some '/' := by
  intro hhead
  obtain ⟨u, rfl⟩ := List.head?_eq_some_iff.mp hhead
  exact h (by rw [← List.nil_append ('/' :: u), List.splitOn_append_cons_self]; simp)

theorem infix_of_mem_componentsOf {p : Path} (h : s ∈ componentsOf p.inner) : s <:+: p.text.toList := by
  have hmem : s ∈ p.inner.splitOn '/' := by
    simp only [componentsOf] at h
    split at h
    · exact List.dropLast_subset _ h
    · exact h
  rw [Path.text_eq_inner]
  exact (Text.infix_of_mem_splitOn hmem).trans (List.suffix_append _ _).isInfix

theorem read_of_isSimple {p : Path} (h : IsSimple p.text.toList) (hne : p.inner ≠ []) :
    Pattern.read p.text = .ok ⟨p.isAbsolute, (componentsOf p.inner).map Step.ofComponent,
      p.text.toList.getLast? == some '/'⟩ := by
  have habsolute : (p.text.toList.head? == some '/') = p.isAbsolute := by
    rw [Bool.eq_iff_iff, beq_iff_eq, Path.isAbsolute_iff]
  have hinner : (if p.isAbsolute then p.text.toList.drop 1 else p.text.toList) = p.inner := rfl
  have hempty : p.inner.isEmpty = false := by simpa using hne
  have hsteps := mapM_tokens_of_isSimple fun s hs => h.of_infix (infix_of_mem_componentsOf (p := p) hs)
  have hdepth : Step.anyDepth ∉ (componentsOf p.inner).map Step.ofComponent := by
    rw [List.mem_map]
    rintro ⟨s, -, hs⟩
    exact ofComponent_ne_anyDepth hs
  simp only [Pattern.read, tokens_of_isSimple h, habsolute, hinner, hempty, hsteps, bind, Except.bind]
  rw [dedupDepth_eq_self (by simpa using hdepth)]
  rfl

theorem read_eq_of_toOption {text : String} {g : Pattern} (h : (Pattern.read text).toOption = some g) :
    Pattern.read text = .ok g := by
  cases hread : Pattern.read text with
  | error why =>
      rw [hread] at h
      contradiction
  | ok g' =>
      rw [hread] at h
      exact congrArg _ (Option.some.inj h)

def rootNames (root : Path) : List String := (componentsOf root.inner).map String.ofList

theorem map_ofComponent_root {root : Path} (h : IsLiteral root.text.toList) :
    (componentsOf root.inner).map Step.ofComponent = (rootNames root).map .name := by
  rw [rootNames, List.map_map, List.map_inj_left]
  intro s hs
  exact Step.ofComponent_name fun hstar => h.noRun ((infix_of_mem_componentsOf hs).subset hstar)

/-- Where a root has nothing that has a meaning, the pattern goes on from it. -/
theorem read_join {root : Path} {pattern : String} (hne : root.text ≠ "") (hroot : IsLiteral root.text.toList)
    (hpattern : IsSimple pattern.toList) (hparts : [] ∉ pattern.toList.splitOn '/') :
    Pattern.read (root.join ⟨pattern⟩).text = .ok ⟨root.isAbsolute,
      (rootNames root).map .name ++ (pattern.toList.splitOn '/').map Step.ofComponent, false⟩ := by
  have hrelative : ¬ Path.isAbsolute ⟨pattern⟩ := by
    rw [Path.isAbsolute_iff]
    exact head?_ne_of_not_mem_nil hparts
  have htext := Path.toList_text_join (p := root) hrelative
  have hinner := Path.inner_join hne hrelative
  have hlast : (slashed root.text.toList ++ pattern.toList).getLast? ≠ some '/' := by
    rw [List.getLast?_append_of_ne_nil _ (ne_nil_of_not_mem_nil hparts)]
    exact getLast?_ne_of_not_mem_nil hparts
  rw [read_of_isSimple, Path.isAbsolute_join hne hrelative, hinner, componentsOf_slashed_append _ hparts,
    List.map_append, map_ofComponent_root hroot, htext, beq_eq_false_iff_ne.mpr hlast]
  · rw [htext]
    exact hroot.slashed.append_isSimple hpattern
  · rw [hinner]
    exact List.append_ne_nil_of_right_ne_nil _ (ne_nil_of_not_mem_nil hparts)


/-- The path that a pattern has for a root. -/
def base (root : Path) : Path := under ⟨if root.isAbsolute then "/" else "."⟩ (rootNames root)

/-- No name is lost on the way: after nothing but dots, an empty segment leaves no path to go on from. -/
def IsKept (root : Path) : Prop :=
  root.isAbsolute ∨ ∀ n name rest, root.parts ≠ List.replicate n "." ++ "" :: name :: rest

variable {fs : FileSystem} {input : ByteArray} {root p x : Path} {names : List String} {steps : List Step}
  {entries : List (String × FileTree)}

theorem exists_rootNames (h : root.inner ≠ []) : ∃ t, rootNames root = segments t ∧
    (root.inner = t ++ ['/'] ∨ root.inner = t ∧ t.getLast? ≠ some '/') := by
  obtain ⟨t, -, hcomponents, ht⟩ := exists_componentsOf h
  exact ⟨t, by rw [rootNames, hcomponents, segments], ht⟩

theorem rootNames_of_inner_nil (h : root.inner = []) : rootNames root = [] := by
  rw [rootNames, h]
  rfl

theorem filter_rootNames (root : Path) :
    (rootNames root).filter (!isVoid ·) = root.parts.filter (!isVoid ·) := by
  by_cases h : root.inner = []
  · rw [rootNames_of_inner_nil h, Path.parts, h]
    decide
  · obtain ⟨t, ht, hinner | ⟨hinner, -⟩⟩ := exists_rootNames h
    · rw [ht, Path.parts, hinner, Path.segments_append_slash, List.filter_append]
      simp [segments, isVoid]
    · rw [ht, Path.parts, hinner]

theorem not_mem_of_mem_rootNames {name : String} (h : name ∈ rootNames root) : '/' ∉ name.toList := by
  by_cases hinner : root.inner = []
  · rw [rootNames_of_inner_nil hinner] at h
    contradiction
  · obtain ⟨t, ht, -⟩ := exists_rootNames hinner
    exact Path.not_mem_of_mem_segments (ht ▸ h)

theorem leads_of_lead (htext : p.text ≠ "") (hlead : p.layout.lead ≠ .here)
    (h : ∀ name ∈ names, '/' ∉ name.toList) : Leads p names := by
  induction names generalizing p with
  | nil => exact .nil (.inr ⟨htext, hlead⟩)
  | cons name names ih =>
      rw [List.forall_mem_cons] at h
      have hp : Spelled p := .inr ⟨htext, hlead⟩
      have hnext := Path.lead_join_ne_here htext hlead h.1
      rw [← extend_eq_join hlead] at hnext
      have hspelled := hp.extend h.1 fun hhere => absurd hhere (ne_here_of_lead hlead)
      exact .cons hp h.1 (ih hspelled.text_ne_empty hnext h.2)

theorem leads_here (h : ∀ name ∈ names, '/' ∉ name.toList)
    (hkept : ∀ n rest, names ≠ List.replicate n "." ++ "" :: rest) : Leads ⟨"."⟩ names := by
  induction names with
  | nil => exact .nil (.inl rfl)
  | cons name names ih =>
      rw [List.forall_mem_cons] at h
      refine .cons (.inl rfl) h.1 ?_
      rw [extend_here]
      by_cases hdot : name = "."
      · subst hdot
        exact ih h.2 fun n rest hrest => hkept (n + 1) rest (by rw [hrest, List.replicate_succ, List.cons_append])
      · have hne : name ≠ "" := by
          rintro rfl
          exact hkept 0 names rfl
        exact leads_of_lead hne (lead_of_not_mem h.1 hdot) h.2

theorem rootNames_ne_of_isKept (hne : root.text ≠ "") (hrelative : ¬ root.isAbsolute) (hkept : IsKept root)
    (n : Nat) (rest : List String) : rootNames root ≠ List.replicate n "." ++ "" :: rest := by
  intro hnames
  have hparts := hkept.resolve_left hrelative n
  have hinner : root.inner ≠ [] := by
    rw [Path.inner, if_neg hrelative]
    simpa using hne
  obtain ⟨t, ht, hslash | ⟨hself, hlast⟩⟩ := exists_rootNames hinner
  · have hsegments : root.parts = List.replicate n "." ++ "" :: (rest ++ [""]) := by
      rw [Path.parts, hslash, Path.segments_append_slash, ← ht, hnames, List.append_assoc]
      rfl
    have hne : rest ++ [""] ≠ [] := by simp
    obtain ⟨name, rest', hrest⟩ := List.exists_cons_of_ne_nil hne
    exact hparts name rest' (by rw [hsegments, hrest])
  · cases rest with
    | nil =>
        have hsplit : (t.splitOn '/').getLast? = some [] := by
          have hsegments := congrArg List.getLast? (ht.symm.trans hnames)
          rw [segments, List.getLast?_map, List.getLast?_concat, Option.map_eq_some_iff] at hsegments
          obtain ⟨s, hs, hempty⟩ := hsegments
          rw [hs, (String.ofList_eq_empty_iff).mp hempty]
        exact hlast (Path.getLast?_of_splitOn (hself ▸ hinner) hsplit)
    | cons name rest => exact hparts name rest (by rw [Path.parts, hself, ← ht, hnames])

theorem leads_base (hne : root.text ≠ "") (hkept : IsKept root) :
    Leads ⟨if root.isAbsolute then "/" else "."⟩ (rootNames root) := by
  have hslash : ∀ name ∈ rootNames root, '/' ∉ name.toList := fun name => not_mem_of_mem_rootNames
  by_cases habsolute : root.isAbsolute
  · rw [if_pos habsolute]
    exact leads_of_lead (by decide) (by decide) hslash
  · rw [if_neg habsolute]
    exact leads_here hslash (rootNames_ne_of_isKept hne habsolute hkept)

theorem intercalate_sublist {a b c : List Char} (h : a.Sublist (b ++ '/' :: c)) (ls : List (List Char)) :
    (['/'].intercalate (a :: ls)).Sublist (['/'].intercalate (b :: c :: ls)) := by
  cases ls with
  | nil => simpa [List.intercalate_cons_cons] using h
  | cons l ls =>
      rw [List.intercalate_cons_cons, List.intercalate_cons_cons, List.intercalate_cons_cons]
      have happend := h.append (List.Sublist.refl (['/'] ++ ['/'].intercalate (l :: ls)))
      simpa using happend

theorem text_under_sublist (h : ∀ name ∈ names, '/' ∉ name.toList) : (under p names).text.toList.Sublist
    (['/'].intercalate (p.text.toList :: names.map String.toList)) := by
  induction names generalizing p with
  | nil => simp
  | cons name names ih =>
      rw [List.forall_mem_cons] at h
      exact (ih h.2).trans (intercalate_sublist (text_extend_sublist h.1) _)

theorem intercalate_append_cons (a b : List Char) (ls : List (List Char)) :
    ['/'].intercalate ((a ++ b) :: ls) = a ++ ['/'].intercalate (b :: ls) := by
  cases ls with
  | nil => simp
  | cons l ls => simp [List.intercalate_cons_cons]

theorem text_extend_start (absolute : Bool) (name : String) (hname : '/' ∉ name.toList) :
    (extend ⟨if absolute then "/" else "."⟩ name).text.toList =
      (if absolute then ['/'] else []) ++ name.toList := by
  cases absolute with
  | false => simp [extend_here]
  | true =>
      have hlead : (⟨"/"⟩ : Path).layout.lead ≠ .here := by decide
      simp only [if_true, extend_eq_join hlead, Path.toList_text_join (Path.not_isAbsolute_of_not_mem hname)]
      rfl

theorem text_base_sublist (hne : root.text ≠ "") : (base root).text.toList.Sublist root.text.toList := by
  have htext := Path.text_eq_inner root
  by_cases hinner : root.inner = []
  · have habsolute : root.isAbsolute := by
      by_contra habsolute
      rw [hinner, if_neg habsolute] at htext
      exact hne (by simpa using htext)
    rw [base, rootNames_of_inner_nil hinner, htext, hinner, if_pos habsolute, if_pos habsolute]
    exact List.Sublist.refl _
  · -- The slash that an absolute root begins with is the first step's, all others are put between names.
    obtain ⟨t, ht, hcases⟩ := exists_rootNames hinner
    have hsublist : t.Sublist root.inner := by
      rcases hcases with hslash | ⟨hself, -⟩
      · exact hslash ▸ List.sublist_append_left t _
      · exact hself ▸ List.Sublist.refl t
    have hslash : ∀ name ∈ rootNames root, '/' ∉ name.toList := fun name => not_mem_of_mem_rootNames
    obtain ⟨name, names, hnames⟩ : ∃ name names, rootNames root = name :: names :=
      List.exists_cons_of_ne_nil (by rw [ht, segments]; simp [List.splitOn_ne_nil])
    rw [hnames, List.forall_mem_cons] at hslash
    have hunder := text_under_sublist (p := extend ⟨if root.isAbsolute then "/" else "."⟩ name) hslash.2
    rw [base, hnames, under_cons, htext]
    refine (hunder.trans ?_).trans ((List.Sublist.refl _).append hsublist)
    rw [text_extend_start _ _ hslash.1, ← Path.intercalate_segments t, ← ht, hnames, List.map_cons,
      intercalate_append_cons]

theorem isTaken_base (hroot : IsTaken root) (hkept : IsKept root) : IsTaken (base root) :=
  hroot.of_sublist (leads_base hroot.nonempty hkept).spelled_under.text_ne_empty (text_base_sublist hroot.nonempty)

theorem isAbsolute_base (hne : root.text ≠ "") (hkept : IsKept root) :
    (base root).isAbsolute = root.isAbsolute := by
  rw [base, (leads_base hne hkept).isAbsolute_under]
  split
  · next h => rw [h]; decide
  · next h => rw [Bool.eq_false_of_not_eq_true h]; decide

theorem filter_parts_base (hne : root.text ≠ "") (hkept : IsKept root) :
    (base root).parts.filter (!isVoid ·) = root.parts.filter (!isVoid ·) := by
  have hstart : (Path.parts ⟨if root.isAbsolute then "/" else "."⟩).filter (!isVoid ·) = [] := by
    split <;> decide
  rw [base, (leads_base hne hkept).filter_parts_under, hstart, List.nil_append, filter_rootNames]

theorem lookUp_base (hkept : IsKept root) (h : fs.lookUp root = .ok (.directory entries)) :
    fs.lookUp (base root) = .ok (.directory entries) := by
  obtain ⟨htaken, hwalk⟩ := FileSystem.lookUp_eq_ok_directory_iff.mp h
  refine FileSystem.lookUp_eq_ok_directory_iff.mpr ⟨isTaken_base htaken hkept, ?_⟩
  rw [FileSystem.route_eq, FileSystem.start] at hwalk ⊢
  rwa [isAbsolute_base htaken.nonempty hkept, filter_parts_base htaken.nonempty hkept]

theorem names_base (hne : root.text ≠ "") (hkept : IsKept root) : fs.names (base root) = fs.names root := by
  rw [FileSystem.names_eq, FileSystem.names_eq, FileSystem.start, FileSystem.start, isAbsolute_base hne hkept,
    filter_parts_base hne hkept]

theorem mem_found_names_iff (h : Leads p names) (hdir : fs.lookUp (under p names) = .ok (.directory entries)) :
    x ∈ found fs input (names.map .name ++ steps) p ↔ x ∈ found fs input steps (under p names) := by
  induction h with
  | nil hp => rfl
  | @cons p name names hp hname h ih =>
      obtain ⟨entries', hnext⟩ := h.exists_lookUp_of_under hdir
      obtain ⟨entries'', hhere⟩ := hp.exists_lookUp_of_extend hname hnext
      rw [List.map_cons, List.cons_append, mem_found_name_iff, ih hdir, under_cons]
      refine and_iff_right ?_
      split
      · exact ⟨_, hhere⟩
      · exact ⟨_, hnext⟩

end PushAudit.Glob
