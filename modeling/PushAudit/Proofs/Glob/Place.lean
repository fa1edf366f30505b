import PushAudit.Glob.Expand
import PushAudit.Proofs.Host.Place

namespace PushAudit.Glob

open Host (FileSystem FileTree IsTaken Holds isName)
open PushAudit.Path (isVoid slashed)

/-- The working directory as such, or a path that does not begin with it. -/
def Spelled (p : Path) : Prop := p = ⟨"."⟩ ∨ p.text ≠ "" ∧ p.layout.lead ≠ .here

variable {fs : FileSystem} {p : Path} {name : String} {names : List String} {t : FileTree}
  {entries : List (String × FileTree)}

theorem extend_here (name : String) : extend ⟨"."⟩ name = ⟨name⟩ := if_pos (by decide)

theorem extend_eq_join (h : p.layout.lead ≠ .here) : extend p name = p.join ⟨name⟩ :=
  if_neg (Path.components_ne_here h)

theorem Spelled.text_ne_empty (hp : Spelled p) : p.text ≠ "" := by
  rcases hp with rfl | ⟨hp, -⟩
  · decide
  · exact hp

theorem ne_here_of_lead (h : p.layout.lead ≠ .here) : p ≠ ⟨"."⟩ := by
  rintro rfl
  exact h (by decide)

theorem lead_of_not_mem (hname : '/' ∉ name.toList) (h : name ≠ ".") :
    (⟨name⟩ : Path).layout.lead ≠ .here := by
  rw [Ne, Path.lead_eq_here_iff, not_or]
  refine ⟨fun hdot => h (String.toList_inj.mp hdot), ?_⟩
  rintro ⟨s, hs⟩
  exact hname (by simp [← hs])

theorem Spelled.extend (hp : Spelled p) (hname : '/' ∉ name.toList) (hne : p = ⟨"."⟩ → name ≠ "") :
    Spelled (extend p name) := by
  rcases hp with rfl | ⟨htext, hlead⟩
  · rw [extend_here]
    by_cases hdot : name = "."
    · exact .inl (by rw [hdot])
    · exact .inr ⟨hne rfl, lead_of_not_mem hname hdot⟩
  · rw [extend_eq_join hlead]
    refine .inr ⟨?_, Path.lead_join_ne_here htext hlead hname⟩
    rw [Ne, ← String.toList_eq_nil_iff, Path.toList_text_join (Path.not_isAbsolute_of_not_mem hname)]
    obtain ⟨t, ht⟩ := Path.prefix_slashed p.text.toList
    simp [← ht, htext]

theorem Spelled.isAbsolute_extend (hp : Spelled p) (hname : '/' ∉ name.toList) :
    (Glob.extend p name).isAbsolute = p.isAbsolute := by
  rcases hp with rfl | ⟨htext, hlead⟩
  · rw [extend_here, Bool.eq_false_of_not_eq_true (Path.not_isAbsolute_of_not_mem hname)]
    rfl
  · rw [extend_eq_join hlead, Path.isAbsolute_join htext (Path.not_isAbsolute_of_not_mem hname)]

theorem Spelled.exists_parts_extend (hp : Spelled p) (hname : '/' ∉ name.toList) :
    ∃ before, (Glob.extend p name).parts = before ++ [name] ∧
      before.filter (!isVoid ·) = p.parts.filter (!isVoid ·) := by
  rcases hp with rfl | ⟨htext, hlead⟩
  · refine ⟨[], ?_, by decide⟩
    rw [extend_here, Path.parts, Path.inner, if_neg (Path.not_isAbsolute_of_not_mem hname),
      Path.segments_of_not_mem hname, List.nil_append]
  · rw [extend_eq_join hlead]
    exact Path.exists_parts_join htext hname

theorem Spelled.exists_trail_extend (hp : Spelled p) (fs : FileSystem) (hname : '/' ∉ name.toList) :
    ∃ before, fs.trail (Glob.extend p name) = before ++ [name] ∧ before.filter (!isVoid ·) = fs.route p :=
  fs.exists_trail_of_parts (hp.isAbsolute_extend hname) (hp.exists_parts_extend hname)

theorem Spelled.filter_parts_extend (hp : Spelled p) (hname : '/' ∉ name.toList) :
    (Glob.extend p name).parts.filter (!isVoid ·) = p.parts.filter (!isVoid ·) ++ [name].filter (!isVoid ·) := by
  obtain ⟨before, hparts, hfilter⟩ := hp.exists_parts_extend hname
  rw [hparts, List.filter_append, hfilter]

theorem Spelled.route_extend (hp : Spelled p) (hname : '/' ∉ name.toList) :
    fs.route (Glob.extend p name) = fs.route p ++ [name].filter (!isVoid ·) := by
  rw [FileSystem.route_eq, FileSystem.route_eq, hp.filter_parts_extend hname, FileSystem.start, FileSystem.start,
    hp.isAbsolute_extend hname, List.append_assoc]

theorem Spelled.names_extend (hp : Spelled p) (hname : '/' ∉ name.toList) (hvoid : ¬ isVoid name)
    (hup : name ≠ "..") : fs.names (Glob.extend p name) = fs.names p ++ [name] := by
  rw [FileSystem.names_eq, FileSystem.names_eq, hp.filter_parts_extend hname, FileSystem.start, FileSystem.start,
    hp.isAbsolute_extend hname, List.filter_cons_of_pos (by simpa using hvoid), List.filter_nil,
    List.foldl_append, List.foldl_cons, List.foldl_nil, if_neg hup]

theorem Spelled.lookUp_join_dots_ne_file (hp : Spelled p) (hname : name = ".." ∨ name = ".")
    {content : ByteArray} : fs.lookUp (p.join ⟨name⟩) ≠ .ok (.file content) := by
  intro h
  have hslash : '/' ∉ name.toList := by
    rcases hname with rfl | rfl <;> decide
  obtain ⟨before, hparts, -⟩ := Path.exists_parts_join hp.text_ne_empty hslash
  obtain ⟨-, hwalk⟩ := FileSystem.lookUp_eq_ok_iff.mp h
  rw [FileSystem.trail_eq, hparts, ← List.append_assoc] at hwalk
  obtain ⟨entries, hdir⟩ := Host.isDirectory_of_walk_dots (by simp) hname.symm hwalk
  contradiction

theorem text_extend_sublist (hname : '/' ∉ name.toList) :
    (extend p name).text.toList.Sublist (p.text.toList ++ '/' :: name.toList) := by
  unfold extend
  split
  · exact (List.sublist_cons_self _ _).trans (List.sublist_append_right _ _)
  · rw [Path.toList_text_join (Path.not_isAbsolute_of_not_mem hname), slashed]
    split
    · exact (List.Sublist.refl _).append (List.sublist_cons_self _ _)
    · simp

theorem isTaken_here : IsTaken ⟨"."⟩ := ⟨by decide, by decide, by decide⟩

theorem Spelled.isTaken_of_extend (hp : Spelled p) (hname : '/' ∉ name.toList)
    (h : IsTaken (Glob.extend p name)) : IsTaken p := by
  rcases hp with rfl | ⟨htext, hlead⟩
  · exact isTaken_here
  · refine h.of_sublist htext ?_
    rw [extend_eq_join hlead, Path.toList_text_join (Path.not_isAbsolute_of_not_mem hname)]
    exact ((Path.prefix_slashed _).trans (List.prefix_append _ _)).sublist

theorem Spelled.exists_lookUp_of_extend (hp : Spelled p) (hname : '/' ∉ name.toList)
    (h : fs.lookUp (Glob.extend p name) = .ok (.directory entries)) :
    ∃ entries', fs.lookUp p = .ok (.directory entries') := by
  obtain ⟨htaken, hwalk⟩ := FileSystem.lookUp_eq_ok_directory_iff.mp h
  rw [hp.route_extend hname] at hwalk
  obtain ⟨entries', hwalk⟩ := Host.exists_walk_of_walk_append hwalk
  exact ⟨entries', FileSystem.lookUp_eq_ok_directory_iff.mpr ⟨hp.isTaken_of_extend hname htaken, hwalk⟩⟩

theorem Spelled.lookUp_extend_iff (hp : Spelled p) (hname : '/' ∉ name.toList) (hvoid : ¬ isVoid name)
    (hup : name ≠ "..") : fs.lookUp (Glob.extend p name) = .ok t ↔ IsTaken (Glob.extend p name) ∧
      ∃ entries, fs.lookUp p = .ok (.directory entries) ∧ Holds entries name t := by
  obtain ⟨before, htrail, hroute⟩ := hp.exists_trail_extend fs hname
  rw [FileSystem.lookUp_eq_ok_iff, htrail, Host.walk_append_name_iff hvoid hup]
  refine and_congr_right fun htaken => exists_congr fun entries => and_congr_left fun _ => ?_
  rw [FileSystem.lookUp_eq_ok_directory_iff, ← hroute, Host.walk_filter_eq_ok_directory_iff]
  exact (and_iff_right (hp.isTaken_of_extend hname htaken)).symm

theorem isName_iff : isName name ↔ (¬ isVoid name ∧ name ≠ "..") ∧
    '/' ∉ name.toList ∧ '\x00' ∉ name.toList ∧ name.utf8ByteSize ≤ Host.maxNameSize := by
  simp [isName, isVoid, String.contains_char_eq, and_assoc]

theorem name_suffix_extend (hname : '/' ∉ name.toList) : name.toList <:+ (extend p name).text.toList := by
  unfold extend
  split
  · exact List.suffix_refl _
  · rw [Path.toList_text_join (Path.not_isAbsolute_of_not_mem hname)]
    exact List.suffix_append _ _

theorem Spelled.isName_of_lookUp (hp : Spelled p) (hname : '/' ∉ name.toList) (hvoid : ¬ isVoid name)
    (hup : name ≠ "..") (h : fs.lookUp (Glob.extend p name) = .ok t) : isName name := by
  obtain ⟨htaken, entries, -, hsize, -⟩ := (hp.lookUp_extend_iff hname hvoid hup).mp h
  exact isName_iff.mpr
    ⟨⟨hvoid, hup⟩, hname, fun hnul => htaken.noNul ((name_suffix_extend hname).subset hnul), hsize⟩

def under (p : Path) (names : List String) : Path := names.foldl extend p

@[simp] theorem under_nil (p : Path) : under p [] = p := rfl

@[simp] theorem under_cons (p : Path) (name : String) (names : List String) :
    under p (name :: names) = under (extend p name) names := rfl

/-- Names can be written one after the other without losing what was there. -/
inductive Leads : Path → List String → Prop
  | nil {p : Path} (hp : Spelled p) : Leads p []
  | cons {p : Path} {name : String} {names : List String} (hp : Spelled p) (hname : '/' ∉ name.toList)
      (h : Leads (extend p name) names) : Leads p (name :: names)

theorem Leads.spelled_under (h : Leads p names) : Spelled (under p names) := by
  induction h with
  | nil hp => exact hp
  | cons hp hname h ih => exact ih

theorem Leads.isAbsolute_under (h : Leads p names) : (under p names).isAbsolute = p.isAbsolute := by
  induction h with
  | nil hp => rfl
  | cons hp hname h ih => rw [under_cons, ih, hp.isAbsolute_extend hname]

theorem Leads.filter_parts_under (h : Leads p names) :
    (under p names).parts.filter (!isVoid ·) = p.parts.filter (!isVoid ·) ++ names.filter (!isVoid ·) := by
  induction h with
  | nil hp => simp
  | cons hp hname h ih =>
      rw [under_cons, ih, hp.filter_parts_extend hname, List.append_assoc, ← List.filter_append,
        List.singleton_append]

theorem Leads.exists_lookUp_of_under (h : Leads p names)
    (hdir : fs.lookUp (under p names) = .ok (.directory entries)) :
    ∃ entries', fs.lookUp p = .ok (.directory entries') := by
  induction h with
  | nil hp => exact ⟨entries, hdir⟩
  | cons hp hname h ih =>
      obtain ⟨entries', hnext⟩ := ih hdir
      exact hp.exists_lookUp_of_extend hname hnext

theorem Spelled.extend_name (hp : Spelled p) (h : isName name) : Spelled (Glob.extend p name) := by
  obtain ⟨⟨hvoid, -⟩, hslash, -⟩ := isName_iff.mp h
  refine hp.extend hslash fun _ => ?_
  rintro rfl
  exact hvoid (by decide)

theorem Spelled.names_under (hp : Spelled p) (fs : FileSystem) (h : ∀ name ∈ names, isName name) :
    fs.names (under p names) = fs.names p ++ names := by
  induction names generalizing p with
  | nil => simp
  | cons name names ih =>
      rw [List.forall_mem_cons] at h
      obtain ⟨⟨hvoid, hup⟩, hslash, -⟩ := isName_iff.mp h.1
      rw [under_cons, ih (hp.extend_name h.1) h.2, hp.names_extend hslash hvoid hup, List.append_assoc,
        List.singleton_append]

theorem Spelled.exists_lookUp_of_under (hp : Spelled p) (h : ∀ name ∈ names, isName name)
    (hlook : fs.lookUp (under p names) = .ok t) : ∃ t', fs.lookUp p = .ok t' := by
  induction names generalizing p with
  | nil => exact ⟨t, hlook⟩
  | cons name names ih =>
      rw [List.forall_mem_cons] at h
      obtain ⟨⟨hvoid, hup⟩, hslash, -⟩ := isName_iff.mp h.1
      obtain ⟨t', hnext⟩ := ih (hp.extend_name h.1) h.2 hlook
      obtain ⟨-, entries, hdir, -⟩ := (hp.lookUp_extend_iff hslash hvoid hup).mp hnext
      exact ⟨_, hdir⟩

end PushAudit.Glob
