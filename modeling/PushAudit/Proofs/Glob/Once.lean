import Mathlib.Data.List.TakeWhile
import PushAudit.Proofs.Glob.Listing
import PushAudit.Proofs.Glob.Reading

namespace PushAudit.Glob

open Host (Listing isName)
open PushAudit.Path (slashed)

structure Settled (p : Path) : Prop where
  text : p.text ≠ ""
  lead : p.layout.lead ≠ .here

def IsStart (p : Path) : Prop := p.text = "" ∨ Spelled p

/-- What comes before a name that goes on from a path. -/
def stem (p : Path) : List Char := if p.components = [.here] then [] else slashed p.text.toList

def level (p : Path) : Nat := (stem p).count '/'

/-- The one path is the other one or goes on from it after a slash. -/
def Below (q x : Path) : Prop := x = q ∨ slashed q.text.toList <+: x.text.toList

variable {p q r x : Path} {name name' : String}

theorem toList_text_extend (hname : '/' ∉ name.toList) : (extend p name).text.toList = stem p ++ name.toList := by
  unfold extend stem
  split
  · rfl
  · exact Path.toList_text_join (Path.not_isAbsolute_of_not_mem hname)

theorem Settled.stem_eq (h : Settled p) : stem p = slashed p.text.toList := if_neg (Path.components_ne_here h.lead)

theorem Settled.isStart (h : Settled p) : IsStart p := .inr (.inr ⟨h.text, h.lead⟩)

theorem Settled.extend (h : Settled p) (hname : '/' ∉ name.toList) : Settled (extend p name) := by
  have hspelled : Spelled p := .inr ⟨h.text, h.lead⟩
  refine ⟨(hspelled.extend hname fun hhere => absurd hhere (ne_here_of_lead h.lead)).text_ne_empty, ?_⟩
  rw [extend_eq_join h.lead]
  exact Path.lead_join_ne_here h.text h.lead hname

theorem IsStart.extend (h : IsStart p) (hname : '/' ∉ name.toList) : IsStart (extend p name) := by
  rcases h with hempty | hspelled
  · have hlead : p.layout.lead ≠ .here := by
      rw [Ne, Path.lead_eq_here_iff, hempty]
      decide
    rw [extend_eq_join hlead, Path.join_of_empty hempty hname]
    by_cases hdot : name = "."
    · exact .inr (.inl (by rw [hdot]))
    · by_cases hnil : name = ""
      · exact .inl hnil
      · exact .inr (.inr ⟨hnil, lead_of_not_mem hname hdot⟩)
  · by_cases hnil : p = ⟨"."⟩ ∧ name = ""
    · obtain ⟨rfl, rfl⟩ := hnil
      exact .inl (by rw [extend_here])
    · exact .inr (hspelled.extend hname fun hp hname => hnil ⟨hp, hname⟩)

theorem not_mem_of_isName (h : isName name) : '/' ∉ name.toList := (isName_iff.mp h).2.1

theorem toList_ne_nil_of_isName (h : isName name) : name.toList ≠ [] := by
  intro hnil
  rw [String.toList_eq_nil_iff.mp hnil] at h
  exact absurd h (by decide)

theorem IsStart.settled (h : IsStart p) (hname : isName name) : Settled (Glob.extend p name) := by
  have hslash := not_mem_of_isName hname
  have htext := toList_text_extend (p := p) hslash
  have hnil := toList_ne_nil_of_isName hname
  have hempty : (Glob.extend p name).text ≠ "" := by
    intro hempty
    rw [hempty] at htext
    exact hnil (List.append_eq_nil_iff.mp htext.symm).2
  rcases (h.extend hslash).resolve_left hempty with hhere | ⟨-, hlead⟩
  · rw [hhere] at htext
    have hdot : name.toList = ['.'] := by
      rcases List.singleton_eq_append_iff.mp htext with ⟨-, hdot⟩ | ⟨-, hempty⟩
      · exact hdot
      · exact absurd hempty hnil
    rw [← String.ofList_toList (s := name), hdot] at hname
    exact absurd hname (by decide)
  · exact ⟨hempty, hlead⟩

theorem below_refl (q : Path) : Below q q := .inl rfl

theorem Below.trans (hqr : Below q r) (hrx : Below r x) : Below q x := by
  rcases hrx with rfl | hrx
  · exact hqr
  · rcases hqr with rfl | hqr
    · exact .inr hrx
    · exact .inr (hqr.trans ((Path.prefix_slashed _).trans hrx))

theorem Settled.below_extend (h : Settled p) (hname : '/' ∉ name.toList) : Below p (Glob.extend p name) := by
  refine .inr ?_
  rw [toList_text_extend hname, h.stem_eq]
  exact List.prefix_append _ _

theorem slashed_append_name (hname : '/' ∉ name.toList) (hne : name.toList ≠ []) (s : List Char) :
    slashed (s ++ name.toList) = s ++ (name.toList ++ ['/']) := by
  rw [slashed, if_neg, List.append_assoc]
  rintro (hnil | hlast)
  · exact hne (List.append_eq_nil_iff.mp hnil).2
  · rw [List.getLast?_append_of_ne_nil _ hne] at hlast
    exact hname (List.mem_of_getLast? hlast)

theorem slashed_text_extend (hname : isName name) :
    slashed (extend p name).text.toList = stem p ++ (name.toList ++ ['/']) := by
  have hslash := not_mem_of_isName hname
  rw [toList_text_extend hslash, slashed_append_name hslash (toList_ne_nil_of_isName hname)]

theorem Below.takeWhile (hname : isName name) (h : Below (extend p name) x) :
    (x.text.toList.drop (stem p).length).takeWhile (· ≠ '/') = name.toList := by
  have hslash := not_mem_of_isName hname
  have hall : ∀ c ∈ name.toList, decide (c ≠ '/') := by
    intro c hc
    exact decide_eq_true fun heq => hslash (heq ▸ hc)
  rcases h with rfl | ⟨u, hu⟩
  · rw [toList_text_extend hslash, List.drop_left, List.takeWhile_eq_self_iff]
    exact hall
  · rw [← hu, slashed_text_extend hname, List.append_assoc, List.drop_left, List.append_assoc,
      List.takeWhile_append_of_pos hall]
    simp

theorem Below.name_eq (hname : isName name) (hname' : isName name') (h : Below (extend p name) x)
    (h' : Below (extend p name') x) : name = name' :=
  String.toList_inj.mp ((h.takeWhile hname).symm.trans (h'.takeWhile hname'))

theorem Settled.level_extend (h : Settled p) (hname : '/' ∉ name.toList) :
    level (Glob.extend p name) = level p + if name = "" then 0 else 1 := by
  rw [level, level, (h.extend hname).stem_eq, toList_text_extend hname]
  split
  · next hnil =>
      rw [hnil, String.toList_empty, List.append_nil, h.stem_eq]
      rcases Path.slashed_eq_nil_or p.text.toList with hempty | hlast
      · rw [hempty]
        rfl
      · rw [slashed, if_pos (.inr hlast), Nat.add_zero]
  · next hnil =>
      have hne : name.toList ≠ [] := by rwa [Ne, String.toList_eq_nil_iff]
      rw [slashed_append_name hname hne, List.count_append, List.count_append, List.count_eq_zero_of_not_mem hname]
      rfl

theorem IsStart.level_lt (h : IsStart p) (hname : isName name) : level p < level (Glob.extend p name) := by
  rw [level, level, (h.settled hname).stem_eq, slashed_text_extend hname]
  simp

/-- No step goes to where the search already is, or back. -/
structure IsForward (steps : List Step) : Prop where
  noSlash : ∀ s, .name s ∈ steps → '/' ∉ s.toList
  noDots : ∀ step ∈ steps, step.takesDots = false

def width (steps : List Step) : Nat := steps.countP (· ≠ .name "")

variable {answer : (q : Host.Question) → Host.Answer q} {directoriesOnly : Bool} {step : Step} {steps : List Step}
  {ts : List Token} {es : List (String × Bool)}

theorem IsForward.tail (h : IsForward (step :: steps)) : IsForward steps :=
  ⟨fun s hs => h.noSlash s (.tail _ hs), fun s hs => h.noDots s (.tail _ hs)⟩

theorem dots_eq_nil (h : (Step.matching ts).takesDots = false) : dots ts = [] := by
  rw [dots, h]
  rfl

theorem isName_of_mem_chosen (honce : ListsOnce answer) (hes : entriesAt answer p = some es)
    (h : name ∈ chosen ts es) : isName name := by
  rw [chosen, List.mem_mergeSort, List.mem_filter, List.mem_map] at h
  obtain ⟨⟨e, he, rfl⟩, -⟩ := h
  exact honce.isName p es hes e he

theorem nodup_chosen (honce : ListsOnce answer) (hes : entriesAt answer p = some es) (ts : List Token) :
    (chosen ts es).Nodup := by
  rw [chosen, (List.mergeSort_perm _ _).nodup_iff]
  exact (honce.nodup p es hes).filter _

theorem mem_value_follow_matching_iff (hdots : (Step.matching ts).takesDots = false) :
    x ∈ (follow directoriesOnly (.matching ts :: steps) p).value answer ↔ ∃ es, entriesAt answer p = some es ∧
      ∃ name ∈ chosen ts es, x ∈ (follow directoriesOnly steps (extend p name)).value answer := by
  rw [value_follow_matching, dots_eq_nil hdots]
  cases entriesAt answer p with
  | none => simp
  | some es => simp

theorem mem_value_follow_name {s : String} (hx : x ∈ (follow directoriesOnly (.name s :: steps) p).value answer) :
    x ∈ (follow directoriesOnly steps (extend p s)).value answer := by
  rw [value_follow_name] at hx
  exact (List.mem_ite_nil_right.mp hx).2

theorem eq_of_mem_value_follow_nil (hx : x ∈ (follow directoriesOnly [] p).value answer) : x = p := by
  rw [value_follow_nil] at hx
  exact List.mem_singleton.mp (List.mem_ite_nil_left.mp hx).2

theorem level_follow (honce : ListsOnce answer) (hforward : IsForward steps) (hdepth : .anyDepth ∉ steps)
    (hq : Settled q) (hx : x ∈ (follow directoriesOnly steps q).value answer) :
    level x = level q + width steps := by
  induction steps generalizing q with
  | nil =>
      rw [eq_of_mem_value_follow_nil hx]
      rfl
  | cons step steps ih =>
      rw [List.mem_cons, not_or] at hdepth
      cases step with
      | anyDepth => exact absurd rfl hdepth.1
      | name s =>
          have hslash := hforward.noSlash s (.head _)
          rw [ih hforward.tail hdepth.2 (hq.extend hslash) (mem_value_follow_name hx), hq.level_extend hslash, width,
            width, List.countP_cons, Nat.add_assoc, Nat.add_comm _ (List.countP _ _)]
          simp
      | matching ts =>
          obtain ⟨es, hes, name, hname, hx⟩ :=
            (mem_value_follow_matching_iff (hforward.noDots _ (.head _))).mp hx
          have hname := isName_of_mem_chosen honce hes hname
          have hslash := not_mem_of_isName hname
          have hne : name ≠ "" := fun hnil => toList_ne_nil_of_isName hname (by rw [hnil, String.toList_empty])
          rw [ih hforward.tail hdepth.2 (hq.extend hslash) hx, hq.level_extend hslash, if_neg hne, width,
            width, List.countP_cons, Nat.add_assoc, Nat.add_comm _ (List.countP _ _)]
          simp

section

variable {visit : Path → String → Bool → Script Host (List Path)} {n : Nat}

mutual

theorem exists_visit_of_mem_descend {p : Path} {ls : List Listing} (hp : IsStart p) (horderly : AreOrderly ls)
    (hx : x ∈ (descend visit p ls).value answer) : ∃ l ∈ ls, ∃ q name isDirectory,
      x ∈ (visit q name isDirectory).value answer ∧ Settled q ∧ Below (extend p (listingName l)) q ∧
        level p < level q := by
  cases ls with
  | nil => contradiction
  | cons l ls =>
      have hname := horderly.1.1
      have hsettled := hp.settled hname
      have hlevel := hp.level_lt hname
      simp only [descend, Script.value_bind, Script.value_pure, List.mem_append] at hx
      rcases hx with (hx | hx) | hx
      · exact ⟨l, .head _, _, _, _, hx, hsettled, below_refl _, hlevel⟩
      · obtain ⟨q, name, isDirectory, hx, hq, hbelow, hlt⟩ :=
          exists_visit_of_mem_descendEntry hsettled horderly.1.2.2 hx
        exact ⟨l, .head _, q, name, isDirectory, hx, hq, hbelow, hlevel.trans hlt⟩
      · obtain ⟨l', hl', h⟩ := exists_visit_of_mem_descend hp horderly.2 hx
        exact ⟨l', .tail _ hl', h⟩

theorem exists_visit_of_mem_descendEntry {p : Path} {l : Listing} (hp : Settled p) (horderly : IsOrderly l)
    (hx : x ∈ (descendEntry visit p l).value answer) : ∃ q name isDirectory,
      x ∈ (visit q name isDirectory).value answer ∧ Settled q ∧ Below p q ∧ level p < level q := by
  cases l with
  | file name => contradiction
  | directory name ls =>
      obtain ⟨l, hl, q, name, isDirectory, hx, hq, hbelow, hlevel⟩ :=
        exists_visit_of_mem_descend hp.isStart horderly hx
      have hslash := not_mem_of_isName (AreOrderly.isName horderly l hl)
      exact ⟨q, name, isDirectory, hx, hq, (hp.below_extend hslash).trans hbelow, hlevel⟩

end

/-- Each visit finds what lies below the place, some levels down, and nothing twice. -/
structure FindsOnce (answer : (q : Host.Question) → Host.Answer q)
    (visit : Path → String → Bool → Script Host (List Path)) (n : Nat) : Prop where
  nodup : ∀ q name isDirectory, Settled q → ((visit q name isDirectory).value answer).Nodup
  below : ∀ q name isDirectory, Settled q → ∀ x ∈ (visit q name isDirectory).value answer, Below q x
  level : ∀ q name isDirectory, Settled q → ∀ x ∈ (visit q name isDirectory).value answer, level x = level q + n

mutual

/-- Visits to two places find different paths: either one place lies below the other and leads further
down, or there is nothing below both. -/
theorem nodup_descend {p : Path} {ls : List Listing} (hvisit : FindsOnce answer visit n) (hp : IsStart p)
    (horderly : AreOrderly ls) :
    ((descend visit p ls).value answer).Nodup := by
  cases ls with
  | nil => exact .nil
  | cons l ls =>
      have hname := horderly.1.1
      have hsettled := hp.settled hname
      simp only [descend, Script.value_bind, Script.value_pure]
      refine List.nodup_append.mpr ⟨List.nodup_append.mpr ⟨hvisit.nodup _ _ _ hsettled, ?_, ?_⟩, ?_, ?_⟩
      · exact nodup_descendEntry hvisit hsettled horderly.1.2.2
      · rintro x hhere _ hbelow rfl
        obtain ⟨q, name, isDirectory, hx, hq, -, hlt⟩ :=
          exists_visit_of_mem_descendEntry hsettled horderly.1.2.2 hbelow
        have hx := hvisit.level q name isDirectory hq x hx
        have hhere := hvisit.level _ _ _ hsettled x hhere
        omega
      · exact nodup_descend hvisit hp horderly.2
      · rintro x hfirst _ hrest rfl
        have hfirst : Below (extend p (listingName l)) x := by
          rcases List.mem_append.mp hfirst with hx | hx
          · exact hvisit.below _ _ _ hsettled x hx
          · obtain ⟨q, name, isDirectory, hx, hq, hbelow, -⟩ :=
              exists_visit_of_mem_descendEntry hsettled horderly.1.2.2 hx
            exact hbelow.trans (hvisit.below q name isDirectory hq x hx)
        obtain ⟨l', hl', q, name, isDirectory, hx, hq, hbelow, -⟩ := exists_visit_of_mem_descend hp horderly.2 hrest
        have hrest := hbelow.trans (hvisit.below q name isDirectory hq x hx)
        have heq := hfirst.name_eq hname (horderly.2.isName l' hl') hrest
        exact horderly.1.2.1 (heq ▸ List.mem_map_of_mem hl')

theorem nodup_descendEntry {p : Path} {l : Listing} (hvisit : FindsOnce answer visit n) (hp : Settled p)
    (horderly : IsOrderly l) :
    ((descendEntry visit p l).value answer).Nodup := by
  cases l with
  | file name => exact .nil
  | directory name ls => exact nodup_descend hvisit hp.isStart horderly

end

end

theorem exists_of_mem_value_follow_anyDepth
    (hx : x ∈ (follow directoriesOnly (.anyDepth :: steps) p).value answer) : ∃ ls, subtreeAt answer p = some ls ∧
      x ∈ (descend (visitAfter directoriesOnly steps) p (byName (sortEntries ls))).value answer := by
  rw [value_follow_anyDepth] at hx
  cases hls : subtreeAt answer p with
  | none =>
      rw [hls] at hx
      contradiction
  | some ls =>
      rw [hls] at hx
      exact ⟨ls, rfl, hx⟩

theorem eq_of_mem_value_visitAfter_nil {isDirectory : Bool}
    (hx : x ∈ (visitAfter directoriesOnly [] q name isDirectory).value answer) : x = q :=
  List.mem_singleton.mp (List.mem_ite_nil_right.mp hx).2

theorem mem_value_follow_of_visitAfter {isDirectory : Bool}
    (hx : x ∈ (visitAfter directoriesOnly (step :: steps) q name isDirectory).value answer) :
    x ∈ (follow directoriesOnly steps q).value answer := by
  rw [visitAfter] at hx
  split at hx
  · exact hx
  · contradiction

theorem below_of_mem_follow (honce : ListsOnce answer) (directoriesOnly : Bool) {x : Path} :
    ∀ (steps : List Step) (q : Path), IsForward steps → Settled q →
      x ∈ (follow directoriesOnly steps q).value answer → Below q x
  | [], q, _, _, hx => .inl (eq_of_mem_value_follow_nil hx)
  | .name s :: steps, q, hforward, hq, hx => by
      have hslash := hforward.noSlash s (.head _)
      exact (hq.below_extend hslash).trans (below_of_mem_follow honce directoriesOnly steps _ hforward.tail
        (hq.extend hslash) (mem_value_follow_name hx))
  | .matching ts :: steps, q, hforward, hq, hx => by
      obtain ⟨es, hes, name, hname, hx⟩ := (mem_value_follow_matching_iff (hforward.noDots _ (.head _))).mp hx
      have hslash := not_mem_of_isName (isName_of_mem_chosen honce hes hname)
      exact (hq.below_extend hslash).trans
        (below_of_mem_follow honce directoriesOnly steps _ hforward.tail (hq.extend hslash) hx)
  | .anyDepth :: steps, q, hforward, hq, hx => by
      obtain ⟨ls, hls, hx⟩ := exists_of_mem_value_follow_anyDepth hx
      have horderly := areOrderly_byName (honce.subtree q ls hls)
      obtain ⟨l, hl, q', name, isDirectory, hx, hq', hbelow, -⟩ :=
        exists_visit_of_mem_descend hq.isStart horderly hx
      have hslash := not_mem_of_isName (horderly.isName l hl)
      refine ((hq.below_extend hslash).trans hbelow).trans ?_
      match steps with
      | [] => exact .inl (eq_of_mem_value_visitAfter_nil hx)
      | step :: steps =>
          exact below_of_mem_follow honce directoriesOnly steps q' hforward.tail.tail hq'
            (mem_value_follow_of_visitAfter hx)

theorem findsOnce_visitAfter_nil : FindsOnce answer (visitAfter directoriesOnly []) 0 where
  nodup q name isDirectory _ := by
    cases isDirectory with
    | false => exact .nil
    | true => exact List.nodup_singleton q
  below q name isDirectory _ x hx := .inl (eq_of_mem_value_visitAfter_nil hx)
  level q name isDirectory _ x hx := by
    rw [eq_of_mem_value_visitAfter_nil hx]
    rfl

theorem findsOnce_visitAfter_cons (honce : ListsOnce answer) (hforward : IsForward steps)
    (hdepth : .anyDepth ∉ steps) (hnodup : ∀ q, Settled q → ((follow directoriesOnly steps q).value answer).Nodup) :
    FindsOnce answer (visitAfter directoriesOnly (step :: steps)) (width steps) where
  nodup q name isDirectory hq := by
    rw [visitAfter]
    split
    · exact hnodup q hq
    · exact .nil
  below q name isDirectory hq x hx :=
    below_of_mem_follow honce directoriesOnly steps q hforward hq (mem_value_follow_of_visitAfter hx)
  level q name isDirectory hq x hx := level_follow honce hforward hdepth hq (mem_value_follow_of_visitAfter hx)

/-- Steps with one run of any number of directories at most lead to no path twice. -/
theorem nodup_follow (honce : ListsOnce answer) (directoriesOnly : Bool) :
    ∀ (steps : List Step) (p : Path), IsForward steps → steps.count .anyDepth ≤ 1 → IsStart p →
      ((follow directoriesOnly steps p).value answer).Nodup
  | [], p, _, _, _ => by
      rw [value_follow_nil]
      split
      · exact .nil
      · exact List.nodup_singleton p
  | .name s :: steps, p, hforward, hcount, hp => by
      rw [value_follow_name]
      split
      · rw [List.count_cons_of_ne (by simp)] at hcount
        exact nodup_follow honce directoriesOnly steps _ hforward.tail hcount (hp.extend (hforward.noSlash s (.head _)))
      · exact .nil
  | .matching ts :: steps, p, hforward, hcount, hp => by
      rw [value_follow_matching, dots_eq_nil (hforward.noDots _ (.head _))]
      rw [List.count_cons_of_ne (by simp)] at hcount
      cases hes : entriesAt answer p with
      | none => exact .nil
      | some es =>
          have hname (name : String) (h : name ∈ chosen ts es) : isName name := isName_of_mem_chosen honce hes h
          simp only [List.flatMap_nil, List.nil_append]
          refine List.nodup_flatMap.mpr ⟨fun name h => ?_, ?_⟩
          · exact nodup_follow honce directoriesOnly steps _ hforward.tail hcount (hp.settled (hname name h)).isStart
          · refine (nodup_chosen honce hes ts).imp_of_mem fun {name name'} h h' hne x hx hx' => hne ?_
            have hbelow :=
              below_of_mem_follow honce directoriesOnly steps _ hforward.tail (hp.settled (hname name h)) hx
            have hbelow' :=
              below_of_mem_follow honce directoriesOnly steps _ hforward.tail (hp.settled (hname name' h')) hx'
            exact hbelow.name_eq (hname name h) (hname name' h') hbelow'
  | .anyDepth :: steps, p, hforward, hcount, hp => by
      rw [List.count_cons_self] at hcount
      have hnone : List.count .anyDepth steps = 0 := by omega
      rw [value_follow_anyDepth]
      cases hls : subtreeAt answer p with
      | none => exact .nil
      | some ls =>
          have horderly := areOrderly_byName (honce.subtree p ls hls)
          match steps with
          | [] => exact nodup_descend findsOnce_visitAfter_nil hp horderly
          | step :: steps =>
              have hdepth : .anyDepth ∉ steps := fun hmem => List.count_eq_zero.mp hnone (.tail _ hmem)
              have hnodup (q : Path) (hq : Settled q) : ((follow directoriesOnly steps q).value answer).Nodup := by
                have hcount : List.count .anyDepth steps ≤ 1 := by
                  rw [List.count_eq_zero.mpr hdepth]
                  exact Nat.zero_le 1
                exact nodup_follow honce directoriesOnly steps q hforward.tail.tail hcount hq.isStart
              exact nodup_descend (findsOnce_visitAfter_cons honce hforward.tail.tail hdepth hnodup) hp horderly

/-- A pattern that holds `**` once at most, and no wildcards after a dot, leads to no path twice. -/
theorem nodup_expand (honce : ListsOnce answer) {text : String} {g : Pattern} (hread : Pattern.read text = .ok g)
    (hcount : g.steps.count .anyDepth ≤ 1) (hdots : ∀ step ∈ g.steps, step.takesDots = false) :
    (g.expand.value answer).Nodup := by
  have hforward : IsForward g.steps := ⟨fun name => not_mem_of_read hread, hdots⟩
  refine nodup_follow honce g.directoriesOnly g.steps _ hforward hcount (.inr ?_)
  cases g.absolute with
  | false => exact .inl rfl
  | true => exact .inr ⟨by decide, by decide⟩

end PushAudit.Glob
