import Mathlib.Data.List.Nodup
import Mathlib.Data.Option.Basic
import PushAudit.Proofs.Glob.Expand

namespace PushAudit.Glob

open Host (FileSystem FileTree Listing contentAt inputContent isName kindAt)

mutual

/-- The same entry, with what lies below it in any order. -/
inductive Relisted : Listing → Listing → Prop
  | file (name : String) : Relisted (.file name) (.file name)
  | directory (name : String) {ls ls' : List Listing} (h : RelistedAll ls ls') :
      Relisted (.directory name ls) (.directory name ls')

inductive RelistedAll : List Listing → List Listing → Prop
  | nil : RelistedAll [] []
  | cons {l l' : Listing} {ls before after : List Listing} (h : Relisted l l')
      (hrest : RelistedAll ls (before ++ after)) : RelistedAll (l :: ls) (before ++ l' :: after)

end

mutual

def IsOrderly : Listing → Prop
  | .file _ => True
  | .directory _ ls => AreOrderly ls

def AreOrderly : List Listing → Prop
  | [] => True
  | l :: ls => (isName (listingName l) ∧ listingName l ∉ ls.map listingName ∧ IsOrderly l) ∧ AreOrderly ls

end

variable {l l' : Listing} {ls ls' : List Listing}

theorem AreOrderly.isName (h : AreOrderly ls) : ∀ l ∈ ls, Host.isName (listingName l) := by
  induction ls with
  | nil => nofun
  | cons l ls ih => exact List.forall_mem_cons.mpr ⟨h.1.1, ih h.2⟩

theorem AreOrderly.nodup (h : AreOrderly ls) : (ls.map listingName).Nodup := by
  induction ls with
  | nil => exact .nil
  | cons l ls ih => exact List.nodup_cons.mpr ⟨h.1.2.1, ih h.2⟩

@[simp] theorem listingName_sortListing (l : Listing) : listingName (sortListing l) = listingName l := by
  cases l <;> rfl

theorem sortEntries_eq (ls : List Listing) : sortEntries ls = ls.map sortListing := by
  induction ls with
  | nil => rfl
  | cons l ls ih => rw [sortEntries, ih, List.map_cons]

theorem map_listingName_sortEntries (ls : List Listing) : (sortEntries ls).map listingName = ls.map listingName := by
  rw [sortEntries_eq, List.map_map]
  exact List.map_congr_left fun l _ => listingName_sortListing l

def byName (ls : List Listing) : List Listing := ls.mergeSort fun a b => listingName a ≤ listingName b

theorem pairwise_byName (ls : List Listing) : (byName ls).Pairwise fun a b => listingName a ≤ listingName b := by
  refine (List.pairwise_mergeSort ?_ ?_ ls).imp fun h => of_decide_eq_true h
  · simpa using fun _ _ _ => String.le_trans
  · simpa using fun _ _ => String.le_total _ _

theorem byName_eq_of_perm (hnodup : (ls.map listingName).Nodup) (h : ls.Perm ls') : byName ls = byName ls' := by
  have hperm : (byName ls).Perm (byName ls') :=
    (List.mergeSort_perm ls _).trans (h.trans (List.mergeSort_perm ls' _).symm)
  refine hperm.eq_of_pairwise (fun a b ha hb hab hba => ?_) (pairwise_byName ls) (pairwise_byName ls')
  have ha : a ∈ ls := List.mem_mergeSort.mp ha
  have hb : b ∈ ls := h.mem_iff.mpr (List.mem_mergeSort.mp hb)
  exact List.inj_on_of_nodup_map hnodup ha hb (String.le_antisymm hab hba)

mutual

theorem Relisted.sortListing_eq {l l' : Listing} (h : Relisted l l') (horderly : IsOrderly l) :
    sortListing l = sortListing l' := by
  cases h with
  | file name => rfl
  | directory name h =>
      have hperm := RelistedAll.sortEntries_perm h horderly
      refine congrArg (Listing.directory name) (byName_eq_of_perm ?_ hperm)
      rw [map_listingName_sortEntries]
      exact AreOrderly.nodup horderly

theorem RelistedAll.sortEntries_perm {ls ls' : List Listing} (h : RelistedAll ls ls') (horderly : AreOrderly ls) :
    (sortEntries ls).Perm (sortEntries ls') := by
  cases h with
  | nil => exact .nil
  | @cons l l' ls before after h hrest =>
      have hperm := RelistedAll.sortEntries_perm hrest horderly.2
      have hentry := Relisted.sortListing_eq h horderly.1.2.2
      simp only [sortEntries_eq, List.map_append, List.map_cons, hentry] at hperm ⊢
      exact (hperm.cons _).trans List.perm_middle.symm

end

theorem areOrderly_iff :
    AreOrderly ls ↔ (ls.map listingName).Nodup ∧ ∀ l ∈ ls, isName (listingName l) ∧ IsOrderly l := by
  induction ls with
  | nil => simp [AreOrderly]
  | cons l ls ih =>
      rw [AreOrderly, ih, List.map_cons, List.nodup_cons, List.forall_mem_cons]
      tauto

theorem AreOrderly.perm (h : AreOrderly ls) (hperm : ls.Perm ls') : AreOrderly ls' := by
  rw [areOrderly_iff] at h ⊢
  exact ⟨(hperm.map listingName).nodup_iff.mp h.1, fun l hl => h.2 l (hperm.mem_iff.mpr hl)⟩

mutual

theorem isOrderly_sortListing {l : Listing} (h : IsOrderly l) : IsOrderly (sortListing l) := by
  cases l with
  | file name => trivial
  | directory name ls => exact (areOrderly_sortEntries h).perm (List.mergeSort_perm _ _).symm

theorem areOrderly_sortEntries {ls : List Listing} (h : AreOrderly ls) : AreOrderly (sortEntries ls) := by
  cases ls with
  | nil => trivial
  | cons l ls =>
      have hrest := areOrderly_sortEntries h.2
      refine ⟨⟨?_, ?_, isOrderly_sortListing h.1.2.2⟩, hrest⟩
      · rw [listingName_sortListing]
        exact h.1.1
      · rw [listingName_sortListing, map_listingName_sortEntries]
        exact h.1.2.1

end

theorem areOrderly_byName (h : AreOrderly ls) : AreOrderly (byName (sortEntries ls)) :=
  (areOrderly_sortEntries h).perm (List.mergeSort_perm _ _).symm

section

variable (answer : (q : Host.Question) → Host.Answer q)

def entriesAt (p : Path) : Option (List (String × Bool)) := answer (.entries p)

def subtreeAt (p : Path) : Option (List Listing) := answer (.subtree p)

/-- Directories are listed by names that can be spelled, each once. -/
structure ListsOnce : Prop where
  nodup : ∀ p es, entriesAt answer p = some es → (es.map (·.1)).Nodup
  isName : ∀ p es, entriesAt answer p = some es → ∀ e ∈ es, Host.isName e.1
  subtree : ∀ p ls, subtreeAt answer p = some ls → AreOrderly ls

/-- The same files, with each directory listed in any order. -/
structure SameFiles (answer answer' : (q : Host.Question) → Host.Answer q) : Prop where
  kind : ∀ p, kindAt answer p = kindAt answer' p
  content : ∀ p, contentAt answer p = contentAt answer' p
  entries : ∀ p, Option.Rel List.Perm (entriesAt answer p) (entriesAt answer' p)
  subtree : ∀ p, Option.Rel RelistedAll (subtreeAt answer p) (subtreeAt answer' p)

end

section

variable {answer answer' : (q : Host.Question) → Host.Answer q} {visit : Path → String → Bool → Script Host (List Path)}

mutual

theorem value_descend_congr (h : ∀ q name d, (visit q name d).value answer = (visit q name d).value answer')
    (p : Path) (ls : List Listing) : (descend visit p ls).value answer = (descend visit p ls).value answer' := by
  cases ls with
  | nil => rfl
  | cons l ls =>
      simp only [descend, Script.value_bind, Script.value_pure, h, value_descendEntry_congr h _ l,
        value_descend_congr h p ls]

theorem value_descendEntry_congr (h : ∀ q name d, (visit q name d).value answer = (visit q name d).value answer')
    (p : Path) (l : Listing) : (descendEntry visit p l).value answer = (descendEntry visit p l).value answer' := by
  cases l with
  | file name => rfl
  | directory name ls => exact value_descend_congr h p ls

end

theorem value_isDirectory (answer : (q : Host.Question) → Host.Answer q) (p : Path) :
    (Host.isDirectory p).value answer = (kindAt answer p == some .directory) := rfl

theorem value_exists (answer : (q : Host.Question) → Host.Answer q) (p : Path) :
    (Host.exists_ p).value answer = (kindAt answer p).isSome := rfl

variable {steps : List Step} {directoriesOnly : Bool} {p : Path}

def dots (ts : List Token) : List String :=
  if (Step.matching ts).takesDots then ["..", "."].filter (Step.matching ts).fits else []

def chosen (ts : List Token) (es : List (String × Bool)) : List String :=
  ((es.map (·.1)).filter (Step.matching ts).fits).mergeSort fun a b => a ≤ b

/-- What is looked for at each place of a tree, once any number of directories has been passed. -/
def visitAfter (directoriesOnly : Bool) : List Step → Path → String → Bool → Script Host (List Path)
  | [], q, _, isDirectory => return if isDirectory then [q] else []
  | step :: steps, q, name, _ => if step.fits name then follow directoriesOnly steps q else return []

theorem value_follow_nil : (follow directoriesOnly [] p).value answer =
    if directoriesOnly && kindAt answer p != some .directory then [] else [p] := by
  rw [follow, yield]
  cases directoriesOnly with
  | false => rfl
  | true =>
      rw [if_pos rfl, Script.value_bind, value_isDirectory]
      cases h : kindAt answer p == some .directory <;> simp [bne, h]

/-- Whether a name leads on. For the two dots it is enough that they are written after a directory. -/
def isThere (answer : (q : Host.Question) → Host.Answer q) (p : Path) (s : String) : Bool :=
  if s = "." ∨ s = ".." then kindAt answer p == some .directory else (kindAt answer (extend p s)).isSome

theorem value_follow_name {s : String} : (follow directoriesOnly (.name s :: steps) p).value answer =
    if isThere answer p s then (follow directoriesOnly steps (extend p s)).value answer else [] := by
  rw [follow, isThere]
  split
  · rw [Script.value_bind, value_isDirectory]
    cases kindAt answer p == some .directory <;> rfl
  · rw [Script.value_bind, value_exists]
    cases (kindAt answer (extend p s)).isSome <;> rfl

theorem value_follow_matching {ts : List Token} : (follow directoriesOnly (.matching ts :: steps) p).value answer =
    match entriesAt answer p with
    | none => []
    | some es =>
      (dots ts).flatMap (fun s => (follow directoriesOnly steps (p.join ⟨s⟩)).value answer) ++
        (chosen ts es).flatMap fun s => (follow directoriesOnly steps (extend p s)).value answer := by
  have hentries : (Host.entries p).value answer = entriesAt answer p := rfl
  simp only [follow, Script.value_bind, hentries]
  cases entriesAt answer p with
  | none => rfl
  | some es => simp only [Script.value_bind, Script.value_pure, value_collect, dots, chosen]

theorem value_follow_anyDepth : (follow directoriesOnly (.anyDepth :: steps) p).value answer =
    match subtreeAt answer p with
    | none => []
    | some ls => (descend (visitAfter directoriesOnly steps) p (byName (sortEntries ls))).value answer := by
  have hsubtree : (Host.subtree p).value answer = subtreeAt answer p := rfl
  simp only [follow, Script.value_bind, hsubtree]
  cases subtreeAt answer p with
  | none => rfl
  | some ls => cases steps <;> rfl

theorem chosen_eq_of_perm {es es' : List (String × Bool)} (h : es.Perm es') (ts : List Token) :
    chosen ts es = chosen ts es' := by
  have hsorted (names : List String) : (names.mergeSort fun a b => a ≤ b).Pairwise (· ≤ ·) := by
    refine (List.pairwise_mergeSort ?_ ?_ names).imp fun h => of_decide_eq_true h
    · simpa using fun _ _ _ => String.le_trans
    · simpa using fun _ _ => String.le_total _ _
  have hnames := (h.map (·.1)).filter (Step.matching ts).fits
  refine List.Perm.eq_of_pairwise (fun _ _ _ _ => String.le_antisymm) (hsorted _) (hsorted _) ?_
  exact (List.mergeSort_perm _ _).trans (hnames.trans (List.mergeSort_perm _ _).symm)

theorem byName_sortEntries_eq {ls ls' : List Listing} (h : RelistedAll ls ls') (horderly : AreOrderly ls) :
    byName (sortEntries ls) = byName (sortEntries ls') := by
  refine byName_eq_of_perm ?_ (h.sortEntries_perm horderly)
  rw [map_listingName_sortEntries]
  exact horderly.nodup

/-- What steps lead to does not depend on the order in which directories are listed. -/
theorem SameFiles.value_follow (h : SameFiles answer answer') (honce : ListsOnce answer) (directoriesOnly : Bool) :
    ∀ (steps : List Step) (p : Path),
      (follow directoriesOnly steps p).value answer = (follow directoriesOnly steps p).value answer'
  | [], p => by rw [value_follow_nil, value_follow_nil, h.kind]
  | .name s :: steps, p => by
      rw [value_follow_name, value_follow_name, isThere, isThere, h.kind, h.kind,
        h.value_follow honce directoriesOnly steps]
  | .matching ts :: steps, p => by
      have hlisted := h.entries p
      rw [value_follow_matching, value_follow_matching]
      generalize entriesAt answer p = es, entriesAt answer' p = es' at hlisted ⊢
      cases hlisted with
      | none => rfl
      | some hperm => simp only [chosen_eq_of_perm hperm, h.value_follow honce directoriesOnly steps]
  | .anyDepth :: steps, p => by
      have hlisted := h.subtree p
      have horderly := honce.subtree p
      rw [value_follow_anyDepth, value_follow_anyDepth]
      generalize subtreeAt answer p = ls, subtreeAt answer' p = ls' at hlisted horderly ⊢
      cases hlisted with
      | none => rfl
      | some hlisted =>
          simp only [byName_sortEntries_eq hlisted (horderly _ rfl)]
          refine value_descend_congr (fun q name isDirectory => ?_) _ _
          match steps with
          | [] => rfl
          | step :: steps =>
              rw [visitAfter]
              split
              · exact h.value_follow honce directoriesOnly steps q
              · rfl

end

theorem nodup_foldl_distinct (entries seen : List (String × FileTree)) (h : (seen.map (·.1)).Nodup) :
    ((entries.foldl (fun seen e => if !isName e.1 || seen.any (·.1 == e.1) then seen else e :: seen) seen).map
      (·.1)).Nodup := by
  induction entries generalizing seen with
  | nil => exact h
  | cons e entries ih =>
      rw [List.foldl_cons]
      apply ih
      split
      · exact h
      · next hnew =>
          simp only [Bool.or_eq_true, not_or, List.any_eq_true, beq_iff_eq, not_exists, not_and] at hnew
          refine List.nodup_cons.mpr ⟨fun hmem => ?_, h⟩
          obtain ⟨e', he', heq⟩ := List.mem_map.mp hmem
          exact hnew.2 e' he' heq

mutual

theorem areOrderly_listing (t : FileTree) : AreOrderly t.listing := by
  cases t with
  | file content => trivial
  | directory entries => exact (areOrderly_listEntries [] entries).1

theorem areOrderly_listEntries (seen : List String) (entries : List (String × FileTree)) :
    AreOrderly (FileTree.listEntries seen entries) ∧
      ∀ l ∈ FileTree.listEntries seen entries, listingName l ∉ seen := by
  match entries with
  | [] => exact ⟨trivial, nofun⟩
  | (name, t) :: rest =>
      unfold FileTree.listEntries
      split
      · exact areOrderly_listEntries seen rest
      · next hnew =>
          simp only [Bool.or_eq_true, Bool.not_eq_true', not_or, Bool.not_eq_false, List.contains_iff_mem] at hnew
          have ⟨horderly, hseen⟩ := areOrderly_listEntries (name :: seen) rest
          have hentry (l : Listing) (hname : listingName l = name) (hbelow : IsOrderly l) :
              AreOrderly (l :: FileTree.listEntries (name :: seen) rest) ∧
                ∀ l' ∈ l :: FileTree.listEntries (name :: seen) rest, listingName l' ∉ seen := by
            have hfresh : listingName l ∉ (FileTree.listEntries (name :: seen) rest).map listingName := by
              rw [hname, List.mem_map]
              rintro ⟨l', hl', heq⟩
              exact hseen l' hl' (heq ▸ .head _)
            refine ⟨⟨⟨hname ▸ hnew.1, hfresh, hbelow⟩, horderly⟩, List.forall_mem_cons.mpr ⟨hname ▸ hnew.2, ?_⟩⟩
            exact fun l' hl' hmem => hseen l' hl' (.tail _ hmem)
          cases t with
          | file content => exact hentry (.file name) rfl trivial
          | directory entries => exact hentry (.directory name _) rfl (areOrderly_listing _)

end

theorem listsOnce_answer (fs : FileSystem) (input : ByteArray) : ListsOnce (fs.answer input) := by
  have hentries (p : Path) {es : List (String × Bool)} (h : entriesAt (fs.answer input) p = some es) :
      ∃ entries, es.map (·.1) = (FileTree.distinct entries).map (·.1) := by
    obtain ⟨entries, -, rfl⟩ := Option.map_eq_some_iff.mp h
    exact ⟨entries, by simp [Function.comp_def]⟩
  refine ⟨fun p es h => ?_, fun p es h e he => ?_, fun p ls h => ?_⟩
  · obtain ⟨entries, hnames⟩ := hentries p h
    rw [hnames, FileTree.distinct, List.map_reverse, List.nodup_reverse]
    exact nodup_foldl_distinct entries [] .nil
  · obtain ⟨entries, hnames⟩ := hentries p h
    have hmem : e.1 ∈ (FileTree.distinct entries).map (·.1) := hnames ▸ List.mem_map_of_mem he
    exact (Host.mem_map_distinct_iff.mp hmem).1
  · obtain ⟨entries, -, rfl⟩ := Option.map_eq_some_iff.mp h
    exact (areOrderly_listEntries [] entries).1

mutual

theorem Relisted.refl (l : Listing) : Relisted l l := by
  cases l with
  | file name => exact .file name
  | directory name ls => exact .directory name (RelistedAll.refl ls)

theorem RelistedAll.refl (ls : List Listing) : RelistedAll ls ls := by
  cases ls with
  | nil => exact .nil
  | cons l ls => exact @RelistedAll.cons l l ls [] ls (Relisted.refl l) (RelistedAll.refl ls)

end

theorem RelistedAll.reverse (ls : List Listing) : RelistedAll ls ls.reverse := by
  induction ls with
  | nil => exact .nil
  | cons l ls ih =>
      rw [List.reverse_cons]
      exact .cons (Relisted.refl l) (by rwa [List.append_nil])

def backwards (answer : (q : Host.Question) → Host.Answer q) : (q : Host.Question) → Host.Answer q
  | .kind p => kindAt answer p
  | .read p => contentAt answer p
  | .entries p => (entriesAt answer p).map List.reverse
  | .subtree p => (subtreeAt answer p).map List.reverse
  | .input => inputContent answer

theorem sameFiles_backwards (answer : (q : Host.Question) → Host.Answer q) : SameFiles answer (backwards answer) where
  kind _ := rfl
  content _ := rfl
  entries p := by
    have hentries : entriesAt (backwards answer) p = (entriesAt answer p).map List.reverse := rfl
    rw [hentries]
    cases entriesAt answer p with
    | none => exact .none
    | some es => exact .some (List.reverse_perm es).symm
  subtree p := by
    have hsubtree : subtreeAt (backwards answer) p = (subtreeAt answer p).map List.reverse := rfl
    rw [hsubtree]
    cases subtreeAt answer p with
    | none => exact .none
    | some ls => exact .some (RelistedAll.reverse ls)

section

variable {fs : FileSystem} {input : ByteArray} {p : Path} {t : FileTree} {entries : List (String × FileTree)}

theorem kindAt_of_lookUp (h : fs.lookUp p = .ok t) : kindAt (fs.answer input) p = some t.kind := by
  have hkind : kindAt (fs.answer input) p = (fs.lookUp p).toOption.map FileTree.kind := rfl
  rw [hkind, h]
  rfl

theorem subtreeAt_of_directory (h : fs.lookUp p = .ok (.directory entries)) :
    subtreeAt (fs.answer input) p = some (FileTree.listEntries [] entries) := by
  have hsubtree : subtreeAt (fs.answer input) p = (fs.directory? p).map (FileTree.listEntries []) := rfl
  rw [hsubtree, FileSystem.directory?, h]
  rfl

theorem entriesAt_of_directory (h : fs.lookUp p = .ok (.directory entries)) :
    entriesAt (fs.answer input) p =
      some ((FileTree.distinct entries).map fun e => (e.1, e.2.kind == .directory)) := by
  have hentries : entriesAt (fs.answer input) p = (fs.directory? p).map fun entries =>
      (FileTree.distinct entries).map fun e => (e.1, e.2.kind == .directory) := rfl
  rw [hentries, FileSystem.directory?, h]
  rfl

end

end PushAudit.Glob
