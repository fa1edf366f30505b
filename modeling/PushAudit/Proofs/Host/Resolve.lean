import PushAudit.Proofs.Host.Place
import PushAudit.Proofs.Path.Above

namespace PushAudit.Host

open PushAudit.Path (isVoid)

def step (place : List String) (s : String) : List String := if s = ".." then place.dropLast else place ++ [s]

/-- The place that segments lead to from the top, by the names of all directories on the way to it. -/
def resolve (segments : List String) : List String := (segments.filter (!isVoid ·)).foldl step []

section

variable {place before after : List String}

theorem foldl_step_of_plain (h : ".." ∉ after) : after.foldl step place = place ++ after := by
  induction after generalizing place with
  | nil => simp
  | cons s after ih =>
      rw [List.mem_cons, not_or] at h
      rw [List.foldl_cons, step, if_neg (Ne.symm h.1), ih h.2, List.append_assoc, List.singleton_append]

theorem resolve_append (before after : List String) :
    resolve (before ++ after) = (after.filter (!isVoid ·)).foldl step (resolve before) := by
  rw [resolve, resolve, List.filter_append, List.foldl_append]

theorem resolve_append_of_plain (h : ".." ∉ after) :
    resolve (before ++ after) = resolve before ++ after.filter (!isVoid ·) := by
  rw [resolve_append, foldl_step_of_plain fun hup => h (List.mem_of_mem_filter hup)]

theorem resolve_filter (before after : List String) :
    resolve (before ++ after.filter (!isVoid ·)) = resolve (before ++ after) := by
  rw [resolve_append, resolve_append, List.filter_filter]
  simp

/-- A place of a tree with the directories over it, as a walk keeps them. -/
inductive Reaches (root : FileTree) : List String → List FileTree → FileTree → Prop
  | top : Reaches root [] [] root
  | down {place : List String} {above : List FileTree} {entries : List (String × FileTree)} {name : String}
      {t : FileTree} (h : Reaches root place above (.directory entries)) (hvoid : ¬ isVoid name) (hup : name ≠ "..")
      (hholds : Holds entries name t) : Reaches root (place ++ [name]) (.directory entries :: above) t

variable {root t t' : FileTree} {above : List FileTree} {segments : List String}

theorem Reaches.walk (h : Reaches root place above t) : root.walk [] (place ++ segments) = t.walk above segments := by
  induction h generalizing segments with
  | top => rfl
  | down h hvoid hup hholds ih =>
      obtain ⟨hsize, e, hfind, rfl⟩ := hholds
      rw [List.append_assoc, ih]
      exact FileTree.walk_entry hvoid hup (Nat.not_lt_of_le hsize) hfind

theorem Reaches.walk_foldl_step (h : Reaches root place above t) (hwalk : t.walk above segments = .ok t') :
    root.walk [] ((segments.filter (!isVoid ·)).foldl step place) = .ok t' := by
  fun_induction FileTree.walk above t segments generalizing place with
  | case1 above t =>
      rw [List.filter_nil, List.foldl_nil, ← List.append_nil place, h.walk, FileTree.walk_nil, hwalk]
  | case2 | case6 | case7 => contradiction
  | case3 above entries name segments hvoid ih =>
      rw [List.filter_cons_of_neg (by simpa using hvoid)]
      exact ih h hwalk
  | case4 entries segments hvoid ih =>
      rw [List.filter_cons_of_pos (by decide), List.foldl_cons, step, if_pos rfl]
      cases h with
      | top => exact ih .top hwalk
  | case5 entries segments t above hvoid ih =>
      rw [List.filter_cons_of_pos (by decide), List.foldl_cons, step, if_pos rfl]
      cases h with
      | down h hvoid hup hholds =>
          rw [List.dropLast_concat]
          exact ih h hwalk
  | case8 above entries name segments hvoid hup hsize other t hfind ih =>
      rw [List.filter_cons_of_pos (by simpa using hvoid), List.foldl_cons, step, if_neg hup]
      exact ih (h.down hvoid hup ⟨Nat.le_of_not_lt hsize, _, hfind, rfl⟩) hwalk

/-- There are no links: what a path leads to is what lies at its place. -/
theorem walk_resolve (h : root.walk [] segments = .ok t) : root.walk [] (resolve segments) = .ok t :=
  Reaches.top.walk_foldl_step h

end

namespace FileSystem

def place (fs : FileSystem) (p : Path) : List String := resolve (fs.trail p)

theorem place_eq (fs : FileSystem) (p : Path) : fs.place p = resolve (fs.start p ++ p.steps) := by
  rw [place, trail_eq, Path.steps, resolve_filter]

end FileSystem

end PushAudit.Host
