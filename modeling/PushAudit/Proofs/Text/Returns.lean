import Mathlib.Data.List.Forall2
import PushAudit.Proofs.Text.Lines

namespace PushAudit.Text

/-- The second text is the first less some carriage returns. Each of these stands right before a line
feed, perhaps the one with which the rest of the text begins. -/
inductive DropsReturns (rest : List Char) : List Char → List Char → Prop
  | nil : DropsReturns rest [] []
  | keep {x y} (c : Char) (h : DropsReturns rest x y) : DropsReturns rest (c :: x) (c :: y)
  | drop {x y} (hx : (x ++ rest).head? = some '\n') (h : DropsReturns rest x y) :
      DropsReturns rest ('\r' :: x) y

namespace DropsReturns

variable {rest x x' y y' : List Char}

theorem refl (rest x : List Char) : DropsReturns rest x x := by
  induction x with
  | nil => exact .nil
  | cons c x ih => exact .keep c ih

theorem append (hx : DropsReturns (y ++ rest) x x') (hy : DropsReturns rest y y') :
    DropsReturns rest (x ++ y) (x' ++ y') := by
  induction hx with
  | nil => exact hy
  | keep c _ ih => exact .keep c ih
  | @drop x x' hn _ ih => exact .drop ((congrArg List.head? (List.append_assoc x y rest)).trans hn) ih

theorem of_append {z : List Char} (h : DropsReturns rest (x ++ y) z) :
    ∃ x' y', z = x' ++ y' ∧ DropsReturns (y ++ rest) x x' ∧ DropsReturns rest y y' := by
  induction x generalizing z with
  | nil => exact ⟨[], z, rfl, .nil, h⟩
  | cons c x ih =>
      cases h with
      | keep _ h =>
          obtain ⟨x', y', rfl, hx, hy⟩ := ih h
          exact ⟨c :: x', y', rfl, .keep c hx, hy⟩
      | drop hn h =>
          obtain ⟨x', y', rfl, hx, hy⟩ := ih h
          exact ⟨x', y', rfl, .drop (by rwa [← List.append_assoc]) hx, hy⟩

theorem eq_singleton {c : Char} (hc : c ≠ '\r') (h : DropsReturns rest [c] x) : x = [c] := by
  cases h with
  | keep _ h => cases h; rfl
  | drop => exact absurd rfl hc

theorem mem (h : DropsReturns rest x y) {c : Char} (hc : c ∈ y) : c ∈ x := by
  induction h with
  | nil => exact hc
  | keep d _ ih =>
      rcases List.mem_cons.mp hc with rfl | hc
      · exact List.mem_cons_self
      · exact List.mem_cons_of_mem d (ih hc)
  | drop _ _ ih => exact List.mem_cons_of_mem '\r' (ih hc)

theorem getLast?_eq (h : DropsReturns rest x y)
    (hr : x.getLast? = some '\r' → rest.head? ≠ some '\n') : y.getLast? = x.getLast? := by
  induction h with
  | nil => rfl
  | @keep x y c _ ih =>
      rw [List.getLast?_cons, List.getLast?_cons, ih fun hx => hr (by simp [List.getLast?_cons, hx])]
  | @drop x y hn _ ih =>
      cases x with
      | nil => exact absurd hn (hr rfl)
      | cons c x => rw [ih hr, List.getLast?_cons_cons]

theorem head?_of_newline (h : DropsReturns rest x y) (hx : x.head? = some '\n') : y.head? = some '\n' := by
  cases h with
  | nil => exact hx
  | keep c _ => exact hx
  | drop => simp at hx

theorem weaken (h : DropsReturns [] x y) (rest : List Char) : DropsReturns rest x y := by
  induction h with
  | nil => exact .nil
  | keep c _ ih => exact .keep c ih
  | @drop x y hn _ ih =>
      rw [List.append_nil] at hn
      exact .drop (by rw [List.head?_append, hn, Option.some_or]) ih

theorem eq_nil (h : DropsReturns [] x []) : x = [] := by
  cases h with
  | nil => rfl
  | drop hn h =>
      rw [List.append_nil] at hn
      simpa using h.head?_of_newline hn

theorem eq_singleton_of_ne {c : Char} (hc : c ≠ '\n') (h : DropsReturns [] x [c]) : x = [c] := by
  cases h with
  | keep _ h => rw [h.eq_nil]
  | drop hn h =>
      rw [List.append_nil] at hn
      exact absurd (Option.some.inj (h.head?_of_newline hn)) hc

theorem of_append_right (h : DropsReturns [] x (y ++ y')) :
    ∃ z z', x = z ++ z' ∧ DropsReturns [] z y ∧ DropsReturns [] z' y' := by
  generalize hw : y ++ y' = w at h
  induction h generalizing y with
  | nil =>
      obtain ⟨rfl, rfl⟩ := List.append_eq_nil_iff.mp hw
      exact ⟨[], [], rfl, .nil, .nil⟩
  | @keep x w c h ih =>
      rcases List.append_eq_cons_iff.mp hw with ⟨rfl, rfl⟩ | ⟨y, rfl, rfl⟩
      · exact ⟨[], c :: x, rfl, .nil, .keep c h⟩
      · obtain ⟨z, z', rfl, hz, hz'⟩ := ih rfl
        exact ⟨c :: z, z', rfl, .keep c hz, hz'⟩
  | @drop x w hn h ih =>
      cases y with
      | nil =>
          obtain rfl : y' = w := hw
          exact ⟨[], '\r' :: x, rfl, .nil, .drop hn h⟩
      | cons c y =>
          obtain ⟨z, z', rfl, hz, hz'⟩ := ih hw
          have hne : z ≠ [] := by
            rintro rfl
            cases hz
          rw [List.append_nil, List.head?_append_of_ne_nil z hne] at hn
          exact ⟨'\r' :: z, z', rfl, .drop (by rwa [List.append_nil]) hz, hz'⟩

theorem mem_or (h : DropsReturns [] x y) {c : Char} (hc : c ∈ x) : c ∈ y ∨ c = '\r' ∧ '\n' ∈ y := by
  induction h with
  | nil => exact .inl hc
  | keep d _ ih =>
      rcases List.mem_cons.mp hc with rfl | hc
      · exact .inl List.mem_cons_self
      · exact (ih hc).imp (List.mem_cons_of_mem d) (And.imp_right (List.mem_cons_of_mem d))
  | drop hn h ih =>
      rcases List.mem_cons.mp hc with rfl | hc
      · rw [List.append_nil] at hn
        exact .inr ⟨rfl, List.mem_of_head? (h.head?_of_newline hn)⟩
      · exact ih hc

end DropsReturns

def ReadsAs (raw line : List Char) : Prop := raw = line ∨ raw = line ++ ['\r']

theorem dropsReturns_unlines {raws ls : List (List Char)} (h : List.Forall₂ ReadsAs raws ls) :
    DropsReturns [] (unlines raws) (unlines ls) := by
  induction h with
  | nil => exact .nil
  | @cons raw line raws ls hl _ ih =>
      have hrest : DropsReturns [] ('\n' :: unlines raws) ('\n' :: unlines ls) := .keep '\n' ih
      rw [unlines_cons, unlines_cons]
      rcases hl with rfl | rfl
      · exact (DropsReturns.refl _ raw).append hrest
      · rw [List.append_assoc]
        exact (DropsReturns.refl _ line).append (.drop rfl hrest)

/-- A text is its lines as they were before they were read, save perhaps the line feed at its end. -/
theorem exists_raws (text : List Char) :
    ∃ raws, (unlines raws = text ∨ unlines raws = text ++ ['\n']) ∧ List.Forall₂ ReadsAs raws (lines text) := by
  induction text using cut_induction '\n' with
  | single s hs =>
      by_cases hne : s = []
      · subst hne
        exact ⟨[], .inl rfl, .nil⟩
      · refine ⟨[s], .inr (List.append_nil _), ?_⟩
        rw [lines_eq_singleton hs hne]
        exact .cons (.inl rfl) .nil
  | cons s t hs ih =>
      obtain ⟨raws, htext, hread⟩ := ih
      have hfirst (x : List Char) : unlines (s :: raws) = s ++ '\n' :: x ↔ unlines raws = x := by
        simp [unlines_cons]
      refine ⟨s :: raws, htext.imp (hfirst t).mpr fun h => ?_, ?_⟩
      · rw [List.append_assoc]
        exact (hfirst _).mpr h
      · rw [lines_append_newline hs]
        exact .cons (eq_chomp_or s) hread

end PushAudit.Text
