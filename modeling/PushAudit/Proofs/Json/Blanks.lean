import PushAudit.Proofs.Json.Grammar

namespace PushAudit.Json

variable {s t u r : List Char} {c : Char} {first : Bool}

theorem isSpace_iff (c : Char) : isSpace c ↔ c = ' ' ∨ c = '\n' ∨ c = '\t' ∨ c = '\r' := by
  simp [isSpace, or_assoc]

theorem Blanks.refl (s : List Char) : Blanks s s := ⟨[], rfl, by simp⟩

theorem Blanks.trans (hst : Blanks s t) (htu : Blanks t u) : Blanks s u := by
  obtain ⟨v, rfl, hv⟩ := hst
  obtain ⟨w, rfl, hw⟩ := htu
  refine ⟨v ++ w, (List.append_assoc ..).symm, fun c hc => ?_⟩
  exact (List.mem_append.mp hc).elim (hv c) (hw c)

theorem blanks_skipSpace (s : List Char) : Blanks s (skipSpace s) := by
  refine ⟨s.takeWhile isSpace, List.takeWhile_append_dropWhile.symm, fun c hc => ?_⟩
  exact (isSpace_iff c).mp (List.all_eq_true.mp List.all_takeWhile c hc)

theorem skipSpace_eq_of_blanks (h : Blanks s t) : skipSpace s = skipSpace t := by
  obtain ⟨w, rfl, hw⟩ := h
  exact List.dropWhile_append_of_pos fun c hc => (isSpace_iff c).mpr (hw c hc)

theorem skipSpace_skipSpace (s : List Char) : skipSpace (skipSpace s) = skipSpace s :=
  (skipSpace_eq_of_blanks (blanks_skipSpace s)).symm

theorem blanks_cons_iff (hc : isSpace c = false) : Blanks s (c :: r) ↔ skipSpace s = c :: r := by
  constructor
  · intro h
    rw [skipSpace_eq_of_blanks h, skipSpace, List.dropWhile_cons, hc, if_neg Bool.false_ne_true]
  · intro h
    exact h ▸ blanks_skipSpace s

theorem blanks_nil_iff : Blanks s [] ↔ (skipSpace s).isEmpty := by
  rw [List.isEmpty_iff]
  constructor
  · intro h
    rw [skipSpace_eq_of_blanks h]
    rfl
  · intro h
    exact h ▸ blanks_skipSpace s

theorem leadAt_cons_iff (hc : isSpace c = false) : LeadAt first s (c :: r) ↔
    if first then skipSpace s = c :: r else ∃ u, skipSpace s = ',' :: u ∧ skipSpace u = c :: r := by
  have hcomma : isSpace ',' = false := rfl
  constructor
  · intro h
    cases h with
    | first hs => exact (blanks_cons_iff hc).mp hs
    | next hs ht => exact ⟨_, (blanks_cons_iff hcomma).mp hs, (blanks_cons_iff hc).mp ht⟩
  · cases first with
    | true => exact fun hs => .first ((blanks_cons_iff hc).mpr hs)
    | false =>
        rintro ⟨u, hs, ht⟩
        exact .next ((blanks_cons_iff hcomma).mpr hs) ((blanks_cons_iff hc).mpr ht)

theorem LeadAt.trans (h : LeadAt first s t) (htu : Blanks t u) : LeadAt first s u := by
  cases h with
  | first h => exact .first (h.trans htu)
  | next hs ht => exact .next hs (ht.trans htu)

end PushAudit.Json
