import PushAudit.Proofs.Rule.Blocks

namespace PushAudit.Rule

open Text (lines unlines)

/-- Lines that are put around a text hide nothing in it: its violations are still there, in their order. -/
theorem violations_among_lines (file before text after : String) :
    (violations file text).Sublist (violations file (before ++ "\n" ++ text ++ "\n" ++ after)) ∧
      (violations file text).Sublist (violations file (before ++ "\n" ++ text)) ∧
      (violations file text).Sublist (violations file (text ++ "\n" ++ after)) := by
  have happlies {r : Rule} {x y : List Char} {text' : String} (hx : Text.endsInWord x = false)
      (hy : Text.beginsWithWord y = false) (htext : text'.toList = x ++ (text.toList ++ y))
      (h : r.appliesTo text) : r.appliesTo text' := by
    rw [appliesTo, htext]
    exact Pattern.occursIn_of_part hx hy h
  have hbefore := endsInWord_concat_newline before.toList
  refine ⟨violations_sublist (fun r _ => happlies (y := '\n' :: after.toList) hbefore rfl ?_) file,
    violations_sublist (fun r _ => happlies (y := []) hbefore rfl ?_) file,
    violations_sublist (fun r _ => happlies (x := []) (y := '\n' :: after.toList) rfl rfl ?_) file⟩
  · simp
  · simp
  · simp

/-- Without the line feed a word may go on in what is put around it. -/
example : unsafeEval.appliesTo "eval(x)" ∧ ¬ unsafeEval.appliesTo "medieval(x)" ∧
    unsafeEval.appliesTo "medi\neval(x)" := by
  decide +kernel

theorem takesReturns_of_mem_catalog : ∀ r ∈ catalog, r.pattern.takesReturns := by decide

theorem matchesEmpty_of_mem_catalog : ∀ r ∈ catalog, r.pattern.matchesEmpty true = false := by decide

theorem endsIn_newline_of_mem_catalog : ∀ r ∈ catalog, r.pattern.endsIn '\n' = false := by decide

theorem appliesTo_unlines_lines_iff {r : Rule} (hr : r ∈ catalog) (text : String) :
    r.appliesTo (String.ofList (unlines (lines text.toList))) ↔ r.appliesTo text := by
  obtain ⟨raws, htext, hread⟩ := Text.exists_raws text.toList
  have hreturns : r.pattern.occursIn (unlines raws) ↔ r.pattern.occursIn (unlines (lines text.toList)) :=
    Pattern.occursIn_iff_of_dropsReturns (toleratesReturns_of_mem_catalog r hr)
      (takesReturns_of_mem_catalog r hr) (Text.dropsReturns_unlines hread)
  rw [appliesTo, appliesTo, String.toList_ofList, ← hreturns]
  rcases htext with htext | htext
  · rw [htext]
  · rw [htext]
    exact Pattern.occursIn_concat_iff (matchesEmpty_of_mem_catalog r hr) (endsIn_newline_of_mem_catalog r hr)
      (by decide) text.toList

end PushAudit.Rule
