import PushAudit.Proofs.Pattern.Context
import PushAudit.Proofs.Pattern.Returns
import PushAudit.Proofs.Rule.Detection

namespace PushAudit.Rule

open Text (unlines ReadsAs)

theorem toleratesReturns_of_mem_catalog : ∀ r ∈ catalog, r.pattern.toleratesReturns := by decide

theorem lasting_of_mem_catalog {r : Rule} (hr : r ∈ catalog) : r.pattern.Lasting :=
  Pattern.lasting_of_toleratesReturns r.pattern (toleratesReturns_of_mem_catalog r hr)

theorem endsInWord_concat_newline (text : List Char) : Text.endsInWord (text ++ ['\n']) = false := by
  rw [Text.endsInWord_append_cons]
  rfl

theorem endsInWord_unlines (ls : List (List Char)) : Text.endsInWord (unlines ls) = false := by
  by_cases h : ls = []
  · subst h
    rfl
  · rw [Text.unlines_eq_intercalate h]
    exact endsInWord_concat_newline _

theorem occursIn_unlines_of_block {p : Pattern} {block : List (List Char)} (xs ys : List (List Char))
    (h : p.occursIn (['\n'].intercalate block)) : p.occursIn (unlines (xs ++ block ++ ys)) := by
  by_cases hb : block = []
  · subst hb
    rw [List.append_nil, ← List.append_nil (unlines _)]
    exact Pattern.occursIn_of_part (endsInWord_unlines _) rfl h
  · have hsplit : unlines (xs ++ block ++ ys) =
        unlines xs ++ (['\n'].intercalate block ++ '\n' :: unlines ys) := by
      rw [Text.unlines_append, Text.unlines_append, Text.unlines_eq_intercalate hb]
      simp only [List.append_assoc, List.singleton_append]
    rw [hsplit]
    exact Pattern.occursIn_of_part (endsInWord_unlines xs) rfl h

/-- A rule that applies to the text of a block applies to all the lines that the block is part of, as
they are read. -/
theorem appliesTo_of_block {r : Rule} (hr : r ∈ catalog) {block part ls : List (List Char)}
    (hpart : part <:+: ls) (hblock : List.Forall₂ ReadsAs block part)
    (h : r.appliesTo (String.ofList (['\n'].intercalate block))) :
    r.appliesTo (String.ofList (unlines ls)) := by
  obtain ⟨xs, ys, rfl⟩ := hpart
  have hsame (ls : List (List Char)) : List.Forall₂ ReadsAs ls ls :=
    List.forall₂_same.mpr fun l _ => .inl rfl
  have hread : List.Forall₂ ReadsAs (xs ++ block ++ ys) (xs ++ part ++ ys) :=
    List.rel_append (List.rel_append (hsame xs) hblock) (hsame ys)
  rw [appliesTo, String.toList_ofList] at h ⊢
  have hraw := occursIn_unlines_of_block xs ys h
  exact (lasting_of_mem_catalog hr).occursIn (Text.dropsReturns_unlines hread) hraw

end PushAudit.Rule
