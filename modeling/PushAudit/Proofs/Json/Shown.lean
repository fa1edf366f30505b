import PushAudit.Proofs.Json.Printer

namespace PushAudit.Json

/-- A text without control characters other than line feeds. -/
def IsShown (cs : List Char) : Prop := ∀ c ∈ cs, 0x20 ≤ c.toNat ∨ c = '\n'

instance : DecidablePred IsShown := fun cs =>
  List.decidableBAll (fun c : Char => 0x20 ≤ c.toNat ∨ c = '\n') cs

variable {xs ys : List Char}

theorem IsShown.append (hx : IsShown xs) (hy : IsShown ys) : IsShown (xs ++ ys) :=
  List.forall_mem_append.mpr ⟨hx, hy⟩

theorem isShown_flatMap {α : Type} {f : α → List Char} {as : List α} (h : ∀ a ∈ as, IsShown (f a)) :
    IsShown (as.flatMap f) :=
  List.forall_mem_flatMap.mpr h

theorem isShown_digits (n : Nat) : IsShown (toString n).toList := by
  intro c hc
  have hdigit := Nat.isDigit_of_mem_toDigits (by decide) (by decide) (Nat.toList_repr ▸ hc)
  rw [Char.isDigit_iff_toNat] at hdigit
  exact .inl (Nat.le_trans (by decide) hdigit.1)

theorem isShown_codeEscape (n : Nat) (h : n < 0x20) :
    IsShown ['\\', 'u', '0', '0', hexDigit (n / 16), hexDigit (n % 16)] := by
  revert n
  decide

theorem isShown_escapeChar (c : Char) : IsShown (escapeChar c) := by
  unfold escapeChar
  split_ifs with hquote hslash hfeed hreturn htab hback hform hcontrol
  · decide
  · decide
  · decide
  · decide
  · decide
  · decide
  · decide
  · exact isShown_codeEscape c.toNat hcontrol
  · exact List.forall_mem_singleton.mpr (.inl (Nat.le_of_not_lt hcontrol))

theorem isShown_printText (s : String) : IsShown (printText s).toList := by
  rw [toList_printText]
  have hquote : IsShown ['"'] := by decide
  exact hquote.append ((isShown_flatMap fun c _ => isShown_escapeChar c).append hquote)

theorem isShown_newLine (level : Nat) : IsShown (newLine level).toList := by
  rw [newLine, String.toList_append, toList_pushn]
  have hfeed : IsShown "\n".toList := by decide
  have hspaces : IsShown (List.replicate (2 * level) ' ') := by
    intro c hc
    rw [List.eq_of_mem_replicate hc]
    decide
  exact hfeed.append (IsShown.append (List.forall_mem_nil _) hspaces)

theorem isShown_moreRows {rows : List String} (h : ∀ row ∈ rows, IsShown row.toList) (level : Nat) :
    IsShown (moreRows level rows) := by
  refine isShown_flatMap fun row hrow => ?_
  have hcomma : IsShown [','] := by decide
  exact hcomma.append ((isShown_newLine level).append (h row hrow))

theorem isShown_block {opening closing : String} (ho : IsShown opening.toList) (hc : IsShown closing.toList)
    (level : Nat) {rows : List String} (h : ∀ row ∈ rows, IsShown row.toList) :
    IsShown (block opening closing level rows).toList := by
  cases rows with
  | nil =>
      rw [toList_block_nil]
      exact ho.append hc
  | cons row rows =>
      obtain ⟨hrow, hrows⟩ := List.forall_mem_cons.mp h
      rw [toList_block_cons]
      exact ho.append ((isShown_newLine _).append (hrow.append
        ((isShown_moreRows hrows _).append ((isShown_newLine _).append hc))))

/-- Whatever the texts in a document hold, what is printed of it holds no control characters. -/
theorem IsWhole.isShown_printAt {v : Json} (h : v.IsWhole) (level : Nat) : IsShown (printAt level v).toList := by
  induction h generalizing level with
  | null =>
      rw [printAt]
      decide
  | bool b =>
      rw [printAt]
      cases b <;> decide
  | nat n =>
      rw [Json.nat, printAt]
      exact isShown_digits n
  | text s =>
      rw [printAt]
      exact isShown_printText s
  | list h ih =>
      rw [printAt, printItems_eq]
      refine isShown_block (by decide) (by decide) level ?_
      rw [List.forall_mem_map]
      exact fun v hv => ih v hv _
  | record h ih =>
      rw [printAt, printFields_eq]
      refine isShown_block (by decide) (by decide) level ?_
      rw [List.forall_mem_map]
      intro e he
      rw [String.toList_append, String.toList_append]
      exact ((isShown_printText e.1).append (by decide)).append (ih e he _)

end PushAudit.Json
