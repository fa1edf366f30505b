import PushAudit.Proofs.Json.Fields

namespace PushAudit.Json

variable {s r r' : List Char}

theorem CodeAt.unique {n n' : Nat} (h : CodeAt s n r) (h' : CodeAt s n' r') : n = n' ∧ r = r' := by
  cases h with
  | mk ha hb hc hd =>
      cases h' with
      | mk ha' hb' hc' hd' =>
          obtain rfl := Option.some.inj (ha.symm.trans ha')
          obtain rfl := Option.some.inj (hb.symm.trans hb')
          obtain rfl := Option.some.inj (hc.symm.trans hc')
          obtain rfl := Option.some.inj (hd.symm.trans hd')
          exact ⟨rfl, rfl⟩

theorem LetterAt.unique {l l' : Letter} (h : LetterAt s l r) (h' : LetterAt s l' r') : l = l' ∧ r = r' := by
  have hnames : ∀ p ∈ namedEscapes, ∀ q ∈ namedEscapes, p.1 = q.1 → p = q := by decide
  have hcode : ∀ p ∈ namedEscapes, p.1 ≠ 'u' := by decide
  cases h with
  | plain hquote hslash hcontrol =>
      cases h' with
      | plain => exact ⟨rfl, rfl⟩
      | named => exact absurd rfl hslash
      | code => exact absurd rfl hslash
  | named h =>
      cases h' with
      | plain hquote hslash hcontrol => exact absurd rfl hslash
      | named h' => exact ⟨congrArg (Letter.char ·.2) (hnames _ h _ h' rfl), rfl⟩
      | code => exact absurd rfl (hcode _ h)
  | code h =>
      cases h' with
      | plain hquote hslash hcontrol => exact absurd rfl hslash
      | named h' => exact absurd rfl (hcode _ h')
      | code h' =>
          obtain ⟨rfl, rfl⟩ := h.unique h'
          exact ⟨rfl, rfl⟩

theorem not_letterAt_quote {l : Letter} : ¬ LetterAt ('"' :: s) l r := by
  intro h
  cases h with
  | plain hquote => exact hquote rfl

theorem quotedAt_unique {ls ls' : List Letter} (h : QuotedAt s ls r) (h' : QuotedAt s ls' r') :
    ls = ls' ∧ r = r' := by
  induction h generalizing ls' with
  | nil =>
      cases h' with
      | nil => exact ⟨rfl, rfl⟩
      | cons ha => exact absurd ha not_letterAt_quote
  | cons ha h ih =>
      cases h' with
      | nil => exact absurd ha not_letterAt_quote
      | cons ha' h' =>
          obtain ⟨rfl, rfl⟩ := ha.unique ha'
          obtain ⟨rfl, rfl⟩ := ih h'
          exact ⟨rfl, rfl⟩

theorem NumeralAt.unique {n n' : Numeral} (h : NumeralAt s n r) (h' : NumeralAt s n' r') : n = n' ∧ r = r' := by
  have hscan := Numeral.scan_iff.mpr h
  rw [Scans, Numeral.scan_iff.mpr h'] at hscan
  simpa [eq_comm] using hscan

theorem leadAt_unique {c c' : Char} {t t' : List Char} {first : Bool} (hc : isSpace c = false)
    (hc' : isSpace c' = false) (h : LeadAt first s (c :: t)) (h' : LeadAt first s (c' :: t')) :
    c = c' ∧ t = t' := by
  rw [leadAt_cons_iff hc] at h
  rw [leadAt_cons_iff hc'] at h'
  cases first with
  | true => exact List.cons.inj (h.symm.trans h')
  | false =>
      obtain ⟨u, hs, hu⟩ := h
      obtain ⟨u', hs', hu'⟩ := h'
      obtain rfl := (List.cons.inj (hs.symm.trans hs')).2
      exact List.cons.inj (hu.symm.trans hu')

theorem not_leadAt_of_closing {c e : Char} {t : List Char} {first : Bool} (he : isSpace e = false)
    (hcomma : e ≠ ',') (hs : Blanks s (e :: r)) (hc : isSpace c = false) (hne : c ≠ e) :
    ¬ LeadAt first s (c :: t) := by
  intro h
  rw [blanks_cons_iff he] at hs
  rw [leadAt_cons_iff hc] at h
  cases first with
  | true => exact hne (List.cons.inj (h.symm.trans hs)).1
  | false =>
      obtain ⟨u, hu, -⟩ := h
      exact hcomma (List.cons.inj (hs.symm.trans hu)).1

theorem blanks_unique {c : Char} (hc : isSpace c = false) (h : Blanks s (c :: r)) (h' : Blanks s (c :: r')) :
    r = r' := by
  rw [blanks_cons_iff hc] at h h'
  exact (List.cons.inj (h.symm.trans h')).2

/-! What stands at the front of a text can be taken in one way only. -/

mutual

theorem TreeAt.unique {s r r' : List Char} {d d' : Tree} (h : TreeAt s d r) (h' : TreeAt s d' r') :
    d = d' ∧ r = r' := by
  cases h with
  | null =>
      obtain ⟨rfl, h⟩ := treeAt_null_iff.mp h'
      exact ⟨rfl, by simpa using h⟩
  | true =>
      obtain ⟨rfl, h⟩ := treeAt_true_iff.mp h'
      exact ⟨rfl, by simpa using h⟩
  | false =>
      obtain ⟨rfl, h⟩ := treeAt_false_iff.mp h'
      exact ⟨rfl, by simpa using h⟩
  | number h =>
      cases h' with
      | number h' =>
          obtain ⟨rfl, rfl⟩ := h.unique h'
          exact ⟨rfl, rfl⟩
      | _ => exact absurd h (not_numeralAt (by decide) rfl)
  | text h =>
      obtain ⟨ls, rfl, hls⟩ := treeAt_text_iff.mp h'
      obtain ⟨rfl, rfl⟩ := quotedAt_unique h hls
      exact ⟨rfl, rfl⟩
  | list h =>
      obtain ⟨ds, rfl, hds⟩ := treeAt_list_iff.mp h'
      obtain ⟨rfl, rfl⟩ := ItemsAt.unique h hds
      exact ⟨rfl, rfl⟩
  | record h =>
      obtain ⟨fs, rfl, hfs⟩ := treeAt_record_iff.mp h'
      obtain ⟨rfl, rfl⟩ := FieldsAt.unique h hfs
      exact ⟨rfl, rfl⟩

theorem ItemsAt.unique {s r r' : List Char} {first : Bool} {ds ds' : List Tree}
    (h : ItemsAt first s ds r) (h' : ItemsAt first s ds' r') : ds = ds' ∧ r = r' := by
  cases h with
  | nil hs =>
      cases h' with
      | nil hs' => exact ⟨rfl, blanks_unique rfl hs hs'⟩
      | cons hlead hd h =>
          obtain ⟨c, t, rfl, hc⟩ := hd.head
          exact absurd hlead (not_leadAt_of_closing rfl (by decide) hs hc.1 hc.2.2.1)
  | cons hlead hd h =>
      obtain ⟨c, t, rfl, hc⟩ := hd.head
      cases h' with
      | nil hs => exact absurd hlead (not_leadAt_of_closing rfl (by decide) hs hc.1 hc.2.2.1)
      | cons hlead' hd' h' =>
          obtain ⟨c', t', rfl, hc'⟩ := hd'.head
          obtain ⟨rfl, rfl⟩ := leadAt_unique hc.1 hc'.1 hlead hlead'
          obtain ⟨rfl, rfl⟩ := TreeAt.unique hd hd'
          obtain ⟨rfl, rfl⟩ := ItemsAt.unique h h'
          exact ⟨rfl, rfl⟩

theorem FieldsAt.unique {s r r' : List Char} {first : Bool} {fs fs' : List (List Letter × Tree)}
    (h : FieldsAt first s fs r) (h' : FieldsAt first s fs' r') : fs = fs' ∧ r = r' := by
  cases h with
  | nil hs =>
      cases h' with
      | nil hs' => exact ⟨rfl, blanks_unique rfl hs hs'⟩
      | cons hlead => exact absurd hlead (not_leadAt_of_closing rfl (by decide) hs rfl (by decide))
  | cons hlead hkey hcolon hblank hd h =>
      cases h' with
      | nil hs => exact absurd hlead (not_leadAt_of_closing rfl (by decide) hs rfl (by decide))
      | cons hlead' hkey' hcolon' hblank' hd' h' =>
          obtain ⟨-, rfl⟩ := leadAt_unique rfl rfl hlead hlead'
          obtain ⟨rfl, rfl⟩ := quotedAt_unique hkey hkey'
          obtain rfl := blanks_unique rfl hcolon hcolon'
          obtain rfl := (hd.blanks_iff.mp hblank).symm.trans (hd'.blanks_iff.mp hblank')
          obtain ⟨rfl, rfl⟩ := TreeAt.unique hd hd'
          obtain ⟨rfl, rfl⟩ := FieldsAt.unique h h'
          exact ⟨rfl, rfl⟩

end

/-- A text is one document at most. -/
theorem Tree.IsDocument.unique {d d' : Tree} {text : String} (h : d.IsDocument text) (h' : d'.IsDocument text) :
    d = d' := by
  obtain ⟨s, r, hs, hd, -⟩ := h
  obtain ⟨s', r', hs', hd', -⟩ := h'
  obtain rfl := (hd.blanks_iff.mp hs).symm.trans (hd'.blanks_iff.mp hs')
  exact (hd.unique hd').1

end PushAudit.Json
