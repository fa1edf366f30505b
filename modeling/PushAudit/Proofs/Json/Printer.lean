import Mathlib.Tactic.SplitIfs
import PushAudit.Json.Printer
import PushAudit.Proofs.Json.Quoted
import PushAudit.Proofs.Json.Unique

namespace PushAudit.Json

mutual

/-- The value that a document gives: texts as they are spelled, whole numbers by their digits. -/
inductive Tree.Gives : Tree → Json → Prop
  | null : Gives .null .null
  | bool (b : Bool) : Gives (.bool b) (.bool b)
  | number {ds : List Char} : Gives (.number ⟨false, ds, [], none⟩) (.number (String.ofList ds))
  | text {ls : List Letter} {s : String} (h : Spells ls s.toList) : Gives (.text ls) (.text s)
  | list {ds : List Tree} {vs : List Json} (h : GivesItems ds vs) : Gives (.list ds) (.list vs)
  | record {fs : List (List Letter × Tree)} {entries : List (String × Json)} (h : GivesFields fs entries) :
      Gives (.record fs) (.record entries)

inductive Tree.GivesItems : List Tree → List Json → Prop
  | nil : GivesItems [] []
  | cons {d : Tree} {v : Json} {ds : List Tree} {vs : List Json} (hd : Gives d v) (h : GivesItems ds vs) :
      GivesItems (d :: ds) (v :: vs)

inductive Tree.GivesFields : List (List Letter × Tree) → List (String × Json) → Prop
  | nil : GivesFields [] []
  | cons {key : List Letter} {name : String} {d : Tree} {v : Json} {fs : List (List Letter × Tree)}
      {entries : List (String × Json)} (hkey : Spells key name.toList) (hd : Gives d v) (h : GivesFields fs entries) :
      GivesFields ((key, d) :: fs) ((name, v) :: entries)

end

/-- Reading a text gives a value. -/
def IsReadFrom (v : Json) (text : String) : Prop := ∃ d : Tree, d.IsDocument text ∧ d.Gives v

/-- The whole text, with no blanks around it, is a document that gives a value. -/
def IsWrittenAs (v : Json) (text : String) : Prop := ∃ d : Tree, TreeAt text.toList d [] ∧ d.Gives v

inductive IsWhole : Json → Prop
  | null : IsWhole .null
  | bool (b : Bool) : IsWhole (.bool b)
  | nat (n : Nat) : IsWhole (nat n)
  | text (s : String) : IsWhole (.text s)
  | list {vs : List Json} (h : ∀ v ∈ vs, IsWhole v) : IsWhole (.list vs)
  | record {entries : List (String × Json)} (h : ∀ e ∈ entries, IsWhole e.2) : IsWhole (.record entries)

variable {s r : List Char} {c : Char}

theorem Spells.unique {ls : List Letter} {cs cs' : List Char} (h : Spells ls cs) (h' : Spells ls cs') : cs = cs' := by
  induction h generalizing cs' with
  | nil =>
      cases h'
      rfl
  | char h ih =>
      cases h' with
      | char h' => rw [ih h']
  | pair hhigh hlow h ih =>
      cases h' with
      | pair hhigh' hlow' h' => rw [ih h']

mutual

theorem Tree.Gives.unique {d : Tree} {v v' : Json} (h : d.Gives v) (h' : d.Gives v') : v = v' := by
  cases h with
  | null =>
      cases h'
      rfl
  | bool =>
      cases h'
      rfl
  | number =>
      cases h'
      rfl
  | text h =>
      cases h' with
      | text h' => rw [String.toList_inj.mp (h.unique h')]
  | list h =>
      cases h' with
      | list h' => rw [GivesItems.unique h h']
  | record h =>
      cases h' with
      | record h' => rw [GivesFields.unique h h']

theorem Tree.GivesItems.unique {ds : List Tree} {vs vs' : List Json} (h : GivesItems ds vs)
    (h' : GivesItems ds vs') : vs = vs' := by
  cases h with
  | nil =>
      cases h'
      rfl
  | cons hd h =>
      cases h' with
      | cons hd' h' => rw [Gives.unique hd hd', GivesItems.unique h h']

theorem Tree.GivesFields.unique {fs : List (List Letter × Tree)} {entries entries' : List (String × Json)}
    (h : GivesFields fs entries) (h' : GivesFields fs entries') : entries = entries' := by
  cases h with
  | nil =>
      cases h'
      rfl
  | cons hkey hd h =>
      cases h' with
      | cons hkey' hd' h' =>
          rw [String.toList_inj.mp (hkey.unique hkey'), Gives.unique hd hd', GivesFields.unique h h']

end

theorem IsReadFrom.unique {v v' : Json} {text : String} (h : v.IsReadFrom text) (h' : v'.IsReadFrom text) :
    v = v' := by
  obtain ⟨d, hd, hv⟩ := h
  obtain ⟨d', hd', hv'⟩ := h'
  exact hv.unique (hd.unique hd' ▸ hv')

theorem codeAt_control {n : Nat} (h : n < 0x20) :
    CodeAt ('0' :: '0' :: hexDigit (n / 16) :: hexDigit (n % 16) :: r) n r := by
  have hdigit : ∀ k < 16, hexValue? (hexDigit k) = some k := by decide
  have hcode := CodeAt.mk (r := r) (show hexValue? '0' = some 0 from rfl) (show hexValue? '0' = some 0 from rfl)
    (hdigit (n / 16) (by omega)) (hdigit (n % 16) (by omega))
  rwa [show ((0 * 16 + 0) * 16 + n / 16) * 16 + n % 16 = n by omega] at hcode

theorem letterAt_escapeChar (c : Char) (r : List Char) : LetterAt (escapeChar c ++ r) (.char c) r := by
  unfold escapeChar
  split_ifs with hquote hslash hfeed hreturn htab hback hform hcontrol
  · subst hquote
    exact .named (by decide)
  · subst hslash
    exact .named (by decide)
  · subst hfeed
    exact .named (by decide)
  · subst hreturn
    exact .named (by decide)
  · subst htab
    exact .named (by decide)
  · subst hback
    exact .named (by decide)
  · subst hform
    exact .named (by decide)
  · have hletter : Letter.ofCode c.toNat = .char c := by
      rw [Letter.ofCode, if_neg (by omega), Char.ofNat_toNat]
    exact hletter ▸ .code (codeAt_control hcontrol)
  · exact .plain hquote hslash (by omega)

theorem quotedAt_escaped (cs r : List Char) : QuotedAt (cs.flatMap escapeChar ++ '"' :: r) (cs.map .char) r := by
  induction cs with
  | nil => exact .nil
  | cons c cs ih =>
      rw [List.flatMap_cons, List.append_assoc]
      exact .cons (letterAt_escapeChar c _) ih

theorem toList_printText (s : String) : (printText s).toList = '"' :: (s.toList.flatMap escapeChar ++ ['"']) := by
  simp [printText]

def EndsNumber (r : List Char) : Prop := ∀ c t, r = c :: t → ¬ c.isDigit ∧ c ≠ '.' ∧ c ≠ 'e' ∧ c ≠ 'E'

theorem endsNumber_cons (h : ¬ c.isDigit ∧ c ≠ '.' ∧ c ≠ 'e' ∧ c ≠ 'E') : EndsNumber (c :: r) := by
  intro c' t hc
  rwa [← (List.cons.inj hc).1]

theorem head?_toDigits (n : Nat) (hn : n ≠ 0) : (Nat.toDigits 10 n).head? ≠ some '0' := by
  induction n using Nat.strongRecOn with
  | ind n ih =>
      by_cases hlt : n < 10
      · have hsmall : ∀ k < 10, k ≠ 0 → (Nat.toDigits 10 k).head? ≠ some '0' := by decide
        exact hsmall n hlt hn
      · rw [Nat.toDigits_of_base_le (by decide) (by omega), List.head?_append_of_ne_nil _ Nat.toDigits_ne_nil]
        exact ih (n / 10) (by omega) (by omega)

theorem wholeAt_toDigits (n : Nat) (hr : EndsNumber r) : WholeAt (Nat.toDigits 10 n ++ r) (Nat.toDigits 10 n) r := by
  have hdigit (c : Char) (t : List Char) (h : r = c :: t) : ¬ c.isDigit := (hr c t h).1
  by_cases hn : n = 0
  · rw [hn, Nat.toDigits_zero]
    exact .zero hdigit
  · refine .digits (.mk Nat.toDigits_ne_nil ?_ hdigit) (head?_toDigits n hn)
    exact fun c hc => Nat.isDigit_of_mem_toDigits (by decide) (by decide) hc

theorem numeralAt_toDigits (n : Nat) (hr : EndsNumber r) :
    NumeralAt (Nat.toDigits 10 n ++ r) ⟨false, Nat.toDigits 10 n, [], none⟩ r := by
  refine .plain (wholeAt_toDigits n hr) (.none fun t ht => ?_) (.none fun t => ⟨fun ht => ?_, fun ht => ?_⟩)
  · exact (hr _ t ht).2.1 rfl
  · exact (hr _ t ht).2.2.1 rfl
  · exact (hr _ t ht).2.2.2 rfl

theorem toList_pushn (s : String) (c : Char) (n : Nat) : (s.pushn c n).toList = s.toList ++ List.replicate n c := by
  rw [String.pushn_eq_repeat_push]
  induction n with
  | zero => simp [Nat.repeat]
  | succ n ih => rw [Nat.repeat, String.toList_push, ih, List.append_assoc, List.replicate_succ']

theorem blanks_newLine (level : Nat) (s : List Char) : Blanks ((newLine level).toList ++ s) s := by
  refine ⟨_, rfl, fun c hc => ?_⟩
  rw [newLine, String.toList_append, toList_pushn] at hc
  have hcases : c = '\n' ∨ c = ' ' := by
    simp only [List.mem_append] at hc
    rcases hc with hc | hc | hc
    · exact .inl (by simpa using hc)
    · simp at hc
    · exact .inr (List.eq_of_mem_replicate hc)
  exact hcases.symm.imp_right .inl

theorem printItems_eq (level : Nat) (vs : List Json) : printItems level vs = vs.map (printAt level) := by
  induction vs with
  | nil => rfl
  | cons v vs ih => rw [printItems, ih, List.map_cons]

theorem printFields_eq (level : Nat) (entries : List (String × Json)) :
    printFields level entries = entries.map fun e => printText e.1 ++ ": " ++ printAt level e.2 := by
  induction entries with
  | nil => rfl
  | cons e entries ih => rw [printFields, ih, List.map_cons]

def moreRows (level : Nat) (rows : List String) : List Char :=
  rows.flatMap fun row => ',' :: ((newLine level).toList ++ row.toList)

theorem toList_intercalate_rows (level : Nat) (row : String) (rows : List String) :
    (("," ++ newLine level).intercalate (row :: rows)).toList = row.toList ++ moreRows level rows := by
  induction rows generalizing row with
  | nil => simp [moreRows]
  | cons next rows ih =>
      rw [String.intercalate_cons_cons, String.toList_append, String.toList_append, String.toList_append, ih]
      simp [moreRows]

theorem toList_block_nil (opening closing : String) (level : Nat) :
    (block opening closing level []).toList = opening.toList ++ closing.toList := by
  simp [block]

theorem toList_block_cons (opening closing : String) (level : Nat) (row : String) (rows : List String) :
    (block opening closing level (row :: rows)).toList = opening.toList ++ ((newLine (level + 1)).toList ++
      (row.toList ++ (moreRows (level + 1) rows ++ ((newLine level).toList ++ closing.toList)))) := by
  simp only [block, List.isEmpty_cons, Bool.false_eq_true, if_false, String.toList_append, toList_intercalate_rows,
    List.append_assoc]

theorem endsNumber_moreRows (level : Nat) (rows : List String) :
    EndsNumber (moreRows (level + 1) rows ++ ((newLine level).toList ++ r)) := by
  cases rows with
  | nil =>
      rw [newLine, String.toList_append, List.append_assoc]
      exact endsNumber_cons (by decide)
  | cons row rows => exact endsNumber_cons (by decide)

/-- What is printed is a document, at any level, if what follows it does not go on with a number. -/
def IsPrinted (v : Json) : Prop := ∀ level r, EndsNumber r → ∃ d, TreeAt ((printAt level v).toList ++ r) d r ∧ d.Gives v

theorem exists_itemsAt {vs : List Json} (h : ∀ v ∈ vs, v.IsPrinted) (level : Nat) (r : List Char) :
    ∃ ds, ItemsAt false (moreRows (level + 1) (vs.map (printAt (level + 1))) ++ ((newLine level).toList ++ ']' :: r))
      ds r ∧ Tree.GivesItems ds vs := by
  induction vs with
  | nil => exact ⟨[], .nil (blanks_newLine level _), .nil⟩
  | cons v vs ih =>
      rw [List.forall_mem_cons] at h
      obtain ⟨ds, hds, hvs⟩ := ih h.2
      obtain ⟨d, hd, hv⟩ := h.1 (level + 1) _ (endsNumber_moreRows level (vs.map (printAt (level + 1))))
      refine ⟨d :: ds, ?_, .cons hv hvs⟩
      rw [List.map_cons, moreRows, List.flatMap_cons, List.append_assoc, List.cons_append, List.append_assoc]
      exact .cons (.next (.refl _) (blanks_newLine (level + 1) _)) hd hds

theorem isPrinted_list {vs : List Json} (h : ∀ v ∈ vs, v.IsPrinted) : (Json.list vs).IsPrinted := by
  intro level r hr
  rw [printAt, printItems_eq]
  cases vs with
  | nil =>
      rw [List.map_nil, toList_block_nil]
      exact ⟨.list [], .list (.nil (.refl _)), .list .nil⟩
  | cons v vs =>
      rw [List.forall_mem_cons] at h
      obtain ⟨ds, hds, hvs⟩ := exists_itemsAt h.2 level r
      obtain ⟨d, hd, hv⟩ := h.1 (level + 1) _ (endsNumber_moreRows level (vs.map (printAt (level + 1))))
      refine ⟨.list (d :: ds), ?_, .list (.cons hv hvs)⟩
      rw [List.map_cons, toList_block_cons]
      simp only [List.append_assoc]
      exact .list (.cons (.first (blanks_newLine (level + 1) _)) hd hds)

def fieldRow (level : Nat) (e : String × Json) : String := printText e.1 ++ ": " ++ printAt level e.2

theorem toList_fieldRow (level : Nat) (e : String × Json) : (fieldRow level e).toList =
    '"' :: (e.1.toList.flatMap escapeChar ++ '"' :: ':' :: ' ' :: (printAt level e.2).toList) := by
  simp [fieldRow, toList_printText]

theorem fieldsAt_cons {first : Bool} {w x name : List Char} {d : Tree} {fs : List (List Letter × Tree)}
    (hlead : LeadAt first s ('"' :: (name.flatMap escapeChar ++ '"' :: ':' :: ' ' :: w))) (hd : TreeAt w d x)
    (h : FieldsAt false x fs r) : FieldsAt first s ((name.map .char, d) :: fs) r :=
  .cons hlead (quotedAt_escaped name _) (.refl _) ⟨[' '], rfl, by simp⟩ hd h

theorem exists_fieldsAt {entries : List (String × Json)} (h : ∀ e ∈ entries, e.2.IsPrinted) (level : Nat)
    (r : List Char) : ∃ fs,
      FieldsAt false (moreRows (level + 1) (entries.map (fieldRow (level + 1))) ++
        ((newLine level).toList ++ '\x7d' :: r)) fs r ∧ Tree.GivesFields fs entries := by
  induction entries with
  | nil => exact ⟨[], .nil (blanks_newLine level _), .nil⟩
  | cons e entries ih =>
      rw [List.forall_mem_cons] at h
      obtain ⟨fs, hfs, hentries⟩ := ih h.2
      obtain ⟨d, hd, hv⟩ := h.1 (level + 1) _ (endsNumber_moreRows level (entries.map (fieldRow (level + 1))))
      refine ⟨(e.1.toList.map .char, d) :: fs, ?_, .cons (spells_chars _) hv hentries⟩
      rw [List.map_cons, moreRows, List.flatMap_cons, List.append_assoc, List.cons_append, List.append_assoc,
        toList_fieldRow, List.cons_append, List.append_assoc]
      exact fieldsAt_cons (.next (.refl _) (blanks_newLine (level + 1) _)) hd hfs

theorem isPrinted_record {entries : List (String × Json)} (h : ∀ e ∈ entries, e.2.IsPrinted) :
    (record entries).IsPrinted := by
  intro level r hr
  rw [printAt, printFields_eq]
  cases entries with
  | nil =>
      rw [List.map_nil, toList_block_nil]
      exact ⟨.record [], .record (.nil (.refl _)), .record .nil⟩
  | cons e entries =>
      rw [List.forall_mem_cons] at h
      obtain ⟨fs, hfs, hentries⟩ := exists_fieldsAt h.2 level r
      obtain ⟨d, hd, hv⟩ := h.1 (level + 1) _ (endsNumber_moreRows level (entries.map (fieldRow (level + 1))))
      refine ⟨.record ((e.1.toList.map .char, d) :: fs), ?_, .record (.cons (spells_chars _) hv hentries)⟩
      have hrow : (printText e.1 ++ ": " ++ printAt (level + 1) e.2).toList = (fieldRow (level + 1) e).toList := rfl
      rw [List.map_cons, toList_block_cons, hrow, toList_fieldRow]
      simp only [List.append_assoc, List.cons_append]
      exact .record (fieldsAt_cons (.first (blanks_newLine (level + 1) _)) hd hfs)

theorem IsWhole.isPrinted {v : Json} (h : v.IsWhole) : v.IsPrinted := by
  induction h with
  | null =>
      intro level r hr
      rw [printAt]
      exact ⟨.null, .null, .null⟩
  | bool b =>
      intro level r hr
      rw [printAt]
      cases b with
      | false => exact ⟨.bool false, .false, .bool false⟩
      | true => exact ⟨.bool true, .true, .bool true⟩
  | nat n =>
      intro level r hr
      have hwritten : Json.nat n = .number (String.ofList (Nat.toDigits 10 n)) := by
        rw [Json.nat, ← Nat.toList_repr, String.ofList_toList]
        rfl
      rw [hwritten, printAt, String.toList_ofList]
      exact ⟨_, .number (numeralAt_toDigits n hr), .number⟩
  | text s =>
      intro level r hr
      refine ⟨.text (s.toList.map .char), ?_, .text (spells_chars _)⟩
      rw [printAt, toList_printText, List.cons_append, List.append_assoc]
      exact .text (quotedAt_escaped _ _)
  | list h ih => exact isPrinted_list ih
  | record h ih => exact isPrinted_record ih

theorem IsWhole.isWrittenAs_print {v : Json} (h : v.IsWhole) : v.IsWrittenAs v.print := by
  obtain ⟨d, hd, hv⟩ := h.isPrinted 0 [] nofun
  rw [List.append_nil] at hd
  exact ⟨d, hd, hv⟩

theorem IsWrittenAs.isReadFrom {v : Json} {text : String} (h : v.IsWrittenAs text) : v.IsReadFrom text := by
  obtain ⟨d, hd, hv⟩ := h
  exact ⟨d, ⟨_, [], .refl _, hd, .refl _⟩, hv⟩

/-- A value can be read from what is printed of it, and no other one. -/
theorem IsWhole.isReadFrom_print_iff {v v' : Json} (h : v.IsWhole) : v'.IsReadFrom v.print ↔ v' = v := by
  have hread : v.IsReadFrom v.print := h.isWrittenAs_print.isReadFrom
  exact ⟨fun h' => h'.unique hread, fun heq => heq ▸ hread⟩

end PushAudit.Json
