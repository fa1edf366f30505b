import PushAudit.Proofs.Json.Grammar
import PushAudit.Proofs.Json.Yields

namespace PushAudit.Json

open Text (Taken)

variable {s t r : List Char} {n high : Nat} {c : Char} {l : Letter} {pairing : Pairing}

theorem readHex_iff : Yields (readHex s) n r ↔ CodeAt s n r := by
  unfold readHex
  split
  · next a b c d rest =>
      constructor
      · intro h
        split at h
        · next i j k l ha hb hc hd =>
            obtain ⟨rfl, rfl⟩ := yields_ok_iff.mp h
            exact .mk ha hb hc hd
        · exact absurd h not_yields_error
      · rintro ⟨ha, hb, hc, hd⟩
        simp only [ha, hb, hc, hd, yields_ok_iff, and_self]
  · next hs =>
      refine ⟨fun h => absurd h not_yields_error, ?_⟩
      rintro ⟨ha, hb, hc, hd⟩
      exact absurd rfl (hs _ _ _ _ _)

theorem readEscape_iff : Yields (readEscape pairing s) c r ↔
    (∃ t, s = 'u' :: t ∧ Yields (readCodeEscape pairing t) c r) ∨
      ∃ e, s = e :: r ∧ (e, c) ∈ namedEscapes := by
  unfold readEscape
  split
  · simp
  · next t => simp [namedEscapes]
  · next e t hu =>
      simp only [List.cons.injEq, and_assoc, exists_eq_left']
      split <;> simp_all [namedEscapes, eq_comm, and_comm]

/-- A character where halves of a pair have to meet. -/
inductive CharAt : List Char → Char → List Char → Prop
  | letter {s r : List Char} {c : Char} (h : LetterAt s (.char c) r) : CharAt s c r
  | pair {s t r : List Char} {high low : Nat} (hs : LetterAt s (.half high) t) (ht : LetterAt t (.half low) r)
      (hhigh : high < 0xDC00) (hlow : 0xDC00 ≤ low) : CharAt s (paired high low) r

theorem letterAt_iff : LetterAt s l r ↔
    (∃ c, s = c :: r ∧ (c ≠ '"' ∧ c ≠ '\\' ∧ 0x20 ≤ c.toNat) ∧ l = .char c) ∨
      (∃ e c, s = '\\' :: e :: r ∧ (e, c) ∈ namedEscapes ∧ l = .char c) ∨
      ∃ t n, s = '\\' :: 'u' :: t ∧ CodeAt t n r ∧ l = .ofCode n := by
  constructor
  · rintro (⟨hquote, hslash, hcontrol⟩ | h | h)
    · exact .inl ⟨_, rfl, ⟨hquote, hslash, hcontrol⟩, rfl⟩
    · exact .inr (.inl ⟨_, _, rfl, h, rfl⟩)
    · exact .inr (.inr ⟨_, _, rfl, h, rfl⟩)
  · rintro (⟨c, rfl, ⟨hquote, hslash, hcontrol⟩, rfl⟩ | ⟨e, c, rfl, h, rfl⟩ | ⟨t, n, rfl, h, rfl⟩)
    · exact .plain hquote hslash hcontrol
    · exact .named h
    · exact .code h

theorem ofCode_eq_char_iff : Letter.ofCode n = .char c ↔ ¬ (0xD800 ≤ n ∧ n ≤ 0xDFFF) ∧ Char.ofNat n = c := by
  rw [Letter.ofCode]
  split <;> simp_all

theorem ofCode_eq_half_iff : Letter.ofCode n = .half high ↔ (0xD800 ≤ n ∧ n ≤ 0xDFFF) ∧ n = high := by
  rw [Letter.ofCode]
  split
  · simp_all
  · next h => simp [h]

theorem readCodeEscape_ignored_iff : Yields (readCodeEscape .ignored s) c r ↔ ∃ n, CodeAt s n r ∧ Char.ofNat n = c := by
  refine (yields_bind_iff (P := fun n t => Char.ofNat n = c ∧ t = r) fun code => ?_).trans ?_
  · simp [Text.TakenFrom.map]
  · simp only [readHex_iff]
    constructor
    · rintro ⟨n, t, h, hc, rfl⟩
      exact ⟨n, h, hc⟩
    · rintro ⟨n, h, hc⟩
      exact ⟨n, r, h, hc, rfl⟩

theorem readLowHalf_iff : Yields (readLowHalf high s) c r ↔
    ∃ t low, s = '\\' :: 'u' :: t ∧ CodeAt t low r ∧ (0xDC00 ≤ low ∧ low ≤ 0xDFFF) ∧ paired high low = c := by
  unfold readLowHalf
  split
  · simp
  · simp
  · next t =>
      refine (yields_bind_iff (P := fun low u =>
        (0xDC00 ≤ low ∧ low ≤ 0xDFFF) ∧ paired high low = c ∧ u = r) fun low => ?_).trans ?_
      · split
        · next hlow => simp [hlow, Text.TakenFrom.map, Text.TakenFrom.mono, paired]
        · next hlow => simp [hlow]
      · simp only [readHex_iff]
        constructor
        · rintro ⟨low, u, h, hlow, hc, rfl⟩
          exact ⟨t, low, rfl, h, hlow, hc⟩
        · rintro ⟨t, low, ht, h, hlow, hc⟩
          cases ht
          exact ⟨low, r, h, hlow, hc, rfl⟩
  · next hs =>
      refine ⟨fun h => absurd h not_yields_error, ?_⟩
      rintro ⟨t, low, rfl, -⟩
      exact absurd rfl (hs t)

theorem letterAt_half_iff : LetterAt s (.half n) r ↔
    ∃ t, s = '\\' :: 'u' :: t ∧ CodeAt t n r ∧ 0xD800 ≤ n ∧ n ≤ 0xDFFF := by
  rw [letterAt_iff]
  simp only [reduceCtorEq, and_false, exists_false, false_or, eq_comm (a := Letter.half n), ofCode_eq_half_iff]
  constructor
  · rintro ⟨t, m, hs, h, hm, rfl⟩
    exact ⟨t, hs, h, hm⟩
  · rintro ⟨t, hs, h, hn⟩
    exact ⟨t, n, hs, h, hn, rfl⟩

theorem charAt_escape_iff : CharAt ('\\' :: s) c r ↔
    (∃ t, s = 'u' :: t ∧ ∃ n u, CodeAt t n u ∧
      (¬ (0xD800 ≤ n ∧ n ≤ 0xDFFF) ∧ Char.ofNat n = c ∧ u = r ∨
        (0xD800 ≤ n ∧ n < 0xDC00) ∧ Yields (readLowHalf n u) c r)) ∨
      ∃ e, s = e :: r ∧ (e, c) ∈ namedEscapes := by
  constructor
  · rintro (h | ⟨hs, ht, hhigh, hlow⟩)
    · rcases letterAt_iff.mp h with ⟨d, hs, ⟨-, hslash, -⟩, -⟩ | ⟨e, d, hs, hd, hl⟩ | ⟨t, n, hs, hn, hl⟩
      · cases hs
        contradiction
      · cases hs
        cases hl
        exact .inr ⟨e, rfl, hd⟩
      · cases hs
        obtain ⟨hscalar, rfl⟩ := ofCode_eq_char_iff.mp hl.symm
        exact .inl ⟨t, rfl, n, r, hn, .inl ⟨hscalar, rfl, rfl⟩⟩
    · obtain ⟨t, heq, hn, hge, -⟩ := letterAt_half_iff.mp hs
      cases heq
      obtain ⟨u, heq, hm, -, hle⟩ := letterAt_half_iff.mp ht
      exact .inl ⟨t, rfl, _, _, hn, .inr ⟨⟨hge, hhigh⟩, readLowHalf_iff.mpr ⟨u, _, heq, hm, ⟨hlow, hle⟩, rfl⟩⟩⟩
  · rintro (⟨t, rfl, n, u, hn, ⟨hscalar, hc, rfl⟩ | ⟨⟨hge, hhigh⟩, h⟩⟩ | ⟨e, rfl, he⟩)
    · exact .letter (ofCode_eq_char_iff.mpr ⟨hscalar, hc⟩ ▸ .code hn)
    · obtain ⟨v, low, rfl, hm, ⟨hlow, hle⟩, rfl⟩ := readLowHalf_iff.mp h
      refine .pair (letterAt_half_iff.mpr ⟨t, rfl, hn, hge, by omega⟩)
        (letterAt_half_iff.mpr ⟨v, rfl, hm, by omega, hle⟩) hhigh hlow
    · exact .letter (.named he)

theorem readEscape_checked_iff : Yields (readEscape .checked s) c r ↔ CharAt ('\\' :: s) c r := by
  rw [readEscape_iff, charAt_escape_iff]
  refine or_congr_left (exists_congr fun t => and_congr_right fun _ => ?_)
  simp only [← readHex_iff]
  refine yields_bind_iff fun code => ?_
  split
  · next h =>
      obtain ⟨hge, hle, -⟩ := h
      split
      · next hlt => simp [hge, hle, hlt]
      · next hlt => simp [hge, hle, hlt]
  · next h =>
      have hscalar : ¬ (0xD800 ≤ code.value ∧ code.value ≤ 0xDFFF) := by simpa using h
      have hhigh : ¬ (0xD800 ≤ code.value ∧ code.value < 0xDC00) := by omega
      simp [hscalar, hhigh, Text.TakenFrom.map]

def Letter.unpaired : Letter → Char
  | char c => c
  | half n => Char.ofNat n

theorem unpaired_ofCode (n : Nat) : (Letter.ofCode n).unpaired = Char.ofNat n := by
  rw [Letter.ofCode]
  split <;> rfl

/-- What one step takes from a quoted text. -/
def StepAt : Pairing → List Char → Char → List Char → Prop
  | .checked, s, c, r => CharAt s c r
  | .ignored, s, c, r => ∃ l, LetterAt s l r ∧ l.unpaired = c

theorem readEscape_iff_step : Yields (readEscape pairing s) c r ↔ StepAt pairing ('\\' :: s) c r := by
  cases pairing with
  | checked => exact readEscape_checked_iff
  | ignored =>
      simp only [readEscape_iff, readCodeEscape_ignored_iff, StepAt]
      constructor
      · rintro (⟨t, rfl, n, h, rfl⟩ | ⟨e, rfl, he⟩)
        · exact ⟨_, .code h, unpaired_ofCode n⟩
        · exact ⟨_, .named he, rfl⟩
      · rintro ⟨l, h, rfl⟩
        rcases letterAt_iff.mp h with ⟨d, hs, ⟨-, hslash, -⟩, -⟩ | ⟨e, d, hs, hd, rfl⟩ | ⟨t, n, hs, hn, rfl⟩
        · cases hs
          contradiction
        · cases hs
          exact .inr ⟨e, rfl, hd⟩
        · cases hs
          exact .inl ⟨t, rfl, n, hn, (unpaired_ofCode n).symm⟩

theorem letterAt_plain_iff (hslash : c ≠ '\\') :
    LetterAt (c :: s) l r ↔ (c ≠ '"' ∧ 0x20 ≤ c.toNat) ∧ l = .char c ∧ s = r := by
  rw [letterAt_iff]
  simp [hslash, and_assoc, and_left_comm, and_comm]

theorem stepAt_plain_iff {d : Char} (hslash : c ≠ '\\') :
    StepAt pairing (c :: s) d r ↔ (c ≠ '"' ∧ 0x20 ≤ c.toNat) ∧ c = d ∧ s = r := by
  cases pairing with
  | checked =>
      constructor
      · rintro (h | ⟨hs, -, -, -⟩)
        · obtain ⟨hplain, hl, hr⟩ := (letterAt_plain_iff hslash).mp h
          exact ⟨hplain, (Letter.char.inj hl).symm, hr⟩
        · obtain ⟨t, heq, -⟩ := letterAt_half_iff.mp hs
          exact absurd (List.cons.inj heq).1 hslash
      · rintro ⟨hplain, rfl, hr⟩
        exact .letter ((letterAt_plain_iff hslash).mpr ⟨hplain, rfl, hr⟩)
  | ignored =>
      simp only [StepAt, letterAt_plain_iff hslash]
      constructor
      · rintro ⟨l, ⟨hplain, rfl, hr⟩, hd⟩
        exact ⟨hplain, hd, hr⟩
      · rintro ⟨hplain, hd, hr⟩
        exact ⟨_, ⟨hplain, rfl, hr⟩, hd⟩

theorem not_stepAt_nil : ¬ StepAt pairing [] c r := by
  cases pairing with
  | checked => rintro (h | ⟨hs, -, -, -⟩) <;> simp_all [letterAt_iff]
  | ignored =>
      rintro ⟨l, h, -⟩
      simp [letterAt_iff] at h

theorem upToQuote_step_nil_iff {cs : List Char} :
    UpToQuote (StepAt pairing) ('"' :: s) cs r ↔ cs = [] ∧ s = r := by
  constructor
  · rintro (_ | ⟨hc, -⟩)
    · exact ⟨rfl, rfl⟩
    · exact absurd rfl ((stepAt_plain_iff (by decide)).mp hc).1.1
  · rintro ⟨rfl, rfl⟩
    exact .nil

section

variable {α : Type} {piece : List Char → α → List Char → Prop} {a : α} {as : List α}

theorem upToQuote_iff_of_step (hs : s.head? ≠ some '"') (hstep : ∀ b u, piece s b u ↔ a = b ∧ t = u) :
    UpToQuote piece s as r ↔ ∃ bs, UpToQuote piece t bs r ∧ a :: bs = as := by
  constructor
  · rintro (_ | ⟨ha, h⟩)
    · exact absurd rfl hs
    · obtain ⟨rfl, rfl⟩ := (hstep _ _).mp ha
      exact ⟨_, h, rfl⟩
  · rintro ⟨bs, h, rfl⟩
    exact .cons ((hstep a t).mpr ⟨rfl, rfl⟩) h

theorem not_upToQuote_of_no_step (hs : s.head? ≠ some '"') (hstep : ∀ b u, ¬ piece s b u) :
    ¬ UpToQuote piece s as r := by
  rintro (_ | ⟨ha, -⟩)
  · exact hs rfl
  · exact hstep _ _ ha

end

theorem readQuotedFrom_iff {m : Nat} {read : List Char} {text : String} (h : s.length ≤ m) :
    Yields (readQuotedFrom pairing read s h) text r ↔
      ∃ cs, UpToQuote (StepAt pairing) s cs r ∧ String.ofList (read.reverse ++ cs) = text := by
  -- a step that takes a character moves it from the grammar's list to the ones that have been read
  have hmove (c : Char) (read t : List Char) :
      (∃ cs, (∃ ds, UpToQuote (StepAt pairing) t ds r ∧ c :: ds = cs) ∧ String.ofList (read.reverse ++ cs) = text) ↔
        ∃ cs, UpToQuote (StepAt pairing) t cs r ∧ String.ofList ((c :: read).reverse ++ cs) = text := by
    simp only [List.reverse_cons, List.append_assoc, List.singleton_append]
    exact ⟨fun ⟨_, ⟨ds, hds, rfl⟩, h⟩ => ⟨ds, hds, h⟩, fun ⟨ds, hds, h⟩ => ⟨_, ⟨ds, hds, rfl⟩, h⟩⟩
  fun_induction readQuotedFrom pairing read s h with
  | case1 read =>
      have hno (cs : List Char) : ¬ UpToQuote (StepAt pairing) [] cs r :=
        not_upToQuote_of_no_step nofun fun _ _ => not_stepAt_nil
      simp [hno]
  | case2 read rest h =>
      simp only [yields_ok_iff, upToQuote_step_nil_iff]
      constructor
      · rintro ⟨rfl, rfl⟩
        exact ⟨[], ⟨rfl, rfl⟩, by rw [List.append_nil]⟩
      · rintro ⟨_, ⟨rfl, rfl⟩, rfl⟩
        rw [List.append_nil]
        exact ⟨rfl, rfl⟩
  | case3 read rest h e he =>
      have hno (cs : List Char) : ¬ UpToQuote (StepAt pairing) ('\\' :: rest) cs r :=
        not_upToQuote_of_no_step (by simp) fun _ _ hb => not_yields_error (he ▸ readEscape_iff_step.mpr hb)
      simp [hno]
  | case4 read rest h c hc _ ih =>
      have hstep (cs : List Char) : UpToQuote (StepAt pairing) ('\\' :: rest) cs r ↔
          ∃ ds, UpToQuote (StepAt pairing) c.rest ds r ∧ c.value :: ds = cs :=
        upToQuote_iff_of_step (by simp) fun b u => by rw [← readEscape_iff_step, hc, yields_ok_iff]
      simp only [hstep]
      exact ih.trans (hmove c.value read c.rest).symm
  | case5 read c rest h hquote hslash hcontrol =>
      have hno (cs : List Char) : ¬ UpToQuote (StepAt pairing) (c :: rest) cs r :=
        not_upToQuote_of_no_step (by simpa using hquote) fun _ _ hb =>
          absurd ((stepAt_plain_iff hslash).mp hb).1.2 (by omega)
      simp [hno]
  | case6 read c rest h hquote hslash hcontrol _ ih =>
      have hstep (cs : List Char) : UpToQuote (StepAt pairing) (c :: rest) cs r ↔
          ∃ ds, UpToQuote (StepAt pairing) rest ds r ∧ c :: ds = cs :=
        upToQuote_iff_of_step (by simpa using hquote) fun b u => by
          rw [stepAt_plain_iff hslash, and_iff_right ⟨hquote, by omega⟩]
      simp only [hstep]
      exact ih.trans (hmove c read rest).symm

theorem upToQuote_checked_iff {cs : List Char} :
    UpToQuote (StepAt .checked) s cs r ↔ ∃ ls, QuotedAt s ls r ∧ Spells ls cs := by
  constructor
  · intro h
    induction h with
    | nil => exact ⟨[], .nil, .nil⟩
    | cons hc _ ih =>
        obtain ⟨ls, hls, hcs⟩ := ih
        cases hc with
        | letter hc => exact ⟨_, .cons hc hls, .char hcs⟩
        | pair hs ht hhigh hlow => exact ⟨_, .cons hs (.cons ht hls), .pair hhigh hlow hcs⟩
  · rintro ⟨ls, hls, hcs⟩
    induction hcs generalizing s with
    | nil =>
        cases hls
        exact .nil
    | char _ ih =>
        cases hls with
        | cons hl hls => exact .cons (.letter hl) (ih hls)
    | pair hhigh hlow _ ih =>
        cases hls with
        | cons hs hls =>
            cases hls with
            | cons ht hls => exact .cons (.pair hs ht hhigh hlow) (ih hls)

theorem exists_upToQuote_ignored_iff :
    (∃ cs, UpToQuote (StepAt .ignored) s cs r) ↔ ∃ ls, QuotedAt s ls r := by
  constructor
  · rintro ⟨cs, h⟩
    induction h with
    | nil => exact ⟨[], .nil⟩
    | cons hc _ ih =>
        obtain ⟨l, hl, -⟩ := hc
        obtain ⟨ls, hls⟩ := ih
        exact ⟨l :: ls, .cons hl hls⟩
  · rintro ⟨ls, h⟩
    induction h with
    | nil => exact ⟨[], .nil⟩
    | cons hl _ ih =>
        obtain ⟨cs, hcs⟩ := ih
        exact ⟨_ :: cs, .cons ⟨_, hl, rfl⟩ hcs⟩

theorem readQuoted_checked_iff {text : String} :
    Yields (readQuoted .checked s) text r ↔ ∃ ls, QuotedAt s ls r ∧ Spells ls text.toList := by
  simp only [readQuoted, readQuotedFrom_iff, List.reverse_nil, List.nil_append, upToQuote_checked_iff]
  constructor
  · rintro ⟨cs, ⟨ls, hls, hcs⟩, rfl⟩
    exact ⟨ls, hls, by rwa [String.toList_ofList]⟩
  · rintro ⟨ls, hls, hcs⟩
    exact ⟨_, ⟨ls, hls, hcs⟩, String.ofList_toList⟩

theorem readQuoted_ignored_iff : (∃ text, Yields (readQuoted .ignored s) text r) ↔ ∃ ls, QuotedAt s ls r := by
  simp only [readQuoted, readQuotedFrom_iff, ← exists_upToQuote_ignored_iff]
  exact ⟨fun ⟨_, cs, h, _⟩ => ⟨cs, h⟩, fun ⟨cs, h⟩ => ⟨_, cs, h, rfl⟩⟩

theorem quotedAt_chars (cs : List Char) {r : List Char} (h : ∀ c ∈ cs, c ≠ '"' ∧ c ≠ '\\' ∧ 0x20 ≤ c.toNat) :
    QuotedAt (cs ++ '"' :: r) (cs.map .char) r := by
  induction cs with
  | nil => exact .nil
  | cons c cs ih =>
      obtain ⟨hquote, hslash, hcontrol⟩ := h c List.mem_cons_self
      exact .cons (.plain hquote hslash hcontrol) (ih fun d hd => h d (List.mem_cons_of_mem c hd))

theorem spells_chars (cs : List Char) : Spells (cs.map .char) cs := by
  induction cs with
  | nil => exact .nil
  | cons c cs ih => exact .char ih

end PushAudit.Json
