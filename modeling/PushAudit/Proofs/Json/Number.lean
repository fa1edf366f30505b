import PushAudit.Proofs.Json.Grammar
import PushAudit.Proofs.Json.Yields

namespace PushAudit.Json

variable {s t r ds : List Char} {c : Char}

theorem digitsAt_iff :
    DigitsAt s ds r ↔ (Numeral.digits s).isEmpty = false ∧ Numeral.digits s = ds ∧ Numeral.afterDigits s = r := by
  constructor
  · rintro ⟨hne, hds, hr⟩
    have hd : Numeral.digits r = [] ∧ Numeral.afterDigits r = r := by
      cases r with
      | nil => exact ⟨rfl, rfl⟩
      | cons c r => simp [Numeral.digits, Numeral.afterDigits, hr c r rfl]
    have htake : Numeral.digits (ds ++ r) = ds := by
      rw [Numeral.digits, List.takeWhile_append_of_pos hds]
      exact (congrArg (ds ++ ·) hd.1).trans (List.append_nil ds)
    have hdrop : Numeral.afterDigits (ds ++ r) = r := by
      rw [Numeral.afterDigits, List.dropWhile_append_of_pos hds]
      exact hd.2
    exact ⟨by simpa [htake] using hne, htake, hdrop⟩
  · rintro ⟨hne, rfl, rfl⟩
    have hs : Numeral.digits s ++ Numeral.afterDigits s = s := List.takeWhile_append_dropWhile
    have h : DigitsAt (Numeral.digits s ++ Numeral.afterDigits s) (Numeral.digits s) (Numeral.afterDigits s) := by
      refine .mk (by simpa using hne) (fun c hc => List.all_eq_true.mp List.all_takeWhile c hc) ?_
      intro c t hct hc
      have hd := List.head?_dropWhile_not Char.isDigit s
      rw [show s.dropWhile Char.isDigit = c :: t from hct] at hd
      simp [hc] at hd
    rwa [hs] at h

theorem DigitsAt.head (h : DigitsAt s ds r) : ∃ c t, s = c :: t ∧ c.isDigit ∧ ds.head? = some c := by
  obtain ⟨hne, hds, -⟩ := h
  cases ds with
  | nil => contradiction
  | cons c ds => exact ⟨c, ds ++ r, rfl, hds c List.mem_cons_self, rfl⟩

theorem WholeAt.head (h : WholeAt s ds r) : ∃ c t, s = c :: t ∧ c.isDigit := by
  cases h with
  | zero => exact ⟨'0', r, rfl, rfl⟩
  | digits h _ =>
      obtain ⟨c, t, hs, hc, -⟩ := h.head
      exact ⟨c, t, hs, hc⟩

namespace Numeral

theorem wholeAt_zero_iff : WholeAt ('0' :: s) ds r ↔ digits s = [] ∧ ds = ['0'] ∧ s = r := by
  constructor
  · intro h
    cases h with
    | zero hr =>
        refine ⟨?_, rfl, rfl⟩
        cases s with
        | nil => rfl
        | cons c t => simp [digits, hr c t rfl]
    | digits h hzero =>
        obtain ⟨c, u, hct, -, hhead⟩ := h.head
        cases hct
        contradiction
  · rintro ⟨hd, rfl, rfl⟩
    refine .zero fun c u hct hc => ?_
    subst hct
    simp [digits, hc] at hd

theorem scanWhole_iff : Scans (scanWhole s) ds r ↔ WholeAt s ds r := by
  unfold scanWhole
  split
  · constructor
    · exact fun h => absurd h not_scans_error
    · intro h
      obtain ⟨c, t, ht, -⟩ := h.head
      contradiction
  · next t =>
      rw [wholeAt_zero_iff]
      split
      · next hd => simp [scans_ok_iff, List.isEmpty_iff.mp hd, eq_comm]
      · next hd =>
          have hne : digits t ≠ [] := by simpa using hd
          simp [hne]
  · next c t hc0 =>
      by_cases hc : c.isDigit
      · have hdigits : digits (c :: t) = c :: digits t ∧ afterDigits (c :: t) = afterDigits t := by
          simp [digits, afterDigits, hc]
        rw [if_pos hc, scans_ok_iff]
        constructor
        · rintro ⟨rfl, rfl⟩
          exact .digits (digitsAt_iff.mpr ⟨by simp [hdigits.1], hdigits.1, hdigits.2⟩) (by simpa using hc0)
        · intro h
          cases h with
          | zero => exact (hc0 rfl).elim
          | digits h =>
              obtain ⟨-, rfl, rfl⟩ := digitsAt_iff.mp h
              exact ⟨hdigits.1.symm, hdigits.2.symm⟩
      · rw [if_neg hc]
        refine ⟨fun h => absurd h not_scans_error, fun h => ?_⟩
        obtain ⟨d, u, hct, hd⟩ := h.head
        cases hct
        contradiction

theorem scanDecimals_iff : Scans (scanDecimals s) ds r ↔ DecimalsAt s ds r := by
  unfold scanDecimals
  split
  · next t =>
      split
      · next hd =>
          refine ⟨fun h => absurd h not_scans_error, fun h => ?_⟩
          cases h with
          | none hr => exact (hr t rfl).elim
          | some h => simp [(digitsAt_iff.mp h).1] at hd
      · next hd =>
          rw [scans_ok_iff]
          constructor
          · rintro ⟨rfl, rfl⟩
            exact .some (digitsAt_iff.mpr ⟨by simpa using hd, rfl, rfl⟩)
          · intro h
            cases h with
            | none hr => exact (hr t rfl).elim
            | some h => exact (digitsAt_iff.mp h).2
  · next hpoint =>
      rw [scans_ok_iff]
      constructor
      · rintro ⟨rfl, rfl⟩
        exact .none hpoint
      · intro h
        cases h with
        | none hr => exact ⟨rfl, rfl⟩
        | some h => exact (hpoint _ rfl).elim

section Power

variable {negative : Bool} {power : Option (Bool × List Char)} {c : Char}

theorem signAt_minus_iff : SignAt ('-' :: s) negative r ↔ negative = true ∧ s = r := by
  constructor
  · rintro (_ | _ | hr)
    · exact ⟨rfl, rfl⟩
    · exact absurd rfl (hr s).1
  · rintro ⟨rfl, rfl⟩
    exact .minus

theorem signAt_plus_iff : SignAt ('+' :: s) negative r ↔ negative = false ∧ s = r := by
  constructor
  · rintro (_ | _ | hr)
    · exact ⟨rfl, rfl⟩
    · exact absurd rfl (hr s).2
  · rintro ⟨rfl, rfl⟩
    exact .plus

theorem signAt_iff_of_ne (hminus : ∀ t, s ≠ '-' :: t) (hplus : ∀ t, s ≠ '+' :: t) :
    SignAt s negative r ↔ negative = false ∧ s = r := by
  constructor
  · rintro (_ | _ | hr)
    · exact absurd rfl (hminus r)
    · exact absurd rfl (hplus r)
    · exact ⟨rfl, rfl⟩
  · rintro ⟨rfl, rfl⟩
    exact .none fun t => ⟨hminus t, hplus t⟩

theorem powerAt_cons_iff (hc : c = 'e' ∨ c = 'E') :
    PowerAt (c :: s) power r ↔
      ∃ negative t, SignAt s negative t ∧ ∃ ds, DigitsAt t ds r ∧ power = some (negative, ds) := by
  constructor
  · rintro (hr | ⟨-, hs, h⟩)
    · rcases hc with rfl | rfl
      · exact absurd rfl (hr s).1
      · exact absurd rfl (hr s).2
    · exact ⟨_, _, hs, _, h, rfl⟩
  · rintro ⟨negative, t, hs, ds, h, rfl⟩
    exact .some hc hs h

theorem powerAt_iff_of_ne (hs : ∀ t, s ≠ 'e' :: t ∧ s ≠ 'E' :: t) :
    PowerAt s power r ↔ power = none ∧ s = r := by
  constructor
  · rintro (_ | ⟨he, -, -⟩)
    · exact ⟨rfl, rfl⟩
    · rcases he with rfl | rfl
      · exact absurd rfl (hs _).1
      · exact absurd rfl (hs _).2
  · rintro ⟨rfl, rfl⟩
    exact .none hs

theorem scans_digits_iff {p : List Char → Prop} (hp : p (afterDigits s)) :
    Scans (if (digits s).isEmpty then .error (.at s) else .ok (some (negative, digits s), ⟨afterDigits s, hp⟩) :
      Except Fault (Option (Bool × List Char) × { t : List Char // p t })) power r ↔
      ∃ ds, DigitsAt s ds r ∧ power = some (negative, ds) := by
  simp only [digitsAt_iff]
  split
  · next hd => simp [not_scans_error, hd]
  · next hd =>
      rw [scans_ok_iff]
      constructor
      · rintro ⟨rfl, rfl⟩
        exact ⟨_, ⟨by simpa using hd, rfl, rfl⟩, rfl⟩
      · rintro ⟨ds, ⟨-, rfl, rfl⟩, rfl⟩
        exact ⟨rfl, rfl⟩

theorem scanPower_iff : Scans (scanPower s) power r ↔ PowerAt s power r := by
  unfold scanPower
  split
  · next c t =>
      split
      · next he =>
          rw [powerAt_cons_iff he]
          split
          · simp only [scans_digits_iff, signAt_minus_iff]
            simp
          · simp only [scans_digits_iff, signAt_plus_iff]
            simp
          · next hminus hplus =>
              simp only [scans_digits_iff, signAt_iff_of_ne hminus hplus]
              simp
      · next he =>
          obtain ⟨hsmall, hbig⟩ := not_or.mp he
          rw [scans_ok_iff, powerAt_iff_of_ne fun u => ⟨by simp [hsmall], by simp [hbig]⟩, eq_comm]
  · rw [scans_ok_iff, powerAt_iff_of_ne (by simp), eq_comm]

end Power

theorem scanFrom_iff {negative : Bool} {n : Numeral} : Scans (scanFrom negative s) n r ↔
    ∃ whole t, WholeAt s whole t ∧ ∃ decimals u, DecimalsAt t decimals u ∧ ∃ power v, PowerAt u power v ∧
      ⟨negative, whole, decimals, power⟩ = n ∧ v = r := by
  simp only [← scanWhole_iff, ← scanDecimals_iff, ← scanPower_iff]
  refine scans_bind_iff fun whole t _ => ?_
  refine scans_bind_iff fun decimals u _ => ?_
  exact scans_bind_iff fun power v _ => scans_ok_iff

theorem scan_iff {n : Numeral} : Scans (scan s) n r ↔ NumeralAt s n r := by
  unfold scan
  split
  · next t =>
      refine (scans_bind_iff (P := fun m u => m = n ∧ u = r) ?_).trans ?_
      · exact fun m u _ => scans_ok_iff
      simp only [scanFrom_iff]
      constructor
      · rintro ⟨m, u, ⟨whole, t, hw, decimals, u, hd, power, v, hp, rfl, rfl⟩, rfl, rfl⟩
        exact .minus hw hd hp
      · intro h
        cases h with
        | plain hw =>
            obtain ⟨c, u, hc, hdigit⟩ := hw.head
            cases hc
            contradiction
        | minus hw hd hp => exact ⟨_, _, ⟨_, _, hw, _, _, hd, _, _, hp, rfl, rfl⟩, rfl, rfl⟩
  · next hminus =>
      rw [scanFrom_iff]
      constructor
      · rintro ⟨whole, t, hw, decimals, u, hd, power, v, hp, rfl, rfl⟩
        exact .plain hw hd hp
      · intro h
        cases h with
        | plain hw hd hp => exact ⟨_, _, hw, _, _, hd, _, _, hp, rfl, rfl⟩
        | minus => exact absurd rfl (hminus _)

end Numeral

theorem NumeralAt.head {n : Numeral} (h : NumeralAt s n r) : ∃ c t, s = c :: t ∧ (c = '-' ∨ c.isDigit) := by
  cases h with
  | plain hw =>
      obtain ⟨c, t, hs, hc⟩ := hw.head
      exact ⟨c, t, hs, .inr hc⟩
  | minus => exact ⟨'-', _, rfl, .inl rfl⟩

end PushAudit.Json
