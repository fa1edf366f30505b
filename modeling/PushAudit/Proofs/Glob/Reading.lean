import PushAudit.Proofs.Glob.Root

namespace PushAudit.Glob

open PushAudit.Path (slashed)

variable {ts : List Token} {step : Step} {steps : List Step} {name : String}

theorem suffix_of_splitAtBracket {s a b : List Char} (h : splitAtBracket s = some (a, b)) : b <:+ s := by
  induction s generalizing a with
  | nil => contradiction
  | cons c s ih =>
      rw [splitAtBracket] at h
      split at h
      · cases h
        exact List.suffix_cons _ _
      · obtain ⟨⟨a', b'⟩, hs, heq⟩ := Option.map_eq_some_iff.mp h
        cases heq
        exact (ih hs).trans (List.suffix_cons c s)

theorem of_set? {s after : List Char} {t : Token} (h : set? s = some (t, after)) :
    (∀ c, t ≠ .char c) ∧ after <:+ s := by
  unfold set? at h
  split at h
  · obtain ⟨⟨a, b⟩, hs, heq⟩ := Option.map_eq_some_iff.mp h
    cases heq
    exact ⟨nofun, (suffix_of_splitAtBracket hs).trans ((List.suffix_cons _ _).trans (List.suffix_cons _ _))⟩
  · contradiction
  · obtain ⟨⟨a, b⟩, hs, heq⟩ := Option.map_eq_some_iff.mp h
    cases heq
    exact ⟨nofun, (suffix_of_splitAtBracket hs).trans (List.suffix_cons _ _)⟩
  · contradiction

theorem exists_of_map_cons {t : Token} {c : Char} {read : Except Error (List Token)}
    (h : read.map (t :: ·) = .ok ts) (hc : .char c ∈ ts) : t = .char c ∨ ∃ rest, read = .ok rest ∧ .char c ∈ rest := by
  cases read with
  | error why => contradiction
  | ok rest =>
      cases h
      exact (List.mem_cons.mp hc).imp Eq.symm fun hc => ⟨rest, rfl, hc⟩

theorem mem_of_char_mem_tokensFrom {position : Nat} {previous : Option Char} {s : List Char} {c : Char}
    (h : tokensFrom position previous s = .ok ts) (hc : .char c ∈ ts) : c ∈ s := by
  fun_induction tokensFrom position previous s generalizing ts with
  | case1 =>
      cases h
      contradiction
  | case2 position previous rest ih | case8 position previous rest hno hno' ih =>
      obtain ⟨ts, hrest, hc⟩ := (exists_of_map_cons h hc).resolve_left (by simp)
      exact .tail _ (ih hrest hc)
  | case3 | case6 | case7 | case9 => contradiction
  | case4 =>
      cases h
      simp at hc
  | case5 position previous hstart rest hno ih =>
      obtain ⟨ts, hrest, hc⟩ := (exists_of_map_cons h hc).resolve_left (by simp)
      exact .tail _ (.tail _ (.tail _ (ih hrest hc)))
  | case10 position previous rest t after hset ih =>
      obtain ⟨hchar, hafter⟩ := of_set? hset
      obtain ⟨ts, hrest, hc⟩ := (exists_of_map_cons h hc).resolve_left (hchar c)
      exact .tail _ (hafter.subset (ih hrest hc))
  | case11 position previous d rest hany hdepth hdepth' hrun hset ih =>
      rcases exists_of_map_cons h hc with heq | ⟨ts, hrest, hc⟩
      · cases heq
        exact .head _
      · exact .tail _ (ih hrest hc)

theorem char_mem_of_mapM_char? {cs : List Char} (h : ts.mapM Token.char? = some cs) {c : Char} (hc : c ∈ cs) :
    .char c ∈ ts := by
  induction ts generalizing cs with
  | nil =>
      cases h
      contradiction
  | cons t ts ih =>
      rw [List.mapM_cons] at h
      obtain ⟨d, hd, h⟩ := Option.bind_eq_some_iff.mp h
      obtain ⟨cs, hcs, h⟩ := Option.bind_eq_some_iff.mp h
      cases h
      rcases List.mem_cons.mp hc with rfl | hc
      · cases t with
        | char e => exact Option.some.inj hd ▸ .head _
        | _ => contradiction
      · exact .tail _ (ih hcs hc)

theorem mem_of_mem_dedupDepth (h : step ∈ dedupDepth steps) : step ∈ steps := by
  fun_induction dedupDepth steps with
  | case1 rest ih => exact .tail _ (ih h)
  | case2 s rest hno ih =>
      rcases List.mem_cons.mp h with rfl | h
      · exact .head _
      · exact .tail _ (ih h)
  | case3 => contradiction

theorem not_mem_of_ofTokens {s : List Char} (hs : '/' ∉ s) (hread : tokens s = .ok ts)
    (h : Step.ofTokens ts = .name name) : '/' ∉ name.toList := by
  rw [Step.ofTokens] at h
  split at h
  · contradiction
  · split at h
    · next cs hcs =>
        cases h
        rw [String.toList_ofList]
        exact fun hmem => hs (mem_of_char_mem_tokensFrom hread (char_mem_of_mapM_char? hcs hmem))
    · contradiction

theorem exists_of_mem_mapM {α β ε : Type} {f : α → Except ε β} {as : List α} {bs : List β} {b : β}
    (h : as.mapM f = .ok bs) (hb : b ∈ bs) : ∃ a ∈ as, f a = .ok b := by
  induction as generalizing bs with
  | nil =>
      cases h
      contradiction
  | cons a as ih =>
      rw [List.mapM_cons] at h
      cases hfirst : f a with
      | error why =>
          rw [hfirst] at h
          contradiction
      | ok b' =>
          cases hrest : as.mapM f with
          | error why =>
              rw [hfirst, hrest] at h
              contradiction
          | ok bs' =>
              rw [hfirst, hrest] at h
              cases h
              rcases List.mem_cons.mp hb with rfl | hb
              · exact ⟨a, .head _, hfirst⟩
              · obtain ⟨a', ha', hf⟩ := ih hrest hb
                exact ⟨a', .tail _ ha', hf⟩

theorem not_mem_of_mem_componentsOf {s t : List Char} (h : s ∈ componentsOf t) : '/' ∉ s := by
  rw [componentsOf] at h
  split at h
  · exact Text.not_mem_of_mem_splitOn (List.dropLast_subset _ h)
  · exact Text.not_mem_of_mem_splitOn h

theorem not_mem_of_read {text : String} {g : Pattern} (h : Pattern.read text = .ok g) (hname : .name name ∈ g.steps) :
    '/' ∉ name.toList := by
  simp only [Pattern.read, bind, Except.bind] at h
  split at h
  · contradiction
  · split at h
    · contradiction
    · next steps hsteps =>
        cases h
        have heither {c : Prop} [Decidable c] (h : .name name ∈ if c then [.name ""] else steps) :
            Step.name name ∈ [.name ""] ∨ .name name ∈ steps := by
          split at h
          · exact .inl h
          · exact .inr h
        rcases heither (mem_of_mem_dedupDepth hname) with hmem | hmem
        · cases List.mem_singleton.mp hmem
          decide
        · obtain ⟨s, hs, hstep⟩ := exists_of_mem_mapM hsteps hmem
          cases hread : tokens s with
          | error why =>
              rw [hread] at hstep
              contradiction
          | ok ts =>
              rw [hread] at hstep
              exact not_mem_of_ofTokens (not_mem_of_mem_componentsOf hs) hread (Except.ok.inj hstep)

theorem map_eq_ok_of {read read' : Except Error (List Token)} {f : List Token → List Token}
    (hread : ∀ ts, read = .ok ts → read' = .ok ts) (h : read.map f = .ok ts) : read'.map f = .ok ts := by
  cases read with
  | error why => contradiction
  | ok rest =>
      rw [hread rest rfl]
      exact h

/-- What a text is read as does not depend on its place, as long as both places begin a component or
neither does. -/
theorem tokensFrom_congr {i j : Nat} {previous previous' : Option Char} {s : List Char}
    (hprevious : (previous.isNone ∨ previous = some '/') ↔ (previous'.isNone ∨ previous' = some '/'))
    (h : tokensFrom i previous s = .ok ts) : tokensFrom j previous' s = .ok ts := by
  fun_induction tokensFrom i previous s generalizing ts j previous' with
  | case1 => simpa [tokensFrom] using h
  | case2 i previous rest ih =>
      rw [tokensFrom]
      exact map_eq_ok_of (fun ts hrest => ih Iff.rfl hrest) h
  | case3 | case6 | case7 | case9 => contradiction
  | case4 i previous hstart hno =>
      rw [tokensFrom, if_pos (hprevious.mp hstart)]
      exact h
  | case5 i previous hstart rest hno ih =>
      rw [tokensFrom, if_pos (hprevious.mp hstart)]
      exact map_eq_ok_of (fun ts hrest => ih Iff.rfl hrest) h
  | case8 i previous rest hno hno' ih =>
      rw [tokensFrom]
      · exact map_eq_ok_of (fun ts hrest => ih Iff.rfl hrest) h
      · exact hno
      · exact hno'
  | case10 i previous rest t after hset ih =>
      rw [tokensFrom]
      split
      · next hnone =>
          rw [hset] at hnone
          contradiction
      · next t' after' hset' =>
          cases hset.symm.trans hset'
          exact map_eq_ok_of (fun ts hrest => ih Iff.rfl hrest) h
  | case11 i previous c rest hany hdepth hdepth' hrun hset ih =>
      rw [tokensFrom]
      · exact map_eq_ok_of (fun ts hrest => ih Iff.rfl hrest) h
      all_goals assumption

/-- A text without wildcards is read character by character, and then what comes after it. -/
theorem tokensFrom_literal_append {s t : List Char} (hs : IsLiteral s) (i : Nat) (previous : Option Char) :
    tokensFrom i previous (s ++ t) =
      (tokensFrom (i + s.length) (s.getLast?.or previous) t).map (s.map .char ++ ·) := by
  induction s generalizing i previous with
  | nil =>
      rw [List.nil_append, List.getLast?_nil, Option.none_or, List.length_nil, Nat.add_zero]
      cases tokensFrom i previous t <;> rfl
  | cons c s ih =>
      have hc : c ≠ '*' ∧ c ≠ '?' ∧ c ≠ '[' :=
        ⟨fun h => hs.noRun (h ▸ .head _), fun h => hs.noAny (h ▸ .head _), fun h => hs.noSet (h ▸ .head _)⟩
      have hrest : IsLiteral s := hs.of_infix (List.suffix_cons c s).isInfix
      have hlast : s.getLast?.or (some c) = (c :: s).getLast?.or previous := by
        rw [List.getLast?_cons]
        cases s.getLast? <;> rfl
      have hstep : tokensFrom i previous (c :: (s ++ t)) =
          (tokensFrom (i + 1) (some c) (s ++ t)).map (.char c :: ·) := by
        rw [tokensFrom] <;> simp [hc]
      rw [List.cons_append, hstep, ih hrest, hlast, List.length_cons, Nat.add_right_comm, Nat.add_assoc]
      cases tokensFrom (i + (s.length + 1)) ((c :: s).getLast?.or previous) t <;> rfl

def Reads (s : List Char) : Prop := ∃ ts, tokens s = .ok ts

theorem reads_of_isLiteral {s : List Char} (hs : IsLiteral s) : Reads s := by
  refine ⟨s.map .char, ?_⟩
  have h := tokensFrom_literal_append (t := []) hs 0 none
  rw [List.append_nil] at h
  rw [tokens, h]
  simp [tokensFrom, Except.map]

theorem reads_slashed_append_iff {s t : List Char} (hs : IsLiteral s) : Reads (slashed s ++ t) ↔ Reads t := by
  have hprevious : ((slashed s).getLast?.or none).isNone ∨ (slashed s).getLast?.or none = some '/' := by
    rcases Path.slashed_eq_nil_or s with h | h <;> simp [h]
  have hstart : ((slashed s).getLast?.or none).isNone ∨ (slashed s).getLast?.or none = some '/' ↔
      (none : Option Char).isNone ∨ none = some '/' := iff_of_true hprevious (.inl rfl)
  rw [Reads, Reads, tokens, tokens, tokensFrom_literal_append hs.slashed]
  constructor
  · rintro ⟨ts, h⟩
    cases hrest : tokensFrom (0 + (slashed s).length) ((slashed s).getLast?.or none) t with
    | error why =>
        rw [hrest] at h
        contradiction
    | ok rest => exact ⟨rest, tokensFrom_congr hstart hrest⟩
  · rintro ⟨ts, h⟩
    rw [tokensFrom_congr hstart.symm h]
    exact ⟨_, rfl⟩

theorem mapM_ok_iff {α β ε : Type} {f : α → Except ε β} {as : List α} :
    (∃ bs, as.mapM f = .ok bs) ↔ ∀ a ∈ as, ∃ b, f a = .ok b := by
  induction as with
  | nil => exact ⟨fun _ => nofun, fun _ => ⟨[], rfl⟩⟩
  | cons a as ih =>
      rw [List.mapM_cons, List.forall_mem_cons, ← ih]
      cases f a with
      | error why => simp [bind, Except.bind]
      | ok b => cases as.mapM f <;> simp [bind, Except.bind, pure, Except.pure]

/-- A pattern can be read if it can as a whole and each of its components can. -/
theorem read_ok_iff (p : Path) : (∃ g, Pattern.read p.text = .ok g) ↔
    Reads p.text.toList ∧ ∀ s ∈ componentsOf p.inner, Reads s := by
  have habsolute : (p.text.toList.head? == some '/') = p.isAbsolute := by
    rw [Bool.eq_iff_iff, beq_iff_eq, Path.isAbsolute_iff]
  have hinner : (if p.isAbsolute then p.text.toList.drop 1 else p.text.toList) = p.inner := rfl
  have hcomponents : (∀ s ∈ componentsOf p.inner, Reads s) ↔
      ∃ steps, ((componentsOf p.inner).mapM fun s => (tokens s).map Step.ofTokens) = .ok steps := by
    rw [mapM_ok_iff]
    refine forall₂_congr fun s _ => ?_
    rw [Reads]
    cases tokens s <;> simp [Except.map]
  rw [hcomponents]
  simp only [Reads, Pattern.read, habsolute, hinner, bind, Except.bind]
  cases tokens p.text.toList with
  | error why => simp
  | ok ts =>
      cases (componentsOf p.inner).mapM fun s => (tokens s).map Step.ofTokens with
      | error why => simp
      | ok steps => exact iff_of_true ⟨_, rfl⟩ ⟨⟨ts, rfl⟩, ⟨steps, rfl⟩⟩

theorem read_join_ok_iff {root : Path} (hroot : IsLiteral root.text.toList) (pattern : String) :
    (∃ g, Pattern.read (root.join ⟨pattern⟩).text = .ok g) ↔ ∃ g, Pattern.read pattern = .ok g := by
  by_cases habsolute : Path.isAbsolute ⟨pattern⟩
  · rw [Path.join, if_pos habsolute]
  · by_cases hempty : root.text = ""
    · rw [Path.join, if_neg habsolute, if_pos (.inl hempty), hempty, String.empty_append]
    · have hinner : Path.inner ⟨pattern⟩ = pattern.toList := if_neg habsolute
      have hcomponents : ∀ s ∈ componentsOf root.inner, Reads s := fun s hs =>
        reads_of_isLiteral (hroot.of_infix (infix_of_mem_componentsOf hs))
      have hself := read_ok_iff ⟨pattern⟩
      rw [read_ok_iff, hself, Path.toList_text_join habsolute, Path.inner_join hempty habsolute, hinner,
        componentsOf_slashed, reads_slashed_append_iff hroot]
      exact and_congr_right fun _ => List.forall_mem_append.trans (and_iff_right hcomponents)

end PushAudit.Glob
