import PushAudit.Proofs.Pattern.Transfer
import PushAudit.Proofs.Pattern.Words
import PushAudit.Proofs.Rule.Detection

namespace PushAudit

namespace Text

def SameFolded (x y : List Char) : Prop := x.map fold = y.map fold

theorem endsInWord_map_fold (x : List Char) : endsInWord (x.map fold) = endsInWord x := by
  rw [endsInWord, List.getLast?_map, Option.any_map]
  exact congrArg x.getLast?.any (funext isWord_fold)

theorem beginsWithWord_map_fold (x : List Char) : beginsWithWord (x.map fold) = beginsWithWord x := by
  rw [beginsWithWord, List.head?_map, Option.any_map]
  exact congrArg x.head?.any (funext isWord_fold)

def isCaseless (c : Char) : Bool := fold c == c && !c.isLower

theorem fold_eq_iff_of_isCaseless {c d : Char} (h : isCaseless c) : fold d = c ↔ d = c := by
  obtain ⟨hfold, hlower⟩ := Bool.and_eq_true_iff.mp h
  have hc : fold c = c := eq_of_beq hfold
  have hsame : SameLetter c d ↔ d = c := sameLetter_iff_eq hc (Bool.not_eq_true' _ ▸ hlower)
  rw [← hsame, sameLetter_iff, hc, eq_comm]

end Text

open Text (SameFolded fold)

/-- Whether case makes no difference to the class. A letter stands for both of its cases. -/
def CharSet.isCaseless : CharSet → Bool
  | letter _ | blank => true
  | anyOf cs | noneOf cs => cs.all Text.isCaseless

theorem CharSet.admits_fold {k : CharSet} (h : k.isCaseless) (c : Char) : k.admits (fold c) = k.admits c := by
  have hmem {cs : List Char} (hcs : cs.all Text.isCaseless) : cs.contains (fold c) = cs.contains c := by
    have hall := List.all_eq_true.mp hcs
    rw [Bool.eq_iff_iff, List.contains_iff_mem, List.contains_iff_mem]
    constructor
    · intro hc
      rwa [← (Text.fold_eq_iff_of_isCaseless (hall _ hc)).mp rfl] at hc
    · intro hc
      rwa [(Text.fold_eq_iff_of_isCaseless (hall c hc)).mpr rfl]
  cases k with
  | letter d => rw [admits, admits, Text.fold_fold]
  | blank => exact Text.isBlank_fold c
  | anyOf cs => exact hmem h
  | noneOf cs => exact congrArg not (hmem h)

namespace Pattern

theorem sameFolded_respelling : Respelling SameFolded where
  eq_nil h := List.map_eq_nil_iff.mp h.symm
  split h := by
    rw [SameFolded, List.map_append] at h
    obtain ⟨x', y', rfl, hx, hy⟩ := List.map_eq_append_iff.mp h.symm
    exact ⟨x', y', rfl, hx.symm, hy.symm⟩
  append hx hy := by
    rw [SameFolded, List.map_append, List.map_append, hx, hy]
  endsInWord_eq h := by
    rw [← Text.endsInWord_map_fold, ← h, Text.endsInWord_map_fold]
  beginsWithWord_eq h := by
    rw [← Text.beginsWithWord_map_fold, ← h, Text.beginsWithWord_map_fold]

theorem kept_one_of_isCaseless {k : CharSet} (hk : k.isCaseless) : Kept (Respelled SameFolded) (one k) := by
  intro b m a b' m' a' hm h
  obtain ⟨c, hc, rfl⟩ := matches_one_iff.mp hm
  obtain ⟨d, rfl, hd⟩ := List.map_eq_singleton_iff.mp h.inside.symm
  refine .one b' a' ?_
  rw [← k.admits_iff] at hc ⊢
  rwa [← CharSet.admits_fold hk, hd, CharSet.admits_fold hk]

theorem occursIn_of_sameFolded {p : Pattern} (hp : ∀ k ∈ p.charSets, k.isCaseless) {x y : List Char}
    (h : SameFolded x y) (hx : p.occursIn x) : p.occursIn y :=
  sameFolded_respelling.occursIn
    (kept_of_charSets sameFolded_respelling.divisible p fun k hk => kept_one_of_isCaseless (hp k hk)) h hx

end Pattern

namespace Rule

theorem isCaseless_of_mem_catalog : ∀ r ∈ catalog, ∀ k ∈ r.pattern.charSets, k.isCaseless := by decide

/-- In whichever case the letters of a text are written, its violations are the same. -/
theorem violations_eq_of_sameLetter {text text' : String}
    (h : List.Forall₂ Text.SameLetter text.toList text'.toList) (file : String) :
    violations file text = violations file text' := by
  have hfolded : SameFolded text.toList text'.toList := Text.forall₂_sameLetter_iff.mp h
  refine violations_congr (fun r hr => ⟨?_, ?_⟩) file
  · exact Pattern.occursIn_of_sameFolded (isCaseless_of_mem_catalog r hr) hfolded
  · exact Pattern.occursIn_of_sameFolded (isCaseless_of_mem_catalog r hr) hfolded.symm

/-- With the long s and the Kelvin sign, inside of words and at their edges. -/
theorem violations_eq_of_mixedCase :
    let text := "// hack\n+console.log(eval (s))\n+Token:\t'K'"
    let text' := "// HAC\u212a\n+CON\u017fole.LOG(Eval (\u017f))\n+TO\u212aEN:\t'\u212a'"
    List.Forall₂ Text.SameLetter text.toList text'.toList ∧
      violations "a.js" text' = [⟨"a.js", "Hardcoded secret/token detected", .high⟩,
        ⟨"a.js", "Console statements detected - use proper logging framework", .low⟩,
        ⟨"a.js", "TODO/FIXME comments detected - should be tracked as issues", .low⟩,
        ⟨"a.js", "Unsafe eval() usage detected", .high⟩] := by
  intro text text'
  have hsame : List.Forall₂ Text.SameLetter text.toList text'.toList :=
    Text.forall₂_sameLetter_iff.mpr (by decide +kernel)
  refine ⟨hsame, ?_⟩
  rw [← violations_eq_of_sameLetter hsame "a.js"]
  decide +kernel

end Rule

end PushAudit
