import PushAudit.Proofs.Pattern.Words
import PushAudit.Proofs.Rule.Detection

namespace PushAudit.Rule

open Pattern

def quoteMarks : List Char := ['"', '\'']

/-- What may follow an opening mark: at least one character, then a mark that closes it. -/
def IsQuoted (text : List Char) : Prop :=
  ∃ content closing rest, text = content ++ closing :: rest ∧ content ≠ [] ∧ (∀ c ∈ content, c ∉ quoteMarks) ∧
    closing ∈ quoteMarks

theorem isQuoted_iff {text : List Char} :
    IsQuoted text ↔ ∃ c rest, text = c :: rest ∧ c ∉ quoteMarks ∧ ∃ q ∈ rest, q ∈ quoteMarks := by
  constructor
  · rintro ⟨content, closing, rest, rfl, hne, hcontent, hclosing⟩
    obtain ⟨c, content, rfl⟩ := List.exists_cons_of_ne_nil hne
    exact ⟨c, content ++ closing :: rest, rfl, hcontent c List.mem_cons_self, closing,
      List.mem_append_right _ List.mem_cons_self, hclosing⟩
  · rintro ⟨c, rest, rfl, hc, q, hq, hmark⟩
    induction rest generalizing c with
    | nil => simp at hq
    | cons d rest ih =>
        by_cases hd : d ∈ quoteMarks
        · exact ⟨[c], d, rest, rfl, List.cons_ne_nil c [], List.forall_mem_singleton.mpr hc, hd⟩
        · have hlater : q ∈ rest := List.mem_of_ne_of_mem (ne_of_mem_of_not_mem hmark hd) hq
          obtain ⟨content, closing, after, heq, -, hcontent, hclosing⟩ := ih d hd hlater
          exact ⟨c :: content, closing, after, by rw [heq, List.cons_append], List.cons_ne_nil c content,
            List.forall_mem_cons.mpr ⟨hc, hcontent⟩, hclosing⟩

/-- What a quoted text gives away, going by the name that it is assigned to. -/
inductive Credential
  | password
  | apiKey
  | secret
deriving DecidableEq, Repr

namespace Credential

def rule : Credential → Rule
  | password => hardcodedPassword
  | apiKey => hardcodedApiKey
  | secret => hardcodedSecret

def names : Credential → List String
  | password => ["password", "passwd", "pwd"]
  | apiKey => ["apikey", "api_key", "api-key"]
  | secret => ["secret", "token"]

end Credential

structure Opening (names : List String) where
  name : List Char
  gapBefore : List Char
  sign : Char
  gapAfter : List Char
  mark : Char
  name_mem : ∃ w ∈ names, Text.SameWord w name
  blank_gapBefore : ∀ c ∈ gapBefore, Text.IsBlank c
  sign_mem : sign ∈ [':', '=']
  blank_gapAfter : ∀ c ∈ gapAfter, Text.IsBlank c
  mark_mem : mark ∈ quoteMarks

namespace Opening

variable {names : List String}

def link (o : Opening names) : List Char := o.gapBefore ++ o.sign :: (o.gapAfter ++ [o.mark])

def chars (o : Opening names) : List Char := o.name ++ o.link

end Opening

variable {b m a : List Char}

theorem matches_assignedText_iff :
    Matches (seqs assignedText) b m a ↔
      ∃ gapBefore sign gapAfter mark content closing,
        m = gapBefore ++ sign :: (gapAfter ++ mark :: (content ++ [closing])) ∧
          (∀ c ∈ gapBefore, Text.IsBlank c) ∧ sign ∈ [':', '='] ∧ (∀ c ∈ gapAfter, Text.IsBlank c) ∧
          mark ∈ quoteMarks ∧ content ≠ [] ∧ (∀ c ∈ content, c ∉ quoteMarks) ∧ closing ∈ quoteMarks := by
  simp only [assignedText, gap, quote, unquoted, matches_seqs_cons_iff, matches_seqs_nil_iff, matches_one_iff,
    matches_star_one_iff, matches_plus_one_iff, CharSet.Admits]
  constructor
  · rintro ⟨gapBefore, _, rfl, h₁, _, _, rfl, ⟨sign, h₂, rfl⟩, gapAfter, _, rfl, h₃, _, _, rfl, ⟨mark, h₄, rfl⟩,
      content, _, rfl, ⟨hne, h₅⟩, _, _, rfl, ⟨closing, h₆, rfl⟩, rfl⟩
    exact ⟨gapBefore, sign, gapAfter, mark, content, closing, rfl, h₁, h₂, h₃, h₄, hne, h₅, h₆⟩
  · rintro ⟨gapBefore, sign, gapAfter, mark, content, closing, rfl, h₁, h₂, h₃, h₄, hne, h₅, h₆⟩
    exact ⟨gapBefore, _, rfl, h₁, _, _, rfl, ⟨sign, h₂, rfl⟩, gapAfter, _, rfl, h₃, _, _, rfl, ⟨mark, h₄, rfl⟩,
      content, _, rfl, ⟨hne, h₅⟩, _, _, rfl, ⟨closing, h₆, rfl⟩, rfl⟩

namespace Credential

theorem sameWord_apiKey_iff :
    (∃ w ∈ apiKey.names, Text.SameWord w m) ↔
      ∃ m₁ m₂ m₃, m = m₁ ++ (m₂ ++ m₃) ∧ Text.SameWord "api" m₁ ∧ (m₂ = [] ∨ ∃ c ∈ ['_', '-'], m₂ = [c]) ∧
        Text.SameWord "key" m₃ := by
  have hnames : apiKey.names = ["", "_", "-"].map fun sep => "api" ++ (sep ++ "key") := by decide
  have hsep {m₂ : List Char} :
      (∃ sep ∈ ["", "_", "-"], Text.SameWord sep m₂) ↔ m₂ = [] ∨ ∃ c ∈ ['_', '-'], m₂ = [c] := by
    have hempty : Text.SameWord "" m₂ ↔ m₂ = [] := List.forall₂_nil_left_iff
    have hunder : Text.SameWord "_" m₂ ↔ m₂ = ['_'] := Text.sameWord_singleton_iff rfl (by decide) (by decide)
    have hdash : Text.SameWord "-" m₂ ↔ m₂ = ['-'] := Text.sameWord_singleton_iff rfl (by decide) (by decide)
    simp [hempty, hunder, hdash]
  simp only [hnames, List.mem_map, exists_exists_and_eq_and, Text.sameWord_append_iff, ← hsep]
  constructor
  · rintro ⟨sep, hmem, m₁, _, rfl, h₁, m₂, m₃, rfl, h₂, h₃⟩
    exact ⟨m₁, m₂, m₃, rfl, h₁, ⟨sep, hmem, h₂⟩, h₃⟩
  · rintro ⟨m₁, m₂, m₃, rfl, h₁, ⟨sep, hmem, h₂⟩, h₃⟩
    exact ⟨sep, hmem, m₁, _, rfl, h₁, m₂, m₃, rfl, h₂, h₃⟩

theorem matches_rule_iff (s : Credential) :
    Matches s.rule.pattern b m a ↔
      ∃ name rest, m = name ++ rest ∧ (∃ w ∈ s.names, Text.SameWord w name) ∧
        Matches (seqs assignedText) (b ++ name) rest a := by
  cases s with
  | password => simp only [rule, hardcodedPassword, matches_seqs_cons_iff, matches_words_iff, names]
  | apiKey =>
      simp only [rule, hardcodedApiKey, matches_seqs_cons_iff (p := opt _), matches_seqs_cons_iff (p := word _),
        matches_word_iff, matches_opt_iff, matches_one_iff, CharSet.Admits, sameWord_apiKey_iff]
      constructor
      · rintro ⟨m₁, _, rfl, h₁, m₂, _, rfl, h₂, m₃, rest, rfl, h₃, hm⟩
        refine ⟨m₁ ++ (m₂ ++ m₃), rest, by simp only [List.append_assoc], ⟨m₁, m₂, m₃, rfl, h₁, h₂, h₃⟩, ?_⟩
        simpa only [List.append_assoc] using hm
      · rintro ⟨_, rest, rfl, ⟨m₁, m₂, m₃, rfl, h₁, h₂, h₃⟩, hm⟩
        refine ⟨m₁, m₂ ++ (m₃ ++ rest), by simp only [List.append_assoc], h₁, m₂, m₃ ++ rest, rfl, h₂, m₃, rest,
          rfl, h₃, ?_⟩
        simpa only [List.append_assoc] using hm
  | secret => simp only [rule, hardcodedSecret, matches_seqs_cons_iff, matches_words_iff, names]

theorem appliesTo_iff_opening (s : Credential) (text : List Char) :
    s.rule.appliesTo (String.ofList text) ↔
      ∃ (before : List Char) (o : Opening s.names) (inside : List Char),
        text = before ++ (o.chars ++ inside) ∧ IsQuoted inside := by
  rw [appliesTo_iff, String.toList_ofList]
  simp only [matches_rule_iff, matches_assignedText_iff]
  constructor
  · rintro ⟨before, _, rest, rfl, name, _, rfl, hname, gapBefore, sign, gapAfter, mark, content, closing, rfl,
      hbefore, hsign, hafter, hmark, hcontent⟩
    exact ⟨before, ⟨name, gapBefore, sign, gapAfter, mark, hname, hbefore, hsign, hafter, hmark⟩,
      content ++ closing :: rest, by simp [Opening.chars, Opening.link], content, closing, rest, rfl, hcontent⟩
  · rintro ⟨before, o, _, rfl, content, closing, rest, rfl, hcontent⟩
    exact ⟨before, o.chars ++ (content ++ [closing]), rest, by simp, o.name, _, List.append_assoc _ _ _, o.name_mem,
      o.gapBefore, o.sign, o.gapAfter, o.mark, content, closing, by simp [Opening.link], o.blank_gapBefore,
      o.sign_mem, o.blank_gapAfter, o.mark_mem, hcontent⟩

/-- The rules on quoted texts apply exactly if an opening is followed by a character that is no mark and,
anywhere later, by a mark of either kind. -/
theorem appliesTo_iff_quoted (s : Credential) (text : String) :
    s.rule.appliesTo text ↔
      ∃ (before : List Char) (o : Opening s.names) (c : Char) (rest : List Char),
        text.toList = before ++ (o.chars ++ c :: rest) ∧ c ∉ quoteMarks ∧ ∃ q ∈ rest, q ∈ quoteMarks := by
  have happlies := s.appliesTo_iff_opening text.toList
  rw [String.ofList_toList] at happlies
  rw [happlies]
  simp only [isQuoted_iff]
  constructor
  · rintro ⟨before, o, _, htext, c, rest, rfl, hc⟩
    exact ⟨before, o, c, rest, htext, hc⟩
  · rintro ⟨before, o, c, rest, htext, hc⟩
    exact ⟨before, o, _, htext, c, rest, rfl, hc⟩

example : hardcodedApiKey.appliesTo "API-\u212aey\n=\t'\n\n\"" := by decide +kernel

end Credential

end PushAudit.Rule
