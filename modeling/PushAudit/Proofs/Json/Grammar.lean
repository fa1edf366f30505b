import PushAudit.Json.Numeral

namespace PushAudit.Json

/-- A character of a quoted text, or an escape that spells half of a surrogate pair. -/
inductive Letter
  | char (c : Char)
  | half (code : Nat)
deriving DecidableEq, Repr

/-- A document with nothing left out: numbers by their digits, texts letter by letter, all fields of a
record in their order. -/
inductive Tree
  | null
  | bool (b : Bool)
  | number (n : Numeral)
  | text (letters : List Letter)
  | list (items : List Tree)
  | record (fields : List (List Letter × Tree))

def Letter.ofCode (code : Nat) : Letter :=
  if 0xD800 ≤ code ∧ code ≤ 0xDFFF then .half code else .char (Char.ofNat code)

def paired (high low : Nat) : Char := Char.ofNat (0x10000 + (high - 0xD800) * 0x400 + (low - 0xDC00))

/-- The characters that letters stand for. A half stands for something only before its other half. -/
inductive Spells : List Letter → List Char → Prop
  | nil : Spells [] []
  | char {c : Char} {ls : List Letter} {cs : List Char} (h : Spells ls cs) : Spells (.char c :: ls) (c :: cs)
  | pair {high low : Nat} {ls : List Letter} {cs : List Char} (hhigh : high < 0xDC00) (hlow : 0xDC00 ≤ low)
      (h : Spells ls cs) : Spells (.half high :: .half low :: ls) (paired high low :: cs)

/-! The relations below say of a text what it begins with and what is left of it after that. -/

def Blanks (s t : List Char) : Prop :=
  ∃ w, s = w ++ t ∧ ∀ c ∈ w, c = ' ' ∨ c = '\n' ∨ c = '\t' ∨ c = '\r'

def namedEscapes : List (Char × Char) :=
  [('"', '"'), ('\\', '\\'), ('/', '/'), ('b', '\x08'), ('f', '\x0c'), ('n', '\n'), ('r', '\r'), ('t', '\t')]

inductive CodeAt : List Char → Nat → List Char → Prop
  | mk {a b c d : Char} {i j k l : Nat} {r : List Char} (ha : hexValue? a = some i) (hb : hexValue? b = some j)
      (hc : hexValue? c = some k) (hd : hexValue? d = some l) :
      CodeAt (a :: b :: c :: d :: r) (((i * 16 + j) * 16 + k) * 16 + l) r

inductive LetterAt : List Char → Letter → List Char → Prop
  | plain {c : Char} {r : List Char} (hquote : c ≠ '"') (hslash : c ≠ '\\') (hcontrol : 0x20 ≤ c.toNat) :
      LetterAt (c :: r) (.char c) r
  | named {e c : Char} {r : List Char} (h : (e, c) ∈ namedEscapes) : LetterAt ('\\' :: e :: r) (.char c) r
  | code {s r : List Char} {n : Nat} (h : CodeAt s n r) : LetterAt ('\\' :: 'u' :: s) (.ofCode n) r

/-- Pieces up to the quote that ends them. -/
inductive UpToQuote {α : Type} (piece : List Char → α → List Char → Prop) : List Char → List α → List Char → Prop
  | nil {r : List Char} : UpToQuote piece ('"' :: r) [] r
  | cons {s t r : List Char} {a : α} {as : List α} (ha : piece s a t) (h : UpToQuote piece t as r) :
      UpToQuote piece s (a :: as) r

abbrev QuotedAt : List Char → List Letter → List Char → Prop := UpToQuote LetterAt

inductive DigitsAt : List Char → List Char → List Char → Prop
  | mk {ds r : List Char} (hne : ds ≠ []) (hds : ∀ c ∈ ds, c.isDigit) (hr : ∀ c t, r = c :: t → ¬ c.isDigit) :
      DigitsAt (ds ++ r) ds r

inductive WholeAt : List Char → List Char → List Char → Prop
  | zero {r : List Char} (hr : ∀ c t, r = c :: t → ¬ c.isDigit) : WholeAt ('0' :: r) ['0'] r
  | digits {s ds r : List Char} (h : DigitsAt s ds r) (hzero : ds.head? ≠ some '0') : WholeAt s ds r

inductive DecimalsAt : List Char → List Char → List Char → Prop
  | none {r : List Char} (hr : ∀ t, r ≠ '.' :: t) : DecimalsAt r [] r
  | some {s ds r : List Char} (h : DigitsAt s ds r) : DecimalsAt ('.' :: s) ds r

inductive SignAt : List Char → Bool → List Char → Prop
  | minus {r : List Char} : SignAt ('-' :: r) true r
  | plus {r : List Char} : SignAt ('+' :: r) false r
  | none {r : List Char} (hr : ∀ t, r ≠ '-' :: t ∧ r ≠ '+' :: t) : SignAt r false r

inductive PowerAt : List Char → Option (Bool × List Char) → List Char → Prop
  | none {r : List Char} (hr : ∀ t, r ≠ 'e' :: t ∧ r ≠ 'E' :: t) : PowerAt r none r
  | some {e : Char} {s t ds r : List Char} {negative : Bool} (he : e = 'e' ∨ e = 'E')
      (hs : SignAt s negative t) (h : DigitsAt t ds r) : PowerAt (e :: s) (some (negative, ds)) r

/-- A number goes on as long as it can. In a document it is followed by a blank, a comma or a bracket. -/
inductive NumeralAt : List Char → Numeral → List Char → Prop
  | plain {s t u r whole decimals : List Char} {power : Option (Bool × List Char)} (hw : WholeAt s whole t)
      (hd : DecimalsAt t decimals u) (hp : PowerAt u power r) : NumeralAt s ⟨false, whole, decimals, power⟩ r
  | minus {s t u r whole decimals : List Char} {power : Option (Bool × List Char)} (hw : WholeAt s whole t)
      (hd : DecimalsAt t decimals u) (hp : PowerAt u power r) :
      NumeralAt ('-' :: s) ⟨true, whole, decimals, power⟩ r

inductive LeadAt : Bool → List Char → List Char → Prop
  | first {s r : List Char} (h : Blanks s r) : LeadAt true s r
  | next {s t r : List Char} (hs : Blanks s (',' :: t)) (ht : Blanks t r) : LeadAt false s r

mutual

inductive TreeAt : List Char → Tree → List Char → Prop
  | null {r : List Char} : TreeAt ('n' :: 'u' :: 'l' :: 'l' :: r) .null r
  | true {r : List Char} : TreeAt ('t' :: 'r' :: 'u' :: 'e' :: r) (.bool true) r
  | false {r : List Char} : TreeAt ('f' :: 'a' :: 'l' :: 's' :: 'e' :: r) (.bool false) r
  | number {s r : List Char} {n : Numeral} (h : NumeralAt s n r) : TreeAt s (.number n) r
  | text {s r : List Char} {ls : List Letter} (h : QuotedAt s ls r) : TreeAt ('"' :: s) (.text ls) r
  | list {s r : List Char} {ds : List Tree} (h : ItemsAt true s ds r) : TreeAt ('[' :: s) (.list ds) r
  | record {s r : List Char} {fs : List (List Letter × Tree)} (h : FieldsAt true s fs r) :
      TreeAt ('\x7b' :: s) (.record fs) r

/-- Items up to the bracket that ends them; the Boolean says that none has come before. -/
inductive ItemsAt : Bool → List Char → List Tree → List Char → Prop
  | nil {first : Bool} {s r : List Char} (h : Blanks s (']' :: r)) : ItemsAt first s [] r
  | cons {first : Bool} {s t u r : List Char} {d : Tree} {ds : List Tree} (hlead : LeadAt first s t)
      (hd : TreeAt t d u) (h : ItemsAt false u ds r) : ItemsAt first s (d :: ds) r

inductive FieldsAt : Bool → List Char → List (List Letter × Tree) → List Char → Prop
  | nil {first : Bool} {s r : List Char} (h : Blanks s ('\x7d' :: r)) : FieldsAt first s [] r
  | cons {first : Bool} {s t u v w x r : List Char} {key : List Letter} {d : Tree}
      {fs : List (List Letter × Tree)} (hlead : LeadAt first s ('"' :: t)) (hkey : QuotedAt t key u)
      (hcolon : Blanks u (':' :: v)) (hblank : Blanks v w) (hd : TreeAt w d x) (h : FieldsAt false x fs r) :
      FieldsAt first s ((key, d) :: fs) r

end

/-- The text is that document and nothing else but blanks around it. -/
def Tree.IsDocument (d : Tree) (text : String) : Prop :=
  ∃ s r, Blanks text.toList s ∧ TreeAt s d r ∧ Blanks r []

end PushAudit.Json
