import PushAudit.Text.Taken
import PushAudit.Yaml.Token

namespace PushAudit.Yaml

open Text (TakenFrom le_cons le_self lt_cons)

structure Properties (ρ : Type) where
  anchor : Option ρ
  tag : Option String
deriving DecidableEq, Repr

/-- A node of a document. Anchors and aliases are told apart by `ρ`. -/
inductive Node (ρ : Type)
  | scalar (p : Properties ρ) (text : String) (plain : Bool)
  | reference (target : ρ)
  | list (p : Properties ρ) (items : List (Node ρ))
  | map (p : Properties ρ) (entries : List (Node ρ × Node ρ))

def Node.missing : Node String := .scalar ⟨none, none⟩ "" true

abbrev Tokens := List Token

abbrev Reader (α : Type) := (s : Tokens) → Option (TakenFrom Token α s.length)

abbrev Handles := List (String × String)

def defaultHandles : Handles := [("!", "!"), ("!!", "tag:yaml.org,2002:")]

def resolveTag (handles : Handles) (handle suffix : String) : Option String :=
  if handle = "" then some suffix
  else (handles.find? (·.1 == handle)).map fun (_, address) => address ++ suffix

abbrev Rest (bound : Nat) := { t : Tokens // t.length ≤ bound }

def readProperties (handles : Handles) (s : Tokens) : Option (Properties String × Rest s.length) :=
  match s with
  | .anchor a :: .tag h x :: rest => do
    return (⟨some a, ← resolveTag handles h x⟩, ⟨rest, by simp only [List.length_cons]; omega⟩)
  | .tag h x :: .anchor a :: rest => do
    return (⟨some a, ← resolveTag handles h x⟩, ⟨rest, by simp only [List.length_cons]; omega⟩)
  | .anchor a :: rest => some (⟨some a, none⟩, ⟨rest, le_cons _⟩)
  | .tag h x :: rest => do return (⟨none, ← resolveTag handles h x⟩, ⟨rest, le_cons _⟩)
  | s => some (⟨none, none⟩, ⟨s, le_self _⟩)

/-- A reader of nodes for token lists that are shorter than a bound. The flags say whether block
collections may stand there, and whether a list may whose entries are not indented. -/
abbrev Inner (n : Nat) := (block indentless : Bool) → (s : Tokens) → s.length < n →
  Option (TakenFrom Token (Node String) s.length)

/-- A node, unless one of the tokens comes that may follow a missing one. -/
def readUnless {n : Nat} (node : Inner n) (block indentless : Bool) (follows : Token → Bool) (s : Tokens)
    (h : s.length < n) : Option (Node String × Rest s.length) :=
  if s.head?.any follows then some (.missing, ⟨s, le_self _⟩)
  else (node block indentless s h).map fun t => (t.value, ⟨t.rest, Nat.le_of_lt t.shorter⟩)

def inSequence : Token → Bool
  | .blockEntry | .blockEnd => true
  | _ => false

def inMapping : Token → Bool
  | .key | .value | .blockEnd => true
  | _ => false

def inIndentless (t : Token) : Bool := inSequence t || inMapping t

def readSequence {n : Nat} (node : Inner n) (read : List (Node String)) (s : Tokens) (h : s.length < n) :
    Option (TakenFrom Token (List (Node String)) n) :=
  match s, h with
  | .blockEntry :: rest, h =>
    have hr : rest.length < n := Nat.lt_trans (lt_cons _) h
    match readUnless node true false inSequence rest hr with
    | none => none
    | some (v, t) => readSequence node (v :: read) t.1 (Nat.lt_of_le_of_lt t.2 hr)
  | .blockEnd :: rest, h => some ⟨read.reverse, rest, Nat.lt_trans (lt_cons _) h⟩
  | _, _ => none
termination_by s.length
decreasing_by exact Nat.lt_succ_of_le t.2

def readIndentless {n : Nat} (node : Inner n) (read : List (Node String)) (s : Tokens) (h : s.length < n) :
    Option (TakenFrom Token (List (Node String)) n) :=
  match readUnless node true false inIndentless s h with
  | none => none
  | some (v, t) =>
    match ht : t.1 with
    | .blockEntry :: rest =>
      have hr : rest.length < s.length := by have := t.2; rw [ht] at this; exact this
      readIndentless node (v :: read) rest (Nat.lt_trans hr h)
    | u => some ⟨(v :: read).reverse, u, by rw [← ht]; exact Nat.lt_of_le_of_lt t.2 h⟩
termination_by s.length
decreasing_by exact hr

def readValue {n : Nat} (node : Inner n) (block : Bool) (follows : Token → Bool) (s : Tokens)
    (h : s.length < n) : Option (Node String × Rest s.length) :=
  match s, h with
  | .value :: rest, h =>
    (readUnless node block block follows rest (Nat.lt_trans (lt_cons _) h)).map fun (v, t) =>
      (v, ⟨t.1, Nat.le_trans t.2 (le_cons _)⟩)
  | s, _ => some (.missing, ⟨s, le_self _⟩)

def readMapping {n : Nat} (node : Inner n) (read : List (Node String × Node String)) (s : Tokens)
    (h : s.length < n) : Option (TakenFrom Token (List (Node String × Node String)) n) :=
  match s, h with
  | .key :: rest, h =>
    have hr : rest.length < n := Nat.lt_trans (lt_cons _) h
    match readUnless node true true inMapping rest hr with
    | none => none
    | some (k, t) =>
      match readValue node true inMapping t.1 (Nat.lt_of_le_of_lt t.2 hr) with
      | none => none
      | some (v, u) =>
        readMapping node ((k, v) :: read) u.1 (Nat.lt_of_le_of_lt (Nat.le_trans u.2 t.2) hr)
  | .blockEnd :: rest, h => some ⟨read.reverse, rest, Nat.lt_trans (lt_cons _) h⟩
  | _, _ => none
termination_by s.length
decreasing_by exact Nat.lt_succ_of_le (Nat.le_trans u.2 t.2)

def inFlowList : Token → Bool
  | .flowEntry | .flowSequenceEnd => true
  | _ => false

def inFlowMap : Token → Bool
  | .flowEntry | .flowMappingEnd => true
  | _ => false

def isValue (t : Token) : Bool := t == .value

/-- The next entry of a flow collection: its place, or nothing where the collection ends. All but
the first stand behind a comma. -/
def nextEntry (closing : Token) (first : Bool) (s : Tokens) : Option (Option (Rest s.length)) :=
  match s with
  | [] => none
  | t :: rest =>
    if t = closing then some none
    else if first then some (some ⟨t :: rest, le_self _⟩)
    else if t = .flowEntry then
      if rest.head? = some closing then some none else some (some ⟨rest, le_cons _⟩)
    else none

def afterClosing (s : Tokens) : Tokens :=
  match s with
  | .flowEntry :: _ :: rest => rest
  | _ :: rest => rest
  | [] => []

/-- An entry of a flow list that is a map of one entry: its key has a mark of its own or was found
by its colon. A key that is missing takes its colon along. -/
def readPairEntry {n : Nat} (node : Inner n) (s : Tokens) (h : s.length < n) :
    Option (Node String × Rest s.length) :=
  match s.head?.any (fun t => isValue t || inFlowList t), s, h with
  | true, _ :: rest, h =>
    (readValue node false inFlowList rest (Nat.lt_trans (lt_cons _) h)).map fun (v, t) =>
      (.map ⟨none, none⟩ [(.missing, v)], ⟨t.1, Nat.le_trans t.2 (le_cons _)⟩)
  | _, s, h => do
    let k ← node false false s h
    let (v, t) ← readValue node false inFlowList k.rest (Nat.lt_trans k.shorter h)
    return (.map ⟨none, none⟩ [(k.value, v)], ⟨t.1, Nat.le_trans t.2 (Nat.le_of_lt k.shorter)⟩)

theorem afterClosing_length_lt {s : Tokens} (h : s ≠ []) : (afterClosing s).length < s.length := by
  unfold afterClosing
  split <;> simp_all only [List.length_cons, ne_eq, not_true_eq_false] <;> omega

def readFlowList {n : Nat} (node : Inner n) (read : List (Node String)) (s : Tokens) (h : s.length < n) :
    Option (TakenFrom Token (List (Node String)) n) :=
  match nextEntry .flowSequenceEnd read.isEmpty s with
  | none => none
  | some none => some ⟨read.reverse, afterClosing s, by
      by_cases hs : s = []
      · subst hs; exact h
      · exact Nat.lt_trans (afterClosing_length_lt hs) h⟩
  | some (some place) =>
    match hp : place.1 with
    | .key :: rest =>
      have hr : rest.length < s.length := by have := place.2; rw [hp] at this; exact this
      match readPairEntry node rest (Nat.lt_trans hr h) with
      | none => none
      | some (v, t) =>
        readFlowList node (v :: read) t.1 (Nat.lt_of_le_of_lt t.2 (Nat.lt_trans hr h))
    | _ =>
      match node false false place.1 (Nat.lt_of_le_of_lt place.2 h) with
      | none => none
      | some v =>
        readFlowList node (v.value :: read) v.rest
          (Nat.lt_trans v.shorter (Nat.lt_of_le_of_lt place.2 h))
termination_by s.length
decreasing_by
  · exact Nat.lt_of_le_of_lt t.2 hr
  · exact Nat.lt_of_lt_of_le v.shorter place.2

def readFlowMap {n : Nat} (node : Inner n) (read : List (Node String × Node String)) (s : Tokens)
    (h : s.length < n) : Option (TakenFrom Token (List (Node String × Node String)) n) :=
  match nextEntry .flowMappingEnd read.isEmpty s with
  | none => none
  | some none => some ⟨read.reverse, afterClosing s, by
      by_cases hs : s = []
      · subst hs; exact h
      · exact Nat.lt_trans (afterClosing_length_lt hs) h⟩
  | some (some place) =>
    match hp : place.1 with
    | .key :: rest =>
      have hr : rest.length < s.length := by have := place.2; rw [hp] at this; exact this
      match readUnless node false false (fun t => isValue t || inFlowMap t) rest (Nat.lt_trans hr h) with
      | none => none
      | some (k, t) =>
        have ht : t.1.length < s.length := Nat.lt_of_le_of_lt t.2 hr
        match readValue node false inFlowMap t.1 (Nat.lt_trans ht h) with
        | none => none
        | some (v, u) =>
          readFlowMap node ((k, v) :: read) u.1 (Nat.lt_of_le_of_lt u.2 (Nat.lt_trans ht h))
    | _ =>
      match node false false place.1 (Nat.lt_of_le_of_lt place.2 h) with
      | none => none
      | some k =>
        readFlowMap node ((k.value, .missing) :: read) k.rest
          (Nat.lt_trans k.shorter (Nat.lt_of_le_of_lt place.2 h))
termination_by s.length
decreasing_by
  · exact Nat.lt_of_le_of_lt u.2 ht
  · exact Nat.lt_of_lt_of_le k.shorter place.2

def readNode (handles : Handles) (block indentless : Bool) (s : Tokens) :
    Option (TakenFrom Token (Node String) s.length) :=
  match s with
  | .reference name :: rest => some ⟨.reference name, rest, lt_cons _⟩
  | s =>
    match readProperties handles s with
    | none => none
    | some (p, ⟨t, ht⟩) =>
      let inner : Inner t.length := fun block indentless u _hu => readNode handles block indentless u
      match t, ht, inner with
      | .scalar text plain :: rest, ht, _ =>
        let p := if p.tag = some "!" then { p with tag := none } else p
        some ⟨.scalar p text plain, rest, ht⟩
      | .flowSequence :: rest, ht, inner =>
        (readFlowList inner [] rest (lt_cons _)).map fun u => (u.map (.list p)).mono ht
      | .flowMapping :: rest, ht, inner =>
        (readFlowMap inner [] rest (lt_cons _)).map fun u => (u.map (.map p)).mono ht
      | .blockSequence :: rest, ht, inner =>
        if block then
          (readSequence inner [] rest (lt_cons _)).map fun u => (u.map (.list p)).mono ht
        else none
      | .blockMapping :: rest, ht, inner =>
        if block then
          (readMapping inner [] rest (lt_cons _)).map fun u => (u.map (.map p)).mono ht
        else none
      | .blockEntry :: rest, ht, inner =>
        if indentless then
          (readIndentless inner [] rest (lt_cons _)).map fun u => (u.map (.list p)).mono ht
        else none
      | t, _, _ =>
        if h : t.length < s.length then some ⟨.scalar p "" true, t, h⟩ else none
termination_by s.length
decreasing_by exact Nat.lt_of_lt_of_le _hu ht

end PushAudit.Yaml
