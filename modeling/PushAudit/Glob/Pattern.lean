namespace PushAudit.Glob

/-- A member of a bracketed set. A range that runs backwards holds nothing. -/
inductive Member
  | char (c : Char)
  | range (first last : Char)
deriving DecidableEq, Repr

inductive Token
  | char (c : Char)
  | anyChar
  | anyRun
  | anyDepth
  | within (members : List Member)
  | outside (members : List Member)
deriving DecidableEq, Repr

inductive Cause
  | tooManyStars
  | partOfName
  | badSet
deriving DecidableEq, Repr

structure Error where
  position : Nat
  cause : Cause
deriving DecidableEq, Repr

def Cause.message : Cause → String
  | tooManyStars => "wildcards are either regular \x60*\x60 or recursive \x60**\x60"
  | partOfName => "recursive wildcards must form a single path component"
  | badSet => "invalid range pattern"

def Error.message (e : Error) : String :=
  "Pattern syntax error near position " ++ toString e.position ++ ": " ++ e.cause.message

def members : List Char → List Member
  | a :: '-' :: b :: rest => .range a b :: members rest
  | a :: rest => .char a :: members rest
  | [] => []

def splitAtBracket : List Char → Option (List Char × List Char)
  | [] => none
  | c :: rest => if c = ']' then some ([], rest) else (splitAtBracket rest).map fun (a, b) => (c :: a, b)

/-- The set after an opening bracket. A closing bracket that comes first is a member. -/
def set? : List Char → Option (Token × List Char)
  | '!' :: c :: rest => (splitAtBracket rest).map fun (a, b) => (.outside (members (c :: a)), b)
  | '!' :: [] => none
  | c :: rest => (splitAtBracket rest).map fun (a, b) => (.within (members (c :: a)), b)
  | [] => none

theorem splitAtBracket_length {s a b : List Char} (h : splitAtBracket s = some (a, b)) :
    b.length < s.length := by
  induction s generalizing a with
  | nil => simp [splitAtBracket] at h
  | cons c rest ih =>
      simp only [splitAtBracket] at h
      split at h
      · simp only [Option.some.injEq, Prod.mk.injEq] at h
        simp [← h.2]
      · simp only [Option.map_eq_some_iff, Prod.mk.injEq] at h
        obtain ⟨⟨a', b'⟩, hs, _, rfl⟩ := h
        exact Nat.lt_succ_of_lt (ih hs)

theorem set?_length {s b : List Char} {t : Token} (h : set? s = some (t, b)) : b.length < s.length := by
  unfold set? at h
  split at h <;> simp only [Option.map_eq_some_iff, Prod.mk.injEq, reduceCtorEq] at h
  all_goals
    obtain ⟨⟨a', b'⟩, hs, _, rfl⟩ := h
    have := splitAtBracket_length hs
    simp only [List.length_cons]
    omega

/-- Reads a pattern from a position on. Two stars have to fill the space between slashes. -/
def tokensFrom (position : Nat) (previous : Option Char) : (s : List Char) → Except Error (List Token)
  | [] => .ok []
  | '?' :: rest => (tokensFrom (position + 1) (some '?') rest).map (.anyChar :: ·)
  | '*' :: '*' :: '*' :: _ => .error ⟨position + 2, .tooManyStars⟩
  | '*' :: '*' :: rest =>
    if previous.isNone ∨ previous = some '/' then
      match rest with
      | [] => .ok [.anyDepth]
      | '/' :: rest => (tokensFrom (position + 3) (some '/') rest).map (.anyDepth :: ·)
      | _ => .error ⟨position + 2, .partOfName⟩
    else .error ⟨position - 1, .partOfName⟩
  | '*' :: rest => (tokensFrom (position + 1) (some '*') rest).map (.anyRun :: ·)
  | '[' :: rest =>
    match h : set? rest with
    | none => .error ⟨position, .badSet⟩
    | some (t, after) =>
      (tokensFrom (position + 1 + (rest.length - after.length)) (some ']') after).map (t :: ·)
  | c :: rest => (tokensFrom (position + 1) (some c) rest).map (.char c :: ·)
termination_by s => s.length
decreasing_by
  all_goals first
    | (simp only [List.length_cons]; omega)
    | exact Nat.lt_succ_of_lt (set?_length h)

def tokens (s : List Char) : Except Error (List Token) := tokensFrom 0 none s

def Member.holds (c : Char) : Member → Bool
  | char d => c == d
  | range a b => a ≤ c && c ≤ b

def Token.admits (c : Char) : Token → Bool
  | char d => c == d
  | anyChar => true
  | within ms => ms.any (·.holds c)
  | outside ms => !ms.any (·.holds c)
  | anyRun | anyDepth => false

def suffixes : List Char → List (List Char)
  | [] => [[]]
  | c :: s => (c :: s) :: suffixes s

/-- What may be left of a name after one more token, given what may be left before it, longest
first. -/
def advance (left : List (List Char)) : Token → List (List Char)
  | .anyRun | .anyDepth => (left.head?.map suffixes).getD []
  | t => left.filterMap fun
    | [] => none
    | c :: s => if t.admits c then some s else none

def fits (ts : List Token) (name : String) : Bool :=
  (ts.foldl advance [name.toList]).any (·.isEmpty)

/-- One component of a pattern: a name, a pattern for names, or any number of directories. -/
inductive Step
  | name (s : String)
  | matching (ts : List Token)
  | anyDepth
deriving DecidableEq, Repr

def Token.char? : Token → Option Char
  | char c => some c
  | _ => none

def Step.ofTokens (ts : List Token) : Step :=
  if ts = [.anyDepth] then anyDepth
  else match ts.mapM Token.char? with
    | some cs => name (String.ofList cs)
    | none => matching ts

def Step.fits (name : String) : Step → Bool
  | .name s => s == name
  | matching ts => Glob.fits ts name
  | anyDepth => true

/-- Whether names that begin with a dot are named as such: then the directory itself and the one
above it are entries, too. -/
def Step.takesDots : Step → Bool
  | matching (.char '.' :: _) => true
  | _ => false

def dedupDepth : List Step → List Step
  | .anyDepth :: .anyDepth :: rest => dedupDepth (.anyDepth :: rest)
  | s :: rest => s :: dedupDepth rest
  | [] => []

structure Pattern where
  absolute : Bool
  steps : List Step
  directoriesOnly : Bool
deriving DecidableEq, Repr

def componentsOf (s : List Char) : List (List Char) :=
  let parts := s.splitOn '/'
  if parts.getLast? = some [] then parts.dropLast else parts

/-- Reads a pattern, first as a whole and then component by component. -/
def Pattern.read (text : String) : Except Error Pattern := do
  let cs := text.toList
  let _ ← tokens cs
  let absolute := cs.head? == some '/'
  let inner := if absolute then cs.drop 1 else cs
  let steps ← (componentsOf inner).mapM fun c => (tokens c).map Step.ofTokens
  return ⟨absolute, dedupDepth (if inner.isEmpty then [.name ""] else steps), cs.getLast? == some '/'⟩

end PushAudit.Glob
