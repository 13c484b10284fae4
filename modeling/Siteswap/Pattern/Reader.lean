/-
Patterns from text.

A text is brought to its normal form, its brackets are matched, its
dialect is told by its characters, and the throws are read by the rules
of that dialect: all characters of an async text; the two sides of every
pair of a sync text, without the crossing marks; the throws inside and
outside the groups of a multiplex text.
-/
import Siteswap.Pattern.Error
import Siteswap.Pattern.Normal
import Siteswap.Sequence

namespace Siteswap

/-- A pattern as it was written: its dialect, all its throws in order,
and its normal form. -/
structure Pattern where
  dialect : Dialect
  throws : Sequence
  text : List Char
  deriving DecidableEq

namespace Pattern

-- ============================================================ brackets

/-- Matches the brackets of `s`, which stands at `position` inside the
bracket `within`. Brackets do not nest. -/
def matchBrackets (position : Nat) (within : Option Char) : List Char → Except SyntaxError Unit
  | [] =>
    match within with
    | some b => .error (.unclosed b)
    | none => .ok ()
  | c :: rest =>
    if c = '(' ∨ c = '[' then
      if within.isSome then .error (.nested c position)
      else matchBrackets (position + 1) (some c) rest
    else if c = ')' ∨ c = ']' then
      if within = some (if c = ')' then '(' else '[') then matchBrackets (position + 1) none rest
      else .error (.unmatched c position)
    else matchBrackets (position + 1) within rest

-- ============================================================ dialects

/-- The throws of a text of pairs, `(a,b)`, either side of which may
carry the crossing mark `x`. -/
def pairLetters? : List Char → Option (List Char)
  | [] => some []
  | '(' :: a :: ',' :: b :: ')' :: rest => pair a b (pairLetters? rest)
  | '(' :: a :: 'x' :: ',' :: b :: ')' :: rest => pair a b (pairLetters? rest)
  | '(' :: a :: ',' :: b :: 'x' :: ')' :: rest => pair a b (pairLetters? rest)
  | '(' :: a :: 'x' :: ',' :: b :: 'x' :: ')' :: rest => pair a b (pairLetters? rest)
  | _ => none
where
  pair (a b : Char) (rest : Option (List Char)) : Option (List Char) :=
    if Alphabet.isLetter a && Alphabet.isLetter b then rest.map (a :: b :: ·) else none

/-- The throws of a multiplex text `whole`, of which `s` is left, at
`position`. `group` holds where the open group began and its characters
so far, the last one first. -/
def groupLetters (whole : List Char) (position : Nat) (group : Option (Nat × List Char)) :
    List Char → Except SyntaxError (List Char)
  | [] =>
    match group with
    | some _ => .error (.unclosed '[')
    | none => .ok []
  | c :: rest =>
    match group with
    | some (start, letters) =>
      if c = ']' then
        if letters ≠ [] ∧ letters.all Alphabet.isLetter then
          (groupLetters whole (position + 1) none rest).map (letters.reverse ++ ·)
        else .error (.badGroup letters.reverse start)
      else groupLetters whole (position + 1) (some (start, c :: letters)) rest
    | none =>
      if c = '[' then groupLetters whole (position + 1) (some (position, [])) rest
      else if Alphabet.isLetter c then
        (groupLetters whole (position + 1) none rest).map (c :: ·)
      else .error (.unexpected c position whole)

/-- The throws of a text in normal form, by the rules of its dialect. -/
def letters (d : Dialect) (s : List Char) : Except SyntaxError (List Char) :=
  match d with
  | .async => .ok s
  | .sync =>
    match pairLetters? s with
    | some ls => .ok ls
    | none => .error (.notPairs s)
  | .multiplex => groupLetters s 0 none s
  | .invalid => .error (.noDialect s)

def ofNormal (s : List Char) : Except SyntaxError Pattern := do
  matchBrackets 0 none s
  let ls ← letters (classify s) s
  return { dialect := classify s, throws := .ofLetters ls, text := s }

/-- The pattern that was typed. -/
def read (typed : Typed) : Except SyntaxError Pattern :=
  if typed.isBlank then .error .empty
  else
    let s := (typed.getD "").toList
    if normalize s = [] then .error (.noNotation s)
    else ofNormal (normalize s)

-- ============================================================ features

variable (p : Pattern)

/-- Whether several throws are made at one beat. -/
def hasMultiplex : Bool :=
  p.dialect = .multiplex || p.text.contains '['

/-- Whether both hands throw at once. -/
def hasSynchronous : Bool :=
  p.dialect = .sync || p.text.contains '('

def normalText : String :=
  String.ofList p.text

/-- The pattern with its dialect. -/
def render : String :=
  "ParsedPattern(" ++ p.dialect.name ++ ", " ++ String.ofList (Text.quoted p.text) ++ ")"

end Pattern

end Siteswap
