/-
The lexemes of JSON: brackets, separators, and the values without parts.

Strings are read in two steps. Escapes become characters and halves of
characters; then two halves that make a pair become one character. Numbers
without a fraction and without an exponent are whole numbers, all others
floats; the words NaN, Infinity and -Infinity are numbers too. A whole
number with more digits than the limit allows is none.
-/
import Siteswap.Json.Value
import Siteswap.Number.Literal

namespace Siteswap.Json

open Number (DigitLimit)

/-- What a text is cut into. -/
inductive Lexeme where
  | openArray
  | closeArray
  | openObject
  | closeObject
  | comma
  | colon
  | scalar (v : Value)
  /-- what is no lexeme; nothing behind it is looked at -/
  | stray

-- ============================================================ strings

def hexValue? (c : Char) : Option Nat :=
  let n := c.toNat
  if 0x30 ≤ n ∧ n ≤ 0x39 then some (n - 0x30)
  else if 0x41 ≤ n ∧ n ≤ 0x46 then some (n - 0x41 + 10)
  else if 0x61 ≤ n ∧ n ≤ 0x66 then some (n - 0x61 + 10)
  else none

/-- The unit that four hexadecimal digits write. -/
def unit? (a b c d : Char) : Option Nat := do
  return (((← hexValue? a) * 16 + (← hexValue? b)) * 16 + (← hexValue? c)) * 16 + (← hexValue? d)

/-- The character of a short escape. -/
def unescaped? (c : Char) : Option Char :=
  if c = '"' then some '"'
  else if c = '\\' then some '\\'
  else if c = '/' then some '/'
  else if c = 'n' then some '\n'
  else if c = 'r' then some '\r'
  else if c = 't' then some '\t'
  else if c = 'b' then some '\x08'
  else if c = 'f' then some '\x0c'
  else none

/-- The points of a string up to its closing quote, one for each escape, and
what follows. Control characters must be escaped. -/
def pieces? : List Char → Option (List Point × List Char)
  | [] => none
  | '"' :: rest => some ([], rest)
  | '\\' :: 'u' :: a :: b :: c :: d :: rest => do
    let n ← unit? a b c d
    let (ps, after) ← pieces? rest
    return (.ofUnit n :: ps, after)
  | '\\' :: e :: rest => do
    let c ← unescaped? e
    let (ps, after) ← pieces? rest
    return (.char c :: ps, after)
  | c :: rest =>
    if c.toNat < 0x20 ∨ c = '\\' then none
    else do
      let (ps, after) ← pieces? rest
      return (.char c :: ps, after)

/-- A string behind its opening quote. -/
def string? (s : List Char) : Option (Points × List Char) :=
  (pieces? s).map fun (ps, after) => (.join ps, after)

-- ============================================================ numbers

/-- The number that decimal digits write. -/
def decimalValue (digits : List Char) : Nat :=
  digits.foldl (fun n c => 10 * n + (c.toNat - 0x30)) 0

/-- A run of digits that is not empty, and what follows. -/
def digits? (s : List Char) : Option (List Char × List Char) :=
  let ds := s.takeWhile Char.isDigit
  if ds = [] then none else some (ds, s.dropWhile Char.isDigit)

/-- The digits of a whole number, which has no zero in front. -/
def wholePart? : List Char → Option (List Char × List Char)
  | '0' :: rest => some (['0'], rest)
  | s => digits? s

/-- A point and the digits behind it, if both are there. -/
def fractionPart? : List Char → Option (List Char × List Char)
  | '.' :: s => digits? s
  | _ => none

/-- The digits of an exponent behind its sign. -/
def exponentDigits? (negative : Bool) (s : List Char) : Option (Int × List Char) :=
  (digits? s).map fun (ds, rest) =>
    (if negative then -(decimalValue ds : Int) else decimalValue ds, rest)

/-- An exponent, if one is there. -/
def exponentPart? : List Char → Option (Int × List Char)
  | c :: s =>
    if c = 'e' ∨ c = 'E' then
      match s with
      | '-' :: s => exponentDigits? true s
      | '+' :: s => exponentDigits? false s
      | s => exponentDigits? false s
    else none
  | [] => none

/-- The float nearest to `± m * 10 ^ e`. Far outside the range of floats
the power of ten is not formed. -/
def floatOf (negative : Bool) (m : Nat) (e : Int) : Float :=
  let size : Int := (Nat.toDigits 10 m).length + e
  let x :=
    if m = 0 ∨ size < -400 then 0.0
    else if 400 < size then 1.0 / 0.0
    else Float.ofScientific m (e < 0) e.natAbs
  if negative then -x else x

/-- A number behind its sign. -/
def unsigned? (digits : DigitLimit) (negative : Bool) (s : List Char) :
    Option (Value × List Char) := do
  let (whole, rest) ← wholePart? s
  match fractionPart? rest, exponentPart? rest with
  | none, none =>
    if !digits.allows whole.length then none
    else
      let n : Int := decimalValue whole
      return (.int (if negative then -n else n), rest)
  | none, some (e, rest) => return (.float (floatOf negative (decimalValue whole) e), rest)
  | some (fraction, rest), _ =>
    let m := decimalValue (whole ++ fraction)
    match exponentPart? rest with
    | none => return (.float (floatOf negative m (-fraction.length)), rest)
    | some (e, rest) => return (.float (floatOf negative m (e - fraction.length)), rest)

def number? (digits : DigitLimit) : List Char → Option (Value × List Char)
  | '-' :: s => unsigned? digits true s
  | s => unsigned? digits false s

-- ============================================================== words

/-- The words that are values. -/
def words : List (List Char × Value) :=
  [("null".toList, .null), ("true".toList, .bool true), ("false".toList, .bool false),
   ("NaN".toList, .float (0.0 / 0.0)), ("Infinity".toList, .float (1.0 / 0.0)),
   ("-Infinity".toList, .float (-1.0 / 0.0))]

/-- A word, and what follows. -/
def word? (s : List Char) : Option (Value × List Char) :=
  words.findSome? fun (w, v) => if w.isPrefixOf s then some (v, s.drop w.length) else none

/-- A value without parts, and what follows. -/
def scalar? (digits : DigitLimit) (s : List Char) : Option (Value × List Char) :=
  match s with
  | '"' :: rest => (string? rest).map fun (t, after) => (.text t, after)
  | s => (word? s).or (number? digits s)

-- ===================================================== what is left over

theorem length_lt_of_pieces? {s rest : List Char} {ps : List Point}
    (h : pieces? s = some (ps, rest)) : rest.length < s.length := by
  fun_induction pieces? s generalizing ps rest with
  | case1 => simp at h
  | case2 rest => simp_all
  | case3 a b c d rest ih =>
    simp only [Option.bind_eq_bind, Option.bind_eq_some_iff, Option.pure_def, Option.some.injEq,
      Prod.mk.injEq, Prod.exists] at h
    obtain ⟨_, _, _, _, hp, _, rfl⟩ := h
    have := ih hp
    simp only [List.length_cons]; omega
  | case4 e rest _ ih =>
    simp only [Option.bind_eq_bind, Option.bind_eq_some_iff, Option.pure_def, Option.some.injEq,
      Prod.mk.injEq, Prod.exists] at h
    obtain ⟨_, _, _, _, hp, _, rfl⟩ := h
    have := ih hp
    simp only [List.length_cons]; omega
  | case5 => simp at h
  | case6 c rest _ _ _ _ ih =>
    simp only [Option.bind_eq_bind, Option.bind_eq_some_iff, Option.pure_def, Option.some.injEq,
      Prod.mk.injEq, Prod.exists] at h
    obtain ⟨_, _, hp, _, rfl⟩ := h
    have := ih hp
    simp only [List.length_cons]; omega

theorem length_lt_of_digits? {s ds rest : List Char}
    (h : digits? s = some (ds, rest)) : rest.length < s.length := by
  unfold digits? at h
  simp only at h
  split at h
  · simp at h
  · rename_i hne
    obtain ⟨-, rfl⟩ : _ ∧ s.dropWhile Char.isDigit = rest := by simpa using h
    have hsplit := congrArg List.length (@List.takeWhile_append_dropWhile Char Char.isDigit s)
    have hpos := List.length_pos_iff.mpr hne
    rw [List.length_append] at hsplit
    omega

theorem length_lt_of_wholePart? {s ds rest : List Char}
    (h : wholePart? s = some (ds, rest)) : rest.length < s.length := by
  unfold wholePart? at h
  split at h
  · simp_all
  · exact length_lt_of_digits? h

theorem length_le_of_fractionPart? {s ds rest : List Char}
    (h : fractionPart? s = some (ds, rest)) : rest.length ≤ s.length := by
  unfold fractionPart? at h
  split at h
  · have := length_lt_of_digits? h
    simp only [List.length_cons]; omega
  · simp at h

theorem length_le_of_exponentDigits? {negative : Bool} {s rest : List Char} {e : Int}
    (h : exponentDigits? negative s = some (e, rest)) : rest.length ≤ s.length := by
  simp only [exponentDigits?, Option.map_eq_some_iff, Prod.exists] at h
  obtain ⟨ds, r, hd, h⟩ := h
  have := length_lt_of_digits? hd
  simp_all; omega

theorem length_le_of_exponentPart? {s rest : List Char} {e : Int}
    (h : exponentPart? s = some (e, rest)) : rest.length ≤ s.length := by
  unfold exponentPart? at h
  split at h
  · split at h
    · split at h <;> have := length_le_of_exponentDigits? h <;> simp_all only [List.length_cons]
        <;> omega
    · simp at h
  · simp at h

theorem length_lt_of_unsigned? {digits : DigitLimit} {negative : Bool} {s rest : List Char}
    {v : Value} (h : unsigned? digits negative s = some (v, rest)) : rest.length < s.length := by
  unfold unsigned? at h
  simp only [Option.bind_eq_bind, Option.bind_eq_some_iff, Prod.exists] at h
  obtain ⟨whole, r, hw, h⟩ := h
  have hr := length_lt_of_wholePart? hw
  split at h
  · simp_all
  · rename_i he
    have := length_le_of_exponentPart? he
    simp_all; omega
  · rename_i hf
    have := length_le_of_fractionPart? hf
    split at h
    · simp_all; omega
    · rename_i he
      have := length_le_of_exponentPart? he
      simp_all; omega

theorem length_lt_of_number? {digits : DigitLimit} {s rest : List Char} {v : Value}
    (h : number? digits s = some (v, rest)) : rest.length < s.length := by
  unfold number? at h
  split at h
  · have := length_lt_of_unsigned? h
    simp only [List.length_cons]; omega
  · exact length_lt_of_unsigned? h

theorem length_lt_of_word? {s rest : List Char} {v : Value}
    (h : word? s = some (v, rest)) : rest.length < s.length := by
  unfold word? at h
  obtain ⟨⟨w, v'⟩, hmem, h⟩ := List.exists_of_findSome?_eq_some h
  simp only at h
  split at h
  · rename_i hp
    obtain ⟨-, rfl⟩ : _ ∧ s.drop w.length = rest := by simpa using h
    have hle := (List.isPrefixOf_iff_prefix.mp hp).length_le
    have hpos : 0 < w.length := by
      have : ∀ e ∈ words, 0 < e.1.length := by simp [words]
      exact this _ hmem
    simp only [List.length_drop]; omega
  · simp at h

/-- Reading a value takes something away. -/
theorem length_lt_of_scalar? {digits : DigitLimit} {s rest : List Char} {v : Value}
    (h : scalar? digits s = some (v, rest)) : rest.length < s.length := by
  unfold scalar? at h
  split at h
  · simp only [string?, Option.map_map, Option.map_eq_some_iff, Prod.exists] at h
    obtain ⟨ps, after, hp, h⟩ := h
    have := length_lt_of_pieces? hp
    simp_all; omega
  · rcases Option.or_eq_some_iff.mp h with h | ⟨-, h⟩
    · exact length_lt_of_word? h
    · exact length_lt_of_number? h

-- ==================================================== a text in lexemes

/-- Blanks between lexemes. -/
def isSpace (c : Char) : Bool :=
  c = ' ' || c = '\t' || c = '\n' || c = '\r'

/-- Brackets and separators. -/
def mark? (c : Char) : Option Lexeme :=
  if c = '[' then some .openArray
  else if c = ']' then some .closeArray
  else if c = '{' then some .openObject
  else if c = '}' then some .closeObject
  else if c = ',' then some .comma
  else if c = ':' then some .colon
  else none

/-- The lexemes of a text, up to the first stray one. -/
def lexemes (digits : DigitLimit) (s : List Char) : List Lexeme :=
  match s with
  | [] => []
  | c :: rest =>
    if isSpace c then lexemes digits rest
    else match mark? c with
      | some m => m :: lexemes digits rest
      | none =>
        match _ : scalar? digits (c :: rest) with
        | none => [.stray]
        | some (v, after) => .scalar v :: lexemes digits after
termination_by s.length
decreasing_by
  all_goals first
    | exact length_lt_of_scalar? (by assumption)
    | simp

end Siteswap.Json
