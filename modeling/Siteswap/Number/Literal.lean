/-
Whole numbers as people write them: blanks around, one sign, and decimal
digits of any script (Unicode 14), with single underscores between
digits. There is a limit to the number of digits, which may be off.
-/
import Siteswap.Text.Blank

namespace Siteswap.Number

/-- The zero of every script's ten decimal digits, which follow each
other. -/
def zeros : List Nat := [
  0x30, 0x660, 0x6F0, 0x7C0, 0x966, 0x9E6, 0xA66, 0xAE6, 0xB66, 0xBE6,
  0xC66, 0xCE6, 0xD66, 0xDE6, 0xE50, 0xED0, 0xF20, 0x1040, 0x1090, 0x17E0,
  0x1810, 0x1946, 0x19D0, 0x1A80, 0x1A90, 0x1B50, 0x1BB0, 0x1C40, 0x1C50, 0xA620,
  0xA8D0, 0xA900, 0xA9D0, 0xA9F0, 0xAA50, 0xABF0, 0xFF10, 0x104A0, 0x10D30, 0x11066,
  0x110F0, 0x11136, 0x111D0, 0x112F0, 0x11450, 0x114D0, 0x11650, 0x116C0, 0x11730, 0x118E0,
  0x11950, 0x11C50, 0x11D50, 0x11DA0, 0x16A60, 0x16AC0, 0x16B50, 0x1D7CE, 0x1D7D8, 0x1D7E2,
  0x1D7EC, 0x1D7F6, 0x1E140, 0x1E2F0, 0x1E950, 0x1FBF0]

/-- The value of a decimal digit. -/
def digit? (c : Char) : Option Nat :=
  (zeros.find? fun z => z ≤ c.toNat && c.toNat < z + 10).map (c.toNat - ·)

/-- Blanks that may surround a number: white space but for the
information separators. -/
def isMargin (c : Char) : Bool :=
  Text.isBlank c && !(0x1C ≤ c.toNat && c.toNat ≤ 0x1F)

/-- The greatest count of digits that is read or written where there is a
limit. -/
def maxDigits : Nat := 4300

/-- Whether whole numbers of too many digits are refused. -/
inductive DigitLimit where
  | usual
  | off
  deriving DecidableEq

/-- Whether so many digits are read and written. -/
def DigitLimit.allows : DigitLimit → Nat → Bool
  | usual, digits => digits ≤ maxDigits
  | off, _ => true

/-- Why a text is no whole number. -/
inductive LiteralError where
  /-- something else than digits -/
  | malformed
  /-- more digits than are read -/
  | tooLong (digits : Nat)
  deriving DecidableEq

/-- Whether `c` may stand in a number behind its sign. -/
def isFigure (c : Char) : Bool :=
  c = '_' || (digit? c).isSome

/-- Whether no underscore is the last character or beside another one. -/
def separated : List Char → Bool
  | [] => true
  | ['_'] => false
  | '_' :: '_' :: _ => false
  | _ :: rest => separated rest

/-- A number without sign, and the blanks behind it. Its digits are
counted before anyone looks at what follows them. -/
def unsigned (limit : DigitLimit) (s : List Char) : Except LiteralError Nat :=
  let figures := s.takeWhile isFigure
  let digits := figures.filterMap digit?
  if figures.head? = some '_' || !separated figures then .error .malformed
  else if !limit.allows digits.length then .error (.tooLong digits.length)
  else if digits = [] || !(s.dropWhile isFigure).all isMargin then .error .malformed
  else .ok (digits.foldl (fun n d => 10 * n + d) 0)

/-- A number with at most one sign. -/
def signed (limit : DigitLimit) : List Char → Except LiteralError Int
  | '-' :: rest => (unsigned limit rest).map fun n => -(n : Int)
  | '+' :: rest => (unsigned limit rest).map Int.ofNat
  | s => (unsigned limit s).map Int.ofNat

/-- The whole number that `s` writes. -/
def wholeNumber (s : List Char) (limit : DigitLimit := .usual) : Except LiteralError Int :=
  signed limit (s.dropWhile isMargin)

end Siteswap.Number
