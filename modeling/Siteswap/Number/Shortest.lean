/-
The shortest decimal of a float: of all decimals that round to it, those
with the fewest digits, and of these the nearest.

A float owns an interval of numbers, from halfway to its neighbour below
to halfway to its neighbour above; the ends belong to it when its
mantissa is even. Grids of 1, 2, … significant digits are tried in turn.
Only the two grid points around the float can lie in the interval if any
does.
-/
import Siteswap.Number.Binary64

namespace Siteswap.Number

-- ==================================================== the interval

/-- The numbers that round to one positive float. -/
structure Interval where
  lower : Rat
  upper : Rat
  closed : Bool

namespace Interval

/-- The interval of a positive float. Below a power of two the neighbour
is half as far away. -/
def ofParts (p : Parts) : Interval where
  lower :=
    if p.mantissa = leadingOne ∧ -1074 < p.exponent then
      scaled (4 * p.mantissa - 1) (p.exponent - 2)
    else scaled (4 * p.mantissa - 2) (p.exponent - 2)
  upper := scaled (4 * p.mantissa + 2) (p.exponent - 2)
  closed := p.mantissa % 2 = 0

/-- Whether `x` rounds to the float. -/
def holds (i : Interval) (x : Rat) : Bool :=
  if i.closed then i.lower ≤ x ∧ x ≤ i.upper else i.lower < x ∧ x < i.upper

end Interval

-- ================================================== decimals and grids

/-- `digits * 10 ^ exponent`. -/
structure Decimal where
  digits : Nat
  exponent : Int

namespace Decimal

/-- The number that a decimal writes. -/
def value (d : Decimal) : Rat :=
  (d.digits : Rat) * (10 : Rat) ^ d.exponent

/-- The same number, without zeros at the end of its digits. -/
def stripped (d : Decimal) : Decimal :=
  if _ : d.digits ≠ 0 ∧ d.digits % 10 = 0 then stripped ⟨d.digits / 10, d.exponent + 1⟩ else d
termination_by d.digits
decreasing_by omega

/-- The least power of ten above `v`, sought near its power of two. -/
def scale (v : Rat) : Int :=
  let guess := Int.fdiv (leadingBit v.num.natAbs v.den * 30103) 100000
  ([guess - 1, guess, guess + 1, guess + 2].find? fun k => v < (10 : Rat) ^ k).getD (guess + 3)

/-- The decimal of `n` digits that rounds to the float of value `v`, if
one does; of two the nearer, of two as near the even one. -/
def onGrid? (i : Interval) (v : Rat) (n : Nat) : Option Decimal :=
  let e := scale v - n
  let below : Decimal := ⟨(v / (10 : Rat) ^ e).floor.toNat, e⟩
  let above : Decimal := ⟨below.digits + 1, e⟩
  match i.holds below.value, i.holds above.value with
  | true, true =>
    let toBelow := v - below.value
    let toAbove := above.value - v
    if toBelow < toAbove then some below
    else if toAbove < toBelow then some above
    else if below.digits % 2 = 0 then some below else some above
  | true, false => some below
  | false, true => some above
  | false, false => none

/-- All digits of the number, for a float with no decimal of seventeen
digits (there is none). -/
def full (p : Parts) : Decimal :=
  if 0 ≤ p.exponent then ⟨p.mantissa <<< p.exponent.toNat, 0⟩
  else ⟨p.mantissa * Nat.pow 5 (-p.exponent).toNat, p.exponent⟩

/-- The shortest decimal of a float without its sign. -/
def shortest (p : Parts) : Decimal :=
  if p.mantissa = 0 then ⟨0, 0⟩
  else
    let found := (List.range 17).findSome? fun n => onGrid? (.ofParts p) p.magnitude (n + 1)
    (found.getD (full p)).stripped

-- ========================================================== the layout

/-- The exponent of a scientific decimal: a sign and at least two
digits. -/
def exponentText (e : Int) : List Char :=
  let digits := Nat.toDigits 10 e.natAbs
  (if e < 0 then '-' else '+') :: (if digits.length < 2 then '0' :: digits else digits)

/-- A decimal written out. From `10 ^ -4` up to `10 ^ 16` all places are
written, with at least one after the point; beyond that one digit stands
before the point and the rest is an exponent. -/
def text (d : Decimal) : List Char :=
  let digits := Nat.toDigits 10 d.digits
  let leading : Int := d.exponent + digits.length - 1
  if leading < -4 ∨ 16 ≤ leading then
    digits.take 1 ++ (if digits.length = 1 then [] else '.' :: digits.drop 1)
      ++ 'e' :: exponentText leading
  else if 0 ≤ d.exponent then
    digits ++ List.replicate d.exponent.toNat '0' ++ ['.', '0']
  else if 0 ≤ leading then
    digits.take (leading.toNat + 1) ++ '.' :: digits.drop (leading.toNat + 1)
  else
    '0' :: '.' :: List.replicate (-leading - 1).toNat '0' ++ digits

end Decimal

end Siteswap.Number
