/-
Binary floating point of 64 bits, read as exact rational numbers.

`rational?` is the number that a float stands for, `nearest` the number of
that kind that lies nearest to a quotient. Reported figures are kept as
the rationals they stand for, so that they compare and print exactly.
-/
import Siteswap.Number.HalfEven

namespace Siteswap.Number

/-- A finite float: `mantissa * 2 ^ exponent`, and a sign that zero has
too. -/
structure Parts where
  negative : Bool
  mantissa : Nat
  exponent : Int

/-- `m * 2 ^ q`. -/
def scaled (m : Nat) (q : Int) : Rat :=
  (m : Rat) * (2 : Rat) ^ q

/-- The leading bit of a full mantissa, the 53rd. -/
def leadingOne : Nat := 0x10000000000000

namespace Parts

/-- The parts that the 64 bits of `x` hold; none for an infinity and for
what is not a number. -/
def ofFloat? (x : Float) : Option Parts :=
  let bits := x.toBits.toNat
  let biased : Nat := (bits / leadingOne) % 2048
  let fraction : Nat := bits % leadingOne
  if biased = 2047 then none
  else if biased = 0 then some ⟨bits.testBit 63, fraction, -1074⟩
  else some ⟨bits.testBit 63, leadingOne + fraction, (biased : Int) - 1075⟩

/-- The number without its sign. -/
def magnitude (p : Parts) : Rat :=
  scaled p.mantissa p.exponent

def value (p : Parts) : Rat :=
  if p.negative then -p.magnitude else p.magnitude

end Parts

/-- The rational number that a finite float stands for. -/
def rational? (x : Float) : Option Rat :=
  (Parts.ofFloat? x).map Parts.value

/-- The rational number that a float stands for, zero for one that is not
finite. -/
def rational (x : Float) : Rat :=
  (rational? x).getD 0

/-- The exponent of the leading bit of `num / den`. -/
def leadingBit (num den : Nat) : Int :=
  let guess : Int := (num.log2 : Int) - den.log2
  if num <<< (-guess).toNat < den <<< guess.toNat then guess - 1 else guess

/-- The number of 53 bits nearest to `num / den`, halves to even. Bits
below `2 ^ -1074` do not exist; large numbers have no limit here. -/
def nearestMagnitude (num den : Nat) : Rat :=
  if num = 0 then 0
  else
    let q := max (leadingBit num den - 52) (-1074)
    scaled (halfEven (num <<< (-q).toNat) (den <<< q.toNat)) q

/-- The number of 53 bits nearest to `num / den`. -/
def nearest (num : Int) (den : Nat) : Rat :=
  if num < 0 then -nearestMagnitude num.natAbs den else nearestMagnitude num.natAbs den

/-- The least power of two beyond all finite floats. -/
def overflow : Rat := (2 : Rat) ^ (1024 : Int)

/-- Whether rounding `num / den` leaves the range of finite floats. -/
def overflows (num : Int) (den : Nat) : Bool :=
  overflow ≤ nearestMagnitude num.natAbs den

end Siteswap.Number
