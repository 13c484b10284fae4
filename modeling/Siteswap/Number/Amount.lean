/-
Amounts: whole numbers of any size and floats, side by side.

Amounts compare by their exact values, of whichever kind they are.
Whole numbers subtract exactly, any other pair as floats do; then a whole
number that no float comes near has no difference.
-/
import Siteswap.Number.Binary64
import Siteswap.Number.Error

namespace Siteswap.Number

/-- A whole number or a float. -/
inductive Amount where
  | whole (n : Int)
  | float (x : Float)

namespace Amount

/-- The exact value of an amount, if it is finite. -/
def value? : Amount → Option Rat
  | whole n => some n
  | float x => rational? x

/-- The float nearest to an amount. -/
def toFloat : Amount → Float
  | whole n => Float.ofInt n
  | float x => x

/-- The float nearest to an amount, if floats reach that far. -/
def float? : Amount → Except Error Float
  | whole n => if (Float.ofInt n).isFinite then .ok (Float.ofInt n) else .error .integerTooLarge
  | float x => .ok x

/-- Whether `a` lies below `b`. What is not a number lies below nothing,
and nothing below it. -/
def below (a b : Amount) : Bool :=
  match a.value?, b.value? with
  | some p, some q => p < q
  | some _, none => 0 < b.toFloat
  | none, some _ => a.toFloat < 0
  | none, none => a.toFloat < b.toFloat

/-- Whether two amounts are one. What is not finite is one with itself. -/
def same (a b : Amount) : Bool :=
  match a.value?, b.value? with
  | some p, some q => p = q
  | none, none => a.toFloat.toBits = b.toFloat.toBits
  | _, _ => false

/-- The difference of two amounts. -/
def minus (a b : Amount) : Except Error Amount :=
  match a, b with
  | whole m, whole n => .ok (whole (m - n))
  | a, b => do
    let x ← a.float?
    let y ← b.float?
    return float (x - y)

end Amount

end Siteswap.Number
