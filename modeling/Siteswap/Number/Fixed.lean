/-
Numbers with a fixed count of decimals: the exact value, rounded to
nearest, halves to even. A negative number keeps its sign also when all
its digits are zero.
-/
import Siteswap.Number.Binary64

namespace Siteswap.Number

/-- The last `width` decimal digits of `n`, with leading zeros. -/
def padded : (width : Nat) → (n : Nat) → List Char
  | 0, _ => []
  | width + 1, n => padded width (n / 10) ++ [Nat.digitChar (n % 10)]

/-- `n / 10 ^ places`, written out. -/
def pointed (places n : Nat) : List Char :=
  Nat.toDigits 10 (n / Nat.pow 10 places)
    ++ if places = 0 then [] else '.' :: padded places (n % Nat.pow 10 places)

/-- `q` to `places` decimals. -/
def fixed (places : Nat) (q : Rat) : String :=
  let digits := pointed places (halfEven (q.num.natAbs * Nat.pow 10 places) q.den)
  String.ofList (if q.num < 0 then '-' :: digits else digits)

/-- `x` to `places` decimals; a negative zero keeps its sign, and what is
no finite number is named. -/
def fixedFloat (places : Nat) (x : Float) : String :=
  match Parts.ofFloat? x with
  | some p => if p.negative then "-" ++ fixed places p.magnitude else fixed places p.magnitude
  | none => if x.isNaN then "nan" else if x < 0 then "-inf" else "inf"

end Siteswap.Number
