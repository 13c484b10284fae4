/-
Rounding to the nearest whole number, a half going to the even
neighbour.
-/
namespace Siteswap.Number

/-- The quotient `num / den`, rounded to nearest, halves to even. -/
def halfEven (num den : Nat) : Nat :=
  let whole := num / den
  let rest := num % den
  if 2 * rest < den then whole
  else if den < 2 * rest then whole + 1
  else whole + whole % 2

end Siteswap.Number
