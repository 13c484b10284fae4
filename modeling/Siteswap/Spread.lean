/-
Mean and variance of heights, in floating point.

Sums of floats depend on their order. Fewer than eight numbers are added
from the left. Up to 128, eight lanes take every eighth number each, the
lanes are added in pairs, and the numbers left over come last. Longer
lists are cut near the middle, at a multiple of eight, and the sums of
the two parts added.
-/
import Siteswap.Number.Binary64
import Siteswap.Number.Error

namespace Siteswap.Spread

-- ================================================================ sums

/-- Eight running sums. -/
structure Lanes where
  l0 : Float
  l1 : Float
  l2 : Float
  l3 : Float
  l4 : Float
  l5 : Float
  l6 : Float
  l7 : Float

namespace Lanes

/-- The lanes, added in pairs. -/
def total (l : Lanes) : Float :=
  ((l.l0 + l.l1) + (l.l2 + l.l3)) + ((l.l4 + l.l5) + (l.l6 + l.l7))

/-- Gives eight numbers at a time to the lanes, and adds those left over
to their total. -/
def run (l : Lanes) : List Float → Float
  | a :: b :: c :: d :: e :: f :: g :: h :: rest =>
    run ⟨l.l0 + a, l.l1 + b, l.l2 + c, l.l3 + d, l.l4 + e, l.l5 + f, l.l6 + g, l.l7 + h⟩ rest
  | rest => rest.foldl (· + ·) l.total

end Lanes

/-- The sum of at most 128 numbers. -/
def blockSum : List Float → Float
  | a :: b :: c :: d :: e :: f :: g :: h :: rest => Lanes.run ⟨a, b, c, d, e, f, g, h⟩ rest
  | xs => xs.foldl (· + ·) 0

def sum (xs : List Float) : Float :=
  if _ : xs.length ≤ 128 then blockSum xs
  else
    let half := xs.length / 2 - xs.length / 2 % 8
    sum (xs.take half) + sum (xs.drop half)
termination_by xs.length
decreasing_by all_goals simp only [List.length_take, List.length_drop]; omega

-- =========================================================== statistics

def mean (xs : List Float) : Float :=
  sum xs / Float.ofNat xs.length

/-- The variance over the whole population, zero where there is none. -/
def variance (xs : List Float) : Float :=
  if xs = [] then 0
  else
    let m := mean xs
    sum (xs.map fun x => (x - m) * (x - m)) / Float.ofNat xs.length

def floats (hs : List Int) : List Float :=
  hs.map Float.ofInt

/-- Heights as floats, if floats reach that far. -/
def floats? (hs : List Int) : Except Number.Error (List Float) :=
  if (floats hs).all Float.isFinite then .ok (floats hs) else .error .integerTooLarge

def variance? (hs : List Int) : Except Number.Error Float :=
  (floats? hs).map variance

end Siteswap.Spread
