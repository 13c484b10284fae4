/-
Difficulty: a grade from 1 to 10 for the heights of a pattern.

High throws, a wide spread of heights and a long period make a pattern
hard, each with a weight of its own; so do both hands at once, several
throws at once, very high throws and empty beats. The weights are a
matter of presentation.
-/
import Siteswap.Pattern.Dialect
import Siteswap.Spread

namespace Siteswap.Difficulty

/-- The greatest of some floats. -/
def highest : List Float → Float
  | [] => 0
  | x :: xs => xs.foldl (fun a b => if a < b then b else a) x

/-- What a dialect and special throws add. -/
def bonus (d : Dialect) (xs : List Float) : Float :=
  let b : Float := 0
  let b := if d = .sync then b + 0.5 else b
  let b := if d = .multiplex then b + 0.7 else b
  let b := if highest xs ≥ 7 then b + 0.3 else b
  if xs.any (· == 0) then b + 0.2 else b

def weight (d : Dialect) (xs : List Float) : Float :=
  0.4 * Spread.mean xs + 0.3 * Spread.variance xs
    + 0.2 * Float.log (Float.ofNat (xs.length + 1)) + 0.1 * bonus d xs

/-- The grade of floats as heights, the lowest where there are none. -/
def score (d : Dialect) (xs : List Float) : Float :=
  if xs = [] then 1
  else
    let w := weight d xs
    let w := if 1 > w then 1 else w
    if 10 < w then 10 else w

/-- The grade of any whole numbers as heights. -/
def score? (d : Dialect) (hs : List Int) : Except Number.Error Float :=
  (Spread.floats? hs).map (score d)

/-- A number brought into the range of grades. -/
def clamp (q : Rat) : Rat :=
  if q < 1 then 1 else if 10 < q then 10 else q

/-- The grade of heights, as an exact number. -/
def grade (d : Dialect) (hs : List Int) : Rat :=
  clamp (Number.rational (score d (Spread.floats hs)))

-- ============================================================== levels

inductive Level where
  | easy
  | medium
  | hard
  deriving DecidableEq

def level (q : Rat) : Level :=
  if q < 3 then .easy else if q < 6 then .medium else .hard

namespace Level

def name : Level → String
  | easy => "easy"
  | medium => "medium"
  | hard => "hard"

/-- Whom a level is for. -/
def audience : Level → String
  | easy => "beginner"
  | medium => "intermediate"
  | hard => "advanced"

end Level

end Siteswap.Difficulty
