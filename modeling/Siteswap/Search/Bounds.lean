/-
Bounds: which heights the next throw may have, so that the throws behind
it can still bring the sum to its target.
-/
import Siteswap.Search.Constraints

namespace Siteswap.Search

/-- The least and the greatest height of the next throw, when `total` is
reached and `remaining` throws are to come, it included. There is none
when the first exceeds the second. -/
def heightBounds (target total remaining lowest highest : Int) : Int × Int :=
  (max lowest (target - total - (remaining - 1) * highest),
   min highest (target - total - (remaining - 1) * lowest))

/-- The whole numbers from `lo` to `hi`, ascending. -/
def span (lo hi : Int) : List Int :=
  (List.range (hi + 1 - lo).toNat).map fun (i : Nat) => lo + i

/-- What is searched: the sum to reach and the heights to use. -/
structure Task where
  target : Int
  lowest : Int
  highest : Int

namespace Task

/-- The task for `objects` objects in `length` beats: an average height
of `objects`. -/
def ofConstraints (objects length : Int) (c : Constraints) : Task where
  target := objects * length
  lowest := c.lowest
  highest := c.maxHeight

/-- The heights that the next throw may have. -/
def heights (t : Task) (total : Int) (remaining : Nat) : List Int :=
  let (lo, hi) := heightBounds t.target total remaining t.lowest t.highest
  span lo hi

end Task

/-- Whether objects and length make sense. -/
def checkArguments (objects length : Int) : Except Error Unit :=
  if objects < 0 then .error .negativeObjects
  else if length < 1 then .error .noBeats
  else .ok ()

end Siteswap.Search
