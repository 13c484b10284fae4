/-
A clock, as it is seen by someone who reads it now and then.

Its readings need not be evenly spaced, nor grow: who uses a clock has to
do with any readings. Whole numbers and floats may take turns; only a
whole number that no float comes near does not go with a float, so that
any two readings of one clock have a difference.
-/
import Siteswap.Number.Amount

namespace Siteswap

open Number (Amount)

/-- What a clock will show, the next reading first. -/
structure Clock where
  readings : Nat → Amount
  differ : ∀ i j, ∃ age, (readings i).minus (readings j) = .ok age

namespace Clock

def whole (readings : Nat → Int) : Clock where
  readings := fun i => .whole (readings i)
  differ := fun _ _ => ⟨_, rfl⟩

def float (readings : Nat → Float) : Clock where
  readings := fun i => .float (readings i)
  differ := fun _ _ => ⟨_, rfl⟩

def still : Amount → Clock
  | .whole n => whole fun _ => n
  | .float x => float fun _ => x

/-- The clock after a reading. -/
def next (c : Clock) : Clock where
  readings := fun i => c.readings (i + 1)
  differ := fun i j => c.differ (i + 1) (j + 1)

/-- The next reading, and the clock after it. -/
def read (c : Clock) : Amount × Clock :=
  (c.readings 0, c.next)

end Clock

end Siteswap
