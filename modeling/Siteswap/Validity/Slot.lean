/-
Landing slots: where and in which hand a throw comes down.

A throw of height `h` at beat `i` is caught `h` beats later. Beats are
counted within the period; hands alternate, so a throw changes hands when
its height is odd.
-/
import Siteswap.Number.Error

namespace Siteswap

/-- A beat of the period and a hand. -/
structure Slot where
  beat : Int
  hand : Int
  deriving DecidableEq

namespace Slot

/-- The slot in which a throw lands; periods may be negative and count
beats downwards then. -/
def landing (period beat height : Int) : Slot where
  beat := (beat + height).fmod period
  hand := (beat.fmod 2 + height).fmod 2

/-- The slot in which a throw lands, if there are beats to count. -/
def landing? (period beat height : Int) : Except Number.Error Slot :=
  if period = 0 then .error .zeroModulus else .ok (landing period beat height)

end Slot

end Siteswap
