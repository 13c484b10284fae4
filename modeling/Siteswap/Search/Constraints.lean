/-
Constraints on the heights of patterns that are searched for, and on the
number of attempts.
-/
import Siteswap.Search.Error

namespace Siteswap.Search

/-- Limits that leave at least one height, zero perhaps excepted. -/
structure Constraints where
  minHeight : Int
  maxHeight : Int
  includeZeros : Bool
  maxAttempts : Int
  min_nonneg : 0 ≤ minHeight := by decide
  min_le_max : minHeight ≤ maxHeight := by decide
  max_le : maxHeight ≤ Alphabet.maxHeight := by decide
  one_le_attempts : 1 ≤ maxAttempts := by decide
  deriving DecidableEq

/-- The upper limit for `objects` objects if none is given: twice their
number, as far as there are letters, but not below the lower limit. -/
def defaultMaxHeight (objects minHeight : Int) : Int :=
  max (min (objects * 2) Alphabet.maxHeight) minHeight

theorem minHeight_le_default (objects minHeight : Int) :
    minHeight ≤ defaultMaxHeight objects minHeight :=
  Int.le_max_right _ _

theorem defaultMaxHeight_le (objects minHeight : Int) (h : minHeight ≤ Alphabet.maxHeight) :
    defaultMaxHeight objects minHeight ≤ Alphabet.maxHeight :=
  Int.max_le.mpr ⟨Int.min_le_right _ _, h⟩

namespace Constraints

def defaultAttempts : Int := 1000

/-- The upper limit if neither it nor the number of objects is given. -/
def defaultMax : Int := 6

/-- The constraints of these limits, or the first thing wrong with
them. -/
def ofLimits (minHeight maxHeight : Int) (includeZeros : Bool) (maxAttempts : Int) :
    Except Error Constraints :=
  if h₁ : minHeight < 0 ∨ maxHeight < 0 then .error .negativeHeight
  else if h₂ : Alphabet.maxHeight < maxHeight then .error (.tooHigh maxHeight)
  else if h₃ : maxHeight < minHeight then .error (.crossed minHeight maxHeight)
  else if h₄ : maxAttempts < 1 then .error .noAttempts
  else .ok {
    minHeight, maxHeight, includeZeros, maxAttempts
    min_nonneg := by omega
    min_le_max := by omega
    max_le := by omega
    one_le_attempts := by omega }

/-- The constraints of these limits, the upper one as is usual for
`objects` objects if it is not given. -/
def ofLimitsFor (objects minHeight : Int) (maxHeight : Option Int) (includeZeros : Bool)
    (maxAttempts : Int) : Except Error Constraints :=
  ofLimits minHeight (maxHeight.getD (defaultMaxHeight objects minHeight)) includeZeros maxAttempts

def usual (objects : Int) : Constraints where
  minHeight := 0
  maxHeight := defaultMaxHeight objects 0
  includeZeros := false
  maxAttempts := defaultAttempts
  min_le_max := minHeight_le_default objects 0
  max_le := defaultMaxHeight_le objects 0 (by decide)

/-- The least height that is allowed. -/
def lowest (c : Constraints) : Int :=
  if c.minHeight = 0 ∧ c.includeZeros = false then 1 else c.minHeight

end Constraints

end Siteswap.Search
