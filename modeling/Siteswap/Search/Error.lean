/-
What cannot be searched for, and how that is put into words.
-/
import Siteswap.Alphabet

namespace Siteswap.Search

/-- The greatest length of exhaustive enumeration. -/
def maxEnumerated : Int := 3

/-- Why there is nothing to search. -/
inductive Error where
  /-- a limit on heights is negative -/
  | negativeHeight
  /-- the upper limit has no letter -/
  | tooHigh (maxHeight : Int)
  /-- the limits exclude each other -/
  | crossed (minHeight maxHeight : Int)
  /-- not a single attempt is allowed -/
  | noAttempts
  /-- fewer than no objects -/
  | negativeObjects
  /-- fewer than one beat -/
  | noBeats
  /-- too many beats to enumerate -/
  | tooLong
  /-- more throws to look ahead than there is depth for -/
  | tooDeep
  deriving DecidableEq

def Error.message : Error → String
  | negativeHeight => "Throw heights must be non-negative"
  | tooHigh m => "max_height " ++ toString m ++ " exceeds " ++ toString Alphabet.maxHeight
  | crossed a b => "min_height " ++ toString a ++ " is greater than max_height " ++ toString b
  | noAttempts => "max_attempts must be at least 1"
  | negativeObjects => "object_count must be non-negative"
  | noBeats => "length must be at least 1"
  | tooLong => "Exhaustive enumeration is limited to length <= " ++ toString maxEnumerated
  | tooDeep => "maximum recursion depth exceeded in comparison"

end Siteswap.Search
