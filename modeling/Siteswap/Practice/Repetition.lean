/-
Repetition in the text of a pattern: the shortest text that it repeats,
and the other texts that repeat it.
-/
import Siteswap.Rotation

namespace Siteswap.Practice

/-- The shortest text of which `s` is a repetition. -/
def base (s : String) : String :=
  String.ofList (Rotation.root s.toList)

def isRepeating (s : String) : Bool :=
  (base s).length < s.length

def defaultRepetitions : Int := 6

/-- The base of `s`, once up to `most` times. -/
def repetitions (s : String) (most : Int) : List String :=
  (List.range most.toNat).map fun k =>
    String.ofList (Rotation.repeated (k + 1) (Rotation.root s.toList))

end Siteswap.Practice
