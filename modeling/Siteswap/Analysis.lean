/-
Analyses: the figures of a valid pattern with what its throws show.
-/
import Siteswap.Difficulty
import Siteswap.Validity.Verdict

namespace Siteswap

/-- What is known of a valid pattern. The average height is the number of
objects. -/
structure Analysis where
  objects : Int
  period : Nat
  difficulty : Rat
  variance : Rat
  maxHeight : Int
  minHeight : Int
  dialect : Dialect
  hasMultiplex : Bool
  hasSynchronous : Bool
  throws : List Int
  deriving DecidableEq

namespace Analysis

/-- The analysis of a pattern whose figures are known. -/
def ofFigures (p : Pattern) (f : Figures) : Analysis where
  objects := f.objects
  period := f.period
  difficulty := Difficulty.grade p.dialect p.throws.heights
  variance := f.variance
  maxHeight := p.throws.heights.max?.getD 0
  minHeight := p.throws.heights.min?.getD 0
  dialect := p.dialect
  hasMultiplex := p.hasMultiplex
  hasSynchronous := p.hasSynchronous
  throws := p.throws.heights

/-- The analysis of a pattern, if it is valid. -/
def ofPattern? (p : Pattern) : Option Analysis :=
  match (Verdict.ofPattern p).outcome with
  | .ok f => some (ofFigures p f)
  | .error _ => none

def ofTyped? (typed : Typed) : Option Analysis :=
  match Pattern.read typed with
  | .ok p => ofPattern? p
  | .error _ => none

end Analysis

end Siteswap
