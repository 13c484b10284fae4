/-
Verdicts: a pattern passes all checks and has figures, or it fails with
all findings against it.
-/
import Siteswap.Pattern.Reader
import Siteswap.Spread
import Siteswap.Validity.Checks

namespace Siteswap

/-- The figures of a valid pattern. The average height is the number of
objects. -/
structure Figures where
  objects : Int
  period : Nat
  variance : Rat
  deriving DecidableEq

/-- The outcome of validation, with the dialect it is for. -/
structure Verdict where
  dialect : Dialect
  outcome : Except (List Diagnostic) Figures

namespace Verdict

/-- The figures of a sequence that passes the checks. -/
def figures (s : Sequence) : Figures where
  objects := s.total.fdiv s.period
  period := s.period
  variance := Number.rational (Spread.variance (Spread.floats s.heights))

def findings (s : Sequence) : List Diagnostic :=
  if s.heights = [] then [.noThrows] else Checks.all s.heights

def ofSequence (d : Dialect) (s : Sequence) : Verdict where
  dialect := d
  outcome := if findings s = [] then .ok (figures s) else .error (findings s)

/-- The verdict on heights, if they are in range. -/
def ofHeights (d : Dialect) (hs : List Int) : Except Sequence.Error Verdict :=
  (Sequence.ofHeights hs).map (ofSequence d)

def ofPattern (p : Pattern) : Verdict :=
  ofSequence p.dialect p.throws

def ofTyped (typed : Typed) : Verdict :=
  match Pattern.read typed with
  | .error e => { dialect := .invalid, outcome := .error [.unreadable e] }
  | .ok p => ofPattern p

def isValid (v : Verdict) : Bool :=
  match v.outcome with
  | .ok _ => true
  | .error _ => false

/-- All findings, none for a valid pattern. -/
def diagnostics (v : Verdict) : List Diagnostic :=
  match v.outcome with
  | .ok _ => []
  | .error ds => ds

end Verdict

end Siteswap
