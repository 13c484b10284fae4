/-
The advisor: all that is said about a pattern at once, for a caller who
types patterns and wants no more than answers.
-/
import Siteswap.Analysis
import Siteswap.Names.Lookup
import Siteswap.Search.Walk

namespace Siteswap

/-- What is said about a valid pattern. -/
structure Praise where
  figures : Figures
  difficulty : Rat
  canonical : Canonical

/-- The verdict on a pattern, and if it is valid its difficulty and its
canonical form. -/
structure Appraisal where
  dialect : Dialect
  outcome : Except (List Diagnostic) Praise

namespace Appraisal

def ofPattern (p : Pattern) : Appraisal where
  dialect := p.dialect
  outcome := (Verdict.ofPattern p).outcome.map fun f =>
    { figures := f
      difficulty := Difficulty.grade p.dialect p.throws.heights
      canonical := .ofPattern p }

def ofTyped (typed : Typed) : Appraisal :=
  match Pattern.read typed with
  | .error e => { dialect := .invalid, outcome := .error [.unreadable e] }
  | .ok p => ofPattern p

/-- What is said, if the pattern is valid. -/
def praise? (a : Appraisal) : Option Praise :=
  match a.outcome with
  | .ok p => some p
  | .error _ => none

end Appraisal

namespace Advisor

def isCanonical (typed : Typed) : Bool :=
  match Canonical.ofTyped typed with
  | .ok c => c.isAlready
  | .error _ => false

/-- All spellings that share a pattern's canonical form. -/
def equivalentForms (typed : Typed) : List String :=
  match Canonical.ofTyped typed with
  | .ok c => c.equivalent
  | .error _ => []

/-- The number of objects, none for what is not valid. -/
def objectCount (typed : Typed) : Int :=
  match (Appraisal.ofTyped typed).praise? with
  | some p => p.figures.objects
  | none => 0

/-- Whether both patterns are valid and share their canonical form. -/
def areEquivalent (a b : Typed) : Bool :=
  match (Appraisal.ofTyped a).praise?, (Appraisal.ofTyped b).praise? with
  | some p, some q => p.canonical.form = q.canonical.form
  | _, _ => false

/-- The canonical spelling of a valid pattern, with its name if it has
one, where another was typed. -/
def suggestion? (typed : Typed) : Option String :=
  match (Appraisal.ofTyped typed).praise? with
  | none => none
  | some p =>
    if p.canonical.isAlready then none
    else
      let question := "Did you mean '" ++ p.canonical.form ++ "'"
      match Names.lookup? (some p.canonical.form) with
      | some (name, _) => some (question ++ " (" ++ name ++ ")?")
      | none => some (question ++ "?")

/-- A pattern under limits that are given one by one. -/
def generate {σ : Type} (sh : Shuffler σ) (orderedFirst : Bool) (objects length minHeight : Int)
    (maxHeight : Option Int) (includeZeros : Bool) (maxAttempts : Int) (source : σ) :
    Except Search.Error (Option Sequence × σ) := do
  let c ← Search.Constraints.ofLimitsFor objects minHeight maxHeight includeZeros maxAttempts
  Search.generate sh ⟨Search.defaultSteps, orderedFirst⟩ objects length (some c) source

end Advisor

end Siteswap
