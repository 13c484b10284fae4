/-
Candidates: the classics of an object count, and for each length what
random searches find.

The searches for one length share a twister seeded by object count and
length, so their results are always the same. They go on until enough
different patterns are found, too many in a row are known already, or
one finds nothing. Where a short length yields only a few, enumeration
fills up the list.
-/
import Siteswap.Catalog.Tables
import Siteswap.Random.Twister
import Siteswap.Search.Enumeration
import Siteswap.Search.Walk

namespace Siteswap.Catalog

/-- The patterns that random search collects for one length. -/
def maxFound : Nat := 20

/-- The searches for one length. -/
def maxDraws : Nat := 100

/-- The known patterns in a row after which searching stops. -/
def maxStale : Nat := 10

/-- The patterns below which enumeration follows. -/
def fewFound : Nat := 5

variable {σ : Type}

/-- At most `n` draws, from the patterns `found` so far and `stale` known
ones in a row. -/
def drawPatterns (draw : σ → Option Sequence × σ) :
    (n stale : Nat) → (found : List Sequence) → σ → List Sequence
  | 0, _, found, _ => found
  | n + 1, stale, found, source =>
    if maxFound ≤ found.length ∨ maxStale ≤ stale then found
    else match draw source with
      | (none, _) => found
      | (some s, source) =>
        if found.contains s then drawPatterns draw n (stale + 1) found source
        else drawPatterns draw n 0 (found ++ [s]) source

/-- Those of `more` that are not in `found` yet, added at its end. -/
def fillUp (found more : List Sequence) : List Sequence :=
  more.foldl (fun found s => if found.contains s then found else found ++ [s]) found

/-- The patterns of one length, whatever is drawn. -/
def patternsDrawn (draw : σ → Option Sequence × σ) (source : σ) (objects length : Int)
    (c : Search.Constraints) : Except Search.Error (List Sequence) := do
  Search.checkArguments objects length
  let found := drawPatterns draw maxDraws 0 [] source
  if found.length < fewFound ∧ length ≤ Search.maxEnumerated then
    return fillUp found (← Search.enumerate objects length (some c) Search.defaultResults)
  else return found

/-- One search as a draw. -/
def drawFrom (sh : Shuffler σ) (maxSteps : Int) (objects length : Int) (c : Search.Constraints)
    (source : σ) : Option Sequence × σ :=
  match Search.generate sh ⟨maxSteps, false⟩ objects length (some c) source with
  | .ok drawn => drawn
  | .error _ => (none, source)

/-- The patterns of one length. -/
def patternsOfLength (maxSteps : Int) (objects length : Int) (c : Search.Constraints) :
    Except Search.Error (List Sequence) :=
  patternsDrawn (drawFrom Twister.shuffler maxSteps objects length c)
    (Twister.ofSeed (objects * 1000 + length)) objects length c

/-- The texts of all candidates, the classics first. -/
def candidates (maxSteps : Int) (objects maxLength : Int) (c : Search.Constraints) :
    Except Search.Error (List String) := do
  let lists ← (Search.span 1 maxLength).mapM fun length =>
    patternsOfLength maxSteps objects length c
  return classics objects ++ lists.flatten.map Sequence.text

end Siteswap.Catalog
