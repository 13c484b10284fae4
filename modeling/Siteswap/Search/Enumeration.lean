/-
Exhaustive search over short periods.

All candidates that reach the target are listed in lexicographic order,
as far as the list has room, and those that are accepted are collected by
their canonical spelling, each once. A listing goes one step deeper with each
throw. The few throws of an enumeration leave room enough for that; where any
length may be asked for, the depth is part of the question (`candidates`).
-/
import Siteswap.Search.Acceptance
import Siteswap.Search.Bounds

namespace Siteswap.Search

/-- How many candidates a listing has room for. -/
def maxCombinations : Nat := 1000

def defaultResults : Int := 20

-- ======================================================== combinations

/-- Lists for each height in turn, as long as there is room. -/
def gather {α : Type} (list : Int → Nat → List α) : List Int → Nat → List α
  | [], _ => []
  | h :: hs, room =>
    if room = 0 then []
    else
      let first := list h room
      first ++ gather list hs (room - first.length)

/-- The candidates below `before`, its last throw first, which sums to
`total` and lacks `remaining` throws. -/
def listBelow (t : Task) : (remaining : Nat) → (before : List Int) → (total : Int) →
    (room : Nat) → List (List Int)
  | 0, before, total, _ => if total = t.target then [before.reverse] else []
  | remaining + 1, before, total, room =>
    gather (fun h => listBelow t remaining (h :: before) (total + h))
      (t.heights total (remaining + 1)) room

/-- The candidates of `length` throws. -/
def combinations (t : Task) (length : Nat) : List (List Int) :=
  listBelow t length [] 0 maxCombinations

/-- Lists for each height in turn, as long as there is room, and fails with
the first listing that does. -/
def gatherWithin {α : Type} (list : Int → Nat → Except Error (List α)) :
    List Int → Nat → Except Error (List α)
  | [], _ => .ok []
  | h :: hs, room =>
    if room = 0 then .ok []
    else do
      let first ← list h room
      let rest ← gatherWithin list hs (room - first.length)
      return first ++ rest

/-- The candidates below `before`, where no more than `depth` throws can be
looked ahead. Every throw is looked for inside the search for the one before
it; where a negative length was asked for, no throw is the last. -/
def listWithin (t : Task) (depth : Nat) (remaining : Int) (before : List Int) (total : Int)
    (room : Nat) : Except Error (List (List Int)) :=
  if remaining = 0 then .ok (if total = t.target then [before.reverse] else [])
  else
    match depth with
    | 0 => .error .tooDeep
    | depth + 1 =>
      let (lo, hi) := heightBounds t.target total remaining t.lowest t.highest
      gatherWithin (fun h => listWithin t depth (remaining - 1) (h :: before) (total + h))
        (span lo hi) room

/-- The candidates of `length` throws, where no more than `depth` throws can
be looked ahead. -/
def candidates (t : Task) (depth : Nat) (length : Int) : Except Error (List (List Int)) :=
  listWithin t depth length [] 0 maxCombinations

-- ========================================================= enumeration

/-- Goes over candidates with the patterns `found` so far, the last one
first, and stops at `maxResults`. -/
def collect (maxResults : Int) : (found : List Sequence) → List (List Int) → List Sequence
  | found, [] => found.reverse
  | found, hs :: rest =>
    match accepted? hs with
    | none => collect maxResults found rest
    | some s =>
      if found.contains s then collect maxResults found rest
      else if maxResults ≤ found.length + 1 then (s :: found).reverse
      else collect maxResults (s :: found) rest

/-- The patterns of `objects` objects in `length` beats, in the order of
their discovery. -/
def enumerate (objects length : Int) (c : Option Constraints) (maxResults : Int) :
    Except Error (List Sequence) := do
  checkArguments objects length
  if maxEnumerated < length then throw .tooLong
  let t := Task.ofConstraints objects length (c.getD (.usual objects))
  return collect maxResults [] (combinations t length.toNat)

end Siteswap.Search
