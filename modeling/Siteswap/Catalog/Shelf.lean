/-
Lists that are kept for the next time they are asked for.

A list is kept under its request, the upper limit of heights filled in.
Keeping saves work and never changes an answer, whatever the clock shows
and whatever is dropped. Only a clock of another kind than the one that
dated a list may be at odds with it.
-/
import Siteswap.Catalog.Selection
import Siteswap.Clock
import Siteswap.Memo

namespace Siteswap.Catalog

/-- Kept lists, and the clock that dates them. -/
structure Shelf where
  memo : Memo Request (List Listing)
  clock : Clock

namespace Shelf

/-- The list kept for a request, if it is not too old. The clock is read
only where that is in question. -/
def take (r : Request) (s : Shelf) : Except Error (Option (List Listing)) × Shelf :=
  let (now, later) := s.clock.read
  let clock := if s.memo.isTimed r then later else s.clock
  match s.memo.get now r with
  | .error e => (.error (.clock e), { s with clock })
  | .ok (kept, memo) => (.ok kept, { memo, clock })

/-- Keeps the list for a request. -/
def keep (r : Request) (l : List Listing) (s : Shelf) : Shelf :=
  let (now, clock) := s.clock.read
  { memo := s.memo.set now r (some l), clock }

/-- The list for a request, taken from the shelf if it is there. What
fails is not kept. -/
def list (maxSteps : Int) (r : Request) (s : Shelf) : Except Error (List Listing) × Shelf :=
  match r.check with
  | .error e => (.error e, s)
  | .ok () =>
    match s.take r.resolved with
    | (.error e, s) => (.error e, s)
    | (.ok (some l), s) => (.ok l, s)
    | (.ok none, s) =>
      match compute maxSteps r.resolved with
      | .ok l => (.ok l, s.keep r.resolved l)
      | .error e => (.error e, s)

end Shelf

end Siteswap.Catalog
