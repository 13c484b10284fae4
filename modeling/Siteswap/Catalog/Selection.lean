/-
Lists of patterns by request.

A list is drawn from the candidates, each text once, those that are valid
and selected, easier ones first.
-/
import Siteswap.Catalog.Candidates
import Siteswap.Catalog.Listing

namespace Siteswap.Catalog

-- ============================================================== errors

/-- What the catalog cannot answer. -/
inductive Error where
  /-- a band of difficulty that does not exist -/
  | unknownDifficulty (name : String)
  /-- nothing to search -/
  | search (e : Search.Error)
  /-- no length to choose -/
  | noLength (maxLength : Int)
  /-- no age of what is kept -/
  | clock (e : Number.Error)
  deriving DecidableEq

def Error.message : Error → String
  | unknownDifficulty name => "Unknown difficulty '" ++ name ++ "'"
  | search e => e.message
  | clock e => e.message
  | noLength m => "empty range for randrange() (1, " ++ toString (m + 1) ++ ", " ++ toString m
      ++ ")"

/-- A search, its error as one of the catalog. -/
def searching {α : Type} (result : Except Search.Error α) : Except Error α :=
  match result with
  | .ok a => .ok a
  | .error e => .error (.search e)

-- =============================================================== lists

/-- The attempts of one search for a list. -/
def attemptsPerDraw : Int := 10

namespace Request

/-- Whether the named difficulty exists. -/
def check (r : Request) : Except Error Unit :=
  if r.difficulty = unspecified ∨ (Band.ofName? r.difficulty).isSome then .ok ()
  else .error (.unknownDifficulty r.difficulty)

/-- The request with its upper limit of heights filled in. -/
def resolved (r : Request) : Request :=
  { r with maxHeight := some (r.maxHeight.getD (Search.defaultMaxHeight r.objects r.minHeight)) }

end Request

/-- The selected listings among candidates, in order of difficulty. -/
def select (r : Request) (texts : List String) : List Listing :=
  ((texts.eraseDups.filterMap Listing.ofText?).filter r.selects).mergeSort Listing.precedes

/-- The list for a request whose difficulty exists. -/
def compute (maxSteps : Int) (r : Request) : Except Error (List Listing) := do
  let c ← searching (Search.Constraints.ofLimitsFor r.objects r.minHeight r.maxHeight r.includeZeros
    attemptsPerDraw)
  let texts ← searching (candidates maxSteps r.objects r.maxLength c)
  return select r texts

def list (maxSteps : Int) (r : Request) : Except Error (List Listing) := do
  r.check
  compute maxSteps r.resolved

end Siteswap.Catalog
