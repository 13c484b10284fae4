/-
Listings: patterns as the catalog shows them, and what a request selects.
-/
import Siteswap.Label

namespace Siteswap.Catalog

/-- A pattern with its figures and labels. The average height is the
number of objects. -/
structure Listing where
  pattern : String
  objects : Int
  period : Nat
  difficulty : Rat
  dialect : Dialect
  description : String
  tags : List String
  deriving DecidableEq

namespace Listing

/-- The listing of an analysed pattern under the spelling `shown`. -/
def ofAnalysis (shown : String) (a : Analysis) : Listing where
  pattern := shown
  objects := a.objects
  period := a.period
  difficulty := a.difficulty
  dialect := a.dialect
  description := Label.describe shown a
  tags := Label.tags shown a

/-- The listing of a pattern, if it is valid. -/
def ofText? (shown : String) : Option Listing :=
  (Analysis.ofTyped? (some shown)).map (ofAnalysis shown)

def ofTyped? (typed : Typed) : Option Listing :=
  typed.bind ofText?

/-- Easier patterns first, of equally hard ones the shorter. -/
def precedes (a b : Listing) : Bool :=
  a.difficulty < b.difficulty ∨ (a.difficulty = b.difficulty ∧ a.period ≤ b.period)

end Listing

-- =============================================================== bands

/-- A range of difficulties, with its upper end or without. -/
structure Band where
  low : Rat
  high : Rat
  closed : Bool
  deriving DecidableEq

namespace Band

/-- The band of that name. The top band includes the greatest
difficulty. -/
def ofName? (s : String) : Option Band :=
  if s = "easy" then some ⟨0, 3, false⟩
  else if s = "medium" then some ⟨3, 6, false⟩
  else if s = "hard" then some ⟨6, 10, true⟩
  else none

def holds (b : Band) (q : Rat) : Bool :=
  b.low ≤ q && (q < b.high || (b.closed && q ≤ b.high))

end Band

-- ============================================================= requests

/-- The name that leaves an option open. -/
def unspecified : String := "any"

/-- What is asked of the catalog. -/
structure Request where
  objects : Int
  maxLength : Int
  minHeight : Int
  /-- the usual one if not given -/
  maxHeight : Option Int
  includeZeros : Bool
  /-- the name of a band -/
  difficulty : String
  /-- the name of a dialect -/
  dialect : String
  deriving DecidableEq

namespace Request

/-- The request for patterns of so many objects, without more wishes. -/
def plain (objects : Int) : Request where
  objects := objects
  maxLength := 6
  minHeight := 0
  maxHeight := none
  includeZeros := false
  difficulty := unspecified
  dialect := unspecified

def selects (r : Request) (l : Listing) : Bool :=
  (r.dialect = unspecified ∨ l.dialect.name = r.dialect)
    ∧ (r.difficulty = unspecified ∨ (Band.ofName? r.difficulty).any (·.holds l.difficulty))
    ∧ (r.includeZeros ∨ ¬ l.pattern.toList.contains '0')

end Request

end Siteswap.Catalog
