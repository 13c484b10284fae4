/-
Browsing the catalog: random patterns, categories with their lists, and
what to learn next.
-/
import Siteswap.Catalog.Shelf

namespace Siteswap.Catalog

-- ============================================================== random

/-- The attempts of a search for a random pattern. -/
def attemptsAtRandom : Int := 100

/-- A classic pattern of so many objects, at random. -/
def randomClassic {σ : Type} (ch : Chance σ) (objects : Int) (source : σ) : Option Listing × σ :=
  match classics objects with
  | [] => (none, source)
  | first :: rest =>
    let (i, source) := ch.upTo rest.length source
    (Listing.ofText? ((first :: rest).getD i.val first), source)

/-- A random pattern of at most `maxLength` beats, or else a classic one.
The length is drawn first. The source goes on to the next call, also when
there is nothing to search. -/
def random {σ : Type} (ch : Chance σ) (maxSteps : Int) (objects maxLength : Int) (source : σ) :
    Except Error (Option Listing) × σ :=
  if maxLength < 1 then (.error (.noLength maxLength), source)
  else
    let (i, source) := ch.upTo (maxLength - 1).toNat source
    let found := do
      let c ← Search.Constraints.ofLimitsFor objects 0 none true attemptsAtRandom
      Search.generate ch.toShuffler ⟨maxSteps, false⟩ objects (1 + i.val) (some c) source
    match found with
    | .error e => (.error (.search e), source)
    | .ok (some s, source) => (.ok (Listing.ofText? s.text), source)
    | .ok (none, source) =>
      let (l, source) := randomClassic ch objects source
      (.ok l, source)

-- ============================================================ browsing

/-- A named list of patterns. -/
structure Category where
  name : String
  description : String
  patterns : List Listing

/-- The categories that are made by request. -/
def graded : List (String × String × Request) := [
  ("Beginner Patterns", "Easy patterns for learning basic siteswap",
    { Request.plain 3 with maxLength := 3, difficulty := "easy" }),
  ("Intermediate Patterns", "Medium difficulty patterns for skill development",
    { Request.plain 4 with maxLength := 3, difficulty := "medium" }),
  ("Advanced Patterns", "Complex patterns for experienced jugglers",
    { Request.plain 5 with maxLength := 3, difficulty := "hard" })]

/-- The categories of example families. -/
def families : List Category :=
  examples.map fun e => ⟨e.name, e.description, e.patterns.filterMap Listing.ofText?⟩

/-- The graded categories, with lists as `lookUp` gives them. -/
def gradedCategories {σ : Type} (lookUp : Request → σ → Except Error (List Listing) × σ) :
    List (String × String × Request) → σ → Except Error (List Category) × σ
  | [], s => (.ok [], s)
  | (name, description, r) :: rest, s =>
    match lookUp r s with
    | (.error e, s) => (.error e, s)
    | (.ok l, s) =>
      let (cs, s) := gradedCategories lookUp rest s
      (cs.map (⟨name, description, l⟩ :: ·), s)

/-- All categories, with lists as `lookUp` gives them. -/
def categoriesBy {σ : Type} (lookUp : Request → σ → Except Error (List Listing) × σ) (s : σ) :
    Except Error (List Category) × σ :=
  let (cs, s) := gradedCategories lookUp graded s
  (cs.map (· ++ families), s)

def categories (maxSteps : Int) : Except Error (List Category) :=
  (categoriesBy (fun r () => (list maxSteps r, ())) ()).1

/-- All categories, with lists from the shelf if they are there. -/
def Shelf.categories (maxSteps : Int) (s : Shelf) : Except Error (List Category) × Shelf :=
  categoriesBy (Shelf.list maxSteps) s

/-- The level of skill that the valid ones of some patterns show. -/
def skill (patterns : List Typed) : Skill :=
  .ofObjects ((patterns.filterMap Analysis.ofTyped?).foldl (fun n a => max n a.objects) 0)

/-- What to learn for someone who knows some patterns. -/
def suggestions (patterns : List Typed) : List Listing :=
  (skill patterns).progression.filterMap Listing.ofText?

end Siteswap.Catalog
