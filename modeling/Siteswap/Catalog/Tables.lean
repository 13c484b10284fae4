/-
The curated part of the catalog: classic patterns, example families, and
what to learn at which level of skill.
-/
namespace Siteswap.Catalog

/-- The classic patterns of so many objects. -/
def classics (objects : Int) : List String :=
  if objects = 3 then ["3", "423", "441", "531", "522", "51", "42", "60"]
  else if objects = 4 then ["4", "534", "552", "71", "62", "53", "633", "642"]
  else if objects = 5 then ["5", "645", "663", "744", "753", "97531", "91", "82"]
  else if objects = 6 then ["6", "756", "774", "855", "864", "97", "88", "79"]
  else if objects = 7 then ["7", "867", "885", "966", "975", "b97531", "99", "9a"]
  else []

/-- A family of patterns with examples. -/
structure Example where
  name : String
  description : String
  patterns : List String

/-- The families that are shown. -/
def examples : List Example := [
  ⟨"Flash Family", "All objects thrown and caught once", ["3", "4", "5"]⟩,
  ⟨"Cascade Family", "Alternating hand throws", ["3", "5", "7"]⟩,
  ⟨"Fountain Family", "Same-hand throws", ["4", "6", "8"]⟩,
  ⟨"Shower Family", "Circular throwing pattern", ["51", "71", "91"]⟩,
  ⟨"Columns Family", "Vertical throwing patterns", ["423", "534", "645"]⟩,
  ⟨"Mills Family", "Mills mess family", ["441", "552", "663"]⟩,
  ⟨"Box Family", "Box pattern family", ["(4,2x)(2x,4)", "(6,2x)(2x,6)"]⟩]

inductive Skill where
  | beginner
  | intermediate
  | advanced
  deriving DecidableEq

namespace Skill

def name : Skill → String
  | beginner => "beginner"
  | intermediate => "intermediate"
  | advanced => "advanced"

/-- What to learn at a level. -/
def progression : Skill → List String
  | beginner => ["3", "423", "441", "531"]
  | intermediate => ["4", "534", "552", "633", "642"]
  | advanced => ["5", "645", "663", "744", "753", "97531"]

/-- The level of someone who juggles so many objects. -/
def ofObjects (objects : Int) : Skill :=
  if 5 ≤ objects then advanced else if 4 ≤ objects then intermediate else beginner

end Skill

end Siteswap.Catalog
