/-
What is recorded of a named pattern: its names, its variations, the
patterns it is related to, and where all that is from.
-/
namespace Siteswap.Names

/-- A way to juggle a pattern. -/
structure Variation where
  name : String
  siteswap : String
  sources : List String
  description : String
  difficulty : Option Nat
  deriving DecidableEq

/-- How one pattern is related to another. -/
inductive Relationship where
  | prerequisite
  | variation
  | progression
  | mechanicalRelative
  | familyMember
  deriving DecidableEq

namespace Relationship

def all : List Relationship :=
  [prerequisite, variation, progression, mechanicalRelative, familyMember]

def name : Relationship → String
  | prerequisite => "prerequisite"
  | variation => "variation"
  | progression => "progression"
  | mechanicalRelative => "mechanical_relative"
  | familyMember => "family_member"

def ofName? (s : String) : Option Relationship :=
  all.find? fun r => r.name == s

end Relationship

structure Related where
  name : String
  siteswap : String
  relationship : Relationship
  sources : List String
  description : String
  deriving DecidableEq

/-- The record of a named pattern. -/
structure Family where
  primaryName : String
  alternativeNames : List String
  variations : List Variation
  related : List Related
  sources : List String
  notes : String
  inventor : Option String
  difficulty : Option Nat
  prerequisites : List String
  deriving DecidableEq

end Siteswap.Names
