/-
Names looked up by any spelling of a pattern. What cannot be read has no
name.
-/
import Siteswap.Canonical
import Siteswap.Names.Table

namespace Siteswap.Names

/-- The canonical form under which a pattern is recorded. -/
def key? (typed : Typed) : Option String :=
  match Canonical.ofTyped typed with
  | .ok c => some c.form
  | .error _ => none

/-- The name of a pattern, with its sources. -/
def lookup? (typed : Typed) : Option (String × List String) :=
  (key? typed).bind fun k => table.lookup k

def family? (typed : Typed) : Option Family :=
  (key? typed).bind fun k => families.lookup k

def variations (typed : Typed) : List Variation :=
  match family? typed with
  | some f => f.variations
  | none => []

def related (typed : Typed) : List Related :=
  match family? typed with
  | some f => f.related
  | none => []

/-- A relationship that does not exist. -/
inductive Error where
  | unknownRelationship (name : Typed)
  deriving DecidableEq

def Error.message : Error → String
  | unknownRelationship name => "Unknown relationship '" ++ name.shown ++ "'"

/-- The patterns that stand in the named relationship to a pattern. -/
def relatedBy (typed name : Typed) : Except Error (List Related) :=
  match name.bind Relationship.ofName? with
  | none => .error (.unknownRelationship name)
  | some r => .ok ((related typed).filter fun p => p.relationship = r)

end Siteswap.Names
