/-
Canonical forms: one spelling for all spellings of a pattern.

An async pattern is juggled without end, so its repetitions and rotations
are one pattern. The canonical spelling is the greatest rotation of its
root, the highest throw first. Patterns of other dialects stand for
themselves.
-/
import Siteswap.Pattern.Reader
import Siteswap.Rotation

namespace Siteswap

namespace Sequence

/-- The canonical spelling of a sequence. -/
def canonical (s : Sequence) : Sequence where
  heights := Rotation.canonical s.heights
  inRange := fun h hh => s.inRange h (Rotation.mem_of_mem_canonical hh)

/-- The canonical spelling of heights, if it is in range. -/
def canonicalOf (hs : List Int) : Except Error Sequence :=
  ofHeights (Rotation.canonical hs)

end Sequence

/-- How a canonical form came about. -/
inductive Normalization where
  /-- all throws alike -/
  | constant
  /-- a rotation was chosen -/
  | cyclic
  /-- nothing to choose from -/
  | alreadyCanonical
  deriving DecidableEq

def Normalization.name : Normalization → String
  | constant => "constant"
  | cyclic => "cyclic"
  | alreadyCanonical => "already-canonical"

/-- The canonical form of a pattern with all forms that share it. -/
structure Canonical where
  form : String
  isAlready : Bool
  /-- the rotations of the root, in order of code points -/
  equivalent : List String
  normalization : Normalization
  deriving DecidableEq

namespace Canonical

/-- The spellings of all rotations of a root, in order of code points.
The rotations of a root are all different. -/
def spellings (root : List Int) : List String :=
  ((Rotation.rotations root).map Sequence.spell).mergeSort fun a b => a ≤ b

def ofPattern (p : Pattern) : Canonical :=
  if p.dialect ≠ .async ∨ p.text.length = 1 then
    { form := p.normalText
      isAlready := true
      equivalent := [p.normalText]
      normalization := .alreadyCanonical }
  else
    let root := Rotation.root p.throws.heights
    let form := p.throws.canonical.text
    { form := form
      isAlready := p.normalText = form
      equivalent := spellings root
      normalization := if root.length = 1 then .constant else .cyclic }

def ofTyped (typed : Typed) : Except SyntaxError Canonical :=
  (Pattern.read typed).map ofPattern

/-- Whether two typed patterns share their canonical form. -/
def areEquivalent (a b : Typed) : Except SyntaxError Bool := do
  let ca ← ofTyped a
  let cb ← ofTyped b
  return ca.form = cb.form

end Canonical

end Siteswap
