/-
Labels: a line of description and a few tags for an analysed pattern.

Some of them look at the spelling that is shown beside the label, not
only at the figures.
-/
import Siteswap.Analysis

namespace Siteswap.Label

/-- The one-throw spelling of the cascade or fountain of `n` objects. -/
def solo? (n : Int) : Option String :=
  if 0 ≤ n ∧ n ≤ Alphabet.maxHeight then some (Sequence.spell [n]) else none

/-- What the pattern is called by its kind. -/
def kind (shown : String) (a : Analysis) : String :=
  match a.dialect with
  | .async =>
    if some shown = solo? a.objects then
      if a.objects.fmod 2 = 0 then "fountain" else "cascade"
    else if a.maxHeight > a.objects + 2 then "high throw pattern"
    else "cascade variation"
  | .sync => "synchronous pattern"
  | _ => "multiplex pattern"

/-- A description such as `3-object cascade (easy)`. -/
def describe (shown : String) (a : Analysis) : String :=
  toString a.objects ++ "-object " ++ kind shown a ++ " (" ++ (Difficulty.level a.difficulty).name
    ++ ")"

/-- Whether a four is followed by a two. -/
def holdsFourTwo : List Char → Bool
  | '4' :: '2' :: _ => true
  | _ :: rest => holdsFourTwo rest
  | [] => false

/-- The tags of a pattern, in a fixed order. -/
def tags (shown : String) (a : Analysis) : List String :=
  [toString a.objects ++ "-ball", a.dialect.name, (Difficulty.level a.difficulty).audience]
    ++ (if a.hasSynchronous then ["synchronous"] else [])
    ++ (if a.maxHeight > a.objects + 3 then ["high-throws"] else [])
    ++ (if a.throws.contains 0 then ["gaps"] else [])
    ++ (if some shown = solo? a.objects then ["cascade"] else [])
    ++ (if a.dialect = .async ∧ shown.toList.getLast? = some '1' then ["shower"] else [])
    ++ (if holdsFourTwo shown.toList then ["columns"] else [])

end Siteswap.Label
