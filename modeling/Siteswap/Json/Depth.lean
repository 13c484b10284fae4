/-
How much room it takes to go through a value.

Room is counted in steps that are open at once. Each array or object takes
some of them for itself before its items or fields are gone through, one
after the other; a part at the end takes some as well. How many these are
depends on who goes through the value (`Steps`). What runs out of room first
is what counts.
-/
import Siteswap.Json.Value

namespace Siteswap.Json

/-- The steps that are open at once where a value is gone through. -/
structure Steps where
  /-- those of an array or an object, without its parts -/
  level : Nat
  /-- those of a value that has no parts -/
  last : Nat
  deriving DecidableEq

/-- Room that is enough for a value of `n` levels. -/
def Steps.roomFor (c : Steps) (n : Nat) : Nat :=
  c.level * n + max c.level c.last

/-- What there is no room for. -/
inductive Overrun where
  /-- a value -/
  | value
  /-- the last step with a value that has no parts -/
  | lastStep
  deriving DecidableEq

/-- Going to the end of a value that has no parts. -/
def Steps.endOverrun? (c : Steps) (room : Nat) : Option Overrun :=
  if room < c.level then some .value
  else if room < c.last then some .lastStep
  else none

namespace Value

mutual

/-- What goes wrong in going through a value, if anything does. -/
def overrun? (c : Steps) (room : Nat) : Value → Option Overrun
  | .array vs =>
    if room < c.level then some .value else itemsOverrun? c (room - c.level) vs
  | .object fields =>
    if room < c.level then some .value else fieldsOverrun? c (room - c.level) fields
  | _ => c.endOverrun? room

def itemsOverrun? (c : Steps) (room : Nat) : List Value → Option Overrun
  | [] => none
  | v :: vs => (overrun? c room v).or (itemsOverrun? c room vs)

/-- What goes wrong in going through some fields, of each its name
first. -/
def fieldsOverrun? (c : Steps) (room : Nat) : List (Points × Value) → Option Overrun
  | [] => none
  | (_, v) :: fields =>
    ((c.endOverrun? room).or (overrun? c room v)).or (fieldsOverrun? c room fields)

end

end Value

end Siteswap.Json
