/-
The three checks of a pattern, over any whole numbers as heights.

Average: the heights add up to a multiple of the period. Collisions: no
two throws land in one slot; a height of zero is no throw. State: the
hands begin with the objects that they throw in one period, and their two
counts must come back, be it in exchanged hands. `passesQuickly` decides
the first two alone and reports nothing.
-/
import Siteswap.Entries
import Siteswap.Total
import Siteswap.Validity.Diagnostic

namespace Siteswap.Checks

-- ============================================================= average

/-- The finding against the average, where there are beats. -/
def average (hs : List Int) : List Diagnostic :=
  if (total hs).fmod hs.length = 0 then [] else [.average (total hs) hs.length]

/-- The check of the average. It needs a beat, and an average that a
float can hold if there is something to report. -/
def average? (hs : List Int) : Except Number.Error (List Diagnostic) :=
  if hs = [] then .error .zeroModulus
  else if average hs ≠ [] ∧ Number.overflows (total hs) hs.length then .error .quotientTooLarge
  else .ok (average hs)

-- ========================================================== collisions

/-- The first throw in each slot that is taken: its beat and height. -/
abbrev Landings := Entries Slot (Nat × Int)

/-- The collisions from `beat` on, with the landings before it. -/
def collisionsFrom (period : Int) (beat : Nat) (taken : Landings) : List Int → List Diagnostic
  | [] => []
  | h :: hs =>
    if h = 0 then collisionsFrom period (beat + 1) taken hs
    else
      let slot := Slot.landing period beat h
      match taken.get? slot with
      | some (first, height) =>
        .collision slot first height beat h :: collisionsFrom period (beat + 1) taken hs
      | none => collisionsFrom period (beat + 1) (taken.put slot (beat, h)) hs

/-- One finding for each throw that lands where an earlier one does. -/
def collisions (hs : List Int) : List Diagnostic :=
  collisionsFrom hs.length 0 [] hs

-- =============================================================== state

/-- The hands before the first throw, from `beat` on. -/
def startFrom (beat : Nat) : List Int → Hands
  | [] => ⟨0, 0⟩
  | h :: hs =>
    let rest := startFrom (beat + 1) hs
    if h = 0 then rest else rest.add beat 1

/-- The hands after the throws from `beat` on, where they were `s`. -/
def endFrom (beat : Nat) (s : Hands) : List Int → Hands
  | [] => s
  | h :: hs =>
    if h = 0 then endFrom (beat + 1) s hs
    else endFrom (beat + 1) ((s.add beat (-1)).add (beat + h) 1) hs

/-- Whether two states hold the same counts in some order. -/
def sameCounts (s t : Hands) : Bool :=
  (s.even = t.even ∧ s.odd = t.odd) ∨ (s.even = t.odd ∧ s.odd = t.even)

/-- The finding against the return of the state. -/
def state (hs : List Int) : List Diagnostic :=
  let initial := startFrom 0 hs
  let final := endFrom 0 initial hs
  if sameCounts final initial then [] else [.state initial final]

-- ============================================================ all, fast

/-- All findings, in the order of the checks. -/
def all (hs : List Int) : List Diagnostic :=
  average hs ++ collisions hs ++ state hs

/-- Whether the throws from `beat` on land in slots of their own, none of
them in `taken`. -/
def landApart (period : Int) (beat : Nat) (taken : List Slot) : List Int → Bool
  | [] => true
  | h :: hs =>
    if h = 0 then landApart period (beat + 1) taken hs
    else
      let slot := Slot.landing period beat h
      if taken.contains slot then false else landApart period (beat + 1) (slot :: taken) hs

/-- Whether there are beats, their average is whole and no two throws
collide. -/
def passesQuickly (hs : List Int) : Bool :=
  if hs = [] then false
  else if (total hs).fmod hs.length ≠ 0 then false
  else landApart hs.length 0 [] hs

end Siteswap.Checks
