/-
Diagnostics: what is wrong with a pattern, and how it is put into words.
-/
import Siteswap.Number.Fixed
import Siteswap.Pattern.Error
import Siteswap.Validity.Slot

namespace Siteswap

/-- How many objects each hand holds. -/
structure Hands where
  /-- the hand of the even beats -/
  even : Int
  /-- the hand of the odd beats -/
  odd : Int
  deriving DecidableEq

namespace Hands

/-- `n` objects more in the hand of beat `beat`. -/
def add (beat n : Int) (s : Hands) : Hands :=
  if beat.fmod 2 = 0 then { s with even := s.even + n } else { s with odd := s.odd + n }

/-- Both counts, in brackets. -/
def render (s : Hands) : String :=
  "[" ++ toString s.even ++ ", " ++ toString s.odd ++ "]"

end Hands

/-- One finding against a pattern. -/
inductive Diagnostic where
  /-- a pattern without throws -/
  | noThrows
  /-- a text that is no pattern -/
  | unreadable (e : SyntaxError)
  /-- the heights do not average to a whole number of objects -/
  | average (sum : Int) (period : Nat)
  /-- a throw lands where an earlier one does -/
  | collision (slot : Slot) (first : Nat) (firstHeight : Int) (beat : Nat) (height : Int)
  /-- the hands do not end with the counts they began with -/
  | state (initial final : Hands)
  deriving DecidableEq

namespace Diagnostic

inductive Kind where
  | empty
  | fault
  | average
  | collision
  | state
  deriving DecidableEq

namespace Kind

def name : Kind → String
  | empty => "empty"
  | fault => "syntax"
  | average => "average"
  | collision => "collision"
  | state => "state"

def label : Kind → String
  | empty => "EMPTY"
  | fault => "SYNTAX"
  | average => "AVERAGE"
  | collision => "COLLISION"
  | state => "STATE"

end Kind

/-- The kind of a finding. Nothing typed is no fault of notation. -/
def kind : Diagnostic → Kind
  | noThrows => .empty
  | unreadable .empty => .empty
  | unreadable _ => .fault
  | average .. => .average
  | collision .. => .collision
  | state .. => .state

/-- The average height, as a float divides. -/
def averageOf (sum : Int) (period : Nat) : Rat :=
  Number.nearest sum period

def message : Diagnostic → String
  | noThrows => "No valid throws found in pattern"
  | unreadable e => e.message
  | average sum period => "Pattern average " ++ Number.fixed 2 (averageOf sum period)
      ++ " is not an integer (violates average theorem)"
  | collision slot first firstHeight beat height => "Collision at beat " ++ toString slot.beat
      ++ ", hand " ++ toString slot.hand ++ ": throw " ++ toString height ++ " from beat "
      ++ toString beat ++ " conflicts with throw " ++ toString firstHeight ++ " from beat "
      ++ toString first
  | state initial final => "Pattern does not return to starting state: initial "
      ++ initial.render ++ ", final " ++ final.render

/-- The beats that a finding is about. -/
def beats : Diagnostic → List Nat
  | collision _ first _ beat _ => [first, beat]
  | _ => []

/-- The wording behind its label. -/
def render (d : Diagnostic) : String :=
  "[" ++ d.kind.label ++ "] " ++ d.message

end Diagnostic

end Siteswap
