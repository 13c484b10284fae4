/-
Throw sequences from documents, and as documents.

The heights of a sequence are read leniently: every item counts that
stands for a whole number. Only then are they looked at as heights.
-/
import Siteswap.Json.Lenient
import Siteswap.Sequence

namespace Siteswap.Sequence

open Json (Misfit Value)

/-- Why a document holds no sequence. -/
inductive DocumentError where
  /-- a record without heights -/
  | noThrows
  /-- a value that does not serve -/
  | misfit (e : Misfit)
  /-- numbers that are no heights -/
  | range (e : Sequence.Error)
  deriving DecidableEq

def DocumentError.message : DocumentError → String
  | noThrows => "'throws'"
  | misfit e => e.message
  | range e => e.message

/-- The numbers that the items of a value stand for. -/
def numbersOf (v : Value) : Except Misfit (List Int) := do
  let vs ← v.items
  vs.mapM fun v => v.count

/-- The sequence whose heights a value lists. -/
def ofValue (v : Value) : Except DocumentError Sequence :=
  match numbersOf v with
  | .error e => .error (.misfit e)
  | .ok hs =>
    match ofHeights hs with
    | .error e => .error (.range e)
    | .ok s => .ok s

def ofDocument : Value → Except DocumentError Sequence
  | .object fields =>
    match Entries.get? (.ofString "throws") fields with
    | none => .error .noThrows
    | some v => ofValue v
  | v => .error (.misfit (.noFields v.kind))

def toDocument (s : Sequence) : Value :=
  .object [("throws", .array (s.heights.map .int)), ("period", .int s.period)]

end Siteswap.Sequence
