/-
Records of practice, and their documents.

A record lists the patterns that were completed, the most catches of a
pattern, and the days of first completion. Its document is an object with
one field for each; a missing field is empty. Reading is lenient, so a
record may hold more than patterns and days.
-/
import Siteswap.Json.Lenient
import Siteswap.Json.Reader

namespace Siteswap.Practice

open Json (Key Misfit Points Value)

/-- What a user has practised. -/
structure Record where
  completed : List Value
  catches : Entries Points Int
  dates : Entries Key Value

namespace Record

/-- The record of someone who has not begun. -/
def empty : Record := ⟨[], [], []⟩

-- ============================================================= reading

/-- The record that a document holds. -/
def ofValue (v : Value) (digits : Number.DigitLimit := .usual) : Except Misfit Record :=
  match v with
  | .object fields => do
    let completed ←
      ((Entries.get? (.ofString "completed_patterns") fields).getD (.array [])).items
    let catches ←
      ((Entries.get? (.ofString "max_catches") fields).getD (.object [])).counts digits
    let dates ← ((Entries.get? (.ofString "completion_dates") fields).getD (.object [])).map
    return { completed, catches, dates }
  | v => .error (.lacks v.kind "get")

-- ============================================================= writing

variable (r : Record)

/-- The document of a record. -/
def toValue : Value :=
  .object [
    ("completed_patterns", .array r.completed),
    ("max_catches", .object (r.catches.map fun e => (e.1, .int e.2))),
    ("completion_dates", .object (r.dates.map fun e => (e.1.name, e.2)))]

def text : String :=
  r.toValue.render

def hasCompleted (form : String) : Bool :=
  r.completed.any fun v =>
    match v with
    | .text s => s = Points.ofString form
    | _ => false

/-- The completion of a pattern on `day`, unless it was completed
before. -/
def complete (form : String) (day : String) : Record :=
  if r.hasCompleted form then r
  else { r with
    completed := r.completed ++ [.text form]
    dates := r.dates.put (.text form) (.text day) }

/-- The most catches of a pattern, `n` new ones included. -/
def best (form : String) (n : Int) : Int :=
  max ((r.catches.get? (.ofString form)).getD 0) n

/-- The most catches of a pattern, kept. -/
def keepBest (form : String) (n : Int) : Record :=
  { r with catches := r.catches.put form (r.best form n) }

end Record

end Siteswap.Practice
