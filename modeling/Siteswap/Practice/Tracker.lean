/-
Trackers: the practice of one user, kept in a store.

A tracker owns one key of the store and reads and writes the document
under it. Patterns are recorded under their canonical form, so that all
spellings count as one. An operation that fails leaves the store as it
was; a document that cannot be read counts as an empty record.

Documents are read and gone through part within part, and how deep this can
go is not for the tracker to say. It is told (`Limits`).
-/
import Siteswap.Canonical
import Siteswap.Json.Depth
import Siteswap.Practice.Date
import Siteswap.Practice.Record
import Siteswap.Store
import Siteswap.Validity.Verdict

namespace Siteswap.Practice

open Number (DigitLimit)

/-- What a tracker cannot do. -/
inductive Error where
  /-- recording what is no valid pattern -/
  | invalidPattern (typed : Typed) (findings : List Diagnostic)
  /-- counting fewer than no catches -/
  | negativeCatches
  /-- using a document that is no record -/
  | record (e : Json.Misfit)
  /-- reading a document with an array that lies too deep -/
  | deepArray
  /-- reading a document with an object that lies too deep -/
  | deepObject
  /-- storing a record with values that lie too deep -/
  | deepRecord (what : Json.Overrun)
  /-- storing a record with a whole number of too many digits -/
  | longNumber
  deriving DecidableEq

/-- How a message about too many levels begins. -/
def tooDeep : String := "maximum recursion depth exceeded"

def Error.message : Error → String
  | invalidPattern typed findings => "Invalid pattern '" ++ typed.shown ++ "': "
      ++ String.intercalate "; " (findings.map Diagnostic.message)
  | negativeCatches => "catches must be non-negative"
  | record e => e.message
  | deepArray => tooDeep ++ " while decoding a JSON array from a unicode string"
  | deepObject => tooDeep ++ " while decoding a JSON object from a unicode string"
  | deepRecord .value => tooDeep
  | deepRecord .lastStep => tooDeep ++ " while calling a Python object"
  | longNumber => "Exceeds the limit (" ++ toString Number.maxDigits
      ++ " digits) for integer string conversion; use sys.set_int_max_str_digits() to increase"
      ++ " the limit"

/-- The canonical form of a valid pattern. -/
def canonicalForm (typed : Typed) : Except Error String :=
  match Pattern.read typed with
  | .error e => .error (.invalidPattern typed [.unreadable e])
  | .ok p =>
    match (Verdict.ofPattern p).outcome with
    | .error findings => .error (.invalidPattern typed findings)
    | .ok _ => .ok (Canonical.ofPattern p).form

/-- How deep the documents are that a tracker can read and store. A document
of two levels is not too deep to be stored, and what is not too deep to be
stored is not too deep to be read. -/
structure Limits where
  /-- the levels of a document that is read for its own sake; there is one less
  within another operation -/
  levels : Nat
  /-- the room to go through a document that is stored for its own sake; there
  is one step less within another operation -/
  room : Nat
  /-- the steps of going through it -/
  steps : Json.Steps
  roomy : steps.roomFor 2 < room
  readable : room < steps.level * levels
  deriving DecidableEq

/-- A tracker: its key of the store, and the limits that it works within. -/
structure Tracker where
  key : String
  limits : Limits
  deriving DecidableEq

namespace Tracker

def ofUser (limits : Limits) (user : String) : Except Store.Error Tracker :=
  (Store.userKey user "progress").map fun key => ⟨key, limits⟩

variable (t : Tracker) (s : Store String)

/-- The record in the store, if it has no more than `levels`. A document
that is none, or no record, is passed over; a count without end and too
many levels are not. -/
def loadWithin (levels : Nat) (digits : DigitLimit := .usual) : Except Error Record :=
  match s.get? t.key with
  | none => .ok .empty
  | some text =>
    match Json.read levels text digits with
    | .error .malformed => .ok .empty
    | .error .deepArray => .error .deepArray
    | .error .deepObject => .error .deepObject
    | .ok v =>
      match Record.ofValue v digits with
      | .ok r => .ok r
      | .error .infiniteCount => .error (.record .infiniteCount)
      | .error _ => .ok .empty

def load (digits : DigitLimit := .usual) : Except Error Record :=
  t.loadWithin s t.limits.levels digits

/-- Stores a record, if `room` is enough for it and its numbers may be
written. -/
def saveWithin (room : Nat) (r : Record) (digits : DigitLimit := .usual) :
    Except Error (Store String) :=
  match r.toValue.overrun? t.limits.steps room with
  | some what => .error (.deepRecord what)
  | none => if r.toValue.isWritable digits then .ok (s.set t.key r.text) else .error .longNumber

def save (r : Record) (digits : DigitLimit := .usual) : Except Error (Store String) :=
  t.saveWithin s t.limits.room r digits

/-- The record in the store, for an operation on it. -/
def current : Except Error Record :=
  t.loadWithin s (t.limits.levels - 1)

/-- Stores the record that an operation left. -/
def update (r : Record) : Except Error (Store String) :=
  t.saveWithin s (t.limits.room - 1) r

def reset : Store String :=
  s.delete t.key

/-- Records a completed pattern, with a count of catches if there is one,
and gives its canonical form. The day counts for the first time only. -/
def mark (typed : Typed) (catches : Option Int) (day : Date) :
    Except Error (String × Store String) := do
  let form ← canonicalForm typed
  let r ← t.current s
  let r := r.complete form day.render
  match catches with
  | none => return (form, ← t.update s r)
  | some n =>
    if n < 0 then throw .negativeCatches
    return (form, ← t.update s (r.keepBest form n))

/-- Records a count of catches, and gives the most so far. -/
def recordCatches (typed : Typed) (n : Int) : Except Error (Int × Store String) := do
  let form ← canonicalForm typed
  let r ← t.current s
  if n < 0 then throw .negativeCatches
  return (r.best form n, ← t.update s (r.keepBest form n))

def isCompleted (typed : Typed) : Except Error Bool :=
  match canonicalForm typed with
  | .error _ => .ok false
  | .ok form => (t.current s).map fun r => r.hasCompleted form

/-- Stores the record that a document holds. -/
def saveDocument (v : Json.Value) : Except Error (Store String) :=
  match Record.ofValue v with
  | .ok r => t.save s r
  | .error e => .error (.record e)

end Tracker

end Siteswap.Practice
