/-
The work of trackers, act by act.

An operation looks the document up, goes on in memory, and stores what it
then has. An act that fails ends the operation there: what was stored
before stays stored, for nothing is taken back. The ledger that the acts
work on is a store with a list of all changes made to it, so that storing
what is there already is not the same as doing nothing.
-/
import Siteswap.Practice.Tracker

namespace Siteswap.Practice

-- =============================================================== ledgers

/-- A change of one value in a store. -/
inductive Change where
  | set (key text : String)
  | delete (key : String)
  deriving DecidableEq

namespace Change

/-- The key whose value is changed. -/
def key : Change → String
  | set key _ => key
  | delete key => key

def apply (s : Store String) : Change → Store String
  | set key text => s.set key text
  | delete key => s.delete key

end Change

/-- A store with the changes made to it, the last one first. -/
structure Ledger where
  store : Store String
  changes : List Change
  deriving DecidableEq

/-- The ledger after a change. -/
def Ledger.record (l : Ledger) (c : Change) : Ledger :=
  ⟨c.apply l.store, c :: l.changes⟩

/-- An act on a ledger, which gives a result or fails. Either way the ledger
is as it then is. -/
abbrev Act := ExceptT Error (StateM Ledger)

namespace Act

variable {α : Type}

/-- The result of an act, and the ledger after it. -/
def run (m : Act α) (l : Ledger) : Except Error α × Ledger :=
  StateT.run (ExceptT.run m) l

def look (key : String) : Act (Option String) :=
  return (← get).store.get? key

def change (c : Change) : Act Unit :=
  modify fun l => l.record c

/-- What is worked out in memory. -/
def ofExcept (result : Except Error α) : Act α :=
  ExceptT.mk (pure result)

end Act

-- ============================================================= documents

namespace Record

/-- The record that a text of at most so many levels holds. -/
def decode (levels : Nat) (text : String) : Except Error Record :=
  match Json.read levels text with
  | .error .malformed => .ok .empty
  | .error .deepArray => .error .deepArray
  | .error .deepObject => .error .deepObject
  | .ok v =>
    match ofValue v with
    | .ok r => .ok r
    | .error .infiniteCount => .error (.record .infiniteCount)
    | .error _ => .ok .empty

/-- The text of a record, if the room is enough for the steps through it and
its numbers may be written. -/
def encode (steps : Json.Steps) (room : Nat) (r : Record) : Except Error String :=
  match r.toValue.overrun? steps room with
  | some what => .error (.deepRecord what)
  | none => if r.toValue.isWritable .usual then .ok r.text else .error .longNumber

end Record

-- ============================================================ operations

/-- What a tracker may be asked to do. -/
inductive Operation where
  | load
  | save (r : Record)
  | mark (typed : Typed) (catches : Option Int) (day : Date)
  | recordCatches (typed : Typed) (n : Int)
  | isCompleted (typed : Typed)
  | reset

/-- Whether an operation only asks. -/
def Operation.isQuestion : Operation → Bool
  | .load | .isCompleted _ => true
  | _ => false

/-- What an operation gives. -/
inductive Reply where
  | record (r : Record)
  | form (form : String)
  | catches (best : Int)
  | completed (answer : Bool)
  | done

namespace Tracker

variable (t : Tracker)

/-- Looks the document up and reads it. -/
def fetch (levels : Nat) : Act Record := do
  match ← Act.look t.key with
  | none => return .empty
  | some text => Act.ofExcept (Record.decode levels text)

/-- Writes a record down and then stores it. -/
def put (room : Nat) (r : Record) : Act Unit := do
  let text ← Act.ofExcept (r.encode t.limits.steps room)
  Act.change (.set t.key text)

/-- Counts catches in a record that is in memory. -/
def bump (r : Record) (form : String) (n : Int) : Act Record := do
  if n < 0 then throw .negativeCatches
  return r.keepBest form n

/-- The acts of an operation. The completion is recorded in memory before
the catches are looked at. -/
def act : Operation → Act Reply
  | .load => do
    return .record (← t.fetch t.limits.levels)
  | .save r => do
    t.put t.limits.room r
    return .done
  | .mark typed catches day => do
    let form ← Act.ofExcept (canonicalForm typed)
    let r ← t.fetch (t.limits.levels - 1)
    let r := r.complete form day.render
    let r ← match catches with
      | none => pure r
      | some n => bump r form n
    t.put (t.limits.room - 1) r
    return .form form
  | .recordCatches typed n => do
    let form ← Act.ofExcept (canonicalForm typed)
    let r ← t.fetch (t.limits.levels - 1)
    let kept ← bump r form n
    t.put (t.limits.room - 1) kept
    return .catches (r.best form n)
  | .isCompleted typed =>
    match canonicalForm typed with
    | .error _ => return .completed false
    | .ok form => do
      let r ← t.fetch (t.limits.levels - 1)
      return .completed (r.hasCompleted form)
  | .reset => do
    Act.change (.delete t.key)
    return .done

/-- The reply to an operation, and the ledger after it. -/
def carryOut (q : Operation) (l : Ledger) : Except Error Reply × Ledger :=
  (t.act q).run l

end Tracker

-- ================================================================ visits

/-- An operation that a user asks for, and the limits at that time. -/
structure Visit where
  user : String
  limits : Limits
  operation : Operation

/-- The reply to a user, and the ledger after it. Without a name there is
no tracker to ask. -/
def Visit.carryOut (v : Visit) (l : Ledger) : Except Store.Error (Except Error Reply) × Ledger :=
  match Tracker.ofUser v.limits v.user with
  | .error e => (.error e, l)
  | .ok t =>
    let (reply, l) := t.carryOut v.operation l
    (.ok reply, l)

/-- The ledger after some visits. -/
def Ledger.afterVisits (l : Ledger) (visits : List Visit) : Ledger :=
  visits.foldl (fun l v => (v.carryOut l).2) l

/-- The replies to the visits of one user. -/
def repliesTo (user : String) : List Visit → Ledger → List (Except Store.Error (Except Error Reply))
  | [], _ => []
  | v :: visits, l =>
    let (reply, l) := v.carryOut l
    if v.user = user then reply :: repliesTo user visits l else repliesTo user visits l

end Siteswap.Practice
