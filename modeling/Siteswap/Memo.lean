/-
A memo of limited size: results under their keys, the oldest first.

Whatever is stored becomes the newest entry; when there are too many, the
oldest go. An entry older than the greatest age is missing, and is
dropped when it is asked for. The clock is not the memo's: every
operation is told the time, and there is no answer when the time then
and the time now have no difference. An entry may hold no result; it
takes up room and answers like a missing one.
-/
import Siteswap.Number.Amount

namespace Siteswap

open Number (Amount)

/-- What is stored under one key, and since when. -/
structure Memo.Entry (κ β : Type) where
  key : κ
  since : Amount
  value : Option β

structure Memo (κ β : Type) where
  maxEntries : Nat
  /-- the greatest age, if there is one -/
  maxAge : Option Amount
  entries : List (Memo.Entry κ β)
  one_le_max : 1 ≤ maxEntries

namespace Memo

variable {κ β : Type} [BEq κ]

/-- A memo without room. -/
inductive Error where
  | noRoom
  deriving DecidableEq

def Error.message : Error → String
  | noRoom => "max_entries must be at least 1"

/-- The memo that holds nothing. -/
def empty (κ β : Type) (maxEntries : Int) (maxAge : Option Amount) : Except Error (Memo κ β) :=
  if h : maxEntries < 1 then .error .noRoom
  else .ok { maxEntries := maxEntries.toNat, maxAge, entries := [], one_le_max := by omega }

def defaultEntries : Int := 100

/-- The greatest age if nothing else is said, half an hour in seconds. -/
def defaultAge : Amount := .whole 1800

variable (m : Memo κ β)

def evict (k : κ) : Memo κ β :=
  { m with entries := m.entries.filter fun e => !(e.key == k) }

def clear : Memo κ β :=
  { m with entries := [] }

/-- The number of entries, the expired ones too. -/
def size : Nat := m.entries.length

/-- Whether an entry is too old at time `now`. -/
def expired (now : Amount) (e : Entry κ β) : Except Number.Error Bool :=
  match m.maxAge with
  | none => .ok false
  | some age => (now.minus e.since).map age.below

/-- Whether what is answered under `k` depends on the time. -/
def isTimed (k : κ) : Bool :=
  m.maxAge.isSome && m.entries.any fun e => e.key == k

/-- The result under `k` at time `now`, and the memo without it if it
has expired. -/
def get (now : Amount) (k : κ) : Except Number.Error (Option β × Memo κ β) :=
  match m.entries.find? fun e => e.key == k with
  | none => .ok (none, m)
  | some e =>
    match m.expired now e with
    | .error e => .error e
    | .ok true => .ok (none, m.evict k)
    | .ok false => .ok (e.value, m)

def contains (now : Amount) (k : κ) : Except Number.Error (Bool × Memo κ β) :=
  (m.get now k).map fun (v, m) => (v.isSome, m)

/-- Stores a result under `k` as the newest entry. -/
def set (now : Amount) (k : κ) (v : Option β) : Memo κ β :=
  let entries := (m.evict k).entries ++ [{ key := k, since := now, value := v }]
  { m with entries := entries.drop (entries.length - m.maxEntries) }

end Memo

end Siteswap
