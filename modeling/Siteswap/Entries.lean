/-
Maps that remember the order in which their keys first came.

A key that is stored again keeps its place and takes the new value; a new
key goes to the end. Whatever lists its keys lists them in this order.
-/
namespace Siteswap

/-- Keys with their values, in the order of their first storing. -/
abbrev Entries (κ β : Type) := List (κ × β)

namespace Entries

variable {κ β : Type} [BEq κ]

def get? (k : κ) : Entries κ β → Option β
  | [] => none
  | (k', v) :: rest => if k' == k then some v else get? k rest

def put (k : κ) (v : β) : Entries κ β → Entries κ β
  | [] => [(k, v)]
  | (k', v') :: rest => if k' == k then (k', v) :: rest else (k', v') :: put k v rest

def erase (k : κ) (es : Entries κ β) : Entries κ β :=
  es.filter fun e => !(e.1 == k)

/-- All pairs stored in turn: first place, last value. -/
def ofPairs (pairs : List (κ × β)) : Entries κ β :=
  pairs.foldl (fun es p => es.put p.1 p.2) []

end Entries

end Siteswap
