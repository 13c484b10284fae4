/-
Lenient reading: what a value stands for when more is accepted than what
it should be.

A list may be any value that can be gone through, a count any value that
has a whole part, a map any list of pairs. `Misfit` says what a value was
asked for and cannot give.
-/
import Siteswap.Json.Compound
import Siteswap.Number.Literal

namespace Siteswap.Json

-- ============================================================== errors

inductive Kind where
  | null
  | bool
  | int
  | float
  | text
  | array
  | object
  deriving DecidableEq

def Kind.name : Kind → String
  | null => "NoneType"
  | bool => "bool"
  | int => "int"
  | float => "float"
  | text => "str"
  | array => "list"
  | object => "dict"

def Value.kind : Value → Kind
  | .null => .null
  | .bool _ => .bool
  | .int _ => .int
  | .float _ => .float
  | .text _ => .text
  | .array _ => .array
  | .object _ => .object

/-- Why a value does not serve. -/
inductive Misfit where
  /-- a value without the operation that is named -/
  | lacks (k : Kind) (operation : String)
  /-- a value that has no named fields -/
  | noFields (k : Kind)
  /-- a value that cannot be gone through -/
  | notIterable (k : Kind)
  /-- a value that holds nothing -/
  | notContainer (k : Kind)
  /-- a value without length -/
  | noLength (k : Kind)
  /-- a value that is no number -/
  | notNumber (k : Kind)
  /-- a text that is no whole number -/
  | badLiteral (s : Points)
  /-- a text of too many digits -/
  | longLiteral (digits : Nat)
  /-- a count that is not a number -/
  | nanCount
  /-- a count without end -/
  | infiniteCount
  /-- an entry of a map that is no pair -/
  | noPair (index : Nat)
  /-- an entry of a map with a wrong number of parts -/
  | pairLength (index length : Nat)
  /-- a value that cannot be a key -/
  | badKey (k : Kind)
  deriving DecidableEq

/-- One point between quotes `q`; half a character is shown by its unit. -/
def Point.quoted (q : Char) : Point → List Char
  | char c => Text.quotedChar q c
  | high i => '\\' :: 'u' :: Text.hexDigits 4 (0xD800 + i)
  | low j => '\\' :: 'u' :: Text.hexDigits 4 (0xDC00 + j)

/-- A string as messages show it. -/
def Points.quoted (s : Points) : List Char :=
  let q := Text.quoteFor s.chars
  q :: s.points.flatMap (Point.quoted q) ++ [q]

namespace Misfit

/-- The longest part of a text that a message shows. -/
def maxShown : Nat := 200

def message : Misfit → String
  | lacks k operation => "'" ++ k.name ++ "' object has no attribute '" ++ operation ++ "'"
  | noFields .array => "list indices must be integers or slices, not str"
  | noFields .text => "string indices must be integers, not 'str'"
  | noFields k => "'" ++ k.name ++ "' object is not subscriptable"
  | notIterable k => "'" ++ k.name ++ "' object is not iterable"
  | notContainer k => "argument of type '" ++ k.name ++ "' is not iterable"
  | noLength k => "object of type '" ++ k.name ++ "' has no len()"
  | notNumber k => "int() argument must be a string, a bytes-like object or a real number, not '"
      ++ k.name ++ "'"
  | badLiteral s => "invalid literal for int() with base 10: "
      ++ String.ofList (s.quoted.take maxShown)
  | longLiteral digits => "Exceeds the limit (" ++ toString Number.maxDigits
      ++ " digits) for integer string conversion: value has " ++ toString digits
      ++ " digits; use sys.set_int_max_str_digits() to increase the limit"
  | nanCount => "cannot convert float NaN to integer"
  | infiniteCount => "cannot convert float infinity to integer"
  | noPair i => "cannot convert dictionary update sequence element #" ++ toString i
      ++ " to a sequence"
  | pairLength i n => "dictionary update sequence element #" ++ toString i ++ " has length "
      ++ toString n ++ "; 2 is required"
  | badKey k => "unhashable type: '" ++ k.name ++ "'"

end Misfit

namespace Value

-- ================================================== lists and counts

/-- The values that one goes through: the items of an array, the points of a
text, the names of an object's fields. -/
def items : Value → Except Misfit (List Value)
  | .array vs => .ok vs
  | .text s => .ok (s.points.map fun p => .text (.single p))
  | .object fields => .ok (fields.map fun f => .text f.1)
  | v => .error (.notIterable v.kind)

/-- The whole part of a number. -/
def wholePart (q : Rat) : Int :=
  if q < 0 then -(-q).floor else q.floor

/-- The whole number that a value stands for. -/
def count (v : Value) (digits : Number.DigitLimit := .usual) : Except Misfit Int :=
  match v with
  | .int n => .ok n
  | .bool b => .ok (if b then 1 else 0)
  | .float x =>
    match Number.rational? x with
    | some q => .ok (wholePart q)
    | none => .error (if x.isNaN then .nanCount else .infiniteCount)
  | .text s =>
    match Number.wholeNumber s.chars digits with
    | .ok n => .ok n
    | .error .malformed => .error (.badLiteral s)
    | .error (.tooLong digits) => .error (.longLiteral digits)
  | v => .error (.notNumber v.kind)

/-- The counts of an object's fields. -/
def counts (v : Value) (digits : Number.DigitLimit := .usual) :
    Except Misfit (Entries Points Int) :=
  match v with
  | .object fields => fields.mapM fun f => (count f.2 digits).map (f.1, ·)
  | v => .error (.lacks v.kind "items")

-- ================================================================ maps

/-- The pair that the entry at `index` is. -/
def pair (index : Nat) (v : Value) : Except Misfit (Key × Value) :=
  match items v with
  | .error _ => .error (.noPair index)
  | .ok [k, v] =>
    match Key.ofValue? k with
    | some k => .ok (k, v)
    | none => .error (.badKey k.kind)
  | .ok vs => .error (.pairLength index vs.length)

/-- The pairs of a list of entries, the first of them at `index`. -/
def pairsFrom (index : Nat) : List Value → Except Misfit (List (Key × Value))
  | [] => .ok []
  | v :: vs => do
    let p ← pair index v
    let ps ← pairsFrom (index + 1) vs
    return p :: ps

/-- The map that a value stands for: an object, or anything that can be
gone through and holds pairs. -/
def map : Value → Except Misfit (Entries Key Value)
  | .object fields => .ok (fields.map fun f => (.text f.1, f.2))
  | v => do
    let vs ← items v
    let ps ← pairsFrom 0 vs
    return .ofPairs ps

end Value

end Siteswap.Json
