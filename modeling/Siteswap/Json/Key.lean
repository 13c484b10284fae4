/-
Keys of maps that come from documents.

A document names the fields of its objects by strings, but a list of
pairs may have any value without parts in front. Numbers are one key
when they are equal, and true and false count as one and zero.
-/
import Siteswap.Json.Writer
import Siteswap.Number.Amount

namespace Siteswap.Json

open Number (Amount)

/-- A value without parts, as a key. -/
inductive Key where
  | null
  | bool (b : Bool)
  | int (n : Int)
  | float (x : Float)
  | text (s : Points)

namespace Key

/-- The key that a value is, if it has no parts. -/
def ofValue? : Value → Option Key
  | .null => some .null
  | .bool b => some (.bool b)
  | .int n => some (.int n)
  | .float x => some (.float x)
  | .text s => some (.text s)
  | .array _ => none
  | .object _ => none

/-- The number that a key is. -/
def amount? : Key → Option Amount
  | bool b => some (.whole (if b then 1 else 0))
  | int n => some (.whole n)
  | float x => some (.float x)
  | _ => none

/-- Whether two keys are one. -/
def same (a b : Key) : Bool :=
  match a.amount?, b.amount? with
  | some p, some q => p.same q
  | none, none =>
    match a, b with
    | null, null => true
    | text s, text t => s = t
    | _, _ => false
  | _, _ => false

instance : BEq Key := ⟨same⟩

/-- The name that a document gives to a key. -/
def name : Key → Points
  | null => String.ofList (writeScalar .null)
  | bool b => String.ofList (writeScalar (.bool b))
  | int n => String.ofList (writeScalar (.int n))
  | float x => String.ofList (writeScalar (.float x))
  | text s => s

/-- A key as reports show it: in words of its own where it is no text,
floats in figures where they are finite. -/
def shown : Key → Points
  | null => "None"
  | bool b => (if b then "True" else "False" : String)
  | int n => String.ofList (writeInt n)
  | float x =>
    if x.isNaN then "nan"
    else if x.isInf then (if x < 0 then "-inf" else "inf" : String)
    else String.ofList (writeFloat x)
  | text s => s

end Key

end Siteswap.Json
