/-
JSON documents from text.

The reader goes over the lexemes once, with a stack of the arrays and
objects that are open and a note of what may come next; it needs no
recursion into the parts. The stack has a limit, and the first fault in
the text is the one that counts. In an object a repeated name keeps its
first place and takes the last value.
-/
import Siteswap.Json.Lexeme

namespace Siteswap.Json

/-- Why a text is no document. -/
inductive Fault where
  /-- the text does not follow the rules -/
  | malformed
  /-- an array inside too many arrays and objects -/
  | deepArray
  /-- an object inside too many arrays and objects -/
  | deepObject
  deriving DecidableEq

/-- An array or object that is still open, its parts so far in reverse;
an object also has the name whose value is being read. -/
inductive Frame where
  | array (items : List Value)
  | object (fields : List (Points × Value)) (name : Points)

/-- What may come next. -/
inductive Expect where
  /-- a value -/
  | value
  /-- a value or `]`, behind `[` -/
  | firstItem
  /-- a name or `}`, behind `{` -/
  | firstName
  /-- a name, behind `,` -/
  | name
  /-- the colon behind a name -/
  | colon (name : Points)
  /-- a separator or a closing bracket, behind a finished value -/
  | separator (v : Value)

/-- A value begins with lexeme `x`. No more than `limit` arrays and
objects may be open. -/
def beginValue (limit : Nat) (x : Lexeme) (stack : List Frame) :
    Except Fault (Expect × List Frame) :=
  match x with
  | .scalar v => .ok (.separator v, stack)
  | .openArray => if stack.length < limit then .ok (.firstItem, stack) else .error .deepArray
  | .openObject => if stack.length < limit then .ok (.firstName, stack) else .error .deepObject
  | _ => .error .malformed

/-- One lexeme read. Between steps an open array or object whose first
part is still to come is not on the stack. -/
def step (limit : Nat) (x : Lexeme) (stack : List Frame) :
    Expect → Except Fault (Expect × List Frame)
  | .value => beginValue limit x stack
  | .firstItem =>
    match x with
    | .closeArray => .ok (.separator (.array []), stack)
    | x => beginValue limit x (.array [] :: stack)
  | .firstName =>
    match x with
    | .closeObject => .ok (.separator (.object []), stack)
    | .scalar (.text k) => .ok (.colon k, .object [] k :: stack)
    | _ => .error .malformed
  | .name =>
    match x with
    | .scalar (.text k) => .ok (.colon k, stack)
    | _ => .error .malformed
  | .colon k =>
    match x, stack with
    | .colon, .object fields _ :: stack => .ok (.value, .object fields k :: stack)
    | _, _ => .error .malformed
  | .separator v =>
    match x, stack with
    | .comma, .array items :: stack => .ok (.value, .array (v :: items) :: stack)
    | .closeArray, .array items :: stack => .ok (.separator (.array (v :: items).reverse), stack)
    | .comma, .object fields k :: stack => .ok (.name, .object ((k, v) :: fields) k :: stack)
    | .closeObject, .object fields k :: stack =>
      .ok (.separator (.object (Entries.ofPairs ((k, v) :: fields).reverse)), stack)
    | _, _ => .error .malformed

/-- All lexemes read; the document is complete when nothing is open. -/
def run (limit : Nat) : List Lexeme → Expect → List Frame → Except Fault Value
  | [], .separator v, [] => .ok v
  | [], _, _ => .error .malformed
  | x :: xs, e, stack =>
    match step limit x stack e with
    | .error fault => .error fault
    | .ok (e, stack) => run limit xs e stack

/-- The document that `s` writes, no more than `limit` levels deep. -/
def read (limit : Nat) (s : String) (digits : Number.DigitLimit := .usual) :
    Except Fault Value :=
  run limit (lexemes digits s.toList) .value []

/-- The document that `s` writes; it has fewer levels than `s` has
characters, or as many. -/
def read? (s : String) : Option Value :=
  (read s.length s).toOption

end Siteswap.Json
