/-
JSON documents as text, in ASCII alone.

On one line, `", "` stands between items and `": "` behind a name. In the
indented form every item has a line of its own, two more spaces deep than
the brackets around it; empty brackets stay closed. Characters beyond
printable ASCII are escaped by their UTF-16 units. Whole numbers of more
digits than the limit allows are not to be written.
-/
import Siteswap.Json.Value
import Siteswap.Number.Literal
import Siteswap.Number.Shortest
import Siteswap.Text.Quoted

namespace Siteswap.Json

-- ============================================================ strings

/-- A UTF-16 unit, escaped. -/
def escapedUnit (n : Nat) : List Char :=
  '\\' :: 'u' :: Text.hexDigits 4 n

/-- The letter behind the backslash of a short escape. -/
def shortEscape? (c : Char) : Option Char :=
  if c = '"' then some '"'
  else if c = '\\' then some '\\'
  else if c = '\n' then some 'n'
  else if c = '\r' then some 'r'
  else if c = '\t' then some 't'
  else if c = '\x08' then some 'b'
  else if c = '\x0c' then some 'f'
  else none

/-- One character inside a string. -/
def escaped (c : Char) : List Char :=
  match shortEscape? c with
  | some e => ['\\', e]
  | none =>
    let n := c.toNat
    if 0x20 ≤ n ∧ n ≤ 0x7E then [c]
    else if n < 0x10000 then escapedUnit n
    else
      escapedUnit (0xD800 + (n - 0x10000) / 0x400) ++ escapedUnit (0xDC00 + (n - 0x10000) % 0x400)

/-- One point inside a string; half a character is written by its unit. -/
def Point.escaped : Point → List Char
  | char c => Json.escaped c
  | high i => escapedUnit (0xD800 + i)
  | low j => escapedUnit (0xDC00 + j)

def writeString (s : Points) : List Char :=
  '"' :: s.points.flatMap Point.escaped ++ ['"']

-- ============================================================ numbers

def writeInt (n : Int) : List Char :=
  if n < 0 then '-' :: Nat.toDigits 10 n.natAbs else Nat.toDigits 10 n.natAbs

/-- A float, by the shortest decimal that reads back the same. -/
def writeFloat (x : Float) : List Char :=
  match Number.Parts.ofFloat? x with
  | some p =>
    let digits := (Number.Decimal.shortest p).text
    if p.negative then '-' :: digits else digits
  | none =>
    if x.isNaN then "NaN".toList else if x < 0 then "-Infinity".toList else "Infinity".toList

-- ========================================================== documents

/-- What is written for a value without parts. -/
def writeScalar : Value → List Char
  | .null => "null".toList
  | .bool b => (if b then "true" else "false").toList
  | .int n => writeInt n
  | .float x => writeFloat x
  | .text s => writeString s
  | .array _ => "[]".toList
  | .object _ => "{}".toList

mutual

/-- A document on one line. -/
def write : Value → List Char
  | .array (v :: vs) => '[' :: write v ++ writeItems vs ++ [']']
  | .object ((k, v) :: fields) =>
    '{' :: writeString k ++ [':', ' '] ++ write v ++ writeFields fields ++ ['}']
  | v => writeScalar v

/-- The items behind the first. -/
def writeItems : List Value → List Char
  | [] => []
  | v :: vs => ',' :: ' ' :: write v ++ writeItems vs

/-- The fields behind the first. -/
def writeFields : List (Points × Value) → List Char
  | [] => []
  | (k, v) :: fields =>
    ',' :: ' ' :: writeString k ++ [':', ' '] ++ write v ++ writeFields fields

end

/-- A new line, `depth` levels deep. -/
def newLine (depth : Nat) : List Char :=
  '\n' :: List.replicate (2 * depth) ' '

mutual

/-- A document over several lines, its own brackets `depth` levels
deep. -/
def writeIndented (depth : Nat) : Value → List Char
  | .array (v :: vs) =>
    '[' :: newLine (depth + 1) ++ writeIndented (depth + 1) v ++ writeItemLines (depth + 1) vs
      ++ newLine depth ++ [']']
  | .object ((k, v) :: fields) =>
    '{' :: newLine (depth + 1) ++ writeString k ++ [':', ' '] ++ writeIndented (depth + 1) v
      ++ writeFieldLines (depth + 1) fields ++ newLine depth ++ ['}']
  | v => writeScalar v

/-- The lines of the items behind the first. -/
def writeItemLines (depth : Nat) : List Value → List Char
  | [] => []
  | v :: vs => ',' :: newLine depth ++ writeIndented depth v ++ writeItemLines depth vs

/-- The lines of the fields behind the first. -/
def writeFieldLines (depth : Nat) : List (Points × Value) → List Char
  | [] => []
  | (k, v) :: fields =>
    ',' :: newLine depth ++ writeString k ++ [':', ' '] ++ writeIndented depth v
      ++ writeFieldLines depth fields

end

-- ============================================================= digits

/-- Whether a whole number has no more digits than may be written. -/
def isShort (n : Int) (limit : Number.DigitLimit := .usual) : Bool :=
  limit.allows (Nat.toDigits 10 n.natAbs).length

namespace Value

mutual

/-- Whether all whole numbers in a value may be written. -/
def isWritable (digits : Number.DigitLimit) : Value → Bool
  | .int n => isShort n digits
  | .array vs => areWritable digits vs
  | .object fields => fieldsWritable digits fields
  | _ => true

def areWritable (digits : Number.DigitLimit) : List Value → Bool
  | [] => true
  | v :: vs => isWritable digits v && areWritable digits vs

def fieldsWritable (digits : Number.DigitLimit) : List (Points × Value) → Bool
  | [] => true
  | (_, v) :: fields => isWritable digits v && fieldsWritable digits fields

end

def render (v : Value) : String :=
  String.ofList (write v)

def renderIndented (v : Value) : String :=
  String.ofList (writeIndented 0 v)

end Value

end Siteswap.Json
