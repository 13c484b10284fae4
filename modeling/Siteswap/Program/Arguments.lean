/-
Arguments of the command line.

Options begin with two dashes and may be shortened as long as one option
is meant. A value follows its option, in the same word behind an equals
sign or in the next one; object counts may be several words. Words that
look like negative numbers are values. Behind a lone `--` nothing is an
option, and `--` behind an equals sign stands for no value at all. A word
that belongs to no option is refused.
-/
import Siteswap.Number.Literal

namespace Siteswap.Program

/-- What is to be exported, and where. Length and output are missing when
their options were given without a value. -/
structure Settings where
  objects : List Int
  maxLength : Option Int
  includeZeros : Bool
  output : Option String
  deriving DecidableEq

/-- What is exported if nothing is said. -/
def Settings.usual : Settings where
  objects := [3, 4, 5]
  maxLength := some 3
  includeZeros := false
  output := some "data/pattern_catalog.json"

/-- Why there is nothing to export. -/
inductive Refusal where
  /-- a shortened option that could be several -/
  | ambiguous (word : String)
  /-- words that belong to no option -/
  | unrecognized (words : List String)
  /-- an option without its value -/
  | missingValue
  /-- an option with a value that it does not take -/
  | badValue (value : String)
  /-- the user asked for help -/
  | help
  deriving DecidableEq

namespace Refusal

def message : Refusal → String
  | ambiguous word => "ambiguous option: " ++ word
  | unrecognized words => "unrecognized arguments: " ++ String.intercalate " " words
  | missingValue => "expected a value"
  | badValue value => "invalid value: " ++ value
  | help => "options: --objects N [N ...], --max-length N, --include-zeros, --output FILE"

/-- The exit code of a refusal. -/
def code : Refusal → UInt32
  | help => 0
  | _ => 2

end Refusal

-- ============================================================= options

inductive Flag where
  | help
  | objects
  | maxLength
  | includeZeros
  | output
  deriving DecidableEq

namespace Flag

def names : List (String × Flag) :=
  [("-h", help), ("--help", help), ("--objects", objects), ("--max-length", maxLength),
   ("--include-zeros", includeZeros), ("--output", output)]

/-- The options whose long names begin with `start`. -/
def startingWith (start : List Char) : List Flag :=
  (names.filter fun n => start.isPrefixOf n.1.toList).map (·.2)

end Flag

/-- A word of the command line, by its role. -/
inductive Word where
  | value (s : String)
  | flag (f : Flag) (value : Option String)
  | dashes
  | unknown (s : String)
  deriving DecidableEq

/-- A word cut at its first equals sign, if it has one. -/
def cutAtEquals (s : List Char) : List Char × Option String :=
  (s.takeWhile (· ≠ '='),
   if s.contains '=' then some (String.ofList ((s.dropWhile (· ≠ '=')).drop 1)) else none)

/-- Whether a word is a minus sign with digits behind it, and perhaps a
point among them. A line end may follow. -/
def looksNegative (s : List Char) : Bool :=
  let isDigit (c : Char) : Bool := (Number.digit? c).isSome
  match s with
  | '-' :: rest =>
    let rest := if rest.getLast? = some '\n' then rest.dropLast else rest
    let fraction := rest.dropWhile isDigit
    match fraction with
    | [] => rest ≠ []
    | '.' :: digits => digits ≠ [] ∧ digits.all isDigit
    | _ => false
  | _ => false

/-- What stands behind `-h` in its word: the same letter again, which
asks for help once more, or a value. -/
def helpWord (rest : List Char) : Word :=
  if rest ≠ [] ∧ rest.all (· = 'h') then .flag .help none
  else .flag .help (some (String.ofList rest))

/-- The role of a word that begins with a dash and is no exact option
name. -/
def dashedWord (s : String) : Except Refusal Word :=
  let (start, value) := cutAtEquals s.toList
  match value, Flag.names.lookup (String.ofList start) with
  | some v, some f => .ok (if start = ['-', 'h'] then helpWord v.toList else .flag f (some v))
  | _, _ =>
    let matched : List Word :=
      if "--".toList.isPrefixOf s.toList then (Flag.startingWith start).map (Word.flag · value)
      else if "-h".toList.isPrefixOf s.toList then [helpWord (s.toList.drop 2)]
      else []
    match matched with
    | [w] => .ok w
    | _ :: _ :: _ => .error (.ambiguous s)
    | [] =>
      if looksNegative s.toList ∨ s.toList.contains ' ' then .ok (.value s) else .ok (.unknown s)

def word (s : String) : Except Refusal Word :=
  match s.toList with
  | [] => .ok (.value s)
  | ['-'] => .ok (.value s)
  | '-' :: _ =>
    match Flag.names.lookup s with
    | some f => .ok (.flag f none)
    | none => dashedWord s
  | _ => .ok (.value s)

def wordsOf : List String → Except Refusal (List Word)
  | [] => .ok []
  | s :: rest =>
    if s = "--" then .ok (.dashes :: rest.map .value)
    else do
      let w ← word s
      let ws ← wordsOf rest
      return w :: ws

-- ============================================================= reading

def number (s : String) : Except Refusal Int :=
  match Number.wholeNumber s.toList with
  | .ok n => .ok n
  | .error _ => .error (.badValue s)

/-- The settings with one option set to the value behind its equals
sign. -/
def Settings.assign (c : Settings) (f : Flag) (value : String) : Except Refusal Settings :=
  match f with
  | .objects =>
    if value = "--" then .ok { c with objects := [] }
    else (number value).map fun n => { c with objects := [n] }
  | .maxLength =>
    if value = "--" then .ok { c with maxLength := none }
    else (number value).map fun n => { c with maxLength := some n }
  | .output => .ok { c with output := if value = "--" then none else some value }
  | .includeZeros => .error (.badValue value)
  | .help => .error (.badValue value)

/-- The settings with one option set to the values in the words behind
it. -/
def Settings.set (c : Settings) (f : Flag) (values : List String) : Except Refusal Settings :=
  match f, values with
  | .objects, _ :: _ => (values.mapM number).map fun ns => { c with objects := ns }
  | .maxLength, [v] => (number v).map fun n => { c with maxLength := some n }
  | .output, [v] => .ok { c with output := some v }
  | .includeZeros, [] => .ok { c with includeZeros := true }
  | .includeZeros, v :: _ => .error (.badValue v)
  | .help, [] => .error .help
  | .help, v :: _ => .error (.badValue v)
  | _, _ => .error .missingValue

/-- How many of the values behind an option are its own. -/
def Flag.takes (f : Flag) (behind : Nat) : Nat :=
  match f with
  | .objects => behind
  | .maxLength => min behind 1
  | .output => min behind 1
  | .includeZeros => 0
  | .help => 0

/-- The text of a word that is a value. -/
def Word.value? : Word → Option String
  | .value s => some s
  | _ => none

/-- The values at the beginning of some words. -/
def leadingValues : List Word → List String
  | .value s :: rest => s :: leadingValues rest
  | _ => []

/-- The settings after all words, and the words that belong to no
option. `own` of the next words belong to the option before them. -/
def readFrom (c : Settings) (own : Nat) : List Word → Except Refusal (Settings × List String)
  | [] => .ok (c, [])
  | .value s :: rest =>
    match own with
    | own + 1 => readFrom c own rest
    | 0 => (readFrom c 0 rest).map fun (c, extra) => (c, s :: extra)
  | .dashes :: rest => (readFrom c 0 rest).map fun (c, extra) => (c, "--" :: extra)
  | .unknown s :: rest => (readFrom c 0 rest).map fun (c, extra) => (c, s :: extra)
  | .flag f (some v) :: rest => do
    let c ← c.assign f v
    readFrom c 0 rest
  | .flag f none :: rest => do
    let values := leadingValues rest
    let own := f.takes values.length
    let c ← c.set f (values.take own)
    readFrom c own rest

/-- The settings that the command line asks for. -/
def Settings.ofArguments (arguments : List String) : Except Refusal Settings := do
  let (c, extra) ← readFrom .usual 0 (← wordsOf arguments)
  if extra ≠ [] then throw (.unrecognized extra)
  return c

end Siteswap.Program
