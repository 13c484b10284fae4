/-
The export: the catalog of some object counts as a document.

The lists of all counts are made in turn and announced one by one. If one
cannot be made, what was announced stands and nothing is written. A count
that is given twice has one place in the document, its first.
-/
import Siteswap.Catalog.Browse
import Siteswap.Json.Writer
import Siteswap.Names.Lookup
import Siteswap.Program.Arguments
import Siteswap.Program.Path

namespace Siteswap.Program

open Json (Value)

-- ================================================================ rows

/-- A difficulty, rounded to three places. -/
def roundedDifficulty (q : Rat) : Float :=
  Float.ofScientific (Number.halfEven (q.num.natAbs * 1000) q.den) true 3

/-- The document of one pattern in the list of `objects` objects. -/
def row (objects : Int) (l : Catalog.Listing) : Value :=
  .object [
    ("pattern", .text l.pattern),
    ("period", .int l.period),
    ("difficulty", .float (roundedDifficulty l.difficulty)),
    ("description", .text l.description),
    ("tags", .array (l.tags.map fun tag => .text (.ofString tag))),
    ("name", match Names.lookup? (some l.pattern) with
      | some (name, _) => .text name
      | none => .null),
    ("classic", .bool ((Catalog.classics objects).contains l.pattern))]

/-- The request for the list of one object count. -/
def request (maxLength : Int) (includeZeros : Bool) (objects : Int) : Catalog.Request :=
  { Catalog.Request.plain objects with maxLength, includeZeros }

-- ================================================================= run

/-- Why an export ends without a file. -/
inductive Error where
  | catalog (e : Catalog.Error)
  /-- lists to make, and no length -/
  | noLength
  /-- nowhere to write -/
  | noOutput
  | path (e : PathError)
  deriving DecidableEq

def Error.message : Error → String
  | catalog e => e.message
  | noLength => "unhashable type: 'list'"
  | noOutput => "expected str, bytes or os.PathLike object, not list"
  | path e => e.message

/-- A file: its path, its place unless that lies outside of the directory
of the run, and its text. -/
structure File where
  path : String
  place : Option Place
  text : String

/-- What an export prints, and the file that it leaves. -/
structure Run where
  printed : String
  file : Except Error File

/-- The lists of some object counts added to the `rows` so far, with a
line for each; the shelf is shared by all. -/
def build (maxLength : Int) (includeZeros : Bool) (s : Catalog.Shelf)
    (rows : Entries String Value) : List Int → String × Except Error (Entries String Value)
  | [] => ("", .ok rows)
  | n :: rest =>
    match s.list Search.defaultSteps (request maxLength includeZeros n) with
    | (.error e, _) => ("", .error (.catalog e))
    | (.ok l, s) =>
      let line := "  " ++ toString n ++ " objects: " ++ toString l.length ++ " patterns\n"
      let (lines, result) :=
        build maxLength includeZeros s (rows.put (toString n) (.array (l.map (row n)))) rest
      (line ++ lines, result)

/-- The empty shelf that an export begins with; room and age are as is
usual. -/
def emptyShelf (clock : Clock) : Catalog.Shelf where
  memo := {
    maxEntries := Memo.defaultEntries.toNat
    maxAge := some Memo.defaultAge
    entries := []
    one_le_max := by decide }
  clock := clock

/-- The lists of the settings, with a line for each. Without a length
there is none, unless nothing is asked for. -/
def lists (clock : Clock) (c : Settings) : String × Except Error (Entries String Value) :=
  match c.maxLength with
  | some m => build m c.includeZeros (emptyShelf clock) [] c.objects
  | none => ("", if c.objects = [] then .ok [] else .error .noLength)

/-- The file that holds `rows`, where no more than `maxMade` directories can
be made for it. -/
def fileOf (maxMade : Nat) (output : Option String) (rows : Entries String Value) :
    Except Error File :=
  match output with
  | none => .error .noOutput
  | some path =>
    match filePlace maxMade path.toList with
    | .error e => .error (.path e)
    | .ok place =>
      let document := Value.object (rows.map fun e => (.ofString e.1, e.2))
      .ok ⟨path, place, document.renderIndented⟩

/-- The first line that an export prints. -/
def heading (c : Settings) : String :=
  "Building catalog for [" ++ String.intercalate ", " (c.objects.map toString)
    ++ "] objects, periods 1.." ++ (c.maxLength.map toString).getD "[]" ++ "\n"

/-- The export that the settings ask for, where no more than `maxMade`
directories can be made for its file. -/
def run (clock : Clock) (maxMade : Nat) (c : Settings) : Run :=
  let (lines, rows) := lists clock c
  let printed := heading c ++ lines
  match rows.bind (fileOf maxMade c.output) with
  | .error e => { printed, file := .error e }
  | .ok file =>
    { printed := printed ++ "\nCatalog saved to: " ++ file.path ++ "\n", file := .ok file }

end Siteswap.Program
