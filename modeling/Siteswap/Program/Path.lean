/-
Paths: where a file is written when all directories in front of it are
made first.

A path is read part by part, beginning in a directory that is empty, or
in the root, which holds the directories that every system has. What is
there is passed over; the directories behind it are made one inside the
other, and the shortest stretch of the path that cannot be made is
reported. How many can be made is for the system to say. If all can, the last
part must name a file and not a directory.
-/
import Siteswap.Text.Quoted

namespace Siteswap.Program

-- ============================================================== errors

/-- Why nothing can be written under a path. -/
inductive PathError where
  /-- the path is empty -/
  | empty
  /-- the path is one of a directory -/
  | directory (path : List Char)
  /-- the path or its last part has too many bytes -/
  | tooLong (path : List Char)
  /-- the path holds the character that ends all paths -/
  | zeroByte
  /-- too many directories are to be made -/
  | tooDeep
  deriving DecidableEq

def PathError.message : PathError → String
  | empty => "[Errno 2] No such file or directory: ''"
  | directory path => "[Errno 21] Is a directory: " ++ String.ofList (Text.quoted path)
  | tooLong path => "[Errno 36] File name too long: " ++ String.ofList (Text.quoted path)
  | zeroByte => "embedded null byte"
  | tooDeep => "maximum recursion depth exceeded"

-- =============================================================== parts

/-- The parts of a path between its slashes. -/
def pathParts : List Char → List (List Char)
  | [] => [[]]
  | c :: cs =>
    match pathParts cs with
    | [] => [[c]]
    | part :: rest => if c = '/' then [] :: part :: rest else (c :: part) :: rest

/-- What stands before the last slash of a path. -/
def directoryPart (path : List Char) : List Char :=
  ((path.reverse.dropWhile (· ≠ '/')).drop 1).reverse

/-- The bytes of a stretch of text. -/
def byteSize (s : List Char) : Nat :=
  (String.ofList s).utf8ByteSize

/-- The most bytes of one part. -/
def maxPart : Nat := 255

/-- The most bytes of a path. -/
def maxPath : Nat := 4095

/-- Whether `path` can be used, given that it can up to its last part. -/
def checkPart (path part : List Char) : Except PathError Unit :=
  if part.contains '\x00' then .error .zeroByte
  else if maxPart < byteSize part ∨ maxPath < byteSize path then .error (.tooLong path)
  else .ok ()

-- ============================================================== places

/-- A place below the directory where a path begins: the parts that lead
there, the last one first. -/
abbrev Place := List (List Char)

/-- Where a path begins. -/
inductive Origin where
  /-- in the directory of the run -/
  | here
  /-- in the root of the system -/
  | root
  deriving DecidableEq

namespace Origin

/-- The directories that every system has in its root. -/
def standard : List String :=
  ["bin", "boot", "dev", "etc", "home", "lib", "media", "mnt", "opt", "proc", "root", "run", "sbin",
   "srv", "sys", "tmp", "usr", "var"]

/-- The origin of a path. -/
def of (path : List Char) : Origin :=
  if path.head? = some '/' then root else here

/-- The directories that are there before any is made. -/
def directories : Origin → List Place
  | here => [[]]
  | root => [] :: standard.map fun name => [name.toList]

/-- The directory one level up, if it is known. The root is its own. -/
def above : Origin → Place → Option Place
  | _, _ :: place => some place
  | root, [] => some []
  | here, [] => none

end Origin

/-- How far a path has been read: the stretch of it, if any, the place it
leads to if that is known, and the directories that are there. -/
structure Reached where
  origin : Origin
  path : Option (List Char)
  place : Option Place
  directories : List Place

namespace Reached

/-- The beginning of a path. -/
def start (path : List Char) : Reached where
  origin := .of path
  path := none
  place := some []
  directories := (Origin.of path).directories

variable (r : Reached)

/-- The stretch that is read with `part`. -/
def extend (part : List Char) : List Char :=
  match r.path with
  | none => part
  | some path => path ++ '/' :: part

/-- The place that `part` leads to. -/
def placeOf (part : List Char) : Option Place :=
  if part = [] ∨ part = ['.'] then r.place
  else if part = ['.', '.'] then r.place.bind r.origin.above
  else r.place.map (part :: ·)

/-- One directory further. -/
def advance (part : List Char) : Reached :=
  { r with path := r.extend part, place := r.placeOf part }

/-- Whether `part` leads on to a directory that is there. -/
def isThere (part : List Char) : Bool :=
  part = [] || (byteSize (r.extend part) ≤ maxPath
    && (part = ['.'] || part = ['.', '.'] || (r.placeOf part).any r.directories.contains))

/-- What is reached when all that is there has been passed, and the parts
that remain, the last one of the path among them. -/
def passOld (r : Reached) : List (List Char) → Reached × List (List Char)
  | part :: next :: rest =>
    if r.isThere part then passOld (r.advance part) (next :: rest) else (r, part :: next :: rest)
  | parts => (r, parts)

/-- The directory `part` made. -/
def make (part : List Char) : Except PathError Reached := do
  checkPart (r.extend part) part
  return { r.advance part with directories := (r.placeOf part).toList ++ r.directories }

/-- The place of a file here; none if it lies outside. -/
def finish (file : List Char) : Except PathError (Option Place) := do
  let path := r.extend file
  if path = [] then throw .empty
  checkPart path file
  if file = [] ∨ file = ['.'] ∨ file = ['.', '.'] then throw (.directory path)
  match r.placeOf file with
  | none => return none
  | some place =>
    if r.directories.contains place then throw (.directory path)
    else return if r.origin = .here then some place else none

/-- The place of the file that some parts lead to, all directories in
front of it made. A point behind a directory that was made stands for
that directory. -/
def follow (r : Reached) : List (List Char) → Except PathError (Option Place)
  | [] => r.finish []
  | [file] => r.finish file
  | part :: rest => do
    if part = [] ∨ part = ['.'] then (r.advance part).follow rest
    else (← r.make part).follow rest

/-- The place of the file that some parts lead to, of which the first is
not there. No more than `maxMade` directories can be made. -/
def followNew (maxMade : Nat) (r : Reached) : List (List Char) → Except PathError (Option Place)
  | part :: next :: rest => do
    if maxMade < ((part :: next :: rest).dropLast.filter (· ≠ [])).length then throw .tooDeep
    (← r.make part).follow (next :: rest)
  | parts => r.follow parts

end Reached

/-- The place where a file is written under `path`, where no more than
`maxMade` directories can be made for it; none if it lies outside of the
directory of the run. -/
def filePlace (maxMade : Nat) (path : List Char) : Except PathError (Option Place) :=
  let slashes := path.takeWhile (· = '/')
  let (r, parts) := (Reached.start path).passOld (pathParts path)
  if maxPath < byteSize slashes ∧ ((pathParts path).filter (· ≠ [])).length ≤ maxMade then
    .error (.tooLong slashes)
  else r.followNew maxMade parts

end Siteswap.Program
