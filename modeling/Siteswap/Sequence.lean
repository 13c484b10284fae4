/-
Throw sequences: one period of a pattern as the heights of its throws,
each between 0 and 35. Beat `i` is thrown by hand `i mod 2`.
-/
import Siteswap.Alphabet
import Siteswap.Total

namespace Siteswap

/-- One period of heights in the standard range. -/
structure Sequence where
  heights : List Int
  inRange : ∀ h ∈ heights, 0 ≤ h ∧ h ≤ Alphabet.maxHeight
  deriving DecidableEq

namespace Sequence

/-- Why there is no such sequence, or no such beat. -/
inductive Error where
  /-- a height out of range -/
  | height (h : Int)
  /-- no beat at this place -/
  | beat (i : Int)
  /-- no place that a machine word holds -/
  | place (i : Int)
  deriving DecidableEq

def Error.message : Error → String
  | .height h => (Alphabet.Error.unknownHeight h).message
  | .beat _ => "tuple index out of range"
  | .place _ => "cannot fit 'int' into an index-sized integer"

/-- Whether `h` has a letter. -/
def isHeight (h : Int) : Bool :=
  0 ≤ h && h ≤ Alphabet.maxHeight

/-- The sequence of these heights; the first height out of range is the
error. -/
def ofHeights (hs : List Int) : Except Error Sequence :=
  match hfind : hs.find? fun h => !isHeight h with
  | some h => .error (.height h)
  | none => .ok ⟨hs, by simpa [isHeight] using hfind⟩

/-- The sequence that a text of throws writes, in either case. -/
def ofText (s : List Char) : Except Alphabet.Error Sequence :=
  match h : Alphabet.standard.encode s with
  | .error e => .error e
  | .ok hs => .ok ⟨hs, Alphabet.range_of_encodeFrom h⟩

/-- The heights of the letters in `s`; all else is passed over. -/
def ofLetters (s : List Char) : Sequence where
  heights := s.filterMap fun c => (Alphabet.standard.index? c).map Int.ofNat
  inRange := by
    intro h hh
    obtain ⟨c, -, hc⟩ := List.mem_filterMap.mp hh
    obtain ⟨i, hi, rfl⟩ := Option.map_eq_some_iff.mp hc
    exact ⟨Int.natCast_nonneg i, Alphabet.index?_standard_le hi⟩

/-- The letter of a height in range. -/
def letter (h : Int) : Char :=
  Alphabet.standard.letters.getD h.toNat '0'

/-- Heights in range as text. -/
def spell (hs : List Int) : String :=
  String.ofList (hs.map letter)

variable (s : Sequence)

def text : String :=
  spell s.heights

/-- The number of beats. -/
def period : Nat := s.heights.length

def total : Int := Siteswap.total s.heights

/-- The sequence begun `k` beats later, cyclically; `k` may be
negative. -/
def rotate (k : Int) : Sequence :=
  let i := (k.fmod s.period).toNat
  { heights := s.heights.drop i ++ s.heights.take i
    inRange := fun h hh => s.inRange h <| by
      rcases List.mem_append.mp hh with hh | hh
      · exact List.mem_of_mem_drop hh
      · exact List.mem_of_mem_take hh }

/-- Whether a word of 64 bits holds `i`. -/
def isPlace (i : Int) : Bool :=
  -0x8000000000000000 ≤ i && i ≤ 0x7FFFFFFFFFFFFFFF

/-- The height at beat `i`; negative beats count from the end. -/
def atBeat (i : Int) : Except Error Int :=
  let j := if i < 0 then i + s.period else i
  if !isPlace i then .error (.place i)
  else if j < 0 then .error (.beat i)
  else match s.heights[j.toNat]? with
    | some h => .ok h
    | none => .error (.beat i)

/-- The sequence as a list in brackets. -/
def render : String :=
  "ThrowSequence([" ++ String.intercalate ", " (s.heights.map toString) ++ "])"

end Sequence

end Siteswap
