/-
Alphabets of throws: which character stands for which height.

A height is the place of its letter, counted from zero. Where a letter is
repeated its last place counts, and the earlier places have no letter.
Reading ignores case, writing does not change it: an alphabet with a
capital letter can write what it cannot read. `standard` is the alphabet
of siteswap, ten digits and twenty-six small letters.
-/
import Siteswap.Text.Lowercase

namespace Siteswap

structure Alphabet where
  letters : List Char
  deriving DecidableEq

namespace Alphabet

/-- Why a text has no heights, or heights no text. -/
inductive Error where
  /-- a character that is no letter, and where it stands -/
  | unknownLetter (c : Char) (position : Nat)
  /-- a height without a letter -/
  | unknownHeight (h : Int)
  deriving DecidableEq

/-- The last place of `c` among `letters`. -/
def lastIndex? (c : Char) : (letters : List Char) → Option Nat
  | [] => none
  | l :: ls =>
    match lastIndex? c ls with
    | some i => some (i + 1)
    | none => if l = c then some 0 else none

variable (a : Alphabet)

/-- The height that the letter `c` stands for. -/
def index? (c : Char) : Option Nat :=
  lastIndex? c a.letters

/-- The height that a typed character stands for, in either case. What
does not lower to a single character stands for none. -/
def heightOf? (typed : List Char) : Option Nat :=
  match Text.lower typed with
  | [c] => a.index? c
  | _ => none

def letterOf? (h : Int) : Option Char :=
  if h < 0 then none
  else (a.letters[h.toNat]?).filter fun c => a.index? c = some h.toNat

/-- The heights of a text whose first character stands at `position`. -/
def encodeFrom (position : Nat) : List Char → Except Error (List Int)
  | [] => .ok []
  | c :: rest =>
    match a.heightOf? [c] with
    | none => .error (.unknownLetter c position)
    | some h => (encodeFrom (position + 1) rest).map ((h : Int) :: ·)

def encode (s : List Char) : Except Error (List Int) :=
  a.encodeFrom 0 s

def decode : List Int → Except Error (List Char)
  | [] => .ok []
  | h :: hs =>
    match a.letterOf? h with
    | none => .error (.unknownHeight h)
    | some c => (decode hs).map (c :: ·)

-- ============================================== the standard alphabet

/-- Digits for the heights 0 to 9, letters for 10 to 35. -/
def standard : Alphabet where
  letters := [
    '0', '1', '2', '3', '4', '5', '6', '7', '8', '9', 'a', 'b', 'c', 'd', 'e', 'f', 'g', 'h',
    'i', 'j', 'k', 'l', 'm', 'n', 'o', 'p', 'q', 'r', 's', 't', 'u', 'v', 'w', 'x', 'y', 'z']

/-- The greatest height with a letter. -/
def maxHeight : Int := 35

def isLetter (c : Char) : Bool :=
  (standard.index? c).isSome

def Error.message : Error → String
  | .unknownLetter c position => "'" ++ c.toString ++ "' at position " ++ toString position
      ++ " is not a throw"
  | .unknownHeight h => "Throw height " ++ toString h ++ " outside 0.." ++ toString maxHeight

-- ======================================================== small lemmas

theorem lastIndex?_lt {c : Char} {letters : List Char} {i : Nat}
    (h : lastIndex? c letters = some i) : i < letters.length := by
  induction letters generalizing i with
  | nil => simp [lastIndex?] at h
  | cons l ls ih =>
    unfold lastIndex? at h
    split at h
    · rename_i j hj
      have := ih hj
      simp_all; omega
    · split at h <;> simp_all; omega

/-- Heights of the standard alphabet do not exceed `maxHeight`. -/
theorem index?_standard_le {c : Char} {i : Nat} (h : standard.index? c = some i) :
    (i : Int) ≤ maxHeight := by
  have := lastIndex?_lt h
  simp only [standard, List.length_cons, List.length_nil, maxHeight] at *
  omega

theorem heightOf?_standard_le {typed : List Char} {i : Nat}
    (h : standard.heightOf? typed = some i) : (i : Int) ≤ maxHeight := by
  unfold heightOf? at h
  split at h
  · exact index?_standard_le h
  · simp at h

/-- All heights of an encoded text lie in the standard range. -/
theorem range_of_encodeFrom {position : Nat} {s : List Char} {hs : List Int}
    (h : standard.encodeFrom position s = .ok hs) : ∀ t ∈ hs, 0 ≤ t ∧ t ≤ maxHeight := by
  induction s generalizing position hs with
  | nil => simp_all [encodeFrom]
  | cons c rest ih =>
    unfold encodeFrom at h
    split at h
    · simp at h
    · rename_i i hi
      cases hr : standard.encodeFrom (position + 1) rest with
      | error e => simp [hr, Except.map] at h
      | ok ts =>
        simp only [hr, Except.map, Except.ok.injEq] at h
        subst h
        have := heightOf?_standard_le hi
        intro t ht
        rcases List.mem_cons.mp ht with rfl | ht
        · exact ⟨Int.natCast_nonneg i, this⟩
        · exact ih hr t ht

end Alphabet

end Siteswap
