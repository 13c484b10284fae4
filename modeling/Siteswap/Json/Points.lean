/-
Strings of documents.

A document may write one UTF-16 unit of a pair and leave out the other. Such
a half is no character, but it belongs to the string, and strings that differ
in it are not the same. So a string is made of points: characters, and halves
that stand alone. Halves that make a pair are one point, their character.
-/
namespace Siteswap.Json

/-- A character of a string, or half of one. -/
inductive Point where
  | char (c : Char)
  /-- the first half of a pair -/
  | high (i : Fin 0x400)
  /-- the second half of a pair -/
  | low (i : Fin 0x400)
  deriving DecidableEq

namespace Point

/-- The point that a UTF-16 unit is. -/
def ofUnit (n : Nat) : Point :=
  if _ : 0xD800 ≤ n ∧ n < 0xDC00 then high ⟨n - 0xD800, by omega⟩
  else if _ : 0xDC00 ≤ n ∧ n < 0xE000 then low ⟨n - 0xDC00, by omega⟩
  else char (Char.ofNat n)

/-- The character of a pair. -/
def pair (i j : Fin 0x400) : Point :=
  char (Char.ofNat (0x10000 + i * 0x400 + j))

/-- The character to look at where halves do not count: half a character is
neither a digit nor a blank. -/
def toChar : Point → Char
  | char c => c
  | _ => '\uFFFD'

end Point

/-- Points with all halves joined that make a pair. -/
def joined : List Point → List Point
  | .high i :: .low j :: rest => .pair i j :: joined rest
  | p :: rest => p :: joined rest
  | [] => []

theorem joined_char (c : Char) (ps : List Point) :
    joined (.char c :: ps) = .char c :: joined ps := by
  rw [joined]
  nofun

theorem joined_low (j : Fin 0x400) (ps : List Point) :
    joined (.low j :: ps) = .low j :: joined ps := by
  rw [joined]
  nofun

/-- A half stays alone if the other does not follow. -/
theorem joined_high {i : Fin 0x400} {ps : List Point} (h : ∀ j rest, ps ≠ .low j :: rest) :
    joined (.high i :: ps) = .high i :: joined ps := by
  rw [joined]
  exact fun _ j rest _ hps => h j rest hps

theorem joined_singleton (p : Point) : joined [p] = [p] := by
  cases p <;> rfl

/-- Joining brings no second half to the front. -/
theorem joined_ne_low {ps : List Point} (h : ∀ j rest, ps ≠ .low j :: rest) (j : Fin 0x400)
    (rest : List Point) : joined ps ≠ .low j :: rest := by
  fun_cases joined ps with
  | case1 => nofun
  | case2 p rest' =>
      intro heq
      injection heq with hp
      exact h j rest' (by rw [hp])
  | case3 => nofun

theorem joined_joined (ps : List Point) : joined (joined ps) = joined ps := by
  fun_induction joined ps with
  | case1 i j rest ih => rw [Point.pair, joined_char, ih]
  | case2 p rest halone ih =>
      cases p with
      | char c => rw [joined_char, ih]
      | low j => rw [joined_low, ih]
      | high i => rw [joined_high (joined_ne_low fun j rest' heq => halone i j rest' rfl heq), ih]
  | case3 => rfl

theorem joined_map_char (cs : List Char) : joined (cs.map .char) = cs.map .char := by
  induction cs with
  | nil => rfl
  | cons c cs ih => rw [List.map_cons, joined_char, ih]

/-- A string: points of which no two make a pair. -/
structure Points where
  points : List Point
  apart : joined points = points
  deriving DecidableEq

namespace Points

/-- The string that some points make. -/
def join (ps : List Point) : Points :=
  ⟨joined ps, joined_joined ps⟩

def single (p : Point) : Points :=
  ⟨[p], joined_singleton p⟩

/-- A text of characters, as a string. -/
def ofString (s : String) : Points :=
  ⟨s.toList.map .char, joined_map_char _⟩

instance : Coe String Points := ⟨ofString⟩

/-- Texts are the same as strings iff they are as texts. -/
@[simp]
theorem ofString_inj {a b : String} : ofString a = ofString b ↔ a = b := by
  refine ⟨fun h => ?_, congrArg ofString⟩
  have hchars : a.toList.map Point.char = b.toList.map Point.char := congrArg points h
  refine String.toList_injective (List.map_inj_right ?_ |>.mp hchars)
  intro c d hcd
  injection hcd

variable (s : Points)

/-- The characters of a string, with a substitute for each half of one. -/
def chars : List Char :=
  s.points.map Point.toChar

end Points

end Siteswap.Json
