/-
Cyclic words: repetition and rotation of lists.

The root of a word is its shortest prefix that gives the word back when
repeated. A word has as many rotations as letters; the greatest of them,
letter by letter, begins with the greatest letter and stands for all.
-/
namespace Siteswap.Rotation

-- ========================================================== repetition

section Repetition

variable {α : Type} [BEq α]

/-- The word `w`, `k` times. -/
def repeated (k : Nat) (w : List α) : List α :=
  (List.replicate k w).flatten

/-- Whether `s` is its prefix of length `n` over and over. -/
def repeatsAt (s : List α) (n : Nat) : Bool :=
  s.length % n == 0 && repeated (s.length / n) (s.take n) == s

/-- The shortest prefix of `s` that repeats to `s`. Proper ones are at
most half as long. -/
def root (s : List α) : List α :=
  match (List.range' 1 (s.length / 2)).find? (repeatsAt s) with
  | some n => s.take n
  | none => s

end Repetition

-- ============================================================ rotation

/-- All rotations, by one letter more each. -/
def rotations {α : Type} (s : List α) : List (List α) :=
  (List.range s.length).map fun i => s.drop i ++ s.take i

/-- The greatest of some words, letter by letter. -/
def greatest (ws : List (List Int)) : List Int :=
  ws.foldl (fun a b => if a < b then b else a) []

/-- The greatest rotation. -/
def leading (s : List Int) : List Int :=
  greatest (rotations s)

/-- The greatest rotation of the root: the same for all words that write
one endless sequence, begun at any place. -/
def canonical (s : List Int) : List Int :=
  leading (root s)

-- ======================================================== small lemmas

theorem mem_of_mem_root {s : List Int} {h : Int} (hh : h ∈ root s) : h ∈ s := by
  unfold root at hh
  split at hh
  · exact List.mem_of_mem_take hh
  · exact hh

theorem greatest_mem_or_nil (ws : List (List Int)) : greatest ws ∈ ws ∨ greatest ws = [] := by
  have key : ∀ (ws : List (List Int)) (a : List Int),
      ws.foldl (fun a b => if a < b then b else a) a ∈ ws
        ∨ ws.foldl (fun a b => if a < b then b else a) a = a := by
    intro ws
    induction ws with
    | nil => simp
    | cons w ws ih =>
      intro a
      rw [List.foldl_cons]
      rcases ih (if a < w then w else a) with hmem | heq
      · exact .inl (List.mem_cons_of_mem _ hmem)
      · rw [heq]
        split <;> simp
  exact key ws []

theorem mem_of_mem_leading {s : List Int} {h : Int} (hh : h ∈ leading s) : h ∈ s := by
  unfold leading at hh
  rcases greatest_mem_or_nil (rotations s) with hmem | hnil
  · obtain ⟨i, -, hi⟩ := List.mem_map.mp hmem
    rw [← hi] at hh
    rcases List.mem_append.mp hh with hh | hh
    · exact List.mem_of_mem_drop hh
    · exact List.mem_of_mem_take hh
  · simp [hnil] at hh

/-- Canonical words use the letters of the word. -/
theorem mem_of_mem_canonical {s : List Int} {h : Int} (hh : h ∈ canonical s) : h ∈ s :=
  mem_of_mem_root (mem_of_mem_leading hh)

end Siteswap.Rotation
