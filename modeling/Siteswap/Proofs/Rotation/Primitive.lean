/-
Primitive words: words that repeat no shorter word.

Every word is a repetition of one primitive word, and that is its root.
The root was introduced as the shortest prefix that repeats to the whole.
This file says that it is what the theory of words means by it
(`isRoot_root`), and what follows from there.

- Repetition does not change the root (`root_repeated`). So a word that
  repeats `w` has the root of `w`, which is no longer than `w`: this one
  fact makes the root primitive and its length least.
- A renaming of letters that keeps different letters different renames the
  root (`root_map`).
- A primitive word has as many rotations as letters, no two of them equal
  (`nodup_rotations`). Two equal ones would make the distance between their
  first letters a period, and the periods of the endless word are the
  multiples of the length.
-/
import Mathlib.Algebra.Order.Group.Unbundled.Int
import Mathlib.Data.List.Nodup
import Mathlib.Order.Bounds.Defs
import Siteswap.Proofs.Rotation.Root

namespace Siteswap.Rotation

section Words

variable {α : Type}

/-- A word that is no repetition of a shorter one. -/
def Primitive (p : List α) : Prop :=
  ∀ (k : Nat) (w : List α), p = repeated k w → p.length ≤ w.length

/-- The word `p` is the root of `s`: `s` repeats it, it repeats no shorter
word, and no shorter prefix of `s` repeats to `s`. -/
structure IsRoot (s p : List α) : Prop where
  repeats : ∃ k, 1 ≤ k ∧ s = repeated k p
  primitive : Primitive p
  least : IsLeast {n | ∃ k, s = repeated k (s.take n)} p.length

theorem map_repeated {β : Type} (f : α → β) (k : Nat) (w : List α) :
    (repeated k w).map f = repeated k (w.map f) := by
  unfold repeated
  rw [List.map_flatten, List.map_replicate]

/-- A renaming that tells the letters of two words apart tells the words
apart. -/
theorem eq_of_map_eq {β : Type} {f : α → β} {v w : List α}
    (hf : ∀ a ∈ v, ∀ b ∈ w, f a = f b → a = b) (h : v.map f = w.map f) : v = w := by
  induction v generalizing w with
  | nil => exact (List.map_eq_nil_iff.mp h.symm).symm
  | cons a v ih =>
      cases w with
      | nil => cases h
      | cons b w =>
          rw [List.map_cons, List.map_cons, List.cons.injEq] at h
          obtain ⟨hhead, htail⟩ := h
          have hab := hf a List.mem_cons_self b List.mem_cons_self hhead
          have hvw := ih (fun c hc d hd => hf c (List.mem_cons_of_mem a hc) d
            (List.mem_cons_of_mem b hd)) htail
          rw [hab, hvw]

end Words

variable {α : Type} [BEq α] [LawfulBEq α] [Inhabited α]

-- =================================================== roots of repetitions

/-- Copies of a word have its root. -/
theorem root_repeated {k : Nat} (hk : 1 ≤ k) (w : List α) :
    root (repeated k w) = root w := by
  rcases eq_or_ne w [] with rfl | hw
  · rw [repeated_nil]
  · exact root_eq_of_endless (repeated_ne_nil hk hw) hw (endless_repeated hk w)

theorem root_root (s : List α) : root (root s) = root s := by
  rcases eq_or_ne s [] with rfl | hs
  · simp [root]
  · exact root_eq_of_endless (root_ne_nil hs) hs (endless_root hs)

/-- What a word repeats is no shorter than its root. -/
theorem length_root_le_of_repeated {s w : List α} {k : Nat} (hs : s ≠ [])
    (h : s = repeated k w) : (root s).length ≤ w.length := by
  have hw : w ≠ [] := by
    rintro rfl
    rw [repeated_nil] at h
    exact hs h
  have hk : 1 ≤ k := by
    by_contra hk
    rw [show k = 0 by omega] at h
    exact hs h
  rw [h, root_repeated hk]
  exact Nat.le_of_dvd (List.length_pos_iff.mpr hw) (length_root_dvd hw)

/-- A root is primitive. -/
theorem primitive_root {s : List α} (hs : s ≠ []) : Primitive (root s) := by
  intro k w h
  have hle := length_root_le_of_repeated (root_ne_nil hs) h
  rwa [root_root] at hle

theorem isRoot_root {s : List α} (hs : s ≠ []) : IsRoot s (root s) := by
  have hrep := repeated_root hs
  have hpos : 1 ≤ s.length / (root s).length :=
    Nat.div_pos (Nat.le_of_dvd (List.length_pos_iff.mpr hs) (length_root_dvd hs))
      (length_root_pos hs)
  refine ⟨⟨_, hpos, hrep.symm⟩, primitive_root hs, ⟨s.length / (root s).length, ?_⟩,
    fun n hn => ?_⟩
  · rw [← root_eq_take hs]
    exact hrep.symm
  · obtain ⟨k, hk⟩ := hn
    exact (length_root_le_of_repeated hs hk).trans (List.length_take_le n s)

-- ============================================================== renaming

omit [Inhabited α] in
/-- Renaming the letters of a word renames its root, if different letters
stay different. -/
theorem root_map {β : Type} [BEq β] [LawfulBEq β] {f : α → β} {s : List α}
    (hf : ∀ a ∈ s, ∀ b ∈ s, f a = f b → a = b) : root (s.map f) = (root s).map f := by
  have hrepeats : repeatsAt (s.map f) = repeatsAt s := by
    funext n
    unfold repeatsAt
    rw [List.length_map, ← List.map_take, ← map_repeated, Bool.eq_iff_iff]
    simp only [Bool.and_eq_true, beq_iff_eq]
    refine and_congr_right fun _ => ⟨fun h => ?_, fun h => by rw [h]⟩
    exact eq_of_map_eq (fun a ha => hf a (List.mem_of_mem_take (mem_of_mem_repeated ha))) h
  unfold root
  rw [hrepeats, List.length_map]
  split
  · exact (List.map_take ..).symm
  · rfl

-- ============================================================= rotations

/-- Different rotations of a root begin at different letters. -/
theorem eq_of_rotate_root {s : List α} (hs : s ≠ []) {i j : Nat}
    (hi : i < (root s).length) (hj : j < (root s).length)
    (h : (root s).rotate i = (root s).rotate j) : i = j := by
  have hshift : ∀ t : Int, endless (root s) (t + i) = endless (root s) (t + j) := by
    intro t
    rw [← endless_rotate, h, endless_rotate]
  have hper : Function.Periodic (endless (root s)) ((i : Int) - j) := by
    intro t
    rw [show t + ((i : Int) - j) = t - j + i by omega]
    rw [hshift, Int.sub_add_cancel]
  have hdvd := (periodic_iff_dvd (root_ne_nil hs) _).mp hper
  rw [root_root] at hdvd
  have hzero : (i : Int) - j = 0 := Int.eq_zero_of_abs_lt_dvd hdvd (by rw [abs_lt]; omega)
  omega

/-- The rotations of a root are all different. -/
theorem nodup_rotations {s : List α} (hs : s ≠ []) : (rotations (root s)).Nodup := by
  unfold rotations
  refine List.Nodup.map_on (fun i hi j hj h => ?_) List.nodup_range
  rw [List.mem_range] at hi hj
  rw [← List.rotate_eq_drop_append_take hi.le, ← List.rotate_eq_drop_append_take hj.le] at h
  exact eq_of_rotate_root hs hi hj h

end Siteswap.Rotation
