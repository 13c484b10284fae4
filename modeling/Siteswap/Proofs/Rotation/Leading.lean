/-
Canonical words: the greatest rotation of the root.

Canonical words are a complete invariant: two words that are not empty
have one canonical word iff their endless words differ by a shift
(`canonical_eq_iff`). The lengths of the two words do not matter, nor
whether one of them repeats.

# The two halves

- Equal canonical words, equal cycles. A word, its root and every rotation
  of the root have endless words that differ by a shift
  (`canonical_sameCycle`), and shifts compose.
- Equal cycles, equal canonical words. The roots are rotations of each
  other (`root_isRotated_of_shift`), so they have the same rotations, and
  the greatest of some words depends on which words there are, not on
  their order or number (`leading_congr`).

Words are compared letter by letter. The order is used through `<` alone.
-/
import Siteswap.Proofs.Rotation.Root

namespace Siteswap.Rotation

open List (IsRotated)

-- ==================================================== the greatest word

/-- The greater of two words, as `greatest` keeps it. -/
private theorem foldl_greatest (ws : List (List Int)) (a : List Int) :
    ws.foldl (fun a b => if a < b then b else a) a ∈ a :: ws
      ∧ ∀ w ∈ a :: ws,
          ¬ ws.foldl (fun a b => if a < b then b else a) a < w := by
  induction ws generalizing a with
  | nil =>
      refine ⟨List.mem_cons_self, fun w hw => ?_⟩
      rw [List.mem_singleton] at hw
      rw [hw]
      exact List.lt_irrefl a
  | cons b ws ih =>
      rw [List.foldl_cons]
      by_cases hab : a < b
      · rw [if_pos hab]
        obtain ⟨hmem, hmax⟩ := ih b
        refine ⟨List.mem_cons_of_mem a hmem, fun w hw => ?_⟩
        rcases List.mem_cons.mp hw with rfl | hw
        · intro hlt
          exact hmax b List.mem_cons_self (List.lt_trans hlt hab)
        · exact hmax w hw
      · rw [if_neg hab]
        obtain ⟨hmem, hmax⟩ := ih a
        refine ⟨?_, fun w hw => ?_⟩
        · rcases List.mem_cons.mp hmem with heq | hmem
          · rw [heq]
            exact List.mem_cons_self
          · exact List.mem_cons_of_mem a (List.mem_cons_of_mem b hmem)
        · rcases List.mem_cons.mp hw with rfl | hw
          · exact hmax w List.mem_cons_self
          · rcases List.mem_cons.mp hw with rfl | hw
            · intro hlt
              -- what is below `b` and not below `a` puts `a` below `b`
              exact hab (List.lt_of_le_of_lt (hmax a List.mem_cons_self) hlt)
            · exact hmax w (List.mem_cons_of_mem a hw)

/-- The greatest of some words is one of them, and none is greater. -/
theorem greatest_spec {ws : List (List Int)} (h : ws ≠ []) :
    greatest ws ∈ ws ∧ ∀ w ∈ ws, ¬ greatest ws < w := by
  obtain ⟨hmem, hmax⟩ := foldl_greatest ws []
  refine ⟨?_, fun w hw => hmax w (List.mem_cons_of_mem [] hw)⟩
  rcases List.mem_cons.mp hmem with hnil | hmem
  · obtain ⟨w, rest, rfl⟩ := List.exists_cons_of_ne_nil h
    have hw := hmax w (List.mem_cons_of_mem [] List.mem_cons_self)
    rw [hnil] at hw
    cases w with
    | nil =>
        unfold greatest
        rw [hnil]
        exact List.mem_cons_self
    | cons a w => exact absurd (List.nil_lt_cons a w) hw
  · exact hmem

/-- Two greatest words of the same words are equal. -/
theorem eq_of_not_lt {v w : List Int} (h : ¬ v < w) (h' : ¬ w < v) :
    v = w :=
  List.le_antisymm h' h

-- ============================================================ rotations

theorem mem_rotations {s w : List Int} (hs : s ≠ []) :
    w ∈ rotations s ↔ s ~r w := by
  have hpos : 0 < s.length := List.length_pos_iff.mpr hs
  unfold rotations
  rw [List.mem_map]
  constructor
  · intro hmem
    obtain ⟨i, hi, rfl⟩ := hmem
    rw [List.mem_range] at hi
    exact ⟨i, List.rotate_eq_drop_append_take (by omega)⟩
  · intro hrot
    obtain ⟨i, rfl⟩ := hrot
    have hlt : i % s.length < s.length := Nat.mod_lt i hpos
    refine ⟨i % s.length, List.mem_range.mpr hlt, ?_⟩
    rw [← List.rotate_eq_drop_append_take (by omega), List.rotate_mod]

/-- The greatest rotation is a rotation, and none is greater. -/
theorem leading_spec {s : List Int} (hs : s ≠ []) :
    s ~r leading s ∧ ∀ w, s ~r w → ¬ leading s < w := by
  have hne : rotations s ≠ [] :=
    List.ne_nil_of_mem ((mem_rotations hs).mpr (IsRotated.refl s))
  obtain ⟨hmem, hmax⟩ := greatest_spec hne
  exact ⟨(mem_rotations hs).mp hmem,
    fun w hw => hmax w ((mem_rotations hs).mpr hw)⟩

/-- Rotations of one word have one greatest rotation. -/
theorem leading_congr {s t : List Int} (hs : s ≠ []) (h : s ~r t) :
    leading s = leading t := by
  have ht : t ≠ [] := by
    intro hnil
    rw [hnil] at h
    exact hs (List.isRotated_nil_iff.mp h)
  obtain ⟨hrs, hms⟩ := leading_spec hs
  obtain ⟨hrt, hmt⟩ := leading_spec ht
  exact eq_of_not_lt (hms _ (h.trans hrt)) (hmt _ (h.symm.trans hrs))

-- ====================================================== canonical words

/-- The canonical word is a rotation of the root. -/
theorem root_isRotated_canonical {s : List Int} (hs : s ≠ []) :
    root s ~r canonical s :=
  (leading_spec (root_ne_nil hs)).1

theorem length_canonical {s : List Int} (hs : s ≠ []) :
    (canonical s).length = (root s).length :=
  (root_isRotated_canonical hs).perm.length_eq.symm

theorem length_canonical_dvd {s : List Int} (hs : s ≠ []) :
    (canonical s).length ∣ s.length := by
  rw [length_canonical hs]
  exact length_root_dvd hs

theorem canonical_ne_nil {s : List Int} (hs : s ≠ []) :
    canonical s ≠ [] := by
  rw [← List.length_pos_iff, length_canonical hs]
  exact length_root_pos hs

/-- The rotations of the root write the same cycle. -/
theorem sameCycle_of_isRotated_root {s w : List Int} (hs : s ≠ []) (h : root s ~r w) :
    SameCycle w s := by
  obtain ⟨i, hi⟩ := h
  refine ⟨i, fun t => ?_⟩
  rw [← hi, endless_rotate, endless_root hs]

/-- The canonical word writes the same cycle. -/
theorem canonical_sameCycle {s : List Int} (hs : s ≠ []) :
    SameCycle (canonical s) s :=
  sameCycle_of_isRotated_root hs (root_isRotated_canonical hs)

/-- Words of one cycle have one canonical word. -/
theorem canonical_eq_of_sameCycle {a b : List Int} (ha : a ≠ [])
    (hb : b ≠ []) (h : SameCycle a b) : canonical a = canonical b := by
  obtain ⟨k, h⟩ := h
  exact (leading_congr (root_ne_nil hb) (root_isRotated_of_shift ha hb h)).symm

/-- Words have one canonical word iff they write one cycle. -/
theorem canonical_eq_iff {a b : List Int} (ha : a ≠ []) (hb : b ≠ []) :
    canonical a = canonical b ↔ SameCycle a b := by
  constructor
  · intro heq
    obtain ⟨i, hi⟩ := canonical_sameCycle ha
    obtain ⟨j, hj⟩ := canonical_sameCycle hb
    refine ⟨-i + j, fun t => ?_⟩
    rw [shift_symm hi, heq, hj, Int.add_assoc]
  · exact canonical_eq_of_sameCycle ha hb

/-- Canonical words are canonical. -/
theorem canonical_canonical {s : List Int} (hs : s ≠ []) :
    canonical (canonical s) = canonical s :=
  canonical_eq_of_sameCycle (canonical_ne_nil hs) hs (canonical_sameCycle hs)

/-- A word of one letter over and over is that letter. -/
theorem canonical_replicate (n : Nat) (a : Int) :
    canonical (List.replicate (n + 1) a) = [a] := by
  have hs : List.replicate (n + 1) a ≠ [] := List.cons_ne_nil a _
  have hper : Function.Periodic (endless (List.replicate (n + 1) a)) 1 := by
    intro t
    rw [endless_eq_get hs, endless_eq_get hs, List.get_eq_getElem,
      List.get_eq_getElem, List.getElem_replicate, List.getElem_replicate]
  have hlen : (root (List.replicate (n + 1) a)).length = 1 := by
    have hdvd := (periodic_iff_dvd hs 1).mp hper
    exact Nat.dvd_one.mp (Int.natCast_dvd_natCast.mp hdvd)
  have hrot := root_isRotated_canonical hs
  rw [root_eq_take hs, hlen, List.replicate_succ, List.take_succ_cons,
    List.take_zero, List.isRotated_singleton_iff'] at hrot
  rw [List.replicate_succ]
  exact hrot.symm

-- ================================================================= sums

theorem sum_repeated {R : Type} [Semiring R] (k : Nat) (w : List R) :
    (repeated k w).sum = k * w.sum := by
  induction k with
  | zero => rw [Nat.cast_zero, zero_mul]; rfl
  | succ k ih =>
      rw [repeated_succ, List.sum_append, ih, Nat.cast_succ, add_mul, one_mul,
        add_comm]

/-- The canonical word has the average of the word. -/
theorem sum_canonical {s : List Int} (hs : s ≠ []) :
    (canonical s).sum * s.length = s.sum * (canonical s).length := by
  have hperm := (root_isRotated_canonical hs).perm
  have hrep := repeated_root hs
  have hlen : s.length = s.length / (root s).length * (root s).length :=
    (Nat.div_mul_cancel (length_root_dvd hs)).symm
  have hsum : s.sum = (s.length / (root s).length : Nat) * (root s).sum := by
    rw [← sum_repeated, hrep]
  rw [← hperm.sum_eq, ← hperm.length_eq, hsum]
  generalize s.length / (root s).length = k at hlen
  rw [hlen, Int.natCast_mul, Int.mul_left_comm, Int.mul_assoc]

/-- A whole average is the average of the canonical word. -/
theorem sum_canonical_of_average {s : List Int} (hs : s ≠ []) {average : Int}
    (h : s.sum = average * s.length) :
    (canonical s).sum = average * (canonical s).length := by
  have hpos : 0 < s.length := List.length_pos_iff.mpr hs
  have hcanon := sum_canonical hs
  rw [h, Int.mul_right_comm] at hcanon
  exact Int.eq_of_mul_eq_mul_right (by omega) hcanon

end Siteswap.Rotation
