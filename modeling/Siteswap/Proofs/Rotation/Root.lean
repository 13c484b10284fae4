/-
Roots: the least period of an endless word, and the word it cuts off.

`root` looks for the shortest prefix that repeats to the whole, among the
prefixes that are at most half as long. This file says what it finds: a
prefix whose length is a period of the endless word and divides every
other period.

# Why the root depends on the endless word alone

The periods of an endless word are closed under greatest common divisors
(`periodic_gcd`), so the least one divides all (`periodic_iff_dvd`). A
length read off the endless word and letters read off the endless word
leave nothing to the word itself: equal endless words have equal roots
(`root_eq_of_endless`), and endless words that differ by a shift have
roots that differ by a rotation (`root_isRotated_of_shift`), whatever the
lengths of the two words.
-/
import Siteswap.Proofs.Rotation.Endless

namespace Siteswap.Rotation

variable {α : Type} [BEq α] [LawfulBEq α] [Inhabited α]

-- ================================================== repetition as period

/-- A word repeats its prefix of length `n` iff `n` divides its length
and is a period of its endless word. -/
theorem repeatsAt_iff {s : List α} {n : Nat} (hn : 0 < n) (hs : s ≠ []) :
    repeatsAt s n = true
      ↔ n ∣ s.length ∧ Function.Periodic (endless s) (n : Int) := by
  unfold repeatsAt
  rw [Bool.and_eq_true, beq_iff_eq, beq_iff_eq, ← Nat.dvd_iff_mod_eq_zero]
  refine and_congr_right fun hdvd => ?_
  have hpos : 0 < s.length := List.length_pos_iff.mpr hs
  have hle : n ≤ s.length := Nat.le_of_dvd hpos hdvd
  have hlen : (s.take n).length = n := by
    rw [List.length_take, Nat.min_eq_left hle]
  have hk : 0 < s.length / n := Nat.div_pos hle hn
  constructor
  · intro heq t
    rw [← heq, endless_repeated hk, endless_repeated hk]
    have hper := periodic_length (s.take n)
    rw [hlen] at hper
    exact hper t
  · intro hper
    refine eq_of_endless ?_ fun t => ?_
    · rw [length_repeated, hlen, Nat.div_mul_cancel hdvd]
    · rw [endless_repeated hk, endless_take hn hle hper]

-- ============================================================== the root

/-- What `root` finds: the least length at which the word repeats. -/
theorem root_spec {s : List α} (hs : s ≠ []) :
    ∃ n, 0 < n ∧ n ≤ s.length ∧ root s = s.take n
      ∧ repeatsAt s n = true
      ∧ ∀ m, 0 < m → repeatsAt s m = true → n ≤ m := by
  have hpos : 0 < s.length := List.length_pos_iff.mpr hs
  unfold root
  split
  case h_1 n hfind =>
    rw [List.find?_range'_eq_some, List.mem_range'_1] at hfind
    obtain ⟨hrep, ⟨hn, hlt⟩, hleast⟩ := hfind
    refine ⟨n, hn, by omega, rfl, hrep, fun m hm hm' => ?_⟩
    by_contra hnm
    have := hleast m hm (by omega)
    rw [hm'] at this
    cases this
  case h_2 hfind =>
    rw [List.find?_range'_eq_none] at hfind
    refine ⟨s.length, hpos, Nat.le_refl _, List.take_length.symm, ?_,
      fun m hm hm' => ?_⟩
    · rw [repeatsAt_iff hpos hs]
      exact ⟨Nat.dvd_refl _, periodic_length s⟩
    · -- a divisor beyond the half is the whole
      obtain ⟨k, hk⟩ := ((repeatsAt_iff hm hs).mp hm').1
      by_contra hlt
      have hhalf : m ≤ s.length / 2 := by
        have hk2 : 2 ≤ k := by
          by_contra hk2
          have : k = 0 ∨ k = 1 := by omega
          rcases this with rfl | rfl <;> omega
        rw [Nat.le_div_iff_mul_le (by omega), hk]
        exact Nat.mul_le_mul_left m hk2
      have := hfind m hm (by omega)
      rw [hm'] at this
      cases this

theorem length_root_pos {s : List α} (hs : s ≠ []) :
    0 < (root s).length := by
  obtain ⟨n, hn, hle, hroot, -, -⟩ := root_spec hs
  rw [hroot, List.length_take, Nat.min_eq_left hle]
  exact hn

theorem root_ne_nil {s : List α} (hs : s ≠ []) : root s ≠ [] :=
  List.length_pos_iff.mp (length_root_pos hs)

/-- The word repeats at the length of its root, and no earlier. -/
theorem repeatsAt_length_root {s : List α} (hs : s ≠ []) :
    repeatsAt s (root s).length = true
      ∧ ∀ m, 0 < m → repeatsAt s m = true → (root s).length ≤ m := by
  obtain ⟨n, -, hle, hroot, hrep, hleast⟩ := root_spec hs
  have hlen : (root s).length = n := by
    rw [hroot, List.length_take, Nat.min_eq_left hle]
  rw [hlen]
  exact ⟨hrep, hleast⟩

theorem root_eq_take {s : List α} (hs : s ≠ []) :
    root s = s.take (root s).length := by
  obtain ⟨n, -, hle, hroot, -, -⟩ := root_spec hs
  have hlen : (root s).length = n := by
    rw [hroot, List.length_take, Nat.min_eq_left hle]
  rw [hlen, hroot]

theorem length_root_dvd {s : List α} (hs : s ≠ []) :
    (root s).length ∣ s.length :=
  ((repeatsAt_iff (length_root_pos hs) hs).mp (repeatsAt_length_root hs).1).1

theorem periodic_length_root {s : List α} (hs : s ≠ []) :
    Function.Periodic (endless s) ((root s).length : Int) :=
  ((repeatsAt_iff (length_root_pos hs) hs).mp (repeatsAt_length_root hs).1).2

/-- A word is its root, over and over. -/
theorem repeated_root {s : List α} (hs : s ≠ []) :
    repeated (s.length / (root s).length) (root s) = s := by
  have hrep := (repeatsAt_length_root hs).1
  unfold repeatsAt at hrep
  rw [Bool.and_eq_true, beq_iff_eq, beq_iff_eq, ← root_eq_take hs] at hrep
  exact hrep.2

/-- A word and its root have one endless word. -/
theorem endless_root {s : List α} (hs : s ≠ []) (t : Int) :
    endless (root s) t = endless s t := by
  have hle := Nat.le_of_dvd (List.length_pos_iff.mpr hs) (length_root_dvd hs)
  rw [root_eq_take hs]
  exact endless_take (length_root_pos hs) hle (periodic_length_root hs) t

-- =============================================================== periods

omit [BEq α] [LawfulBEq α] [Inhabited α] in
/-- Two periods have their greatest common divisor as a period. -/
theorem periodic_gcd {f : Int → α} {c d : Int}
    (hc : Function.Periodic f c) (hd : Function.Periodic f d) :
    Function.Periodic f (Int.gcd c d : Int) := by
  rw [Int.gcd_eq_gcd_ab, Int.mul_comm c, Int.mul_comm d]
  exact (hc.int_mul _).add_period (hd.int_mul _)

/-- The periods of an endless word are the multiples of its root's
length. -/
theorem periodic_iff_dvd {s : List α} (hs : s ≠ []) (d : Int) :
    Function.Periodic (endless s) d ↔ ((root s).length : Int) ∣ d := by
  constructor
  · intro hd
    have hpos := length_root_pos hs
    let g := Int.gcd (root s).length d
    have hg : Function.Periodic (endless s) (g : Int) :=
      periodic_gcd (periodic_length_root hs) hd
    have hgroot : g ∣ (root s).length :=
      Int.natCast_dvd_natCast.mp (Int.gcd_dvd_left _ _)
    have hgpos : 0 < g := Nat.pos_of_dvd_of_pos hgroot hpos
    -- the word repeats at `g` too, so `g` is no shorter than the root
    have hrep : repeatsAt s g = true :=
      (repeatsAt_iff hgpos hs).mpr ⟨hgroot.trans (length_root_dvd hs), hg⟩
    have hle := (repeatsAt_length_root hs).2 g hgpos hrep
    have heq : g = (root s).length :=
      Nat.le_antisymm (Nat.le_of_dvd hpos hgroot) hle
    rw [← heq]
    exact Int.gcd_dvd_right _ _
  · intro hdvd
    obtain ⟨k, rfl⟩ := hdvd
    rw [Int.mul_comm]
    exact (periodic_length_root hs).int_mul k

-- =========================================== roots up to shift

omit [BEq α] [LawfulBEq α] [Inhabited α] in
theorem periodic_of_shift {f g : Int → α} {k d : Int}
    (h : ∀ t, f t = g (t + k)) (hd : Function.Periodic g d) :
    Function.Periodic f d := by
  intro t
  rw [h, h, Int.add_right_comm, hd]

omit [BEq α] [LawfulBEq α] [Inhabited α] in
theorem shift_symm {f g : Int → α} {k : Int} (h : ∀ t, f t = g (t + k)) :
    ∀ t, g t = f (t + -k) := by
  intro t
  rw [h, Int.neg_add_cancel_right]

/-- Endless words that differ by a shift have roots of one length. -/
theorem length_root_of_shift {a b : List α} (ha : a ≠ []) (hb : b ≠ [])
    {k : Int} (h : ∀ t, endless a t = endless b (t + k)) :
    (root a).length = (root b).length := by
  apply Nat.dvd_antisymm
  · rw [← Int.natCast_dvd_natCast, ← periodic_iff_dvd ha]
    exact periodic_of_shift h (periodic_length_root hb)
  · rw [← Int.natCast_dvd_natCast, ← periodic_iff_dvd hb]
    exact periodic_of_shift (shift_symm h) (periodic_length_root ha)

/-- Endless words that differ by a shift have roots that differ by a
rotation. -/
theorem root_isRotated_of_shift {a b : List α} (ha : a ≠ []) (hb : b ≠ [])
    {k : Int} (h : ∀ t, endless a t = endless b (t + k)) :
    root b ~r root a := by
  have hlen := length_root_of_shift ha hb h
  refine ⟨(k % (root b).length).toNat, ?_⟩
  refine eq_of_endless (by rw [List.length_rotate, hlen]) fun t => ?_
  rw [endless_rotate, endless_root ha, h, ← endless_root hb,
    natCast_place (root_ne_nil hb)]
  apply endless_congr
  exact Int.add_emod_emod _ _ _

/-- Equal endless words have equal roots. -/
theorem root_eq_of_endless {a b : List α} (ha : a ≠ []) (hb : b ≠ [])
    (h : ∀ t, endless a t = endless b t) : root a = root b := by
  refine eq_of_endless ?_ fun t => ?_
  · refine length_root_of_shift (k := 0) ha hb fun t => ?_
    rw [Int.add_zero, h]
  · rw [endless_root ha, endless_root hb, h]

end Siteswap.Rotation
