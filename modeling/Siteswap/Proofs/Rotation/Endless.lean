/-
Endless words: a word repeated without end, towards both ends of time.

A pattern is juggled over and over, so what its spelling means is the
letter at every time. Time runs over all integers here; a word's own
places are the times from zero up to its length.

# What the endless word forgets

- Repetition: `k` copies of a word, `k` at least one, have the endless
  word of one copy (`endless_repeated`).
- Nothing else, at a fixed length: two words of one length with the same
  endless word are equal (`eq_of_endless`).

Rotation by `k` moves the endless word by `k` (`endless_rotate`), and a
prefix has the endless word of the whole as soon as its length is a
period (`endless_take`). These two carry the theory of roots and of
canonical rotations.
-/
import Mathlib.Algebra.Ring.Periodic
import Mathlib.Data.List.Rotate
import Siteswap.Rotation

namespace Siteswap.Rotation

section Places

variable {α : Type}

-- =============================================================== places

theorem natCast_place {s : List α} (hs : s ≠ []) (t : Int) :
    ((t % s.length).toNat : Int) = t % s.length := by
  have hpos : 0 < s.length := List.length_pos_iff.mpr hs
  exact Int.toNat_of_nonneg (Int.emod_nonneg t (by omega))

theorem place_lt {s : List α} (hs : s ≠ []) (t : Int) :
    (t % s.length).toNat < s.length := by
  have hpos : 0 < s.length := List.length_pos_iff.mpr hs
  have hlt := Int.emod_lt_of_pos t (show (0 : Int) < s.length by omega)
  have hcast := natCast_place hs t
  omega

-- =========================================================== repetition

theorem length_repeated (k : Nat) (w : List α) :
    (repeated k w).length = k * w.length := by
  unfold repeated
  rw [List.length_flatten, List.map_replicate, List.sum_replicate_nat]

theorem repeated_succ (k : Nat) (w : List α) :
    repeated (k + 1) w = w ++ repeated k w := by
  unfold repeated
  rw [List.replicate_succ, List.flatten_cons]

@[simp] theorem repeated_nil (k : Nat) : repeated k ([] : List α) = [] := by
  simp [repeated]

theorem repeated_ne_nil {k : Nat} {w : List α} (hk : 0 < k) (hw : w ≠ []) :
    repeated k w ≠ [] := by
  rw [← List.length_pos_iff, length_repeated]
  exact Nat.mul_pos hk (List.length_pos_iff.mpr hw)

/-- Copies of a word have its letters. -/
theorem mem_of_mem_repeated {k : Nat} {w : List α} {a : α}
    (h : a ∈ repeated k w) : a ∈ w := by
  obtain ⟨v, hv, ha⟩ := List.mem_flatten.mp h
  rwa [List.eq_of_mem_replicate hv] at ha

/-- Copies of copies are copies. -/
theorem repeated_mul (k j : Nat) (w : List α) :
    repeated (k * j) w = repeated j (repeated k w) := by
  induction j with
  | zero => rfl
  | succ j ih =>
      rw [repeated_succ, ← ih, Nat.mul_succ, Nat.add_comm]
      unfold repeated
      rw [List.replicate_add, List.flatten_append]

/-- Every place of a repetition holds the letter at its remainder. -/
theorem getElem?_repeated {k : Nat} {w : List α} {i : Nat}
    (h : i < (repeated k w).length) :
    (repeated k w)[i]? = w[i % w.length]? := by
  rw [length_repeated] at h
  induction k generalizing i with
  | zero => omega
  | succ k ih =>
      rw [repeated_succ]
      by_cases hi : i < w.length
      · rw [List.getElem?_append_left hi, Nat.mod_eq_of_lt hi]
      · have hle : w.length ≤ i := by omega
        rw [Nat.add_mul, Nat.one_mul] at h
        rw [List.getElem?_append_right hle, ih (by omega),
          Nat.mod_eq_sub_mod hle]

end Places

variable {α : Type} [Inhabited α]

-- ===================================================== the endless word

/-- The letter at time `t` of the word `s` without end. -/
def endless (s : List α) (t : Int) : α :=
  s.getD (t % s.length).toNat default

theorem endless_congr {s : List α} {t u : Int}
    (h : t % s.length = u % s.length) : endless s t = endless s u := by
  unfold endless
  rw [h]

/-- Within the first period the endless word is the word. -/
theorem endless_natCast {s : List α} {i : Nat} (h : i < s.length) :
    endless s i = s[i] := by
  have hmod : ((i : Int) % s.length).toNat = i := by
    rw [Int.emod_eq_of_lt (by omega) (by omega), Int.toNat_natCast]
  unfold endless
  rw [hmod, List.getD_eq_getElem?_getD, List.getElem?_eq_getElem h,
    Option.getD_some]

/-- The letter at a time is the letter at its place. -/
theorem endless_eq_get {s : List α} (hs : s ≠ []) (t : Int) :
    endless s t = s.get ⟨(t % s.length).toNat, place_lt hs t⟩ := by
  rw [List.get_eq_getElem, ← endless_natCast (place_lt hs t)]
  apply endless_congr
  rw [natCast_place hs, Int.emod_emod_of_dvd _ (Int.dvd_refl _)]

theorem getElem?_place {s : List α} (hs : s ≠ []) (t : Int) :
    s[(t % s.length).toNat]? = some (endless s t) := by
  rw [endless_eq_get hs, List.get_eq_getElem,
    List.getElem?_eq_getElem (place_lt hs t)]

theorem endless_mem {s : List α} (hs : s ≠ []) (t : Int) :
    endless s t ∈ s := by
  rw [endless_eq_get hs]
  exact List.get_mem s _

/-- A word comes back after its length. -/
theorem periodic_length (s : List α) :
    Function.Periodic (endless s) (s.length : Int) := by
  intro t
  exact endless_congr (Int.add_emod_right t _)

/-- A word is its length and its endless word. -/
theorem eq_of_endless {s t : List α} (hlen : s.length = t.length)
    (h : ∀ i : Int, endless s i = endless t i) : s = t := by
  refine List.ext_getElem hlen fun i hs ht => ?_
  rw [← endless_natCast hs, ← endless_natCast ht, h i]

/-- Two words write one cycle: the second, begun at some time, is the
first. -/
def SameCycle (a b : List α) : Prop :=
  ∃ k : Int, ∀ t : Int, endless a t = endless b (t + k)

-- ================================================== what it does not see

/-- Rotation by `k` begins `k` later. -/
theorem endless_rotate (s : List α) (k : Nat) (t : Int) :
    endless (s.rotate k) t = endless s (t + k) := by
  rcases eq_or_ne s [] with rfl | hs
  · rw [List.rotate_nil]
    rfl
  · have hr : s.rotate k ≠ [] := by
      rw [ne_eq, List.rotate_eq_nil_iff]
      exact hs
    have hlt : ((t % (s.rotate k).length).toNat + k) % s.length < s.length :=
      Nat.mod_lt _ (List.length_pos_iff.mpr hs)
    rw [endless_eq_get hr, List.get_eq_getElem, List.getElem_rotate,
      ← endless_natCast hlt]
    -- both sides read the same place: `(t mod n + k) mod n`
    apply endless_congr
    rw [Int.natCast_emod, Int.natCast_add, natCast_place hr,
      List.length_rotate, Int.emod_emod_of_dvd _ (Int.dvd_refl _),
      Int.emod_add_emod]

/-- Copies of a word have its endless word. -/
theorem endless_repeated {k : Nat} (hk : 0 < k) (w : List α) (t : Int) :
    endless (repeated k w) t = endless w t := by
  rcases eq_or_ne w [] with rfl | hw
  · rw [repeated_nil]
  · have hpos : 0 < w.length := List.length_pos_iff.mpr hw
    have hdvd : (w.length : Int) ∣ (repeated k w).length :=
      Int.natCast_dvd_natCast.mpr ⟨k, by rw [length_repeated, Nat.mul_comm]⟩
    have hr := repeated_ne_nil hk hw
    have hmod : (t % (repeated k w).length).toNat % w.length < w.length :=
      Nat.mod_lt _ hpos
    have hget := getElem?_repeated (place_lt hr t)
    rw [List.getElem?_eq_getElem (place_lt hr t),
      List.getElem?_eq_getElem hmod, Option.some.injEq] at hget
    rw [endless_eq_get hr, List.get_eq_getElem, hget, ← endless_natCast hmod]
    apply endless_congr
    rw [Int.natCast_emod, natCast_place hr,
      Int.emod_emod_of_dvd _ (Int.dvd_refl _), Int.emod_emod_of_dvd _ hdvd]

/-- A prefix as long as a period has the endless word of the whole. -/
theorem endless_take {s : List α} {n : Nat} (hn : 0 < n)
    (hle : n ≤ s.length) (hper : Function.Periodic (endless s) (n : Int))
    (t : Int) : endless (s.take n) t = endless s t := by
  have hlen : (s.take n).length = n := by
    rw [List.length_take, Nat.min_eq_left hle]
  have hne : s.take n ≠ [] := by
    rw [← List.length_pos_iff, hlen]
    exact hn
  have hlt : (t % (s.take n).length).toNat < s.length := by
    have := place_lt hne t
    omega
  rw [endless_eq_get hne, List.get_eq_getElem, List.getElem_take,
    ← endless_natCast hlt, natCast_place hne, hlen, Int.emod_def,
    Int.mul_comm]
  exact hper.sub_int_mul_eq (t / n)

-- ============================================================ one cycle

theorem SameCycle.refl (a : List α) : SameCycle a a :=
  ⟨0, fun t => by rw [Int.add_zero]⟩

theorem SameCycle.symm {a b : List α} (h : SameCycle a b) :
    SameCycle b a := by
  obtain ⟨k, hk⟩ := h
  refine ⟨-k, fun t => ?_⟩
  rw [hk, Int.neg_add_cancel_right]

theorem sameCycle_rotate (s : List α) (k : Nat) :
    SameCycle (s.rotate k) s :=
  ⟨k, endless_rotate s k⟩

theorem sameCycle_repeated {k : Nat} (hk : 0 < k) (w : List α) :
    SameCycle (repeated k w) w := by
  refine ⟨0, fun t => ?_⟩
  rw [Int.add_zero, endless_repeated hk]

end Siteswap.Rotation
