/-
Validity under another spelling.

The canonical spelling of a pattern drops repetitions and begins at
another throw. The checks are made on one spelling, and what they find can
depend on it: the hand of a beat follows from where the counting begins.
This file says what stays.

- The average is the same (`Rotation.sum_canonical_of_average`).
- Over an even canonical period the other two checks find the same as well
  (`collisions_canonical`, `state_canonical_iff`). Hands return after
  such a period, so collisions are meetings, which do not depend on where
  the counting begins (`collisions_rotate_iff`, `collisions_repeated_iff`).
- Over any period, what an odd number of copies passes is passed by one of
  them (`collisions_of_copies`, `state_of_copies`).

Over an odd period nothing more is true. Begun elsewhere, `024` becomes
`402`, which has a collision, and `126` becomes `612`, whose state does not
return; and `612612` is valid, where hands return after both copies.

# The state

Counting the throws of each hand apart is counting all of them with
alternating signs (`alternating`), and the state returns iff the throws of
odd height add up to nothing, or to as much as all throws
(`state_eq_nil_iff_alternating`). Such sums change at most their sign when
the first throw is moved behind the last of an even number.
-/
import Mathlib.Tactic.Ring
import Siteswap.Proofs.Rotation.Leading
import Siteswap.Proofs.Validity.Permutation

namespace Siteswap

open Rotation (canonical endless repeated SameCycle)

-- ====================================================== alternating sums

/-- The throws with a property, counted with alternating signs. -/
def alternating (p : Int → Bool) : List Int → Int
  | [] => 0
  | h :: hs => (if p h then 1 else 0) - alternating p hs

section Alternating

variable (p : Int → Bool) {w : List Int}

theorem alternating_append (v w : List Int) :
    alternating p (v ++ w) = alternating p v
      + if Even v.length then alternating p w else -alternating p w := by
  induction v with
  | nil => simp [alternating]
  | cons a v ih =>
      rw [List.cons_append, alternating, alternating, ih, List.length_cons]
      simp only [Nat.even_add_one]
      by_cases hv : Even v.length
      · rw [if_pos hv, if_neg (not_not.mpr hv)]
        ring
      · rw [if_neg hv, if_pos hv]
        ring

/-- Moving the first throw behind the last of an even number turns the
sign. -/
theorem alternating_rotate_one (h : Even w.length) :
    alternating p (w.rotate 1) = -alternating p w := by
  cases w with
  | nil => rfl
  | cons a w =>
      have hw : ¬ Even w.length := by
        simpa [Nat.even_add_one] using h
      rw [List.rotate_cons_succ, List.rotate_zero, alternating_append, if_neg hw]
      simp only [alternating]
      ring

/-- Copies of even length add up. -/
theorem alternating_repeated (h : Even w.length) (k : Nat) :
    alternating p (repeated k w) = k * alternating p w := by
  induction k with
  | zero => rw [Int.natCast_zero, Int.zero_mul]; rfl
  | succ k ih =>
      rw [Rotation.repeated_succ, alternating_append, if_pos h, ih, Nat.cast_succ]
      ring

/-- Copies of odd length cancel in pairs. -/
theorem alternating_repeated_odd (h : ¬ Even w.length) {k : Nat} (hk : Odd k) :
    alternating p (repeated k w) = alternating p w := by
  obtain ⟨j, rfl⟩ := hk
  induction j with
  | zero =>
      rw [Nat.mul_zero, Rotation.repeated_succ]
      exact congrArg _ (List.append_nil w)
  | succ j ih =>
      rw [show 2 * (j + 1) + 1 = 2 * j + 1 + 1 + 1 by omega,
        Rotation.repeated_succ, Rotation.repeated_succ, alternating_append,
        alternating_append, if_neg h, if_neg h, ih]
      ring

end Alternating

-- ================================================================ state

namespace Checks

/-- What is counted for each hand apart differs by the sum with
alternating signs. -/
theorem sub_eq_alternating {f : Int → Nat → List Int → Int} {p : Int → Bool}
    (hnil : ∀ hand beat, f hand beat [] = 0)
    (hcons : ∀ hand beat h hs, f hand beat (h :: hs)
      = (if p h = true ∧ (beat : Int) % 2 = hand then 1 else 0)
        + f hand (beat + 1) hs) (beat : Nat) (hs : List Int) :
    f 0 beat hs - f 1 beat hs
      = if (beat : Int) % 2 = 0 then alternating p hs else -alternating p hs := by
  induction hs generalizing beat with
  | nil => simp [hnil, alternating]
  | cons h hs ih =>
      have hrest := ih (beat + 1)
      rw [hcons, hcons, alternating]
      rcases Int.emod_two_eq beat with hb | hb
      · have hb' : ((beat + 1 : Nat) : Int) % 2 ≠ 0 := by omega
        rw [if_neg hb'] at hrest
        simp only [hb, and_true, if_true]
        simp only [zero_ne_one, and_false, if_false]
        omega
      · have hb' : ((beat + 1 : Nat) : Int) % 2 = 0 := by omega
        rw [if_pos hb'] at hrest
        simp only [hb, and_true, one_ne_zero, and_false, if_false]
        omega

/-- The state returns iff the throws of odd height add up to nothing, or
to as much as all throws, with alternating signs. -/
theorem state_eq_nil_iff_alternating (hs : List Int) :
    state hs = []
      ↔ alternating (fun h => h % 2 = 1) hs = 0
        ∨ alternating (fun h => h % 2 = 1) hs = alternating (fun h => h ≠ 0) hs := by
  have hcrossings := sub_eq_alternating (f := crossingsBy)
    (p := fun h => decide (h % 2 = 1)) (fun _ _ => rfl)
    (fun hand beat h hs => by simp only [decide_eq_true_eq]; rfl) 0 hs
  have hthrows := sub_eq_alternating (f := throwsBy)
    (p := fun h => decide (h ≠ 0)) (fun _ _ => rfl)
    (fun hand beat h hs => by simp only [decide_eq_true_eq]; rfl) 0 hs
  rw [if_pos (by rfl)] at hcrossings hthrows
  rw [state_eq_nil_iff, ← hcrossings, ← hthrows]
  omega

theorem state_rotate_iff {w : List Int} (h : Even w.length) (k : Nat) :
    state (w.rotate k) = [] ↔ state w = [] := by
  induction k with
  | zero => rw [List.rotate_zero]
  | succ k ih =>
      have hk : Even (w.rotate k).length := by rwa [List.length_rotate]
      rw [← ih, ← List.rotate_rotate, state_eq_nil_iff_alternating,
        state_eq_nil_iff_alternating, alternating_rotate_one _ hk,
        alternating_rotate_one _ hk, neg_eq_zero, neg_inj]

theorem state_repeated_iff {w : List Int} (h : Even w.length) {k : Nat}
    (hk : 0 < k) : state (repeated k w) = [] ↔ state w = [] := by
  have hk0 : (k : Int) ≠ 0 := by omega
  rw [state_eq_nil_iff_alternating, state_eq_nil_iff_alternating,
    alternating_repeated _ h, alternating_repeated _ h, mul_eq_zero,
    mul_right_inj' hk0, or_iff_right hk0]

/-- Over an even canonical period the state does not depend on the
spelling. -/
theorem state_canonical_iff {hs : List Int} (hne : hs ≠ [])
    (heven : Even (canonical hs).length) :
    state (canonical hs) = [] ↔ state hs = [] := by
  obtain ⟨k, hk⟩ := Rotation.root_isRotated_canonical hne
  rw [Rotation.length_canonical hne] at heven
  have hcopies : 0 < hs.length / (Rotation.root hs).length :=
    Nat.div_pos (Nat.le_of_dvd (List.length_pos_iff.mpr hne)
      (Rotation.length_root_dvd hne)) (Rotation.length_root_pos hne)
  rw [← hk, state_rotate_iff heven, ← state_repeated_iff heven hcopies,
    Rotation.repeated_root hne]

theorem state_of_copies {w : List Int} {k : Nat} (hk : Odd k)
    (h : state (repeated k w) = []) : state w = [] := by
  by_cases heven : Even w.length
  · exact (state_repeated_iff heven hk.pos).mp h
  · rw [state_eq_nil_iff_alternating] at h ⊢
    rwa [alternating_repeated_odd _ heven hk,
      alternating_repeated_odd _ heven hk] at h

end Checks

-- ============================================================ collisions

/-- Words of one cycle have the same meetings. -/
theorem never_meet_of_sameCycle {a b : List Int} (h : SameCycle a b)
    (hb : ∀ t u, t ≠ u → ¬ Meet b t u) (t u : Int) (htu : t ≠ u) :
    ¬ Meet a t u := by
  obtain ⟨k, hk⟩ := h
  rintro ⟨ht, hu, hland⟩
  rw [hk] at ht hu
  rw [hk, hk] at hland
  exact hb (t + k) (u + k) (by omega) ⟨ht, hu, by omega⟩

namespace Checks

/-- Over an even period collisions are meetings. -/
theorem collisions_eq_nil_iff_never_meet {w : List Int} (hw : w ≠ [])
    (heven : Even w.length) :
    collisions w = [] ↔ ∀ t u, t ≠ u → ¬ Meet w t u := by
  have htwo : (2 : Int) ∣ w.length := Int.natCast_dvd_natCast.mpr heven.two_dvd
  rw [collisions_eq_nil_iff, landApart_iff_landOnce htwo, never_meet_iff hw]

/-- Over even periods, words of one cycle have collisions or not alike. -/
theorem collisions_of_sameCycle {a b : List Int} (h : SameCycle a b)
    (ha : a ≠ []) (hb : b ≠ []) (haeven : Even a.length)
    (hbeven : Even b.length) (hcoll : collisions b = []) :
    collisions a = [] := by
  rw [collisions_eq_nil_iff_never_meet ha haeven]
  rw [collisions_eq_nil_iff_never_meet hb hbeven] at hcoll
  exact never_meet_of_sameCycle h hcoll

section EvenPeriod

variable {w : List Int} (hw : w ≠ []) (heven : Even w.length)

include hw heven

/-- Begun at another throw, a pattern of even period has the collisions
it had. -/
theorem collisions_rotate_iff (k : Nat) :
    collisions (w.rotate k) = [] ↔ collisions w = [] := by
  have hr : w.rotate k ≠ [] := by simpa using hw
  have hreven : Even (w.rotate k).length := by
    rwa [List.length_rotate]
  have hcycle := Rotation.sameCycle_rotate w k
  exact ⟨collisions_of_sameCycle hcycle.symm hw hr heven hreven,
    collisions_of_sameCycle hcycle hr hw hreven heven⟩

/-- Copies of a pattern of even period have collisions iff one has. -/
theorem collisions_repeated_iff {k : Nat} (hk : 0 < k) :
    collisions (repeated k w) = [] ↔ collisions w = [] := by
  have hr := Rotation.repeated_ne_nil hk hw
  have hreven : Even (repeated k w).length := by
    rw [Rotation.length_repeated]
    exact heven.mul_left k
  have hcycle := Rotation.sameCycle_repeated hk w
  exact ⟨collisions_of_sameCycle hcycle.symm hw hr heven hreven,
    collisions_of_sameCycle hcycle hr hw hreven heven⟩

end EvenPeriod

/-- Over an even canonical period collisions do not depend on the
spelling. -/
theorem collisions_canonical {hs : List Int} (hne : hs ≠ [])
    (heven : Even (canonical hs).length) (h : collisions hs = []) :
    collisions (canonical hs) = [] := by
  have hhs : Even hs.length :=
    even_iff_two_dvd.mpr (heven.two_dvd.trans (Rotation.length_canonical_dvd hne))
  exact collisions_of_sameCycle (Rotation.canonical_sameCycle hne)
    (Rotation.canonical_ne_nil hne) hne heven hhs h

/-- Some copies ahead of each other make up for an even number. -/
theorem exists_copies {k : Nat} (hk : Odd k) {q : Int} (hq : (2 : Int) ∣ q) :
    ∃ a b : Nat, a < k ∧ b < k ∧ (2 * k : Int) ∣ q + (a - b) := by
  obtain ⟨j, hj⟩ := hk
  have hpos : (0 : Int) < 2 * k := by omega
  have hc0 := Int.emod_nonneg (-q) (ne_of_gt hpos)
  have hclt := Int.emod_lt_of_pos (-q) hpos
  have hdiv := Int.mul_ediv_add_emod (-q) (2 * k)
  generalize (-q) % (2 * k) = c at hc0 hclt hdiv
  generalize (-q) / (2 * k) = e at hdiv
  -- an even number is not the odd half of `2 * k`
  have hc : c ≠ k := by
    rintro rfl
    rw [Int.mul_assoc] at hdiv
    omega
  by_cases hlt : c < k
  · refine ⟨c.toNat, 0, by omega, by omega, -e, ?_⟩
    rw [Int.mul_neg, Int.toNat_of_nonneg hc0]
    omega
  · refine ⟨0, (2 * k - c).toNat, by omega, by omega, -e - 1, ?_⟩
    rw [Int.mul_sub, Int.mul_neg, Int.toNat_of_nonneg (by omega)]
    omega

theorem getElem?_copy {w : List Int} {k a i : Nat} (ha : a < k)
    (hi : i < w.length) : (repeated k w)[i + w.length * a]? = w[i]? := by
  have hlt : i + w.length * a < (repeated k w).length := by
    rw [Rotation.length_repeated, Nat.mul_comm k]
    calc i + w.length * a < w.length + w.length * a := by omega
      _ = w.length * (a + 1) := by rw [Nat.mul_succ, Nat.add_comm]
      _ ≤ w.length * k := Nat.mul_le_mul_left _ ha
  rw [Rotation.getElem?_repeated hlt, Nat.add_mul_mod_self_left,
    Nat.mod_eq_of_lt hi]

/-- One of an odd number of copies has no collisions if all together have
none. -/
theorem collisions_of_copies {w : List Int} {k : Nat} (hne : w ≠ [])
    (hk : Odd k) (h : collisions (repeated k w) = []) : collisions w = [] := by
  by_cases heven : (2 : Int) ∣ w.length
  · rw [← even_iff_two_dvd, Int.even_coe_nat] at heven
    exact (collisions_repeated_iff hne heven hk.pos).mp h
  · rw [collisions_eq_nil_iff] at h ⊢
    intro i j x y hij hi hj hx hy heq
    obtain ⟨hilt, -⟩ := List.getElem?_eq_some_iff.mp hi
    obtain ⟨hjlt, -⟩ := List.getElem?_eq_some_iff.mp hj
    rw [Slot.landing_eq_iff (Int.natCast_nonneg _)] at heq
    obtain ⟨⟨q, hq⟩, htwo⟩ := heq
    -- the landings are an even number of odd periods apart
    have hq2 : (2 : Int) ∣ q := by
      rw [hq, ← even_iff_two_dvd, Int.even_mul, even_iff_two_dvd,
        even_iff_two_dvd] at htwo
      exact htwo.resolve_left heven
    obtain ⟨a, b, ha, hb, c, hc⟩ := exists_copies hk hq2
    have hslot : Slot.landing (repeated k w).length ((i + w.length * a : Nat) : Int) x
        = Slot.landing (repeated k w).length ((j + w.length * b : Nat) : Int) y := by
      have hsub : ((i + w.length * a : Nat) + x : Int) - ((j + w.length * b : Nat) + y)
          = w.length * (2 * k * c) := by
        rw [← hc, Int.mul_add, ← hq]
        push_cast
        ring
      rw [Slot.landing_eq_iff (Int.natCast_nonneg _), hsub,
        Rotation.length_repeated]
      constructor
      · exact ⟨2 * c, by push_cast; ring⟩
      · exact ⟨w.length * (k * c), by ring⟩
    refine h.ne ?_ ((getElem?_copy ha hilt).trans hi)
      ((getElem?_copy hb hjlt).trans hj) hx hy hslot
    intro hsame
    have hmod := congrArg (· % w.length) hsame
    simp only [Nat.add_mul_mod_self_left, Nat.mod_eq_of_lt hilt,
      Nat.mod_eq_of_lt hjlt] at hmod
    omega

end Checks

end Siteswap
