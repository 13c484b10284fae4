/-
The classical test: over one period every beat is landed on once.

Siteswaps are usually tested by one map, which takes a beat to the beat,
within the period, at which its throw comes down. The pattern can be
juggled iff this map is a permutation of the beats. Where the period is
even and no beat is empty, the three checks amount to that test
(`isValid_iff_bijective`), and the check for collisions alone decides it.

# Why one check is enough

Over an even period the hand of a slot follows from its beat, so landing
apart is landing at different beats (`landApart_iff_landOnce`), and maps
of a finite set into itself that are injective are bijective. A
permutation of the beats then settles the other two checks by a sum over
all landings: added up modulo the period, the landing beats are the beats
themselves, so the heights add up to zero; added up modulo two, they say
that as many throws cross from the even hand as from the odd one.
-/
import Mathlib.Algebra.BigOperators.Fin
import Siteswap.Proofs.Validity.Juggling

namespace Siteswap

-- ========================================================= even periods

/-- Over an even period throws land in different slots iff they land at
different beats. -/
theorem landApart_iff_landOnce {hs : List Int}
    (heven : (2 : Int) ∣ hs.length) : Checks.LandApart hs ↔ LandOnce hs := by
  have hslot : ∀ (i j : Nat) (h k : Int),
      Slot.landing hs.length i h = Slot.landing hs.length j k
        ↔ (hs.length : Int) ∣ (i + h) - (j + k) := by
    intro i j h k
    rw [Slot.landing_eq_iff (Int.natCast_nonneg _)]
    exact ⟨And.left, fun hdvd => ⟨hdvd, heven.trans hdvd⟩⟩
  constructor
  · intro hl i j h k hij hi hj hh hk hdvd
    exact hl.ne hij hi hj hh hk ((hslot i j h k).mpr hdvd)
  · intro honce i j h k hij hi hj hh hk heq
    exact honce i j h k (by omega) hi hj hh hk ((hslot i j h k).mp heq)

-- ================================================== the map of landings

/-- The beat, within the period, at which the throw of beat `i` comes
down. -/
def landingBeat (hs : List Int) (i : Fin hs.length) : Fin hs.length :=
  ⟨((i + hs[i]) % hs.length).toNat,
    Rotation.place_lt (List.ne_nil_of_length_pos i.pos) _⟩

theorem coe_landingBeat {hs : List Int} (i : Fin hs.length) :
    ((landingBeat hs i : Nat) : Int) = (i + hs[i]) % hs.length :=
  Rotation.natCast_place (List.ne_nil_of_length_pos i.pos) _

theorem landingBeat_eq_iff {hs : List Int} {i j : Fin hs.length} :
    landingBeat hs i = landingBeat hs j
      ↔ (hs.length : Int) ∣ (i + hs[i]) - (j + hs[j]) := by
  rw [Fin.ext_iff, ← Int.natCast_inj, coe_landingBeat, coe_landingBeat,
    Int.emod_eq_emod_iff_emod_sub_eq_zero, Int.dvd_iff_emod_eq_zero]

/-- Without empty beats, throws land at different beats iff landing
permutes the beats. -/
theorem landOnce_iff_bijective {hs : List Int} (hpos : ∀ h ∈ hs, h ≠ 0) :
    LandOnce hs ↔ Function.Bijective (landingBeat hs) := by
  rw [← Finite.injective_iff_bijective]
  constructor
  · intro honce i j heq
    by_contra hij
    refine honce i j hs[i] hs[j] (fun h => hij (Fin.ext h)) ?_ ?_ ?_ ?_
      (landingBeat_eq_iff.mp heq)
    · simp
    · simp
    · exact hpos _ (List.getElem_mem _)
    · exact hpos _ (List.getElem_mem _)
  · intro hinj i j h k hij hi hj _ _ hdvd
    obtain ⟨hilt, rfl⟩ := List.getElem?_eq_some_iff.mp hi
    obtain ⟨hjlt, rfl⟩ := List.getElem?_eq_some_iff.mp hj
    have heq : landingBeat hs ⟨i, hilt⟩ = landingBeat hs ⟨j, hjlt⟩ :=
      landingBeat_eq_iff.mpr hdvd
    exact hij (congrArg Fin.val (hinj heq))

-- ================================================ sums over the landings

open Finset in
/-- A permutation of the beats does not change their sum. -/
theorem sum_landingBeat {hs : List Int}
    (hb : Function.Bijective (landingBeat hs)) (f : Nat → Int) :
    ∑ i : Fin hs.length, f (landingBeat hs i) = ∑ i : Fin hs.length, f i :=
  Equiv.sum_comp (Equiv.ofBijective _ hb) fun i : Fin hs.length => f i

theorem total_eq_sum_fin (hs : List Int) :
    total hs = ∑ i : Fin hs.length, hs[i] := by
  rw [total_eq_sum]
  exact (Fin.sum_univ_getElem hs).symm

/-- A permutation of the beats takes up a whole number of periods. -/
theorem average_eq_nil_of_bijective {hs : List Int}
    (hb : Function.Bijective (landingBeat hs)) : Checks.average hs = [] := by
  rw [Checks.average_eq_nil_iff, total_eq_sum_fin]
  have hround : (hs.length : Int)
      ∣ ∑ i : Fin hs.length, ((i + hs[i]) - landingBeat hs i : Int) := by
    refine Finset.dvd_sum fun i _ => ?_
    rw [coe_landingBeat]
    exact Int.dvd_self_sub_emod
  rw [Finset.sum_sub_distrib, Finset.sum_add_distrib,
    sum_landingBeat hb fun i => (i : Int), add_sub_cancel_left] at hround
  exact hround

theorem crossingsBy_eq_sum (hand : Int) (beat : Nat) (hs : List Int) :
    Checks.crossingsBy hand beat hs
      = ∑ i : Fin hs.length,
          if hs[i] % 2 = 1 ∧ ((beat + i : Nat) : Int) % 2 = hand
          then 1 else 0 := by
  induction hs generalizing beat with
  | nil => rfl
  | cons h hs ih =>
      unfold Checks.crossingsBy
      rw [ih]
      simp only [List.length_cons]
      rw [Fin.sum_univ_succ]
      congr 1
      refine Finset.sum_congr rfl fun i _ => ?_
      simp [Nat.add_assoc, Nat.add_comm 1]

/-- Over an even period a permutation of the beats takes as many throws
from each hand to the other. -/
theorem state_eq_nil_of_bijective {hs : List Int}
    (heven : (2 : Int) ∣ hs.length)
    (hb : Function.Bijective (landingBeat hs)) : Checks.state hs = [] := by
  rw [Checks.state_eq_nil_iff]
  left
  have hparity := sum_landingBeat hb fun i => (i : Int) % 2
  have hland : ∀ i : Fin hs.length,
      ((landingBeat hs i : Nat) : Int) % 2 = (i + hs[i]) % 2 := by
    intro i
    rw [coe_landingBeat, Int.emod_emod_of_dvd _ heven]
  -- a throw moves the parity of its beat by whether and whence it crosses
  have hmove : ∀ i : Fin hs.length,
      (if hs[i] % 2 = 1 ∧ ((0 + i : Nat) : Int) % 2 = 0 then (1 : Int) else 0)
        - (if hs[i] % 2 = 1 ∧ ((0 + i : Nat) : Int) % 2 = 1 then 1 else 0)
        = ((landingBeat hs i : Nat) : Int) % 2 - (i : Int) % 2 := by
    intro i
    rw [hland, Nat.zero_add]
    split <;> split <;> omega
  rw [← sub_eq_zero, crossingsBy_eq_sum, crossingsBy_eq_sum,
    ← Finset.sum_sub_distrib, Finset.sum_congr rfl fun i _ => hmove i,
    Finset.sum_sub_distrib, hparity, sub_self]

-- ======================================================== the whole test

/-- Over an even period without empty beats, a pattern without collisions
passes the other two checks. -/
theorem all_eq_nil_iff_bijective {hs : List Int}
    (heven : (2 : Int) ∣ hs.length) (hpos : ∀ h ∈ hs, h ≠ 0) :
    (Checks.collisions hs = [] ↔ Function.Bijective (landingBeat hs))
    ∧ (Checks.all hs = [] ↔ Function.Bijective (landingBeat hs)) := by
  have hcoll : Checks.collisions hs = []
      ↔ Function.Bijective (landingBeat hs) := by
    rw [Checks.collisions_eq_nil_iff, landApart_iff_landOnce heven,
      landOnce_iff_bijective hpos]
  refine ⟨hcoll, ?_⟩
  rw [Checks.all_eq_nil_iff, hcoll]
  constructor
  · intro hall
    exact hall.2.1
  · intro hb
    exact ⟨average_eq_nil_of_bijective hb, hb, state_eq_nil_of_bijective heven hb⟩

/-- A pattern of even period without empty beats is valid iff landing
permutes the beats of the period; that it has no collisions implies that
its average is whole and its state returns. -/
theorem isValid_iff_bijective (d : Dialect) (s : Sequence)
    (hne : 0 < s.period) (heven : Even s.period)
    (hpos : ∀ h ∈ s.heights, 1 ≤ h) :
    ((Verdict.ofSequence d s).isValid = true
      ↔ Function.Bijective (landingBeat s.heights))
    ∧ (Checks.collisions s.heights = [] →
        Checks.average s.heights = [] ∧ Checks.state s.heights = []) := by
  have heven' : (2 : Int) ∣ s.heights.length :=
    Int.natCast_dvd_natCast.mpr heven.two_dvd
  have hpos' : ∀ h ∈ s.heights, h ≠ 0 := by
    intro h hh h0
    have := hpos h hh
    omega
  obtain ⟨hcoll, hall⟩ := all_eq_nil_iff_bijective heven' hpos'
  constructor
  · rw [Verdict.isValid_iff, hall]
    exact ⟨And.right, fun hb => ⟨List.ne_nil_of_length_pos hne, hb⟩⟩
  · intro hnone
    have hb := hcoll.mp hnone
    exact ⟨average_eq_nil_of_bijective hb,
      state_eq_nil_of_bijective heven' hb⟩

/-- A five, a three, and two fours. -/
def fiveThreeFours : Sequence := ⟨[5, 3, 4, 4], by decide⟩

/-- The landings of `5344` are the beats 1, 0, 2 and 3. -/
theorem fiveThreeFours_bijective :
    0 < fiveThreeFours.period ∧ Even fiveThreeFours.period
      ∧ (∀ h ∈ fiveThreeFours.heights, 1 ≤ h)
      ∧ Checks.collisions fiveThreeFours.heights = []
      ∧ Function.Bijective (landingBeat fiveThreeFours.heights)
      ∧ Checks.average fiveThreeFours.heights = []
      ∧ Checks.state fiveThreeFours.heights = [] := by
  have heven : Even fiveThreeFours.period := ⟨2, rfl⟩
  have hpos : ∀ h ∈ fiveThreeFours.heights, 1 ≤ h := by decide
  have hcoll : Checks.collisions fiveThreeFours.heights = [] := by decide
  have hv : (Verdict.ofSequence .async fiveThreeFours).isValid = true := by
    rw [Verdict.isValid_iff]
    decide
  obtain ⟨hiff, hrest⟩ :=
    isValid_iff_bijective .async fiveThreeFours (by decide) heven hpos
  exact ⟨by decide, heven, hpos, hcoll, hiff.mp hv, hrest hcoll⟩

end Siteswap
