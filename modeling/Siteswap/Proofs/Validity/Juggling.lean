/-
What a valid pattern does when it is juggled.

The throw at time `t` of the endless repetition comes down `endless hs t`
later. Two throws meet when they come down at one time, and so in one
hand. Validity looks at one period, and tells slots apart by the beat
within the period and by the hand.

# Where one period is enough

Landing times that agree in the endless repetition agree modulo the
period. Over an even period they agree modulo two as well, so the slots
are one and the check has seen it. Over an odd period a throw changes
hands from one period to the next: throws an even number of periods apart
still have their slots told apart rightly, throws an odd number of periods
apart do not. `meets_of_valid` says that the throws of a valid
pattern meet in no other case, and that none meet at all iff the beats at
which they come down differ, hands aside (`LandOnce`). `gapped_meets` shows
a meeting: `024` is valid, and its throws at times 2 and 4 both land at 6.
-/
import Siteswap.Proofs.Validity.Checks

namespace Siteswap

open Rotation (endless)

/-- Two throws of the endless repetition come down at one time. -/
def Meet (hs : List Int) (t u : Int) : Prop :=
  endless hs t ≠ 0 ∧ endless hs u ≠ 0
    ∧ t + endless hs t = u + endless hs u

-- =================================================== meeting and slots

/-- Throws that meet at different times are made at different beats. -/
theorem beat_ne_of_meet {hs : List Int} {t u : Int} (htu : t ≠ u)
    (hm : Meet hs t u) :
    (t % hs.length).toNat ≠ (u % hs.length).toNat := by
  obtain ⟨-, -, hland⟩ := hm
  intro hbeat
  have heq : endless hs t = endless hs u := by
    unfold Rotation.endless
    rw [hbeat]
  rw [heq] at hland
  exact htu (by omega)

/-- The landing times of two throws that meet, each counted from the
beginning of its own period, are some periods apart. -/
theorem landing_sub_of_meet {hs : List Int} {t u : Int} (hm : Meet hs t u) :
    (t % hs.length + endless hs t) - (u % hs.length + endless hs u)
      = hs.length * (u / hs.length - t / hs.length) := by
  obtain ⟨-, -, hland⟩ := hm
  have ht := Int.mul_ediv_add_emod t hs.length
  have hu := Int.mul_ediv_add_emod u hs.length
  rw [Int.mul_sub]
  omega

/-- If the throws of one period land apart, throws that meet are an odd
number of odd periods apart. -/
theorem periods_odd_of_landApart {hs : List Int}
    (hl : Checks.LandApart hs) (hne : hs ≠ []) {t u : Int} (htu : t ≠ u) (hm : Meet hs t u) :
    ¬ (2 : Int) ∣ hs.length ∧ ¬ 2 ∣ t / hs.length - u / hs.length := by
  have hslot := hl.ne (beat_ne_of_meet htu hm)
    (Rotation.getElem?_place hne t) (Rotation.getElem?_place hne u)
    hm.1 hm.2.1
  rw [ne_eq, Slot.landing_eq_iff (Int.natCast_nonneg _),
    Rotation.natCast_place hne, Rotation.natCast_place hne,
    landing_sub_of_meet hm] at hslot
  constructor
  · intro heven
    exact hslot ⟨Int.dvd_mul_right _ _, Dvd.dvd.mul_right heven _⟩
  · intro heven
    have heven' : (2 : Int) ∣ u / hs.length - t / hs.length := by omega
    exact hslot ⟨Int.dvd_mul_right _ _, Dvd.dvd.mul_left heven' _⟩

-- ========================================================== landing once

/-- The throws of one period come down at beats of their own, whichever
hand they come to. -/
def LandOnce (hs : List Int) : Prop :=
  ∀ (i j : Nat) (h k : Int), i ≠ j → hs[i]? = some h → hs[j]? = some k →
    h ≠ 0 → k ≠ 0 → ¬ (hs.length : Int) ∣ (i + h) - (j + k)

/-- No two throws ever meet iff those of one period land at beats of their
own. -/
theorem never_meet_iff {hs : List Int} (hne : hs ≠ []) :
    (∀ t u, t ≠ u → ¬ Meet hs t u) ↔ LandOnce hs := by
  constructor
  · intro hnever i j h k hij hi hj hh hk hdvd
    obtain ⟨hilt, hieq⟩ := List.getElem?_eq_some_iff.mp hi
    obtain ⟨hjlt, hjeq⟩ := List.getElem?_eq_some_iff.mp hj
    obtain ⟨q, hq⟩ := hdvd
    have hfirst : endless hs i = h := by
      rw [← hieq, Rotation.endless_natCast hilt]
    have hsecond : endless hs (j + hs.length * q) = k := by
      rw [← hjeq, ← Rotation.endless_natCast hjlt]
      exact Rotation.endless_congr (Int.add_mul_emod_self_left _ _ _)
    -- the second throw is made `q` periods later, to be caught in time
    refine hnever i (j + hs.length * q) ?_ ⟨?_, ?_, ?_⟩
    · intro heq
      have hmod : (i : Int) % hs.length = j % hs.length := by
        rw [heq, Int.add_mul_emod_self_left]
      rw [Int.emod_eq_of_lt (by omega) (by omega),
        Int.emod_eq_of_lt (by omega) (by omega)] at hmod
      omega
    · rw [hfirst]
      exact hh
    · rw [hsecond]
      exact hk
    · rw [hfirst, hsecond]
      omega
  · intro honce t u htu hm
    refine honce _ _ _ _ (beat_ne_of_meet htu hm)
      (Rotation.getElem?_place hne t) (Rotation.getElem?_place hne u)
      hm.1 hm.2.1 ?_
    rw [Rotation.natCast_place hne, Rotation.natCast_place hne,
      landing_sub_of_meet hm]
    exact Int.dvd_mul_right _ _

-- ======================================================= valid patterns

/-- Throws of a valid pattern that are made at different times meet only
if the period is odd and they are an odd number of periods apart; they
never meet iff those of one period land at beats of their own. -/
theorem meets_of_valid (d : Dialect) (s : Sequence)
    (hv : (Verdict.ofSequence d s).isValid = true) :
    (∀ t u, t ≠ u → Meet s.heights t u →
      ¬ (2 : Int) ∣ s.period ∧ ¬ 2 ∣ t / s.period - u / s.period)
    ∧ ((∀ t u, t ≠ u → ¬ Meet s.heights t u) ↔ LandOnce s.heights) := by
  obtain ⟨hne, hall⟩ := (Verdict.isValid_iff d s).mp hv
  obtain ⟨-, hcoll, -⟩ := (Checks.all_eq_nil_iff s.heights).mp hall
  have hl := (Checks.collisions_eq_nil_iff s.heights).mp hcoll
  exact ⟨fun t u htu hm => periods_odd_of_landApart hl hne htu hm,
    never_meet_iff hne⟩

/-- A gap, a two and a four. -/
def gapped : Sequence := ⟨[0, 2, 4], by decide⟩

/-- Validity does not keep all throws apart: over an odd period two of
them can meet. -/
theorem gapped_meets :
    (Verdict.ofSequence .async gapped).isValid = true
      ∧ (2 : Int) ≠ 4 ∧ Meet gapped.heights 2 4 := by
  refine ⟨?_, by decide, ?_⟩
  · rw [Verdict.isValid_iff]
    decide
  · unfold Meet
    decide

/-- The throws of `024` that meet are one period of three apart. -/
theorem gapped_periods_odd :
    ((Verdict.ofSequence .async gapped).isValid = true
      ∧ (2 : Int) ≠ 4 ∧ Meet gapped.heights 2 4)
    ∧ ¬ (2 : Int) ∣ gapped.period
    ∧ ¬ 2 ∣ (2 : Int) / gapped.period - 4 / gapped.period := by
  have hv : (Verdict.ofSequence .async gapped).isValid = true := by
    rw [Verdict.isValid_iff]
    decide
  have hm : Meet gapped.heights 2 4 := by
    unfold Meet
    decide
  exact ⟨⟨hv, by decide, hm⟩,
    (meets_of_valid .async gapped hv).1 2 4 (by decide) hm⟩

end Siteswap
