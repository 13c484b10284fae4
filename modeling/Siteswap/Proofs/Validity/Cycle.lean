/-
Over even periods validity belongs to the cycle.

A pattern of even period may be begun at any of its throws, and written any
number of times over, and the verdict stays the same
(`Verdict.isValid_respelled`). Each check has its own reason.

- Average: rotation keeps the heights, and `m` copies have `m` times the
  total over `m` times the period (`average_rotate_iff`,
  `average_repeated_iff`).
- Collisions: over an even period these are meetings, which the endless
  repetition knows and its spellings share (`collisions_rotate_iff`,
  `collisions_repeated_iff`).
- State: moving the first throw behind the last exchanges the hands, which
  the check lets pass, and copies of even length add up
  (`state_rotate_iff`, `state_repeated_iff`).

A pattern of odd period has no such freedom, but two copies of it do, for
their length is even. So all its even repetitions and all rotations of
these get one verdict.
-/
import Siteswap.Proofs.Validity.Respelling

namespace Siteswap

open Rotation (repeated)

namespace Checks

-- ============================================================== average

theorem average_rotate_iff (w : List Int) (k : Nat) :
    average (w.rotate k) = [] ↔ average w = [] := by
  rw [average_eq_nil_iff, average_eq_nil_iff, total_eq_sum, total_eq_sum,
    List.length_rotate, (List.rotate_perm w k).sum_eq]

theorem average_repeated_iff {k : Nat} (hk : 0 < k) (w : List Int) :
    average (repeated k w) = [] ↔ average w = [] := by
  have hk0 : (k : Int) ≠ 0 := by omega
  rw [average_eq_nil_iff, average_eq_nil_iff, total_eq_sum, total_eq_sum,
    Rotation.sum_repeated, Rotation.length_repeated, Nat.cast_mul]
  exact mul_dvd_mul_iff_left hk0

-- ======================================================= all the checks

variable {w : List Int} (hw : w ≠ []) (h : Even w.length)

include hw h

/-- A pattern of even period may be begun at any throw. -/
theorem all_rotate_iff (k : Nat) :
    all (w.rotate k) = [] ↔ all w = [] := by
  rw [all_eq_nil_iff, all_eq_nil_iff, average_rotate_iff,
    collisions_rotate_iff hw h, state_rotate_iff h]

/-- A pattern of even period may be written any number of times. -/
theorem all_repeated_iff {k : Nat} (hk : 0 < k) :
    all (repeated k w) = [] ↔ all w = [] := by
  rw [all_eq_nil_iff, all_eq_nil_iff, average_repeated_iff hk,
    collisions_repeated_iff hw h hk, state_repeated_iff h hk]

end Checks

-- =========================================================== sequences

namespace Sequence

/-- The sequence `k` times over. -/
def repeated (s : Sequence) (k : Nat) : Sequence where
  heights := Rotation.repeated k s.heights
  inRange := fun h hh => s.inRange h (Rotation.mem_of_mem_repeated hh)

theorem period_repeated (s : Sequence) (k : Nat) :
    (s.repeated k).period = k * s.period :=
  Rotation.length_repeated k s.heights

/-- Begun later or earlier, the heights are rotated. -/
theorem heights_rotate {s : Sequence} (hne : s.heights ≠ []) (k : Int) :
    (s.rotate k).heights = s.heights.rotate (k.fmod s.period).toNat := by
  have hlt : (k.fmod s.period).toNat < s.heights.length := by
    rw [Int.fmod_eq_emod_of_nonneg _ (Int.natCast_nonneg _)]
    exact Rotation.place_lt hne k
  rw [List.rotate_eq_drop_append_take (Nat.le_of_lt hlt)]
  rfl

end Sequence

namespace Verdict

variable (d : Dialect) {s t : Sequence}

/-- Sequences with throws that pass the checks alike get one verdict. -/
theorem isValid_congr (hs : s.heights ≠ []) (ht : t.heights ≠ [])
    (h : Checks.all s.heights = [] ↔ Checks.all t.heights = []) :
    (ofSequence d s).isValid = (ofSequence d t).isValid := by
  rw [Bool.eq_iff_iff, isValid_iff, isValid_iff, h]
  simp [hs, ht]

theorem isValid_rotate (hne : s.heights ≠ []) (heven : Even s.period)
    (k : Int) :
    (ofSequence d (s.rotate k)).isValid = (ofSequence d s).isValid := by
  apply isValid_congr d _ hne
  · rw [Sequence.heights_rotate hne]
    exact Checks.all_rotate_iff hne heven _
  · rw [Sequence.heights_rotate hne]
    simpa using hne

theorem isValid_repeated (hne : s.heights ≠ []) (heven : Even s.period)
    {m : Nat} (hm : 0 < m) :
    (ofSequence d (s.repeated m)).isValid = (ofSequence d s).isValid := by
  apply isValid_congr d _ hne
  · exact Checks.all_repeated_iff hne heven hm
  · exact Rotation.repeated_ne_nil hm hne

/-- Every rotation of an even number of copies gets the verdict on two
copies. -/
theorem isValid_rotate_copies (hne : s.heights ≠ []) {m : Nat} (hm : 0 < m)
    (k : Int) :
    (ofSequence d ((s.repeated (2 * m)).rotate k)).isValid
      = (ofSequence d (s.repeated 2)).isValid := by
  have htwo : Even (s.repeated 2).period := by
    rw [Sequence.period_repeated]
    exact even_two_mul _
  have hmany : Even (s.repeated (2 * m)).period := by
    rw [Sequence.period_repeated, Nat.mul_assoc]
    exact even_two_mul _
  have hcopies : s.repeated (2 * m) = (s.repeated 2).repeated m := by
    rw [Sequence.mk.injEq]
    exact Rotation.repeated_mul 2 m s.heights
  calc (ofSequence d ((s.repeated (2 * m)).rotate k)).isValid
      = (ofSequence d (s.repeated (2 * m))).isValid :=
        isValid_rotate d (Rotation.repeated_ne_nil (by omega) hne) hmany k
    _ = (ofSequence d ((s.repeated 2).repeated m)).isValid := by rw [hcopies]
    _ = (ofSequence d (s.repeated 2)).isValid :=
        isValid_repeated d (Rotation.repeated_ne_nil (by omega) hne) htwo hm

/-- A pattern of even period keeps its verdict when it is begun at another
throw and when it is written several times over. Of any pattern, all even
numbers of copies, begun anywhere, get one verdict. -/
theorem isValid_respelled (s : Sequence) (hne : s.heights ≠ []) :
    (Even s.period →
      (∀ k : Int,
        (ofSequence d (s.rotate k)).isValid = (ofSequence d s).isValid)
      ∧ ∀ m : Nat, 1 ≤ m →
        (ofSequence d (s.repeated m)).isValid = (ofSequence d s).isValid)
    ∧ ∀ m m' : Nat, 1 ≤ m → 1 ≤ m' → ∀ k k' : Int,
        (ofSequence d ((s.repeated (2 * m)).rotate k)).isValid
          = (ofSequence d ((s.repeated (2 * m')).rotate k')).isValid := by
  refine ⟨fun heven => ⟨?_, ?_⟩, ?_⟩
  · intro k
    exact isValid_rotate d hne heven k
  · intro m hm
    exact isValid_repeated d hne heven hm
  · intro m m' hm hm' k k'
    rw [isValid_rotate_copies d hne hm, isValid_rotate_copies d hne hm']

/-- A five, a two, a gap and a five. -/
def twoFives : Sequence := ⟨[5, 2, 0, 5], by decide⟩

/-- `5205` is valid, and so are `5520`, which begins one throw earlier, and
three copies; six copies, begun at the sixth throw, are judged as two are. -/
theorem twoFives_respelled :
    twoFives.heights ≠ [] ∧ Even twoFives.period
      ∧ (ofSequence .async (twoFives.rotate (-1))).isValid = true
      ∧ (ofSequence .async (twoFives.repeated 3)).isValid = true
      ∧ (ofSequence .async ((twoFives.repeated 6).rotate 5)).isValid
          = (ofSequence .async ((twoFives.repeated 2).rotate 0)).isValid := by
  have hne : twoFives.heights ≠ [] := by decide
  have heven : Even twoFives.period := ⟨2, rfl⟩
  have hv : (ofSequence .async twoFives).isValid = true := by
    rw [isValid_iff]
    decide
  obtain ⟨hsame, hcopies⟩ := isValid_respelled .async twoFives hne
  obtain ⟨hrotate, hrepeat⟩ := hsame heven
  exact ⟨hne, heven, (hrotate (-1)).trans hv, (hrepeat 3 (by decide)).trans hv,
    hcopies 3 1 (by decide) (by decide) 5 0⟩

end Verdict

end Siteswap
