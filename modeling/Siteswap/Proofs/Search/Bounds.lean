/-
Bounds prune what has no completion, and nothing else.

A prefix of throws is completed by the throws that are missing, within the
bounds of the task and so that the sum comes to its target (`Completes`).
The heights that are tried next are those with which such throws can begin
(`completes_cons`): the throws behind the next one can add up to no less
than if all were lowest and to no more than if all were highest. Nothing
else stands in their way: sums in between can all be reached
(`exists_completes_iff`), so that every height that is tried leads on to
throws that complete the prefix (`mem_heights_iff_completes`).
-/
import Mathlib.Algebra.Order.BigOperators.Group.List
import Mathlib.Algebra.Order.Ring.Int
import Siteswap.Search.Bounds

namespace Siteswap.Search

-- ======================================================== the constraints

namespace Constraints

variable (c : Constraints)

theorem minHeight_le_lowest : c.minHeight ≤ c.lowest := by
  unfold lowest
  split
  case isTrue h =>
    rw [h.1]
    decide
  case isFalse => exact Int.le_refl _

theorem lowest_nonneg : 0 ≤ c.lowest :=
  Int.le_trans c.min_nonneg c.minHeight_le_lowest

/-- Without gaps every throw has a height. -/
theorem lowest_pos (h : c.includeZeros = false) : 0 < c.lowest := by
  have hmin := c.min_nonneg
  unfold lowest
  by_cases h0 : c.minHeight = 0
  · rw [if_pos ⟨h0, h⟩]
    decide
  · rw [if_neg fun hc => h0 hc.1]
    omega

/-- Limits in order and in range, and at least one attempt, make
constraints. -/
theorem exists_ofLimits {lo hi attempts : Int} {zeros : Bool} (hlo : 0 ≤ lo)
    (hlohi : lo ≤ hi) (hhi : hi ≤ Alphabet.maxHeight) (hattempts : 1 ≤ attempts) :
    ∃ c, ofLimits lo hi zeros attempts = .ok c := by
  unfold ofLimits
  rw [dif_neg (by omega), dif_neg (by omega), dif_neg (by omega), dif_neg (by omega)]
  exact ⟨_, rfl⟩

end Constraints

theorem checkArguments_eq_ok {objects length : Int} (ho : 0 ≤ objects) (hl : 1 ≤ length) :
    checkArguments objects length = .ok () := by
  unfold checkArguments
  rw [if_neg (by omega), if_neg (by omega)]

-- =========================================================== completions

/-- Throws that complete a prefix which sums to `total` and lacks
`remaining` throws. -/
structure Completes (t : Task) (remaining : Nat) (total : Int)
    (hs : List Int) : Prop where
  length : hs.length = remaining
  inBounds : ∀ h ∈ hs, t.lowest ≤ h ∧ h ≤ t.highest
  sum : total + hs.sum = t.target

variable {t : Task}

/-- Throws within bounds have a sum within bounds. -/
theorem Completes.sum_within {n : Nat} {total : Int} {hs : List Int}
    (hc : Completes t n total hs) :
    n * t.lowest ≤ t.target - total ∧ t.target - total ≤ n * t.highest := by
  have hlo := List.card_nsmul_le_sum hs t.lowest fun h hh => (hc.inBounds h hh).1
  have hhi := List.sum_le_card_nsmul hs t.highest fun h hh => (hc.inBounds h hh).2
  have hsum := hc.sum
  rw [hc.length, Int.nsmul_eq_mul] at hlo hhi
  omega

theorem completes_zero {total : Int} {hs : List Int} :
    Completes t 0 total hs ↔ hs = [] ∧ total = t.target := by
  constructor
  · intro hc
    have hnil := List.length_eq_zero_iff.mp hc.length
    have hsum := hc.sum
    rw [hnil, List.sum_nil, Int.add_zero] at hsum
    exact ⟨hnil, hsum⟩
  · intro hdone
    obtain ⟨rfl, htotal⟩ := hdone
    have hnone : ∀ h ∈ [], t.lowest ≤ h ∧ h ≤ t.highest := by
      intro h hh
      cases hh
    refine ⟨rfl, hnone, ?_⟩
    rw [List.sum_nil, Int.add_zero]
    exact htotal

-- ========================================================== next heights

theorem mem_span {lo hi h : Int} : h ∈ span lo hi ↔ lo ≤ h ∧ h ≤ hi := by
  unfold span
  rw [List.mem_map]
  constructor
  · intro hmem
    obtain ⟨i, hi, rfl⟩ := hmem
    rw [List.mem_range] at hi
    omega
  · intro hin
    obtain ⟨hlo, hhi⟩ := hin
    refine ⟨(h - lo).toNat, List.mem_range.mpr (by omega), by omega⟩

/-- A height is tried iff it is within bounds and leaves the others a sum
within theirs. -/
theorem mem_heights {total h : Int} {n : Nat} :
    h ∈ t.heights total (n + 1)
      ↔ (t.lowest ≤ h ∧ h ≤ t.highest)
          ∧ n * t.lowest ≤ t.target - (total + h)
          ∧ t.target - (total + h) ≤ n * t.highest := by
  have hn : ((n + 1 : Nat) : Int) - 1 = n := by omega
  unfold Task.heights heightBounds
  show h ∈ span _ _ ↔ _
  rw [mem_span, hn, Int.max_le, Int.le_min]
  constructor
  · intro hin
    obtain ⟨⟨hlo, hlo'⟩, hhi, hhi'⟩ := hin
    exact ⟨⟨hlo, hhi⟩, by omega, by omega⟩
  · intro hin
    obtain ⟨⟨hlo, hhi⟩, hlo', hhi'⟩ := hin
    exact ⟨⟨hlo, by omega⟩, hhi, by omega⟩

/-- The throws that complete a prefix begin with a height that is tried,
and go on to complete the longer prefix. -/
theorem completes_cons {total h : Int} {n : Nat} {hs : List Int} :
    Completes t (n + 1) total (h :: hs)
      ↔ h ∈ t.heights total (n + 1) ∧ Completes t n (total + h) hs := by
  constructor
  · intro hc
    have hsum := hc.sum
    have hlen := hc.length
    rw [List.sum_cons, ← Int.add_assoc] at hsum
    rw [List.length_cons, Nat.succ.injEq] at hlen
    have hrest : Completes t n (total + h) hs :=
      ⟨hlen, fun k hk => hc.inBounds k (List.mem_cons_of_mem h hk), hsum⟩
    exact ⟨mem_heights.mpr ⟨hc.inBounds h List.mem_cons_self, hrest.sum_within⟩,
      hrest⟩
  · intro hstep
    obtain ⟨hh, hc⟩ := hstep
    refine ⟨?_, ?_, ?_⟩
    · rw [List.length_cons, hc.length]
    · intro k hk
      rcases List.mem_cons.mp hk with rfl | hk
      · exact (mem_heights.mp hh).1
      · exact hc.inBounds k hk
    · rw [List.sum_cons, ← Int.add_assoc]
      exact hc.sum

/-- There are throws that complete a prefix iff what lacks lies between the
sums of lowest and of highest throws. -/
theorem exists_completes_iff {total : Int} {n : Nat} :
    (∃ hs, Completes t n total hs)
      ↔ (n = 0 ∨ t.lowest ≤ t.highest)
          ∧ n * t.lowest ≤ t.target - total ∧ t.target - total ≤ n * t.highest := by
  constructor
  · rintro ⟨hs, hc⟩
    refine ⟨?_, hc.sum_within⟩
    cases hs with
    | nil => exact .inl hc.length.symm
    | cons h hs =>
        have hin := hc.inBounds h List.mem_cons_self
        exact .inr (Int.le_trans hin.1 hin.2)
  · intro hwithin
    induction n generalizing total with
    | zero =>
        obtain ⟨-, hlo, hhi⟩ := hwithin
        exact ⟨[], completes_zero.mpr ⟨rfl, by omega⟩⟩
    | succ n ih =>
        obtain ⟨hne | hle, hlo, hhi⟩ := hwithin
        · cases hne
        · rw [Nat.cast_succ, Int.add_mul, Int.one_mul] at hlo hhi
          have hmul : n * t.lowest ≤ n * t.highest :=
            Int.mul_le_mul_of_nonneg_left hle (Int.natCast_nonneg n)
          -- the least height whose followers, all of them highest, reach the target
          obtain ⟨h, hh⟩ : ∃ h, h = max t.lowest (t.target - total - n * t.highest) := ⟨_, rfl⟩
          have hrest : n * t.lowest ≤ t.target - (total + h)
              ∧ t.target - (total + h) ≤ n * t.highest := by omega
          obtain ⟨hs, hc⟩ := ih ⟨.inr hle, hrest⟩
          have hin : t.lowest ≤ h ∧ h ≤ t.highest := by omega
          exact ⟨h :: hs, completes_cons.mpr ⟨mem_heights.mpr ⟨hin, hrest⟩, hc⟩⟩

/-- A height is tried iff it is allowed and throws behind it complete the
longer prefix. -/
theorem mem_heights_iff_completes {total h : Int} {n : Nat} :
    h ∈ t.heights total (n + 1)
      ↔ (t.lowest ≤ h ∧ h ≤ t.highest) ∧ ∃ rest, Completes t n (total + h) rest := by
  rw [mem_heights, exists_completes_iff]
  refine and_congr_right fun hin => (and_iff_right ?_).symm
  exact .inr (Int.le_trans hin.1 hin.2)

end Siteswap.Search
