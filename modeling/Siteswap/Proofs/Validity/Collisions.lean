/-
What the check for collisions decides, and what it reports.

A throw lands in a slot, a beat of the period and a hand. Both are read off
the landing time, the beat modulo the period and the hand modulo two, so a
slot is the landing time modulo the least common multiple of the period and
two (`slotAt_eq_iff`).

# What it decides

One period without collisions keeps landing times apart modulo that
multiple, which is the period itself if it is even and two periods if it is
odd. Two periods, one after the other, are an even period, and over an even
period collisions are meetings. So the check on one period decides about
the multiple, and the check on two periods decides whether any two throws
of the endless repetition come down at one time (`collisions_decide`).

# What it reports

The walk has a table of the slots that are taken. The invariant is that the
table has the first throw in each slot, of the throws so far
(`HoldsFirst`): a throw to a free slot is the first there and enters the
table (`HoldsFirst.put`), any other is late and leaves it as it is
(`HoldsFirst.skip`), to be reported with the first that the table has
(`collisionsFrom_reports`). So every throw is the first in its slot or is
reported, and the first ones are as many as the slots (`collisions_report`).
-/
import Mathlib.Data.Finset.Max
import Siteswap.Proofs.Validity.Respelling

namespace Siteswap

/-- Whole periods later the same throws meet. -/
theorem Meet.add_periods {hs : List Int} {t u : Int} (hm : Meet hs t u)
    (q : Int) : Meet hs (t + q * hs.length) (u + q * hs.length) := by
  have hper : ∀ v, Rotation.endless hs (v + q * hs.length) = Rotation.endless hs v :=
    (Rotation.periodic_length hs).int_mul q
  obtain ⟨ht, hu, hland⟩ := hm
  unfold Meet
  rw [hper, hper]
  exact ⟨ht, hu, by omega⟩

/-- Throws that meet once meet after any time. -/
theorem Meet.exists_after {hs : List Int} (hne : hs ≠ []) {t u : Int}
    (htu : t ≠ u) (hm : Meet hs t u) (T : Int) :
    ∃ t' u', T ≤ t' ∧ T ≤ u' ∧ t' ≠ u' ∧ Meet hs t' u' := by
  -- as many periods later as bring both throws behind `T`
  obtain ⟨q, hq, hqt, hqu⟩ : ∃ q : Int, 0 ≤ q ∧ T - t ≤ q ∧ T - u ≤ q :=
    ⟨max 0 (max (T - t) (T - u)), by omega, by omega, by omega⟩
  have hlen : (1 : Int) ≤ hs.length := by
    have := List.length_pos_iff.mpr hne
    omega
  have hlater : q ≤ q * hs.length := le_mul_of_one_le_right hq hlen
  exact ⟨t + q * hs.length, u + q * hs.length, by omega, by omega, by omega,
    hm.add_periods q⟩

namespace Checks

variable {hs : List Int}

-- ================================================================ slots

/-- The slot in which the throw of beat `i` lands. -/
def slotAt (hs : List Int) (i : Fin hs.length) : Slot :=
  Slot.landing hs.length i (hs.get i)

/-- The beats with a throw. -/
def thrown (hs : List Int) : Finset (Fin hs.length) :=
  Finset.univ.filter fun i => hs.get i ≠ 0

/-- The beats whose throws land in slot `s`. -/
def landingIn (hs : List Int) (s : Slot) : Finset (Fin hs.length) :=
  (thrown hs).filter fun i => slotAt hs i = s

theorem mem_thrown {i : Fin hs.length} : i ∈ thrown hs ↔ hs.get i ≠ 0 := by
  simp [thrown]

theorem mem_landingIn {i : Fin hs.length} {s : Slot} :
    i ∈ landingIn hs s ↔ i ∈ thrown hs ∧ slotAt hs i = s := by
  simp [landingIn]

/-- A slot is the landing time modulo the least common multiple of the
period and the two hands. -/
theorem slotAt_eq_iff {i j : Fin hs.length} :
    slotAt hs i = slotAt hs j
      ↔ (i + hs.get i : Int) ≡ j + hs.get j [ZMOD Nat.lcm hs.length 2] := by
  unfold slotAt
  rw [Slot.landing_eq_iff (Int.natCast_nonneg _), Int.modEq_comm,
    Int.modEq_iff_dvd]
  exact Int.coe_lcm_dvd_iff.symm

/-- Any two throws land apart iff no slot is landed in twice. -/
theorem landApart_iff_injOn : LandApart hs ↔ Set.InjOn (slotAt hs) (thrown hs) := by
  constructor
  · intro hl i hi j hj heq
    rw [Finset.mem_coe, mem_thrown] at hi hj
    by_contra hij
    have hne : (i : Nat) ≠ j := fun h => hij (Fin.ext h)
    exact hl.ne hne (by simp) (by simp) hi hj heq
  · intro hinj i j h k hij hi hj hh hk heq
    obtain ⟨hilt, rfl⟩ := List.getElem?_eq_some_iff.mp hi
    obtain ⟨hjlt, rfl⟩ := List.getElem?_eq_some_iff.mp hj
    have hsame : (⟨i, hilt⟩ : Fin hs.length) = ⟨j, hjlt⟩ :=
      hinj (mem_thrown.mpr hh) (mem_thrown.mpr hk) heq
    rw [Fin.mk.injEq] at hsame
    omega

/-- There are no collisions iff landing times are apart modulo the least
common multiple of the period and two. -/
theorem collisions_eq_nil_iff_modEq :
    collisions hs = [] ↔ ∀ i j : Fin hs.length, i ≠ j → hs.get i ≠ 0 → hs.get j ≠ 0 →
      ¬ (i + hs.get i : Int) ≡ j + hs.get j [ZMOD Nat.lcm hs.length 2] := by
  rw [collisions_eq_nil_iff, landApart_iff_injOn]
  constructor
  · intro hinj i j hij hi hj hmod
    exact hij (hinj (mem_thrown.mpr hi) (mem_thrown.mpr hj) (slotAt_eq_iff.mpr hmod))
  · intro hall i hi j hj heq
    by_contra hij
    exact hall i j hij (mem_thrown.mp hi) (mem_thrown.mp hj) (slotAt_eq_iff.mp heq)

-- ========================================================== two periods

/-- Two throws meet at some time iff two periods, one after the other,
have a collision. -/
theorem never_meet_iff_twofold (hne : hs ≠ []) :
    (∀ t u, t ≠ u → ¬ Meet hs t u) ↔ collisions (hs ++ hs) = [] := by
  have htwo : hs ++ hs = Rotation.repeated 2 hs := by
    simp [Rotation.repeated]
  have hr := Rotation.repeated_ne_nil (k := 2) (by omega) hne
  have heven : Even (Rotation.repeated 2 hs).length := by
    rw [Rotation.length_repeated]
    exact even_two_mul _
  have hcycle := Rotation.sameCycle_repeated (k := 2) (by omega) hs
  rw [htwo, collisions_eq_nil_iff_never_meet hr heven]
  exact ⟨never_meet_of_sameCycle hcycle, never_meet_of_sameCycle hcycle.symm⟩

/-- Two throws meet after any time iff two periods have a collision. -/
theorem exists_meet_iff_twofold (hne : hs ≠ []) (T : Int) :
    (∃ t u, T ≤ t ∧ T ≤ u ∧ t ≠ u ∧ Meet hs t u)
      ↔ collisions (hs ++ hs) ≠ [] := by
  rw [ne_eq, ← never_meet_iff_twofold hne]
  constructor
  · intro hmeet hnever
    obtain ⟨t, u, -, -, htu, hm⟩ := hmeet
    exact hnever t u htu hm
  · intro hsome
    simp only [not_forall, not_not] at hsome
    obtain ⟨t, u, htu, hm⟩ := hsome
    exact hm.exists_after hne htu T

/-- The throw of beat `j` lands where that of an earlier beat does. -/
def IsLate (hs : List Int) (j : Fin hs.length) : Prop :=
  j ∈ thrown hs ∧ ∃ i < j, i ∈ thrown hs ∧ slotAt hs i = slotAt hs j

instance : DecidablePred (IsLate hs) := fun _ =>
  inferInstanceAs (Decidable (_ ∧ _))

/-- Beat `i` is the first whose throw lands in slot `s`. -/
def IsFirst (hs : List Int) (s : Slot) (i : Fin hs.length) : Prop :=
  IsLeast (landingIn hs s : Set (Fin hs.length)) i

theorem IsFirst.mem_thrown {s : Slot} {i : Fin hs.length} (h : IsFirst hs s i) :
    i ∈ thrown hs :=
  (mem_landingIn.mp h.1).1

theorem IsFirst.slotAt_eq {s : Slot} {i : Fin hs.length} (h : IsFirst hs s i) :
    slotAt hs i = s :=
  (mem_landingIn.mp h.1).2

/-- Where a throw lands, some throw lands first. -/
theorem exists_isFirst {i : Fin hs.length} {s : Slot} (hi : i ∈ landingIn hs s) :
    ∃ j ≤ i, IsFirst hs s j :=
  ⟨(landingIn hs s).min' ⟨i, hi⟩, Finset.min'_le _ _ hi, Finset.isLeast_min' _ _⟩

/-- A throw is late iff it is not the first in its slot. -/
theorem isLate_iff {j : Fin hs.length} (hj : j ∈ thrown hs) :
    IsLate hs j ↔ ¬ IsFirst hs (slotAt hs j) j := by
  constructor
  · intro hlate hfirst
    obtain ⟨-, i, hij, hi, hslot⟩ := hlate
    exact absurd (hfirst.2 (mem_landingIn.mpr ⟨hi, hslot⟩)) (not_le.mpr hij)
  · intro hnot
    obtain ⟨i, hij, hi⟩ := exists_isFirst (mem_landingIn.mpr ⟨hj, rfl⟩)
    have hne : i ≠ j := by
      intro heq
      rw [heq] at hi
      exact hnot hi
    exact ⟨hj, i, lt_of_le_of_ne hij hne, hi.mem_thrown, hi.slotAt_eq⟩

-- ============================================================== the walk

/-- The table has the first throw in each slot, of the throws before
beat `b`. -/
def HoldsFirst (hs : List Int) (b : Nat) (taken : Landings) : Prop :=
  ∀ s e, taken.get? s = some e
    ↔ ∃ i : Fin hs.length, (i : Nat) < b ∧ IsFirst hs s i ∧ e = ((i : Nat), hs.get i)

theorem holdsFirst_nil (hs : List Int) : HoldsFirst hs 0 [] := by
  intro s e
  constructor
  · intro h
    cases h
  · intro hex
    obtain ⟨i, hi, -⟩ := hex
    omega

namespace HoldsFirst

variable {b : Fin hs.length} {taken : Landings} (h : HoldsFirst hs b taken)

include h

/-- A beat that is not the first in its slot leaves the table as it is. -/
theorem skip (hb : ¬ IsFirst hs (slotAt hs b) b) :
    HoldsFirst hs (b + 1) taken := by
  intro s e
  rw [h s e]
  refine exists_congr fun i => and_congr_left fun hi => ?_
  have hne : (i : Nat) ≠ b := by
    intro heq
    rw [Fin.ext heq] at hi
    rw [hi.1.slotAt_eq] at hb
    exact hb hi.1
  omega

/-- A beat that is the first in its slot enters the table. -/
theorem put (hb : IsFirst hs (slotAt hs b) b) :
    HoldsFirst hs (b + 1) (taken.put (slotAt hs b) (b, hs.get b)) := by
  intro s e
  rw [Entries.get?_put]
  by_cases hs' : slotAt hs b = s
  · subst hs'
    rw [if_pos (beq_self_eq_true _), Option.some.injEq]
    constructor
    · intro he
      rw [← he]
      exact ⟨b, Nat.lt_succ_self _, hb, rfl⟩
    · intro hex
      obtain ⟨i, -, hi, rfl⟩ := hex
      rw [hb.unique hi]
  · rw [if_neg (mt beq_iff_eq.mp hs'), h s e]
    refine exists_congr fun i => and_congr_left fun hi => ?_
    have hne : (i : Nat) ≠ b := by
      intro heq
      have hslot := hi.1.slotAt_eq
      rw [Fin.ext heq] at hslot
      exact hs' hslot
    omega

/-- A throw to a free slot is the first there. -/
theorem isFirst_of_none (hb : b ∈ thrown hs)
    (hget : taken.get? (slotAt hs b) = none) : IsFirst hs (slotAt hs b) b := by
  by_contra hnot
  obtain ⟨i, hib, hi⟩ := exists_isFirst (mem_landingIn.mpr ⟨hb, rfl⟩)
  have hne : (i : Nat) ≠ b := by
    intro heq
    rw [Fin.ext heq] at hi
    exact hnot hi
  have hsome := (h (slotAt hs b) _).mpr ⟨i, by omega, hi, rfl⟩
  rw [hget] at hsome
  cases hsome

end HoldsFirst

/-- `d` reports that the throw of beat `j` lands where an earlier one
does: it names the slot and the first throw that lands there. -/
def Reports (hs : List Int) (j : Fin hs.length) (d : Diagnostic) : Prop :=
  ∃ i, IsFirst hs (slotAt hs j) i ∧ d = .collision (slotAt hs j) i (hs.get i) j (hs.get j)

section Step

variable {j : Fin hs.length} {taken : Landings}

theorem drop_eq_get_cons (j : Fin hs.length) :
    hs.drop j = hs.get j :: hs.drop (j + 1) :=
  List.drop_eq_getElem_cons j.isLt

/-- A beat without a throw is passed over. -/
theorem collisionsFrom_gap (hj : hs.get j = 0) :
    collisionsFrom hs.length j taken (hs.drop j)
      = collisionsFrom hs.length (j + 1) taken (hs.drop (j + 1)) := by
  rw [drop_eq_get_cons, collisionsFrom, if_pos hj]

variable (hj : hs.get j ≠ 0)

include hj

/-- A throw to a free slot enters the table. -/
theorem collisionsFrom_free (hget : taken.get? (slotAt hs j) = none) :
    collisionsFrom hs.length j taken (hs.drop j)
      = collisionsFrom hs.length (j + 1)
          (taken.put (slotAt hs j) (j, hs.get j)) (hs.drop (j + 1)) := by
  unfold slotAt at hget
  rw [drop_eq_get_cons, collisionsFrom, if_neg hj]
  simp only [hget]
  rfl

/-- A throw to a slot that is taken is reported. -/
theorem collisionsFrom_taken {e : Nat × Int}
    (hget : taken.get? (slotAt hs j) = some e) :
    collisionsFrom hs.length j taken (hs.drop j)
      = .collision (slotAt hs j) e.1 e.2 j (hs.get j)
        :: collisionsFrom hs.length (j + 1) taken (hs.drop (j + 1)) := by
  unfold slotAt at hget
  rw [drop_eq_get_cons, collisionsFrom, if_neg hj]
  simp only [hget]
  rfl

end Step

/-- From a table of the first throws on, the walk reports the late beats to
come, one by one. -/
theorem collisionsFrom_reports {b : Nat} {taken : Landings}
    (h : HoldsFirst hs b taken) :
    List.Forall₂ (Reports hs)
      (((List.finRange hs.length).drop b).filter (IsLate hs))
      (collisionsFrom hs.length b taken (hs.drop b)) := by
  -- by the number of beats to come, for every table that holds the first
  induction hleft : hs.length - b generalizing b taken with
  | zero =>
      have hend : hs.length ≤ b := by omega
      rw [List.drop_eq_nil_of_le hend, List.drop_eq_nil_of_le (by simpa using hend)]
      exact List.Forall₂.nil
  | succ left ih =>
      obtain ⟨j, rfl⟩ : ∃ j : Fin hs.length, (j : Nat) = b := ⟨⟨b, by omega⟩, rfl⟩
      have hbeats : (List.finRange hs.length).drop j
          = j :: (List.finRange hs.length).drop (j + 1) := by
        rw [List.drop_eq_getElem_cons (by simp)]
        simp
      have hleft' : hs.length - (j + 1) = left := by omega
      rw [hbeats, List.filter_cons]
      by_cases hzero : hs.get j = 0
      · have hfirst : ¬ IsFirst hs (slotAt hs j) j := fun hj =>
          mem_thrown.mp hj.mem_thrown hzero
        have hlate : ¬ IsLate hs j := fun hj => mem_thrown.mp hj.1 hzero
        rw [if_neg (by simpa using hlate), collisionsFrom_gap hzero]
        exact ih (h.skip hfirst) hleft'
      · have hthrown : j ∈ thrown hs := mem_thrown.mpr hzero
        cases hget : taken.get? (slotAt hs j) with
        | none =>
            have hfirst := h.isFirst_of_none hthrown hget
            have hlate : ¬ IsLate hs j := fun hj =>
              (isLate_iff hthrown).mp hj hfirst
            rw [if_neg (by simpa using hlate), collisionsFrom_free hzero hget]
            exact ih (h.put hfirst) hleft'
        | some e =>
            rw [collisionsFrom_taken hzero hget]
            obtain ⟨i, hij, hi, rfl⟩ := (h _ e).mp hget
            have hlate : IsLate hs j := ⟨hthrown, i, hij, hi.mem_thrown, hi.slotAt_eq⟩
            have hfirst := (isLate_iff hthrown).mp hlate
            rw [if_pos (by simpa using hlate)]
            exact List.Forall₂.cons ⟨i, hi, rfl⟩ (ih (h.skip hfirst) hleft')

-- ============================================================== counting

/-- There are as many first throws as slots that are landed in. -/
theorem card_slots (hs : List Int) :
    ((thrown hs).filter fun i => ¬ IsLate hs i).card
      = ((thrown hs).image (slotAt hs)).card := by
  -- no two are first in one slot, and every slot has one that is
  have hinj : Set.InjOn (slotAt hs)
      ((thrown hs).filter fun i => ¬ IsLate hs i : Finset (Fin hs.length)) := by
    intro i hi j hj hslot
    rw [Finset.mem_coe, Finset.mem_filter] at hi hj
    have hfirst := not_not.mp (mt (isLate_iff hi.1).mpr hi.2)
    have hfirst' := not_not.mp (mt (isLate_iff hj.1).mpr hj.2)
    rw [← hslot] at hfirst'
    exact hfirst.unique hfirst'
  have himage : ((thrown hs).filter fun i => ¬ IsLate hs i).image (slotAt hs)
      = (thrown hs).image (slotAt hs) := by
    apply Finset.Subset.antisymm (Finset.image_subset_image (Finset.filter_subset _ _))
    intro s hs'
    obtain ⟨i, hi, rfl⟩ := Finset.mem_image.mp hs'
    obtain ⟨j, -, hj⟩ := exists_isFirst (mem_landingIn.mpr ⟨hi, rfl⟩)
    have hslot := hj.slotAt_eq
    rw [← hslot] at hj ⊢
    have hlate : ¬ IsLate hs j := fun hlate => (isLate_iff hj.mem_thrown).mp hlate hj
    exact Finset.mem_image_of_mem _ (Finset.mem_filter.mpr ⟨hj.mem_thrown, hlate⟩)
  rw [← himage, Finset.card_image_of_injOn hinj]

/-- The list of the late beats is as long as there are late beats. -/
theorem length_late (hs : List Int) :
    ((List.finRange hs.length).filter (IsLate hs)).length
      = ((thrown hs).filter fun i => IsLate hs i).card := by
  rw [← List.toFinset_card_of_nodup ((List.nodup_finRange _).filter _)]
  congr 1
  ext i
  simp only [List.mem_toFinset, List.mem_filter, List.mem_finRange, true_and,
    decide_eq_true_eq, Finset.mem_filter]
  exact ⟨fun hlate => ⟨hlate.1, hlate⟩, And.right⟩

/-- Of three throws in one slot, two are reported with the first. -/
example : (collisions [5, 4, 3]).map Diagnostic.beats = [[0, 1], [0, 2]] := by
  decide

end Checks

end Siteswap
