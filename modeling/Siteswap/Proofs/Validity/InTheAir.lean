/-
How many objects are in the air.

A throw made at time `t` of the endless repetition is in the air at `T`
when it was made before `T` and comes down no earlier (`inAir`). Where
every beat is thrown from and landed on once (`Dense`), their number does
not change: at each time one object comes down, and the same object goes
up again. That number is the total of the heights divided by the period
(`length_mul_card_inAir`), which is what validation reports as the number
of objects (`card_inAir_eq_objects`).

# One step and a whole period

Two quantities are followed from one time to the next, beginning at a time
that no throw from before the start could reach.

- The throws in the air: `inAir_succ` says which one leaves and which one
  joins, so their number stays (`card_inAir_succ`).
- The beats that these throws have still to fly (`flight`): every throw in
  the air loses one, and the new throw brings its height
  (`flight_succ`).

After a period the same throws are in the air again, one period later, so
the flight is what it was. What was lost, the number of throws in the air
times the period, is what the throws of one period brought.
-/
import Siteswap.Proofs.Validity.Permutation

namespace Siteswap

open Rotation (endless)

/-- A pattern in which every beat is thrown from and landed on once. -/
structure Dense (hs : List Int) : Prop where
  nonempty : hs ≠ []
  thrown : ∀ h ∈ hs, 1 ≤ h
  landed : Function.Bijective (landingBeat hs)

/-- The throws from time zero on that are in the air at time `T`. -/
def inAir (hs : List Int) (T : Nat) : Finset Nat :=
  (Finset.range T).filter fun t => (T : Int) ≤ t + endless hs t

/-- The beats that the throws in the air have still to fly. -/
def flight (hs : List Int) (T : Nat) : Int :=
  ∑ t ∈ inAir hs T, (t + endless hs t - T)

theorem mem_inAir {hs : List Int} {T t : Nat} :
    t ∈ inAir hs T ↔ t < T ∧ (T : Int) ≤ t + endless hs t := by
  unfold inAir
  rw [Finset.mem_filter, Finset.mem_range]

theorem endless_add_length (hs : List Int) (t : Nat) :
    endless hs (t + hs.length : Nat) = endless hs t := by
  rw [Int.natCast_add]
  exact Rotation.periodic_length hs t

namespace Dense

variable {hs : List Int} (hd : Dense hs)

include hd

-- ============================================================== landings

theorem one_le_endless (t : Int) : 1 ≤ endless hs t :=
  hd.thrown _ (Rotation.endless_mem hd.nonempty t)

theorem landOnce : LandOnce hs := by
  refine (landOnce_iff_bijective fun h hh h0 => ?_).mpr hd.landed
  have := hd.thrown h hh
  omega

/-- At every time some throw comes down. -/
theorem exists_landing (T : Int) : ∃ t, t + endless hs t = T := by
  obtain ⟨i, hi⟩ := hd.landed.surjective
    ⟨(T % hs.length).toNat, Rotation.place_lt hd.nonempty T⟩
  have hmod : ((i : Int) + hs[i]) % hs.length = T % hs.length := by
    rw [← coe_landingBeat, hi]
    exact Rotation.natCast_place hd.nonempty T
  -- the throw of beat `i` that is made in time for `T`
  refine ⟨T - hs[i], ?_⟩
  have hbeat : endless hs (T - hs[i]) = hs[i] := by
    rw [Fin.getElem_fin, ← Rotation.endless_natCast i.isLt]
    apply Rotation.endless_congr
    rw [Rotation.endless_natCast i.isLt, Int.sub_emod, ← hmod, ← Int.sub_emod]
    simp
  rw [hbeat, Int.sub_add_cancel]

/-- No two throws come down at one time. -/
theorem eq_of_landing {t u : Int}
    (h : t + endless hs t = u + endless hs u) : t = u := by
  have ht := hd.one_le_endless t
  have hu := hd.one_le_endless u
  by_contra htu
  exact (never_meet_iff hd.nonempty).mpr hd.landOnce t u htu
    ⟨by omega, by omega, h⟩

-- ============================================================== one step

variable {T : Nat} (hT : ∀ h ∈ hs, h ≤ T)

include hT

/-- From one time to the next, the throw that comes down leaves the air
and a new throw joins. -/
theorem inAir_succ : ∃ t ∈ inAir hs T, (t : Int) + endless hs t = T
    ∧ inAir hs (T + 1) = insert T ((inAir hs T).erase t) := by
  obtain ⟨t', ht'⟩ := hd.exists_landing T
  have hheight := hd.one_le_endless t'
  have hreach := hT _ (Rotation.endless_mem hd.nonempty t')
  obtain ⟨t, rfl⟩ := Int.eq_ofNat_of_zero_le (show 0 ≤ t' by omega)
  refine ⟨t, mem_inAir.mpr ⟨by omega, by omega⟩, ht', ?_⟩
  ext u
  rw [Finset.mem_insert, Finset.mem_erase, mem_inAir, mem_inAir]
  have hnew := hd.one_le_endless T
  constructor
  · intro hu
    rcases eq_or_ne u T with huT | huT
    · exact .inl huT
    · refine .inr ⟨?_, by omega, by omega⟩
      rintro rfl
      omega
  · intro hu
    rcases hu with rfl | ⟨hut, hu⟩
    · omega
    · have hland : (u : Int) + endless hs u ≠ T := fun h =>
        hut (Int.natCast_inj.mp (hd.eq_of_landing (h.trans ht'.symm)))
      omega

theorem card_inAir_succ : (inAir hs (T + 1)).card = (inAir hs T).card := by
  obtain ⟨t, ht, -, hnext⟩ := hd.inAir_succ hT
  have hnew : T ∉ (inAir hs T).erase t := by
    rw [Finset.mem_erase, mem_inAir]
    omega
  rw [hnext, Finset.card_insert_of_notMem hnew,
    Finset.card_erase_add_one ht]

theorem flight_succ :
    flight hs (T + 1) = flight hs T - (inAir hs T).card + endless hs T := by
  obtain ⟨t, ht, hland, hnext⟩ := hd.inAir_succ hT
  have hnew : T ∉ (inAir hs T).erase t := by
    rw [Finset.mem_erase, mem_inAir]
    omega
  have hrest := Finset.add_sum_erase (inAir hs T)
    (fun u : Nat => u + endless hs u - (T + 1 : Nat)) ht
  have hless : ∑ u ∈ inAir hs T, (u + endless hs u - (T + 1 : Nat))
      = flight hs T - (inAir hs T).card := by
    have hone : ∀ u ∈ inAir hs T, u + endless hs u - (T + 1 : Nat)
        = (u + endless hs u - T) - 1 := fun u _ => by omega
    unfold flight
    rw [Finset.sum_congr rfl hone, Finset.sum_sub_distrib, Finset.sum_const,
      nsmul_one]
  rw [hless] at hrest
  unfold flight at hrest ⊢
  rw [hnext, Finset.sum_insert hnew]
  omega

-- ============================================================= many steps

/-- The number of throws in the air stays what it is. -/
theorem card_inAir_add (k : Nat) :
    (inAir hs (T + k)).card = (inAir hs T).card := by
  induction k with
  | zero => rfl
  | succ k ih =>
      have hTk : ∀ h ∈ hs, h ≤ (T + k : Nat) := fun h hh => by
        have := hT h hh
        omega
      rw [← Nat.add_assoc, hd.card_inAir_succ hTk, ih]

theorem flight_add (k : Nat) :
    flight hs (T + k) = flight hs T - k * (inAir hs T).card
      + ∑ j ∈ Finset.range k, endless hs (T + j : Nat) := by
  induction k with
  | zero => simp
  | succ k ih =>
      have hTk : ∀ h ∈ hs, h ≤ (T + k : Nat) := fun h hh => by
        have := hT h hh
        omega
      rw [← Nat.add_assoc, hd.flight_succ hTk, ih, hd.card_inAir_add hT,
        Finset.sum_range_succ, Int.natCast_succ, Int.add_mul, Int.one_mul]
      omega

-- ============================================================= one period

/-- A period later the same throws are in the air, one period later. -/
theorem inAir_add_length : inAir hs (T + hs.length)
    = (inAir hs T).map (addRightEmbedding hs.length) := by
  ext t
  rw [Finset.mem_map]
  constructor
  · intro ht
    rw [mem_inAir] at ht
    -- a throw from before the first period would be down by now
    have hreach := hT _ (Rotation.endless_mem hd.nonempty t)
    obtain ⟨u, rfl⟩ :=
      Nat.exists_eq_add_of_le' (show hs.length ≤ t by omega)
    rw [endless_add_length] at ht
    exact ⟨u, mem_inAir.mpr (by omega), rfl⟩
  · rintro ⟨u, hu, rfl⟩
    rw [mem_inAir] at hu ⊢
    rw [addRightEmbedding_apply, endless_add_length]
    omega

theorem flight_add_length : flight hs (T + hs.length) = flight hs T := by
  unfold flight
  rw [hd.inAir_add_length hT, Finset.sum_map]
  refine Finset.sum_congr rfl fun t _ => ?_
  rw [addRightEmbedding_apply, endless_add_length]
  omega

/-- The number of throws in the air, over a whole period, is the total of
the heights. -/
theorem length_mul_card_inAir :
    hs.length * ((inAir hs T).card : Int) = total hs := by
  -- counted from the beginning of a period, at or after `T`
  obtain ⟨k, hk⟩ : ∃ k, hs.length * T = T + k :=
    Nat.exists_eq_add_of_le
      (Nat.le_mul_of_pos_left T (List.length_pos_iff.mpr hd.nonempty))
  have hTk : ∀ h ∈ hs, h ≤ (T + k : Nat) := fun h hh => by
    have := hT h hh
    omega
  have hround := hd.flight_add hTk hs.length
  have hbrought : ∑ j ∈ Finset.range hs.length, endless hs (T + k + j : Nat)
      = total hs := by
    rw [total_eq_sum_fin, Finset.sum_range]
    refine Finset.sum_congr rfl fun i _ => ?_
    rw [← hk, Fin.getElem_fin, ← Rotation.endless_natCast i.isLt]
    apply Rotation.endless_congr
    rw [Int.natCast_add, Int.natCast_mul, Int.mul_add_emod_self_left]
  rw [hd.flight_add_length hTk, hd.card_inAir_add hT, hbrought] at hround
  omega

end Dense

-- ========================================================= valid patterns

/-- In a valid pattern of even period without empty beats, the objects
that validation counts are in the air at every time that is no smaller
than the heights. -/
theorem card_inAir_eq_objects (d : Dialect) (s : Sequence) (f : Figures)
    (heven : Even s.period) (hpos : ∀ h ∈ s.heights, 1 ≤ h)
    (hv : (Verdict.ofSequence d s).outcome = .ok f)
    (T : Nat) (hT : ∀ h ∈ s.heights, h ≤ T) :
    ((inAir s.heights T).card : Int) = f.objects := by
  have hvalid : (Verdict.ofSequence d s).isValid = true := by
    unfold Verdict.isValid
    rw [hv]
  have hne := ((Verdict.isValid_iff d s).mp hvalid).1
  have hlen : 0 < s.heights.length := List.length_pos_iff.mpr hne
  have hd : Dense s.heights :=
    ⟨hne, hpos, (isValid_iff_bijective d s hlen heven hpos).1.mp hvalid⟩
  have hf : f = Verdict.figures s := by
    unfold Verdict.ofSequence at hv
    simp only at hv
    split at hv
    · injection hv with hv
      exact hv.symm
    · cases hv
  have htotal := hd.length_mul_card_inAir hT
  rw [hf]
  show _ = s.total.fdiv s.period
  unfold Sequence.total Sequence.period
  rw [← htotal, Int.fdiv_eq_ediv_of_nonneg _ (Int.natCast_nonneg _)]
  exact (Int.mul_ediv_cancel_left _ (by omega)).symm

/-- Four objects are in the air at time nine of `5344`. -/
theorem fiveThreeFours_objects :
    Even fiveThreeFours.period ∧ (∀ h ∈ fiveThreeFours.heights, 1 ≤ h)
      ∧ (Verdict.ofSequence .async fiveThreeFours).outcome
          = .ok (Verdict.figures fiveThreeFours)
      ∧ (∀ h ∈ fiveThreeFours.heights, h ≤ (9 : Nat))
      ∧ (Verdict.figures fiveThreeFours).objects = 4
      ∧ ((inAir fiveThreeFours.heights 9).card : Int) = 4 := by
  have heven : Even fiveThreeFours.period := ⟨2, rfl⟩
  have hpos : ∀ h ∈ fiveThreeFours.heights, 1 ≤ h := by decide
  have hv : (Verdict.ofSequence .async fiveThreeFours).outcome
      = .ok (Verdict.figures fiveThreeFours) := by
    have hnone : Verdict.findings fiveThreeFours = [] := by decide
    unfold Verdict.ofSequence
    rw [if_pos hnone]
  have hmax : ∀ h ∈ fiveThreeFours.heights, h ≤ (9 : Nat) := by decide
  have hobjects : (Verdict.figures fiveThreeFours).objects = 4 := by decide
  refine ⟨heven, hpos, hv, hmax, hobjects, ?_⟩
  rw [card_inAir_eq_objects .async fiveThreeFours _ heven hpos hv 9 hmax,
    hobjects]

end Siteswap
