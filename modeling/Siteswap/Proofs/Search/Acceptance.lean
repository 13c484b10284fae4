/-
What acceptance accepts.

A candidate is accepted if it passes the checks and its canonical spelling
passes them too (`accept_eq_some_iff`). What is reported is the canonical
spelling, which is another word: shorter if the candidate repeats, and
begun elsewhere. Three things carry over from the one to the other: the
average height (`Rotation.sum_canonical`), the heights in use, and that
the length divides.

# Two candidates that are always accepted

- The reported spelling itself, which is reported again
  (`accept_heights`).
- The same height over and over, which is reported as one throw
  (`accept_replicate`). Its throws land one after the other, and either
  all of them change hands or none does, so no check can object, for any
  height and any length. This is what makes searches succeed.
-/
import Siteswap.Proofs.Canonical.Equivalence
import Siteswap.Proofs.Validity.Checks
import Siteswap.Search.Acceptance

namespace Siteswap

-- ================================================= heights of sequences

theorem Sequence.heights_of_ofHeights {hs : List Int} {s : Sequence}
    (h : ofHeights hs = .ok s) : s.heights = hs := by
  unfold ofHeights at h
  split at h
  case h_1 => cases h
  case h_2 =>
    injection h with h
    rw [← h]

namespace Search

-- ============================================================ acceptance

/-- Accepted are candidates that pass the checks and have a canonical
spelling that passes them. -/
theorem accept_eq_some_iff {hs : List Int} {s : Sequence} :
    accept hs = .ok (some s)
      ↔ hs ≠ [] ∧ Checks.all hs = [] ∧ Sequence.canonicalOf hs = .ok s
          ∧ (Verdict.ofSequence .async s).isValid = true := by
  have hchecks : (!Checks.passesQuickly hs || !(Checks.state hs).isEmpty) = false
      ↔ hs ≠ [] ∧ Checks.all hs = [] := by
    rw [Checks.all_eq_nil_iff, Bool.or_eq_false_iff, Bool.not_eq_false',
      Bool.not_eq_false', List.isEmpty_iff, Checks.passesQuickly_iff,
      and_assoc, and_assoc]
  rw [← and_assoc, ← hchecks]
  unfold accept
  split
  case isTrue hfail =>
    constructor
    · intro h
      injection h with h
      cases h
    · intro hok
      obtain ⟨hpass, -⟩ := hok
      rw [hpass] at hfail
      cases hfail
  case isFalse hpass =>
    rw [Bool.not_eq_true] at hpass
    cases hc : Sequence.canonicalOf hs with
    | error e =>
        constructor
        · intro h
          cases h
        · intro hok
          obtain ⟨-, h, -⟩ := hok
          cases h
    | ok c =>
        simp only [Except.map, Except.ok.injEq]
        constructor
        · intro h
          split at h
          case isTrue hv =>
            rw [Option.some.injEq] at h
            subst h
            exact ⟨hpass, rfl, hv⟩
          case isFalse => cases h
        · intro hok
          obtain ⟨-, rfl, hv⟩ := hok
          rw [if_pos hv]

/-- Candidates in range are accepted or not, without an error. -/
theorem accept_of_inRange {hs : List Int}
    (hr : ∀ h ∈ hs, 0 ≤ h ∧ h ≤ Alphabet.maxHeight) :
    accept hs = .ok (accepted? hs) := by
  have hc := Sequence.canonicalOf_heights ⟨hs, hr⟩
  have hok : ∃ found, accept hs = .ok found := by
    unfold accept
    split
    · exact ⟨none, rfl⟩
    · rw [hc]
      exact ⟨_, rfl⟩
  obtain ⟨found, hfound⟩ := hok
  unfold accepted?
  rw [hfound]

theorem accepted?_eq_some_iff {hs : List Int} {s : Sequence} :
    accepted? hs = some s ↔ accept hs = .ok (some s) := by
  unfold accepted?
  cases accept hs with
  | error e =>
      constructor
      · intro h
        cases h
      · intro h
        cases h
  | ok found => exact (Except.ok.injEq _ _ ▸ Iff.rfl)

-- ================================================== what is reported

/-- What is reported has the canonical heights of the candidate. -/
theorem heights_of_accept {hs : List Int} {s : Sequence}
    (h : accept hs = .ok (some s)) : s.heights = Rotation.canonical hs :=
  Sequence.heights_of_ofHeights (accept_eq_some_iff.mp h).2.2.1

theorem heights_ne_nil_of_accept {hs : List Int} {s : Sequence}
    (h : accept hs = .ok (some s)) : s.heights ≠ [] := by
  rw [heights_of_accept h]
  exact Rotation.canonical_ne_nil (accept_eq_some_iff.mp h).1

theorem canonical_of_accept {hs : List Int} {s : Sequence}
    (h : accept hs = .ok (some s)) : s.canonical = s := by
  apply Sequence.eq_of_heights
  rw [Sequence.canonical_heights, heights_of_accept h]
  exact Rotation.canonical_canonical (accept_eq_some_iff.mp h).1

/-- Accepting what is reported reports it again. -/
theorem accept_heights {hs : List Int} {s : Sequence}
    (h : accept hs = .ok (some s)) : accept s.heights = .ok (some s) := by
  obtain ⟨-, -, -, hv⟩ := accept_eq_some_iff.mp h
  obtain ⟨hne, hall⟩ := (Verdict.isValid_iff .async s).mp hv
  refine accept_eq_some_iff.mpr ⟨hne, hall, ?_, hv⟩
  rw [Sequence.canonicalOf_heights, canonical_of_accept h]

/-- The length of what is reported divides that of the candidate. -/
theorem length_dvd_of_accept {hs : List Int} {s : Sequence}
    (h : accept hs = .ok (some s)) : s.heights.length ∣ hs.length := by
  have hne := (accept_eq_some_iff.mp h).1
  rw [heights_of_accept h, Rotation.length_canonical hne]
  exact Rotation.length_root_dvd hne

/-- What is reported has the average of the candidate, as its number of
objects. -/
theorem objects_of_accept {hs : List Int} {s : Sequence} {objects : Int}
    (h : accept hs = .ok (some s)) (hsum : hs.sum = objects * hs.length) :
    (Verdict.figures s).objects = objects := by
  have hne := (accept_eq_some_iff.mp h).1
  have hcanon := Rotation.sum_canonical_of_average hne hsum
  rw [← heights_of_accept h] at hcanon
  exact Verdict.objects_of_average (heights_ne_nil_of_accept h) hcanon

-- ======================================================= constant heights

/-- The same throw at every beat lands at every beat once. -/
theorem landApart_replicate (n : Nat) (a : Int) :
    Checks.LandApart (List.replicate n a) := by
  intro i j h k hij hi hj _ _ hslot
  have hj' : j < n := by
    obtain ⟨hlt, -⟩ := List.getElem?_eq_some_iff.mp hj
    rw [List.length_replicate] at hlt
    exact hlt
  have hh := List.eq_of_mem_replicate (List.mem_of_getElem? hi)
  have hk := List.eq_of_mem_replicate (List.mem_of_getElem? hj)
  rw [Slot.landing_eq_iff (Int.natCast_nonneg _), List.length_replicate,
    hh, hk] at hslot
  -- the landing times are less than one period apart
  have hdvd : (n : Int) ∣ (j : Int) - i := by
    have hneg := Int.dvd_neg.mpr hslot.1
    rw [show -((i : Int) + a - (j + a)) = j - i by omega] at hneg
    exact hneg
  have hle := Int.le_of_dvd (by omega) hdvd
  omega

theorem all_replicate (n : Nat) (a : Int) :
    Checks.all (List.replicate n a) = [] := by
  rw [Checks.all_eq_nil_iff]
  refine ⟨?_, ?_, ?_⟩
  · rw [Checks.average_eq_nil_iff, total_eq_sum, List.sum_replicate_int,
      List.length_replicate]
    exact Int.dvd_mul_right _ _
  · exact (Checks.collisions_eq_nil_iff _).mpr (landApart_replicate n a)
  · apply Checks.state_eq_nil_of_parity
    rcases Int.emod_two_eq a with he | ho
    · left
      intro h hh
      rw [List.eq_of_mem_replicate hh, he]
    · right
      intro h hh
      rw [List.eq_of_mem_replicate hh, ho]

/-- The same throw at every beat is accepted, and reported as one
throw. -/
theorem accept_replicate (n : Nat) {a : Int}
    (ha : 0 ≤ a ∧ a ≤ Alphabet.maxHeight) :
    ∃ s, s.heights = [a] ∧ accept (List.replicate (n + 1) a) = .ok (some s) := by
  have hr : ∀ h ∈ [a], 0 ≤ h ∧ h ≤ Alphabet.maxHeight := by
    intro h hh
    rw [List.mem_singleton.mp hh]
    exact ha
  refine ⟨⟨[a], hr⟩, rfl, accept_eq_some_iff.mpr
    ⟨List.cons_ne_nil a _, all_replicate (n + 1) a, ?_, ?_⟩⟩
  · unfold Sequence.canonicalOf
    rw [Rotation.canonical_replicate]
    exact Sequence.ofHeights_of_inRange hr
  · exact (Verdict.isValid_iff _ _).mpr
      ⟨List.cons_ne_nil a [], all_replicate 1 a⟩

end Search

end Siteswap
