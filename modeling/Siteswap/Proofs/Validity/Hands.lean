/-
What the check of the state decides, and what it reports.

Each hand begins with the objects that it throws in one period. The walk
takes an object from a hand at every throw and gives it to the hand that
catches it, which may be the same one.

# What a throw does

It leaves the number of objects as it is (`Hands.objects_add`), and so does
any stretch of throws (`objects_endFrom`). Only throws of odd height change
hands, so a hand ends with what it had, less its own of these and more
those of the other hand (`endFrom_opening`).

# What the counts decide

The counts of the hands come back, in some order, iff as many throws cross
one way as the other, or just enough more of them to exchange the two
counts (`state_decides`). All four numbers are numbers of beats
(`beatsBy`), and the walks count these beats one by one
(`count_eq_card`).
-/
import Mathlib.Data.Fintype.Fin
import Mathlib.Algebra.Ring.Int.Parity
import Siteswap.Proofs.Validity.Checks

namespace Siteswap

namespace Hands

-- ================================================================ hands

/-- The objects in both hands. -/
def objects (s : Hands) : Int := s.even + s.odd

/-- The counts of the hands, in any order. -/
def counts (s : Hands) : Multiset Int := {s.even, s.odd}

theorem objects_add (beat n : Int) (s : Hands) :
    (s.add beat n).objects = s.objects + n := by
  unfold add objects
  split
  · exact Int.add_right_comm s.even n s.odd
  · exact (Int.add_assoc s.even s.odd n).symm

end Hands

namespace Checks

/-- Hands have the same counts iff these agree hand by hand or crosswise. -/
theorem sameCounts_iff (s t : Hands) :
    sameCounts s t = true ↔ s.counts = t.counts := by
  unfold sameCounts
  rw [decide_eq_true_iff]
  obtain ⟨a, b⟩ := s
  obtain ⟨c, d⟩ := t
  unfold Hands.counts
  constructor
  · intro hsame
    rcases hsame with ⟨rfl, rfl⟩ | ⟨rfl, rfl⟩
    · rfl
    · exact Multiset.pair_comm _ _
  · intro hcounts
    have hmem : a ∈ ({c, d} : Multiset Int) := by
      rw [← hcounts]
      exact Multiset.mem_cons_self a {b}
    rw [Multiset.insert_eq_cons, Multiset.mem_cons, Multiset.mem_singleton] at hmem
    rcases hmem with rfl | rfl
    · -- the same count in the same hand, so the other hands agree too
      exact .inl ⟨rfl, Multiset.singleton_inj.mp ((Multiset.cons_inj_right a).mp hcounts)⟩
    · rw [Multiset.pair_comm c] at hcounts
      exact .inr ⟨rfl, Multiset.singleton_inj.mp ((Multiset.cons_inj_right a).mp hcounts)⟩

-- ============================================================ the walk

/-- No throw loses an object. -/
theorem objects_endFrom (beat : Nat) (s : Hands) (hs : List Int) :
    (endFrom beat s hs).objects = s.objects := by
  induction hs generalizing beat s with
  | nil => rfl
  | cons h hs ih =>
      unfold endFrom
      split
      · exact ih (beat + 1) s
      · rw [ih, Hands.objects_add, Hands.objects_add, Int.neg_add_cancel_right]

-- ============================================================= counting

/-- The beats of hand `hand`, 0 for the even and 1 for the odd ones, with
heights of the kind `p`. -/
def beatsBy (p : Int → Prop) [DecidablePred p] (hs : List Int) (hand : Int) :
    Finset (Fin hs.length) :=
  Finset.univ.filter fun i => p (hs.get i) ∧ ((i : Nat) : Int) % 2 = hand

/-- How many throws hand `hand` makes. -/
def throwsOf (hs : List Int) (hand : Int) : Int :=
  (beatsBy (· ≠ 0) hs hand).card

/-- How many throws of odd height hand `hand` makes. -/
def crossingsOf (hs : List Int) (hand : Int) : Int :=
  (beatsBy Odd hs hand).card

/-- What counts one for each height of a kind counts the beats that have
it. -/
theorem count_eq_card {f : Nat → List Int → Int} {p : Int → Prop} [DecidablePred p]
    {hand : Int} (hnil : ∀ beat, f beat [] = 0)
    (hcons : ∀ beat h hs, f beat (h :: hs)
      = (if p h ∧ (beat : Int) % 2 = hand then 1 else 0) + f (beat + 1) hs)
    (beat : Nat) (hs : List Int) :
    f beat hs = (Finset.univ.filter fun i : Fin hs.length =>
      p (hs.get i) ∧ ((beat + i : Nat) : Int) % 2 = hand).card := by
  induction hs generalizing beat with
  | nil =>
      rw [hnil]
      rfl
  | cons h hs ih =>
      simp only [List.length_cons]
      rw [hcons, ih, Fin.card_filter_univ_succ']
      simp [Int.add_assoc, Int.add_comm 1]

theorem throwsBy_eq (hand : Int) (hs : List Int) :
    throwsBy hand 0 hs = throwsOf hs hand := by
  have hcard := count_eq_card (f := throwsBy hand) (p := (· ≠ 0)) (fun _ => rfl)
    (fun _ _ _ => rfl) 0 hs
  simp only [Nat.zero_add] at hcard
  exact hcard

theorem crossingsBy_eq (hand : Int) (hs : List Int) :
    crossingsBy hand 0 hs = crossingsOf hs hand := by
  have hcard := count_eq_card (f := crossingsBy hand) (p := (· % 2 = 1)) (fun _ => rfl)
    (fun _ _ _ => rfl) 0 hs
  simp only [Nat.zero_add, ← Int.odd_iff] at hcard
  exact hcard

-- ============================================================ the state

/-- The hands before the first throw: each holds what it throws. -/
def opening (hs : List Int) : Hands :=
  ⟨throwsOf hs 0, throwsOf hs 1⟩

/-- The hands after the last throw: what a hand threw to the other has
gone, and what the other threw to it has come. -/
def closing (hs : List Int) : Hands :=
  ⟨throwsOf hs 0 - crossingsOf hs 0 + crossingsOf hs 1,
    throwsOf hs 1 + crossingsOf hs 0 - crossingsOf hs 1⟩

theorem startFrom_opening (hs : List Int) : startFrom 0 hs = opening hs := by
  rw [startFrom_eq, throwsBy_eq, throwsBy_eq]
  rfl

theorem endFrom_opening (hs : List Int) : endFrom 0 (opening hs) hs = closing hs := by
  rw [endFrom_eq, crossingsBy_eq, crossingsBy_eq]
  rfl

theorem state_eq (hs : List Int) :
    state hs = if sameCounts (closing hs) (opening hs) then []
      else [.state (opening hs) (closing hs)] := by
  unfold state
  simp only [startFrom_opening, endFrom_opening]

theorem state_eq_nil_iff_counts (hs : List Int) :
    state hs = [] ↔ (closing hs).counts = (opening hs).counts := by
  rw [state_eq, ← sameCounts_iff]
  split
  case isTrue hsame => exact ⟨fun _ => hsame, fun _ => rfl⟩
  case isFalse hsame =>
    exact ⟨fun h => absurd h (List.cons_ne_nil _ _), fun h => absurd h hsame⟩

/-- The walk begins with the throws of each hand and ends with those that
crossed exchanged, and it loses no object. It finds nothing iff the counts
of the hands come back in some order, which they do iff as many throws
cross one way as the other, or just enough more of them to exchange the
counts. Otherwise it finds one thing, the counts before and after. -/
theorem state_decides (hs : List Int) :
    startFrom 0 hs = opening hs
    ∧ endFrom 0 (startFrom 0 hs) hs = closing hs
    ∧ (endFrom 0 (startFrom 0 hs) hs).objects = throwsOf hs 0 + throwsOf hs 1
    ∧ (state hs = [] ↔ (closing hs).counts = (opening hs).counts)
    ∧ (state hs = [] ↔ crossingsOf hs 0 = crossingsOf hs 1
        ∨ crossingsOf hs 1 - crossingsOf hs 0 = throwsOf hs 1 - throwsOf hs 0)
    ∧ (state hs = [] ∨ state hs = [.state (opening hs) (closing hs)]) := by
  refine ⟨startFrom_opening hs, ?_, ?_, state_eq_nil_iff_counts hs, ?_, ?_⟩
  · rw [startFrom_opening, endFrom_opening]
  · rw [objects_endFrom, startFrom_opening]
    rfl
  · rw [state_eq_nil_iff, crossingsBy_eq, crossingsBy_eq, throwsBy_eq, throwsBy_eq]
  · rw [state_eq]
    split
    case isTrue => exact .inl rfl
    case isFalse => exact .inr rfl

/-- One object thrown across leaves the counts exchanged. -/
example : closing [1] = ⟨0, 1⟩ ∧ state [1] = [] := by decide

end Checks

end Siteswap
