/-
What each check decides.

The checks walk over the heights with a table of landings or a pair of
counts in hand. This file says what they find without the walk:

- average: the period divides the total (`average_eq_nil_iff`);
- collisions: any two throws of one period land in different slots
  (`collisions_eq_nil_iff`), where two slots are one iff the landing times
  agree modulo the period and modulo the two hands (`landing_eq_iff`);
- state: the throws that change hands balance, or exchange the two counts
  (`state_eq_nil_iff`).

The fast pass decides the first two (`passesQuickly_iff`), all three
together are validity (`isValid_iff`). The fast pass was written apart from
the checks, and `passesQuickly_agrees` says that it comes to their result.

# The invariant of the walks

Both walks for collisions, the one that reports and the one that does
not, are in step with `landings`, the slots of the throws still to come:
they find nothing iff these slots are all different and none is taken
already.
-/
import Siteswap.Proofs.Entries
import Siteswap.Proofs.Rotation.Endless
import Siteswap.Validity.Verdict

namespace Siteswap

-- ================================================================ total

theorem total_eq_sum (hs : List Int) : total hs = hs.sum := by
  induction hs with
  | nil => rfl
  | cons h hs ih => rw [total, ih, List.sum_cons]

-- ================================================================ slots

/-- Two throws land in one slot iff their landing times agree modulo the
period and modulo two. -/
theorem Slot.landing_eq_iff {n i j h k : Int} (hn : 0 ≤ n) :
    Slot.landing n i h = Slot.landing n j k
      ↔ n ∣ (i + h) - (j + k) ∧ 2 ∣ (i + h) - (j + k) := by
  unfold Slot.landing
  rw [Slot.mk.injEq, Int.fmod_eq_emod_of_nonneg _ hn,
    Int.fmod_eq_emod_of_nonneg _ hn, Int.emod_eq_emod_iff_emod_sub_eq_zero,
    ← Int.dvd_iff_emod_eq_zero]
  refine and_congr_right fun _ => ?_
  simp only [Int.fmod_eq_emod_of_nonneg _ (show (0 : Int) ≤ 2 by decide)]
  omega

namespace Checks

-- ============================================================== average

theorem average_eq_nil_iff (hs : List Int) :
    average hs = [] ↔ (hs.length : Int) ∣ total hs := by
  unfold average
  rw [Int.fmod_eq_emod_of_nonneg _ (Int.natCast_nonneg _),
    Int.dvd_iff_emod_eq_zero]
  split
  case isTrue h => exact ⟨fun _ => h, fun _ => rfl⟩
  case isFalse h => exact ⟨fun h' => (List.cons_ne_nil _ _ h').elim,
    fun h' => absurd h' h⟩

/-- Where there are beats, the check of the average returns no finding iff
there is none; to report one it may need a float that does not exist. -/
theorem average?_eq_ok_nil_iff {hs : List Int} (hne : hs ≠ []) :
    average? hs = .ok [] ↔ average hs = [] := by
  unfold average?
  rw [if_neg hne]
  by_cases havg : average hs = []
  · simp [havg]
  · by_cases hover : Number.overflows (total hs) hs.length = true
    · simp [havg, hover]
    · simp [havg, hover]

-- ============================================================= landings

/-- The slots in which the throws from `beat` on land. -/
def landings (period : Int) (beat : Nat) : List Int → List Slot
  | [] => []
  | h :: hs =>
    if h = 0 then landings period (beat + 1) hs
    else Slot.landing period beat h :: landings period (beat + 1) hs

theorem mem_landings {period : Int} {beat : Nat} {hs : List Int} {s : Slot} :
    s ∈ landings period beat hs
      ↔ ∃ i h, hs[i]? = some h ∧ h ≠ 0
          ∧ s = Slot.landing period (beat + i : Nat) h := by
  induction hs generalizing beat with
  | nil =>
      unfold landings
      constructor
      · intro hs
        cases hs
      · intro hex
        obtain ⟨i, h, hi, -⟩ := hex
        cases hi
  | cons k hs ih =>
      have htail : s ∈ landings period (beat + 1) hs
          ↔ ∃ i h, (k :: hs)[i + 1]? = some h ∧ h ≠ 0
              ∧ s = Slot.landing period (beat + (i + 1) : Nat) h := by
        rw [ih]
        simp only [List.getElem?_cons_succ, Nat.add_assoc, Nat.add_comm 1]
      unfold landings
      constructor
      · intro hs
        split at hs
        case isTrue hk =>
          obtain ⟨i, h, hi⟩ := htail.mp hs
          exact ⟨i + 1, h, hi⟩
        case isFalse hk =>
          rcases List.mem_cons.mp hs with rfl | hs
          · exact ⟨0, k, rfl, hk, rfl⟩
          · obtain ⟨i, h, hi⟩ := htail.mp hs
            exact ⟨i + 1, h, hi⟩
      · intro hex
        obtain ⟨i, h, hi, hne, rfl⟩ := hex
        cases i with
        | zero =>
            rw [List.getElem?_cons_zero, Option.some.injEq] at hi
            rw [if_neg (by rw [hi]; exact hne), hi]
            exact List.mem_cons_self
        | succ i =>
            have hmem := htail.mpr ⟨i, h, hi, hne, rfl⟩
            split
            · exact hmem
            · exact List.mem_cons_of_mem _ hmem

/-- Any two throws of one period land in different slots. -/
def LandApart (hs : List Int) : Prop :=
  ∀ (i j : Nat) (h k : Int), i < j → hs[i]? = some h → hs[j]? = some k →
    h ≠ 0 → k ≠ 0 →
    Slot.landing hs.length i h ≠ Slot.landing hs.length j k

/-- Slots are all different iff any two throws land in different ones. -/
theorem nodup_landings_iff {period : Int} {beat : Nat} {hs : List Int} :
    (landings period beat hs).Nodup
      ↔ ∀ i j h k, i < j → hs[i]? = some h → hs[j]? = some k →
          h ≠ 0 → k ≠ 0 →
          Slot.landing period (beat + i : Nat) h
            ≠ Slot.landing period (beat + j : Nat) k := by
  induction hs generalizing beat with
  | nil =>
      constructor
      · intro _ i j h k _ hi
        cases hi
      · intro _
        exact List.nodup_nil
  | cons a hs ih =>
      have htail : (landings period (beat + 1) hs).Nodup
          ↔ ∀ i j h k, i < j → hs[i]? = some h → hs[j]? = some k →
              h ≠ 0 → k ≠ 0 →
              Slot.landing period (beat + (i + 1) : Nat) h
                ≠ Slot.landing period (beat + (j + 1) : Nat) k := by
        rw [ih]
        simp only [Nat.add_assoc, Nat.add_comm 1]
      have hhead : Slot.landing period beat a ∈ landings period (beat + 1) hs
          ↔ ∃ j k, hs[j]? = some k ∧ k ≠ 0 ∧ Slot.landing period beat a
              = Slot.landing period (beat + (j + 1) : Nat) k := by
        rw [mem_landings]
        simp only [Nat.add_assoc, Nat.add_comm 1]
      unfold landings
      constructor
      · intro hnd i j h k hij hi hj hh hk
        cases j with
        | zero => omega
        | succ j =>
            cases i with
            | zero =>
                rw [List.getElem?_cons_zero, Option.some.injEq] at hi
                rw [if_neg (by rw [hi]; exact hh), List.nodup_cons] at hnd
                rw [← hi]
                exact fun heq => hnd.1 (hhead.mpr ⟨j, k, hj, hk, heq⟩)
            | succ i =>
                have hrest : (landings period (beat + 1) hs).Nodup := by
                  split at hnd
                  · exact hnd
                  · exact (List.nodup_cons.mp hnd).2
                exact htail.mp hrest i j h k (by omega) hi hj hh hk
      · intro hall
        have hrest : (landings period (beat + 1) hs).Nodup :=
          htail.mpr fun i j h k hij => hall (i + 1) (j + 1) h k (by omega)
        split
        case isTrue => exact hrest
        case isFalse ha =>
          refine List.nodup_cons.mpr ⟨fun hmem => ?_, hrest⟩
          obtain ⟨j, k, hj, hk, heq⟩ := hhead.mp hmem
          exact hall 0 (j + 1) a k (by omega) rfl hj ha hk heq

theorem landApart_iff_nodup (hs : List Int) :
    LandApart hs ↔ (landings hs.length 0 hs).Nodup := by
  rw [nodup_landings_iff]
  simp only [Nat.zero_add]
  rfl

theorem LandApart.ne {hs : List Int} (hl : LandApart hs) {i j : Nat}
    {h k : Int} (hij : i ≠ j) (hi : hs[i]? = some h) (hj : hs[j]? = some k)
    (hh : h ≠ 0) (hk : k ≠ 0) :
    Slot.landing hs.length i h ≠ Slot.landing hs.length j k := by
  rcases Nat.lt_or_gt_of_ne hij with hlt | hgt
  · exact hl i j h k hlt hi hj hh hk
  · exact (hl j i k h hgt hj hi hk hh).symm

-- ============================================================ collisions

/-- One slot more: it is free, and the others are free where it is taken
too. -/
private theorem apart_cons {slot : Slot} {rest : List Slot}
    {free : Slot → Prop} :
    ((slot :: rest).Nodup ∧ ∀ s ∈ slot :: rest, free s)
      ↔ free slot ∧ rest.Nodup ∧ ∀ s ∈ rest, s ≠ slot ∧ free s := by
  rw [List.nodup_cons, List.forall_mem_cons]
  constructor
  · intro hapart
    obtain ⟨⟨hnew, hnd⟩, hslot, hfree⟩ := hapart
    refine ⟨hslot, hnd, fun s hs => ⟨?_, hfree s hs⟩⟩
    intro heq
    rw [heq] at hs
    exact hnew hs
  · intro hapart
    obtain ⟨hslot, hnd, hfree⟩ := hapart
    refine ⟨⟨fun hmem => ?_, hnd⟩, hslot, fun s hs => (hfree s hs).2⟩
    exact (hfree slot hmem).1 rfl

/-- The reporting walk finds nothing iff the slots to come are different
from each other and from those taken. -/
theorem collisionsFrom_eq_nil_iff {period : Int} {beat : Nat}
    {taken : Landings} {hs : List Int} :
    collisionsFrom period beat taken hs = []
      ↔ (landings period beat hs).Nodup
          ∧ ∀ s ∈ landings period beat hs, taken.get? s = none := by
  induction hs generalizing beat taken with
  | nil =>
      unfold collisionsFrom landings
      exact ⟨fun _ => ⟨List.nodup_nil, fun s hs => by cases hs⟩, fun _ => rfl⟩
  | cons h hs ih =>
      unfold collisionsFrom landings
      split
      case isTrue => exact ih
      case isFalse =>
        rw [apart_cons]
        simp only
        split
        case h_1 first height hget =>
          constructor
          · intro hnil
            cases hnil
          · intro hfree
            rw [hget] at hfree
            cases hfree.1
        case h_2 hget =>
          rw [ih]
          simp only [Entries.get?_put_eq_none_iff]
          exact ⟨fun hrest => ⟨hget, hrest⟩, fun hrest => hrest.2⟩

/-- There are no collisions iff any two throws land apart. -/
theorem collisions_eq_nil_iff (hs : List Int) :
    collisions hs = [] ↔ LandApart hs := by
  unfold collisions
  rw [collisionsFrom_eq_nil_iff, landApart_iff_nodup]
  exact ⟨fun h => h.1, fun h => ⟨h, fun _ _ => rfl⟩⟩

/-- The fast walk decides the same. -/
theorem landApart_eq_true_iff {period : Int} {beat : Nat}
    {taken : List Slot} {hs : List Int} :
    landApart period beat taken hs = true
      ↔ (landings period beat hs).Nodup
          ∧ ∀ s ∈ landings period beat hs, s ∉ taken := by
  induction hs generalizing beat taken with
  | nil =>
      unfold landApart landings
      exact ⟨fun _ => ⟨List.nodup_nil, fun s hs => by cases hs⟩, fun _ => rfl⟩
  | cons h hs ih =>
      unfold landApart landings
      split
      case isTrue => exact ih
      case isFalse =>
        rw [apart_cons]
        simp only
        split
        case isTrue htaken =>
          rw [List.contains_iff_mem] at htaken
          constructor
          · intro hfalse
            cases hfalse
          · intro hfree
            exact absurd htaken hfree.1
        case isFalse htaken =>
          rw [List.contains_iff_mem] at htaken
          rw [ih]
          simp only [List.mem_cons, not_or]
          exact ⟨fun hrest => ⟨htaken, hrest⟩, fun hrest => hrest.2⟩

-- ================================================================ state

/-- How many throws from `beat` on are made by hand `hand`. -/
def throwsBy (hand : Int) (beat : Nat) : List Int → Int
  | [] => 0
  | h :: hs =>
    (if h ≠ 0 ∧ (beat : Int) % 2 = hand then 1 else 0)
      + throwsBy hand (beat + 1) hs

/-- How many of them are caught by the other hand. -/
def crossingsBy (hand : Int) (beat : Nat) : List Int → Int
  | [] => 0
  | h :: hs =>
    (if h % 2 = 1 ∧ (beat : Int) % 2 = hand then 1 else 0)
      + crossingsBy hand (beat + 1) hs

/-- Each hand begins with the objects it throws. -/
theorem startFrom_eq (beat : Nat) (hs : List Int) :
    startFrom beat hs = ⟨throwsBy 0 beat hs, throwsBy 1 beat hs⟩ := by
  induction hs generalizing beat with
  | nil => rfl
  | cons h hs ih =>
      unfold startFrom throwsBy
      simp only [ih]
      by_cases hh : h = 0
      · simp [hh]
      · unfold Hands.add
        rw [if_neg hh, Int.fmod_eq_emod_of_nonneg _ (by decide)]
        rcases Int.emod_two_eq beat with hb | hb
        · simp [hh, hb, Int.add_comm]
        · simp [hh, hb, Int.add_comm]

/-- Each hand ends with what it had, less the throws that leave it, and
the throws that come over from the other. -/
theorem endFrom_eq (beat : Nat) (s : Hands) (hs : List Int) :
    endFrom beat s hs
      = ⟨s.even - crossingsBy 0 beat hs + crossingsBy 1 beat hs,
          s.odd + crossingsBy 0 beat hs - crossingsBy 1 beat hs⟩ := by
  induction hs generalizing beat s with
  | nil =>
      unfold endFrom crossingsBy
      rw [Int.sub_zero, Int.add_zero, Int.add_zero, Int.sub_zero]
  | cons h hs ih =>
      unfold endFrom crossingsBy
      by_cases hh : h = 0
      · rw [if_pos hh, ih, hh]
        simp
      · rw [if_neg hh, ih]
        unfold Hands.add
        rw [Int.fmod_eq_emod_of_nonneg _ (by decide),
          Int.fmod_eq_emod_of_nonneg _ (by decide)]
        -- the throw stays in its hand iff its height is even
        rcases Int.emod_two_eq beat with hb | hb <;>
          rcases Int.emod_two_eq h with he | he
        · have hland : ((beat : Int) + h) % 2 = 0 := by omega
          simp [hb, he, hland]
        · have hland : ((beat : Int) + h) % 2 ≠ 0 := by omega
          simp [hb, he, hland]
          omega
        · have hland : ((beat : Int) + h) % 2 ≠ 0 := by omega
          simp [hb, he, hland]
        · have hland : ((beat : Int) + h) % 2 = 0 := by omega
          simp [hb, he, hland]
          omega

/-- The state returns iff the crossings balance, or exchange the
hands. -/
theorem state_eq_nil_iff (hs : List Int) :
    state hs = []
      ↔ crossingsBy 0 0 hs = crossingsBy 1 0 hs
          ∨ crossingsBy 1 0 hs - crossingsBy 0 0 hs
              = throwsBy 1 0 hs - throwsBy 0 0 hs := by
  have hsame : ∀ s t : Hands, sameCounts s t = true
      ↔ (s.even = t.even ∧ s.odd = t.odd)
          ∨ (s.even = t.odd ∧ s.odd = t.even) := by
    intro s t
    unfold sameCounts
    rw [decide_eq_true_iff]
  unfold state
  simp only [startFrom_eq, endFrom_eq]
  split
  case isTrue h =>
    rw [hsame] at h
    simp only at h
    refine ⟨fun _ => ?_, fun _ => rfl⟩
    omega
  case isFalse h =>
    rw [hsame] at h
    simp only at h
    refine ⟨fun h' => (List.cons_ne_nil _ _ h').elim, fun h' => ?_⟩
    exact absurd (by omega) h

/-- Throws of even height stay in their hands. -/
theorem crossingsBy_of_even {hs : List Int} (he : ∀ h ∈ hs, h % 2 = 0)
    (hand : Int) (beat : Nat) : crossingsBy hand beat hs = 0 := by
  induction hs generalizing beat with
  | nil => rfl
  | cons h hs ih =>
      have hh : ¬ h % 2 = 1 := by
        rw [he h List.mem_cons_self]
        decide
      unfold crossingsBy
      rw [if_neg fun hc => hh hc.1,
        ih fun k hk => he k (List.mem_cons_of_mem h hk)]
      rfl

/-- Throws of odd height all change hands. -/
theorem crossingsBy_of_odd {hs : List Int} (ho : ∀ h ∈ hs, h % 2 = 1)
    (hand : Int) (beat : Nat) :
    crossingsBy hand beat hs = throwsBy hand beat hs := by
  induction hs generalizing beat with
  | nil => rfl
  | cons h hs ih =>
      have hh := ho h List.mem_cons_self
      have hne : h ≠ 0 := by
        intro h0
        rw [h0] at hh
        cases hh
      unfold crossingsBy throwsBy
      rw [ih fun k hk => ho k (List.mem_cons_of_mem h hk)]
      simp only [hh, hne, ne_eq, not_false_eq_true, true_and]

/-- The state returns where all throws stay in their hands or all change
them. -/
theorem state_eq_nil_of_parity {hs : List Int}
    (hp : (∀ h ∈ hs, h % 2 = 0) ∨ ∀ h ∈ hs, h % 2 = 1) : state hs = [] := by
  rw [state_eq_nil_iff]
  rcases hp with he | ho
  · left
    rw [crossingsBy_of_even he, crossingsBy_of_even he]
  · right
    rw [crossingsBy_of_odd ho, crossingsBy_of_odd ho]

-- ======================================================= all the checks

/-- The fast pass decides average and collisions of what has beats. -/
theorem passesQuickly_iff (hs : List Int) :
    passesQuickly hs = true
      ↔ hs ≠ [] ∧ average hs = [] ∧ collisions hs = [] := by
  unfold passesQuickly
  rw [average_eq_nil_iff, collisions_eq_nil_iff, landApart_iff_nodup,
    Int.dvd_iff_emod_eq_zero,
    Int.fmod_eq_emod_of_nonneg _ (Int.natCast_nonneg _)]
  split
  case isTrue hnil => simp [hnil]
  case isFalse hne =>
    split
    case isTrue havg => simp [havg]
    case isFalse havg =>
      rw [landApart_eq_true_iff]
      rw [not_not] at havg
      constructor
      · intro hwalk
        obtain ⟨hnd, -⟩ := hwalk
        exact ⟨hne, havg, hnd⟩
      · intro hchecks
        obtain ⟨-, -, hnd⟩ := hchecks
        exact ⟨hnd, fun s _ hs => by cases hs⟩

theorem all_eq_nil_iff (hs : List Int) :
    all hs = [] ↔ average hs = [] ∧ collisions hs = [] ∧ state hs = [] := by
  unfold all
  rw [List.append_eq_nil_iff, List.append_eq_nil_iff, and_assoc]

end Checks

namespace Verdict

theorem findings_eq_nil_iff {s : Sequence} :
    findings s = [] ↔ s.heights ≠ [] ∧ Checks.all s.heights = [] := by
  unfold findings
  split
  case isTrue hnil => simp [hnil]
  case isFalse hne => simp [hne]

/-- A sequence is valid iff it has throws and passes all checks. -/
theorem isValid_iff (d : Dialect) (s : Sequence) :
    (ofSequence d s).isValid = true
      ↔ s.heights ≠ [] ∧ Checks.all s.heights = [] := by
  rw [← findings_eq_nil_iff]
  unfold isValid ofSequence
  by_cases h : findings s = []
  · simp [h]
  · simp [h]

/-- The fast pass leaves only the state to be checked. -/
theorem isValid_iff_passesQuickly (d : Dialect) (s : Sequence) :
    (ofSequence d s).isValid = true
      ↔ Checks.passesQuickly s.heights = true ∧ Checks.state s.heights = [] := by
  rw [isValid_iff, Checks.all_eq_nil_iff, Checks.passesQuickly_iff, and_assoc,
    and_assoc]

/-- The fast pass accepts heights of any kind iff there are some and the
checks of average and collisions, which report, have nothing to report; and
a sequence is valid iff the fast pass accepts it and its state returns. -/
theorem passesQuickly_agrees (d : Dialect) :
    (∀ hs : List Int, Checks.passesQuickly hs = true
      ↔ hs ≠ [] ∧ Checks.average? hs = .ok [] ∧ Checks.collisions hs = [])
    ∧ ∀ s : Sequence, (ofSequence d s).isValid = true
      ↔ Checks.passesQuickly s.heights = true ∧ Checks.state s.heights = [] := by
  refine ⟨fun hs => ?_, isValid_iff_passesQuickly d⟩
  rw [Checks.passesQuickly_iff]
  refine and_congr_right fun hne => and_congr_left fun _ => ?_
  exact (Checks.average?_eq_ok_nil_iff hne).symm

/-- An average of the heights is the number of objects. -/
theorem objects_of_average {s : Sequence} {average : Int}
    (hne : s.heights ≠ []) (h : s.heights.sum = average * s.heights.length) :
    (figures s).objects = average := by
  have hpos : 0 < s.heights.length := List.length_pos_iff.mpr hne
  show s.total.fdiv s.period = average
  unfold Sequence.total Sequence.period
  rw [total_eq_sum, h, Int.fdiv_eq_ediv_of_nonneg _ (by omega)]
  exact Int.mul_ediv_cancel _ (by omega)

/-- The number of objects is the average of the heights. -/
theorem sum_of_findings {s : Sequence} (h : findings s = []) :
    s.heights.sum = (figures s).objects * (figures s).period := by
  obtain ⟨hne, hall⟩ := findings_eq_nil_iff.mp h
  rw [Checks.all_eq_nil_iff, Checks.average_eq_nil_iff, total_eq_sum] at hall
  obtain ⟨average, haverage⟩ := hall.1
  rw [Int.mul_comm] at haverage
  rw [objects_of_average hne haverage, haverage]
  rfl

end Verdict

end Siteswap
