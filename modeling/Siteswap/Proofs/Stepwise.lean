/-
No step of an entry point slips.

The entry points are made of steps that have no result for some arguments.
For every text the steps are taken on arguments where they do have one, and
what comes out is what the definitions without slips say (`read_eq`,
`verdict_eq`, `appraisal_eq`, `analysis_eq`, `listing_eq`,
`canonicalForm_eq`).

# What keeps the steps safe

- Characters. Brackets that match close every group, and the readers of the
  dialects let nothing but throws through, which have heights in range.
- Heights. All heights that are ever respelled are heights of the sequence,
  and those have letters. Floats hold them and their averages.
- Beats. Only a sequence with a beat comes to a remainder, to the greatest
  height, or to a slot, and a slot that is taken was taken at a beat.
-/
import Mathlib.Algebra.Order.Ring.Rat
import Mathlib.Tactic.NormNum
import Mathlib.Tactic.Positivity
import Mathlib.Tactic.Ring
import Siteswap.Proofs.Alphabet
import Siteswap.Proofs.Canonical.Acceptance
import Siteswap.Proofs.Pattern.Reading
import Siteswap.Proofs.Results
import Siteswap.Stepwise

namespace Siteswap

open Alphabet (maxHeight)

-- =============================================================== numbers

namespace Number

theorem halfEven_le (num den : Nat) : halfEven num den ≤ num / den + 1 := by
  unfold halfEven
  simp only
  split
  · omega
  · split
    · omega
    · omega

theorem leadingBit_le (num den : Nat) : leadingBit num den ≤ num.log2 - den.log2 := by
  unfold leadingBit
  simp only
  split
  · omega
  · omega

/-- What is at most 35 times the divisor is rounded to at most 36. -/
theorem nearestMagnitude_le {num den : Nat} (h : num ≤ 35 * den) :
    nearestMagnitude num den ≤ 36 := by
  unfold nearestMagnitude
  by_cases hnum : num = 0
  · rw [if_pos hnum]
    norm_num
  · rw [if_neg hnum]
    have hlog : num.log2 < den.log2 + 7 := by
      rw [Nat.log2_lt hnum]
      have hden : den < 2 ^ (den.log2 + 1) := Nat.lt_log2_self
      have hpow : 2 ^ (den.log2 + 7) = 64 * 2 ^ (den.log2 + 1) := by ring
      omega
    have hbit := leadingBit_le num den
    obtain ⟨k, hk⟩ : ∃ k : Nat, max (leadingBit num den - 52) (-1074) = -(k : Int) :=
      ⟨(-max (leadingBit num den - 52) (-1074)).toNat, by omega⟩
    simp only [hk, neg_neg, Int.toNat_natCast]
    have hzero : (-(k : Int)).toNat = 0 := by omega
    rw [hzero, Nat.shiftLeft_zero, Nat.shiftLeft_eq]
    have hquotient : num * 2 ^ k / den ≤ 35 * 2 ^ k := by
      refine Nat.div_le_of_le_mul ?_
      calc num * 2 ^ k ≤ 35 * den * 2 ^ k := Nat.mul_le_mul_right _ h
        _ = den * (35 * 2 ^ k) := by ring
    have hrounded : halfEven (num * 2 ^ k) den ≤ 36 * 2 ^ k := by
      have hle := halfEven_le (num * 2 ^ k) den
      have hone : 1 ≤ 2 ^ k := Nat.one_le_two_pow
      omega
    unfold scaled
    have hpow : (0 : Rat) < 2 ^ k := by positivity
    rw [zpow_neg, zpow_natCast, ← div_eq_mul_inv, div_le_iff₀ hpow]
    exact_mod_cast hrounded

theorem overflows_eq_false {num : Int} {den : Nat} (hlow : 0 ≤ num) (hhigh : num ≤ 35 * den) :
    overflows num den = false := by
  unfold overflows
  have hle : nearestMagnitude num.natAbs den ≤ 36 := nearestMagnitude_le (by omega)
  rw [decide_eq_false_iff_not, not_le]
  refine lt_of_le_of_lt hle ?_
  unfold overflow
  calc (36 : Rat) < 2 ^ (6 : Int) := by norm_num
    _ ≤ 2 ^ (1024 : Int) := zpow_le_zpow_right₀ (by norm_num) (by norm_num)

end Number

-- ============================================================== heights

section Heights

variable {hs : List Int}

/-- The total of heights in range is at most 35 for each. -/
theorem total_bounds (h : ∀ x ∈ hs, 0 ≤ x ∧ x ≤ maxHeight) :
    0 ≤ total hs ∧ total hs ≤ 35 * hs.length := by
  induction hs with
  | nil => exact ⟨Int.le_refl 0, Int.le_refl 0⟩
  | cons x hs ih =>
      obtain ⟨hx, hx'⟩ := h x List.mem_cons_self
      obtain ⟨hlow, hhigh⟩ := ih fun y hy => h y (List.mem_cons_of_mem x hy)
      unfold maxHeight at hx'
      rw [total, List.length_cons]
      omega

theorem isFinite_ofInt {x : Int} (h : 0 ≤ x ∧ x ≤ maxHeight) : (Float.ofInt x).isFinite = true := by
  have hall : ∀ n ∈ List.range 36, (Float.ofInt n).isFinite = true := by decide +kernel
  unfold maxHeight at h
  have hx := hall x.toNat (List.mem_range.mpr (by omega))
  rwa [Int.toNat_of_nonneg h.1] at hx

theorem floats?_of_inRange (h : ∀ x ∈ hs, 0 ≤ x ∧ x ≤ maxHeight) :
    Spread.floats? hs = .ok (Spread.floats hs) := by
  unfold Spread.floats?
  rw [if_pos]
  rw [Spread.floats, List.all_map, List.all_eq_true]
  exact fun x hx => isFinite_ofInt (h x hx)

theorem average?_of_inRange (hne : hs ≠ []) (h : ∀ x ∈ hs, 0 ≤ x ∧ x ≤ maxHeight) :
    Checks.average? hs = .ok (Checks.average hs) := by
  obtain ⟨hlow, hhigh⟩ := total_bounds h
  unfold Checks.average?
  rw [if_neg hne, Number.overflows_eq_false hlow hhigh]
  simp

/-- The number of objects is a height itself. -/
theorem objects_inRange {s : Sequence} (hne : s.heights ≠ []) :
    0 ≤ s.total.fdiv s.period ∧ s.total.fdiv s.period ≤ maxHeight := by
  obtain ⟨hlow, hhigh⟩ := total_bounds s.inRange
  have hpos : 0 < s.heights.length := List.length_pos_iff.mpr hne
  unfold Sequence.total Sequence.period maxHeight
  rw [Int.fdiv_eq_ediv_of_nonneg _ (by omega)]
  constructor
  · exact Int.ediv_nonneg hlow (by omega)
  · exact Int.ediv_le_of_le_mul (by omega) hhigh

end Heights

namespace Stepwise

-- =============================================================== reading

/-- Where brackets match, no group lacks its closing bracket. -/
theorem letters_eq {s : List Char} (h : Pattern.matchBrackets 0 none s = .ok ()) :
    letters s = .ok (Pattern.letters (Pattern.classify s) s) := by
  unfold letters
  split
  case h_1 b hopen =>
    have hnormal : Pattern.ofNormal s = .error (.unclosed b) := by
      unfold Pattern.ofNormal
      rw [h, hopen]
      rfl
    have hmatch := (Pattern.error_of_ofNormal hnormal).2 b rfl
    rw [h] at hmatch
    cases hmatch
  case h_2 => rfl

theorem throwsOf_eq {ls : List Char} (h : ∀ c ∈ ls, IsThrow c) :
    throwsOf ls = .ok (.ofLetters ls) := by
  have hencode : Alphabet.standard.encode ls = .ok (Sequence.ofLetters ls).heights := by
    rw [Alphabet.heights_throws h]
    exact Alphabet.encodeFrom_throws h 0
  unfold throwsOf sequence
  rw [hencode]
  show (Sequence.ofHeights (Sequence.ofLetters ls).heights).mapError Slip.sequence = _
  rw [Sequence.ofHeights_of_inRange (Sequence.ofLetters ls).inRange]
  rfl

theorem ofNormal_eq {s : List Char} (hne : s ≠ []) :
    ofNormal s = .ok (Pattern.ofNormal s) := by
  unfold ofNormal Pattern.ofNormal
  cases hmatch : Pattern.matchBrackets 0 none s with
  | error e => rfl
  | ok _ =>
      simp only [letters_eq hmatch]
      cases hletters : Pattern.letters (Pattern.classify s) s with
      | error e => rfl
      | ok ls =>
          have hthrows := throwsOf_eq (Pattern.writes_of_letters hne hletters).throws
          simp only [bind, Except.bind, hthrows]
          rfl

/-- Reading never slips. -/
theorem read_eq (typed : Typed) : read typed = .ok (Pattern.read typed) := by
  unfold read Pattern.read
  split
  case isTrue => rfl
  case isFalse =>
    simp only
    split
    case isTrue => rfl
    case isFalse hne => exact ofNormal_eq hne

-- ============================================================== verdicts

/-- A slot that is taken was taken at a beat, which has the height that was
thrown there. -/
theorem collisionsFrom_eq {whole before rest : List Int} {taken : Checks.Landings}
    (hwhole : whole = before ++ rest) (htaken : ∀ e ∈ taken, whole[e.2.1]? = some e.2.2) :
    collisionsFrom whole before.length (taken.map fun e => (e.1, e.2.1)) rest
      = .ok (Checks.collisionsFrom whole.length before.length taken rest) := by
  induction rest generalizing before taken with
  | nil => rfl
  | cons h rest ih =>
      have hnext : whole = (before ++ [h]) ++ rest := by simp [hwhole]
      have hlength : (before ++ [h]).length = before.length + 1 := by simp
      have hlater : ∀ {taken : Checks.Landings}, (∀ e ∈ taken, whole[e.2.1]? = some e.2.2) →
          collisionsFrom whole (before.length + 1) (taken.map fun e => (e.1, e.2.1)) rest
            = .ok (Checks.collisionsFrom whole.length (before.length + 1) taken rest) := by
        intro taken htaken
        rw [← hlength]
        exact ih hnext htaken
      unfold collisionsFrom Checks.collisionsFrom
      by_cases hzero : h = 0
      · rw [if_pos hzero, if_pos hzero]
        exact hlater htaken
      · have hperiod : (whole.length : Int) ≠ 0 := by
          rw [hwhole, List.length_append, List.length_cons]
          omega
        rw [if_neg hzero, if_neg hzero, Slot.landing?, if_neg hperiod]
        have hlook : Entries.get? (Slot.landing whole.length before.length h)
              (taken.map fun e => (e.1, e.2.1))
            = (taken.get? (Slot.landing whole.length before.length h)).map Prod.fst :=
          Entries.get?_map (g := id) (fun _ _ => rfl) Prod.fst _ taken
        simp only [Except.mapError, bind, Except.bind, hlook]
        cases hget : taken.get? (Slot.landing whole.length before.length h) with
        | none =>
            have hthrown : whole[before.length]? = some h := by
              rw [hwhole, List.getElem?_append_right (Nat.le_refl _), Nat.sub_self]
              rfl
            have hput : (taken.put (Slot.landing whole.length before.length h)
                  (before.length, h)).map (fun e => (e.1, e.2.1))
                = Entries.put (Slot.landing whole.length before.length h) before.length
                  (taken.map fun e => (e.1, e.2.1)) :=
              Entries.map_put (g := id) (fun _ _ => rfl) Prod.fst _ _ taken
            simp only [Option.map_none, ← hput]
            refine hlater fun e he => ?_
            rcases Entries.mem_or_eq_of_mem_put he with he | he
            · exact htaken e he
            · rw [he]
              exact hthrown
        | some noted =>
            obtain ⟨e, he, hnoted⟩ := Entries.exists_mem_of_get? hget
            have hheight := htaken e he
            rw [hnoted] at hheight
            simp only [Option.map_some, hheight, hlater htaken]
            rfl

theorem collisions_eq (hs : List Int) :
    collisionsFrom hs 0 [] hs = .ok (Checks.collisions hs) := by
  have hnothing : ∀ e ∈ ([] : Checks.Landings), hs[e.2.1]? = some e.2.2 := by simp
  exact collisionsFrom_eq (List.nil_append hs).symm hnothing

theorem figures_eq {s : Sequence} (hne : s.heights ≠ []) :
    figures s = .ok (Verdict.figures s) := by
  have hperiod : s.period ≠ 0 := fun h => hne (List.length_eq_zero_iff.mp h)
  have hobjects : Spread.floats? [s.total.fdiv s.period]
      = .ok (Spread.floats [s.total.fdiv s.period]) := by
    refine floats?_of_inRange fun x hx => ?_
    rw [List.mem_singleton.mp hx]
    exact objects_inRange hne
  unfold figures Spread.variance?
  rw [if_neg hperiod]
  simp only [hobjects, floats?_of_inRange s.inRange]
  rfl

/-- Validating never slips. -/
theorem verdictOf_eq (p : Pattern) : verdictOf p = .ok (Verdict.ofPattern p) := by
  unfold verdictOf Verdict.ofPattern Verdict.ofSequence Verdict.findings
  by_cases hne : p.throws.heights = []
  · simp only [if_pos hne]
    rfl
  · simp only [if_neg hne, average?_of_inRange hne p.throws.inRange, collisions_eq,
      figures_eq hne]
    by_cases hall : Checks.all p.throws.heights = []
    · rw [if_pos hall]
      unfold Checks.all at hall
      simp only [Except.mapError, bind, Except.bind, hall]
      rfl
    · rw [if_neg hall]
      unfold Checks.all at hall
      simp only [Except.mapError, bind, Except.bind, if_pos hall]
      rfl

theorem verdict_eq (typed : Typed) : verdict typed = .ok (Verdict.ofTyped typed) := by
  unfold verdict Verdict.ofTyped
  rw [read_eq]
  cases Pattern.read typed with
  | error e => rfl
  | ok p => exact verdictOf_eq p

-- ======================================================= canonical forms

theorem spell_eq {hs : List Int} (h : ∀ x ∈ hs, 0 ≤ x ∧ x ≤ maxHeight) :
    spell hs = .ok (Sequence.spell hs) := by
  unfold spell sequence
  rw [Sequence.ofHeights_of_inRange h]
  simp only [Except.mapError, bind, Except.bind, Alphabet.decode_of_inRange h]
  rfl

theorem length_of_mem_rotations {hs w : List Int} (h : w ∈ Rotation.rotations hs) :
    w.length = hs.length := by
  obtain ⟨i, -, rfl⟩ := List.mem_map.mp h
  simp only [List.length_append, List.length_drop, List.length_take]
  omega

/-- The greatest rotation begins with the greatest height. -/
theorem head?_leading {hs : List Int} {peak : Int} (h : hs.max? = some peak) :
    (Rotation.leading hs).head? = some peak := by
  obtain ⟨hpeak, hmax⟩ := List.max?_eq_some_iff.mp h
  have hne : hs ≠ [] := List.ne_nil_of_mem hpeak
  obtain ⟨hrot, hgreatest⟩ := Rotation.leading_spec hne
  obtain ⟨before, rest, hsplit⟩ := List.append_of_mem hpeak
  have hbegins : hs ~r (peak :: rest) ++ before := by
    rw [hsplit]
    exact List.isRotated_append
  cases hleading : Rotation.leading hs with
  | nil =>
      rw [hleading] at hrot
      exact absurd (List.isRotated_nil_iff.mp hrot) hne
  | cons x w =>
      have hx : x ≤ peak := by
        refine hmax x (hrot.mem_iff.mpr ?_)
        rw [hleading]
        exact List.mem_cons_self
      have hpeak' : ¬ x < peak := by
        intro hlt
        refine hgreatest _ hbegins ?_
        rw [hleading]
        exact List.Lex.rel hlt
      rw [List.head?_cons, le_antisymm hx (not_lt.mp hpeak')]

/-- Among the rotations that begin with the greatest height is the greatest
of all. -/
theorem leading_eq (hs : List Int) : leading hs = .ok (Rotation.leading hs) := by
  unfold leading
  by_cases hne : hs = []
  · rw [hne]
    rfl
  · have hself : hs ∈ Rotation.rotations hs := (Rotation.mem_rotations hne).mpr (.refl hs)
    have hwords : Rotation.rotations hs ≠ [] := List.ne_nil_of_mem hself
    have hfull : [] ∉ Rotation.rotations hs := by
      intro hnil
      exact hne (List.length_eq_zero_iff.mp (length_of_mem_rotations hnil).symm)
    obtain ⟨peak, hpeak⟩ : ∃ peak, hs.max? = some peak :=
      Option.ne_none_iff_exists'.mp (mt List.max?_eq_none_iff.mp hne)
    obtain ⟨hrot, hgreatest⟩ := Rotation.leading_spec hne
    have hmem : Rotation.leading hs
        ∈ (Rotation.rotations hs).filter fun w => w.head? = some peak := by
      rw [List.mem_filter, decide_eq_true_iff]
      exact ⟨(Rotation.mem_rotations hne).mpr hrot, head?_leading hpeak⟩
    simp only [if_neg hwords, hpeak, if_neg hfull]
    split
    case h_1 hnone =>
      rw [hnone] at hmem
      cases hmem
    case h_2 =>
      obtain ⟨hin, hmax⟩ := Rotation.greatest_spec (List.ne_nil_of_mem hmem)
      have hword := (List.mem_filter.mp hin).1
      refine congrArg Except.ok (Rotation.eq_of_not_lt (hmax _ hmem) ?_)
      exact hgreatest _ ((Rotation.mem_rotations hne).mp hword)

theorem mem_of_mem_rotations {hs w : List Int} {x : Int} (h : w ∈ Rotation.rotations hs)
    (hx : x ∈ w) : x ∈ hs := by
  obtain ⟨i, -, rfl⟩ := List.mem_map.mp h
  rcases List.mem_append.mp hx with hx | hx
  · exact List.mem_of_mem_drop hx
  · exact List.mem_of_mem_take hx

theorem leading_singleton (x : Int) : Rotation.leading [x] = [x] := by
  have hrot := (Rotation.leading_spec (List.cons_ne_nil x [])).1
  exact (List.isRotated_singleton_iff'.mp hrot).symm

theorem spellings_singleton (x : Int) :
    Canonical.spellings [x] = [Sequence.spell [x]] := by
  unfold Canonical.spellings
  rw [show Rotation.rotations [x] = [[x]] from rfl, List.map_singleton, List.mergeSort_singleton]

/-- Respelling never slips. -/
theorem canonicalOf_eq (p : Pattern) : canonicalOf p = .ok (Canonical.ofPattern p) := by
  unfold canonicalOf Canonical.ofPattern
  by_cases hother : p.dialect ≠ .async ∨ p.text.length = 1
  · rw [if_pos hother, if_pos hother]
  · rw [if_neg hother, if_neg hother]
    have hroot : ∀ x ∈ Rotation.root p.throws.heights, 0 ≤ x ∧ x ≤ maxHeight :=
      fun x hx => p.throws.inRange x (Rotation.mem_of_mem_root hx)
    have hform : p.throws.canonical.text
        = Sequence.spell (Rotation.leading (Rotation.root p.throws.heights)) := rfl
    simp only [hform]
    by_cases hone : (Rotation.root p.throws.heights).length = 1
    · obtain ⟨x, hx⟩ := List.length_eq_one_iff.mp hone
      rw [if_pos hone, if_pos hone]
      rw [hx] at hroot ⊢
      have hspell : spell ([x].take 1) = .ok (Sequence.spell [x]) := spell_eq hroot
      rw [hspell, leading_singleton, spellings_singleton]
      rfl
    · rw [if_neg hone, if_neg hone]
      have hleading : spell (Rotation.leading (Rotation.root p.throws.heights))
          = .ok (Sequence.spell (Rotation.leading (Rotation.root p.throws.heights))) :=
        spell_eq fun x hx => hroot x (Rotation.mem_of_mem_leading hx)
      have hforms : (Rotation.rotations (Rotation.root p.throws.heights)).mapM spell
          = .ok ((Rotation.rotations (Rotation.root p.throws.heights)).map Sequence.spell) :=
        mapM_eq_ok fun w hw => spell_eq fun x hx => hroot x (mem_of_mem_rotations hw hx)
      simp only [leading_eq, bind, Except.bind, hleading, hforms]
      rfl

theorem canonicalAgain_eq {typed : Typed} {p : Pattern} (h : Pattern.read typed = .ok p) :
    canonicalAgain typed = .ok (Canonical.ofPattern p) := by
  unfold canonicalAgain
  rw [read_eq, h]
  exact canonicalOf_eq p

-- ========================================================== entry points

theorem grade_eq (p : Pattern) : grade p = .ok (Difficulty.grade p.dialect p.throws.heights) := by
  unfold grade Difficulty.score?
  rw [floats?_of_inRange p.throws.inRange]
  rfl

/-- The whole appraisal never slips. -/
theorem appraisal_eq (typed : Typed) : appraisal typed = .ok (Appraisal.ofTyped typed) := by
  unfold appraisal Appraisal.ofTyped
  rw [read_eq]
  cases hread : Pattern.read typed with
  | error e => rfl
  | ok p =>
      unfold Appraisal.ofPattern
      simp only [bind, Except.bind, verdictOf_eq]
      cases hout : (Verdict.ofPattern p).outcome with
      | error findings => rfl
      | ok f =>
          simp only [canonicalAgain_eq hread, grade_eq]
          rfl

theorem extreme_eq {h? : Option Int} (h : h? ≠ none) : extreme h? = .ok (h?.getD 0) := by
  obtain ⟨x, rfl⟩ := Option.ne_none_iff_exists'.mp h
  rfl

/-- A valid pattern has a greatest and a least height. -/
theorem analysis_eq (typed : Typed) : analysis typed = .ok (Analysis.ofTyped? typed) := by
  unfold analysis Analysis.ofTyped?
  rw [read_eq]
  cases hread : Pattern.read typed with
  | error e => rfl
  | ok p =>
      unfold Analysis.ofPattern?
      simp only [bind, Except.bind, verdictOf_eq]
      cases hout : (Verdict.ofPattern p).outcome with
      | error findings => rfl
      | ok f =>
          have hvalid : (Verdict.ofPattern p).isValid = true := by
            unfold Verdict.isValid
            rw [hout]
          have hne := ((Verdict.isValid_iff p.dialect p.throws).mp hvalid).1
          have hmax := extreme_eq (mt List.max?_eq_none_iff.mp hne)
          have hmin := extreme_eq (mt List.min?_eq_none_iff.mp hne)
          simp only [grade_eq, hmax, hmin]
          rfl

theorem solo_eq (n : Int) : solo n = .ok (Label.solo? n) := by
  unfold solo Label.solo?
  by_cases h : 0 ≤ n ∧ n ≤ maxHeight
  · have hdecode : Alphabet.standard.decode [n] = .ok ([n].map Sequence.letter) :=
      Alphabet.decode_of_inRange fun x hx => by rwa [List.mem_singleton.mp hx]
    rw [if_pos h, if_pos h, hdecode]
    rfl
  · rw [if_neg h, if_neg h]

theorem listing_eq (typed : Typed) : listing typed = .ok (Catalog.Listing.ofTyped? typed) := by
  unfold listing
  rw [analysis_eq]
  cases typed with
  | none => rfl
  | some shown =>
      show _ = Except.ok ((Analysis.ofTyped? (some shown)).map _)
      cases hanalysis : Analysis.ofTyped? (some shown) with
      | none => rfl
      | some a =>
          simp only [bind, Except.bind, solo_eq]
          rfl

theorem canonicalForm_eq (typed : Typed) :
    canonicalForm typed = .ok (Practice.canonicalForm typed) := by
  unfold canonicalForm Practice.canonicalForm
  rw [verdict_eq]
  unfold Verdict.ofTyped
  cases hread : Pattern.read typed with
  | error e => rfl
  | ok p =>
      simp only [bind, Except.bind]
      cases hout : (Verdict.ofPattern p).outcome with
      | error findings => rfl
      | ok f =>
          simp only [canonicalAgain_eq hread]
          rfl

end Stepwise

end Siteswap
