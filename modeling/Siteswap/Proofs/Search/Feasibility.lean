/-
When searching can fail.

The heights of a candidate average to the number of objects, so a number
of objects that is not itself an allowed height has no candidates at all,
and the search says so. For a number that is an allowed height there is
always the candidate that throws it at every beat, and it is accepted
(`accept_replicate`). Bounds do not prune it and no order of trying passes
it by, hence no attempt can end exhausted: it finds something, or it is
cut (`generate_fails_iff`).

So an attempt that ends exhausted is a proof that there is nothing, and
no pattern is lost when the search stops there.
-/
import Siteswap.Proofs.Search.Soundness

namespace Siteswap.Search

variable {objects length : Int} {c : Constraints}

-- ============================================================ candidates

/-- Where there is a candidate, the number of objects is a height that is
allowed. -/
theorem objects_of_completes {hs : List Int} (hl : 1 ≤ length)
    (hc : Completes (.ofConstraints objects length c) length.toNat 0 hs) :
    c.lowest ≤ objects ∧ objects ≤ c.maxHeight := by
  obtain ⟨hlo, hhi⟩ := hc.sum_within
  rw [Int.toNat_of_nonneg (by omega), Int.sub_zero] at hlo hhi
  have hlo' : c.lowest * length ≤ objects * length := by
    rw [Int.mul_comm c.lowest]
    exact hlo
  have hhi' : objects * length ≤ c.maxHeight * length := by
    rw [Int.mul_comm c.maxHeight]
    exact hhi
  exact ⟨Int.le_of_mul_le_mul_right hlo' (by omega),
    Int.le_of_mul_le_mul_right hhi' (by omega)⟩

/-- A number of objects that is an allowed height is a candidate, thrown at
every beat. -/
theorem completes_replicate (hl : 1 ≤ length)
    (hf : c.lowest ≤ objects ∧ objects ≤ c.maxHeight) :
    Completes (.ofConstraints objects length c) length.toNat 0
      (List.replicate length.toNat objects) := by
  refine ⟨List.length_replicate, ?_, ?_⟩
  · intro h hh
    rw [List.eq_of_mem_replicate hh]
    exact hf
  · rw [List.sum_replicate_int, Int.toNat_of_nonneg (by omega), Int.zero_add]
    exact Int.mul_comm length objects

theorem accepted?_replicate (hl : 1 ≤ length)
    (hf : c.lowest ≤ objects ∧ objects ≤ c.maxHeight) :
    ∃ s, accepted? (List.replicate length.toNat objects) = some s := by
  obtain ⟨n, hn⟩ : ∃ n, length.toNat = n + 1 :=
    ⟨length.toNat - 1, by omega⟩
  have hlow := c.lowest_nonneg
  have hmax := c.max_le
  obtain ⟨s, -, hs⟩ := accept_replicate n (a := objects) ⟨by omega, by omega⟩
  rw [hn]
  exact ⟨s, accepted?_eq_some_iff.mpr hs⟩

-- ============================================================== attempts

variable {σ : Type} {m : Nat} {source : σ}

/-- Nothing is found for a number of objects that is no allowed height. -/
theorem attempt_ne_found (sh : Shuffler σ) (hl : 1 ≤ length)
    (hf : ¬ (c.lowest ≤ objects ∧ objects ≤ c.maxHeight)) (s : Sequence) :
    (attempt sh (.ofConstraints objects length c) length.toNat m source).1
      ≠ .found s := by
  intro hfound
  obtain ⟨hs, hc, -⟩ := attempt_found hfound
  exact hf (objects_of_completes hl hc)

/-- No attempt is exhausted for a number of objects that is an allowed
height. -/
theorem attempt_ne_exhausted (sh : Shuffler σ) (hl : 1 ≤ length)
    (hf : c.lowest ≤ objects ∧ objects ≤ c.maxHeight) :
    (attempt sh (.ofConstraints objects length c) length.toNat m source).1
      ≠ .exhausted := by
  intro hex
  obtain ⟨s, hs⟩ := accepted?_replicate hl hf
  rw [attempt_exhausted hex (completes_replicate hl hf)] at hs
  cases hs

/-- Each order of trying needs some number of steps, with which it finds a
pattern and without which it is cut. -/
theorem attempt_found_or_cut (sh : Shuffler σ) (source : σ) (hl : 1 ≤ length)
    (hf : c.lowest ≤ objects ∧ objects ≤ c.maxHeight) :
    ∃ needed, ∀ m,
      (needed ≤ m ∧ ∃ s, (attempt sh (.ofConstraints objects length c)
        length.toNat m source).1 = .found s)
      ∨ (m < needed ∧ (attempt sh (.ofConstraints objects length c)
        length.toNat m source).1 = .cut) := by
  obtain ⟨needed, hcut⟩ :=
    attempt_cut_iff sh (.ofConstraints objects length c) length.toNat source
  refine ⟨needed, fun m => ?_⟩
  cases ho : (attempt sh (.ofConstraints objects length c) length.toNat m
      source).1 with
  | found s =>
      left
      refine ⟨?_, s, rfl⟩
      by_contra hlt
      rw [(hcut m).mpr (by omega)] at ho
      cases ho
  | exhausted => exact absurd ho (attempt_ne_exhausted sh hl hf)
  | cut => exact .inr ⟨(hcut m).mp ho, rfl⟩

/-- An exhausted attempt leaves no tuple of heights that would be
accepted. -/
theorem accept_of_exhausted {sh : Shuffler σ} (hl : 1 ≤ length)
    (h : (attempt sh (.ofConstraints objects length c) length.toNat m
      source).1 = .exhausted) {hs : List Int} (hlen : hs.length = length)
    (hb : ∀ h ∈ hs, c.lowest ≤ h ∧ h ≤ c.maxHeight)
    (hsum : hs.sum = objects * length) : accept hs = .ok none := by
  have hc : Completes (.ofConstraints objects length c) length.toNat 0 hs := by
    refine ⟨by omega, hb, ?_⟩
    rw [hsum, Int.zero_add]
    rfl
  have hr : ∀ h ∈ hs, 0 ≤ h ∧ h ≤ Alphabet.maxHeight := by
    intro h hh
    have hlow := c.lowest_nonneg
    have hmax := c.max_le
    have hin := hb h hh
    omega
  rw [accept_of_inRange hr, attempt_exhausted h hc]

-- ============================================================ the search

theorem generate_of_infeasible (sh : Shuffler σ) (mode : Mode)
    (c : Option Constraints) (source : σ) (ho : 0 ≤ objects) (hl : 1 ≤ length)
    (hf : ¬ ((c.getD (.usual objects)).lowest ≤ objects
      ∧ objects ≤ (c.getD (.usual objects)).maxHeight)) :
    ∃ source', generate sh mode objects length c source
      = .ok (none, source') := by
  obtain ⟨source', hgen⟩ := generate_eq sh mode c source ho hl
  refine ⟨source', ?_⟩
  rw [hgen]
  cases hans : answer (mode.outcomes sh objects length
      (c.getD (.usual objects)) source) with
  | none => rfl
  | some s =>
      obtain ⟨sh', source₁, hfound⟩ :=
        attempt_of_mem_outcomes (mem_of_answer hans)
      exact absurd hfound (attempt_ne_found sh' hl hf s)

/-- No outcome of a search for a number of objects that is an allowed
height is exhausted. -/
theorem exhausted_not_mem_outcomes (sh : Shuffler σ) (mode : Mode)
    (hl : 1 ≤ length) (hf : c.lowest ≤ objects ∧ objects ≤ c.maxHeight) :
    .exhausted ∉ mode.outcomes sh objects length c source := by
  intro hex
  obtain ⟨sh', source', hattempt⟩ := attempt_of_mem_outcomes hex
  exact attempt_ne_exhausted sh' hl hf hattempt

/-- For every order of trying, number of steps and constraints: a number
of objects that is no allowed height has no pattern found; for one that is,
each attempt finds a pattern or has too few steps, and the search fails iff
all its attempts are cut. An exhausted attempt means that no candidate is
accepted. -/
theorem generate_fails_iff (sh : Shuffler σ) (mode : Mode)
    (objects length : Int) (c : Option Constraints) (source : σ)
    (ho : 0 ≤ objects) (hl : 1 ≤ length) :
    let k := c.getD (.usual objects)
    let t := Task.ofConstraints objects length k
    let outcomes := mode.outcomes sh objects length k source
    (objects < k.lowest ∨ k.maxHeight < objects →
      ∃ source', generate sh mode objects length c source
        = .ok (none, source'))
    ∧ (k.lowest ≤ objects → objects ≤ k.maxHeight →
        (∀ (sh' : Shuffler σ) (source' : σ), ∃ needed, ∀ m,
          (needed ≤ m
            ∧ ∃ s, (attempt sh' t length.toNat m source').1 = .found s)
          ∨ (m < needed
            ∧ (attempt sh' t length.toNat m source').1 = .cut))
        ∧ outcomes.length = k.maxAttempts
        ∧ ∃ found source', generate sh mode objects length c source
            = .ok (found, source')
          ∧ (found = none ↔ ∀ o ∈ outcomes, o = .cut))
    ∧ ∀ (sh' : Shuffler σ) (m : Nat) (source' : σ),
        (attempt sh' t length.toNat m source').1 = .exhausted →
        ∀ hs : List Int, hs.length = length →
          (∀ h ∈ hs, k.lowest ≤ h ∧ h ≤ k.maxHeight) →
          hs.sum = objects * length → accept hs = .ok none := by
  intro k t outcomes
  refine ⟨fun hf => ?_, fun hlow hhigh => ⟨?_, ?_, ?_⟩, ?_⟩
  · have hout : ¬ (k.lowest ≤ objects ∧ objects ≤ k.maxHeight) := by
      omega
    exact generate_of_infeasible sh mode c source ho hl hout
  · intro sh' source'
    exact attempt_found_or_cut sh' source' hl ⟨hlow, hhigh⟩
  · exact mode.length_outcomes sh objects length k source
  · obtain ⟨source₁, hgen⟩ := generate_eq sh mode c source ho hl
    exact ⟨_, source₁, hgen,
      answer_eq_none_iff (exhausted_not_mem_outcomes sh mode hl ⟨hlow, hhigh⟩)⟩
  · intro sh' m source' hex hs hlen hb hsum
    exact accept_of_exhausted hl hex hlen hb hsum

/-- Three objects in three beats, from above: two steps are too few, in a
thousand attempts. Forty objects: no letter is as high. -/
theorem threeObjects_cut :
    (generate descending ⟨2, false⟩ 3 3 none 0 = .ok (none, 2000)
      ∧ ∀ o ∈ Mode.outcomes ⟨2, false⟩ descending 3 3 (.usual 3) 0, o = .cut)
    ∧ ∃ n, generate descending ⟨2, false⟩ 40 3 none 0 = .ok (none, n) := by
  constructor
  · have hnone : generate descending ⟨2, false⟩ 3 3 none 0
        = .ok (none, 2000) := by decide +kernel
    obtain ⟨-, -, found, n, hgen, hiff⟩ :=
      (generate_fails_iff descending ⟨2, false⟩ 3 3 none 0
        (by decide) (by decide)).2.1 (by decide) (by decide)
    rw [hnone] at hgen
    cases hgen
    exact ⟨hnone, hiff.mp rfl⟩
  · exact (generate_fails_iff descending ⟨2, false⟩ 40 3 none 0
      (by decide) (by decide)).1 (by decide)

end Siteswap.Search
