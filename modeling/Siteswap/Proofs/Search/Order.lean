/-
What an attempt in ascending order finds.

In ascending order an attempt comes to the completions of the empty prefix
one after another in lexicographic order, the order in which they are
listed. Unless it is cut, it therefore ends as a search through that list
would (`walk_inOrder`): with what the first completion that is accepted is
accepted as, or exhausted if there is none. Nothing of this depends on how
many steps it has; what is found stays found with more of them.

So a search without a source of order and an enumeration agree on the
first pattern (`ordered_finds_first`), wherever all tuples are listed and
the first attempt is not cut.
-/
import Siteswap.Proofs.Search.Soundness
import Siteswap.Proofs.Search.Stack

namespace Siteswap.Search

variable {σ : Type} {t : Task} {n : Nat} {before : List Int} {total : Int} {r : Reserve σ}

-- ================================================================= walks

/-- How an attempt ends that comes to `first` or to nothing. -/
def Outcome.ofFirst : (first : Option Sequence) → Outcome
  | some s => .found s
  | none => .exhausted

theorem found_eq_ofFirst {first : Option Sequence} {s : Sequence} :
    Outcome.found s = .ofFirst first ↔ first = some s := by
  cases first with
  | none => exact iff_of_false nofun nofun
  | some s' =>
      unfold Outcome.ofFirst
      rw [Outcome.found.injEq, Option.some.injEq]
      exact eq_comm

theorem exhausted_eq_ofFirst {first : Option Sequence} :
    Outcome.exhausted = .ofFirst first ↔ first = none := by
  cases first with
  | none => exact iff_of_true rfl rfl
  | some s => exact iff_of_false nofun nofun

/-- Trying heights in turn finds what is found below the first height with
something below it. -/
theorem tryEach_first {descend : Int → Reserve σ → Outcome × Reserve σ}
    {first : Int → Option Sequence} {hs : List Int}
    (hd : ∀ k r, (descend k r).1 ≠ .cut → (descend k r).1 = .ofFirst (first k))
    (h : (tryEach descend hs r).1 ≠ .cut) :
    (tryEach descend hs r).1 = .ofFirst (hs.findSome? first) := by
  induction hs generalizing r with
  | nil => rfl
  | cons k hs ih =>
      have hk := hd k r
      rw [tryEach_cons] at h ⊢
      rw [List.findSome?_cons]
      cases hbelow : descend k r with
      | mk o r₁ =>
          rw [hbelow] at hk h
          cases o with
          | found s => rw [found_eq_ofFirst.mp (hk nofun)]; rfl
          | exhausted => rw [exhausted_eq_ofFirst.mp (hk nofun)]; exact ih h
          | cut => exact absurd rfl h

theorem findSome?_flatMap {α β γ : Type} (f : α → List β) (p : β → Option γ) (l : List α) :
    (l.flatMap f).findSome? p = l.findSome? fun a => (f a).findSome? p := by
  induction l with
  | nil => rfl
  | cons a l ih =>
      rw [List.flatMap_cons, List.findSome?_append, List.findSome?_cons, ih]
      cases (f a).findSome? p with
      | none => rfl
      | some b => rfl

/-- A walk in ascending order that is not cut finds what the first
completion that is accepted is accepted as. -/
theorem walk_inOrder (h : (walk .inOrder t n before total r).1 ≠ .cut) :
    (walk .inOrder t n before total r).1
      = .ofFirst ((completions t n total).findSome? fun hs => accepted? (before.reverse ++ hs)) := by
  induction n generalizing before total r with
  | zero =>
      rw [walk_zero]
      unfold completions
      by_cases htotal : total = t.target
      · rw [if_pos htotal, if_pos htotal, List.findSome?_singleton, List.append_nil]
        cases accepted? before.reverse with
        | none => rfl
        | some s => rfl
      · rw [if_neg htotal, if_neg htotal]
        rfl
  | succ n ih =>
      obtain ⟨m, source⟩ := r
      cases m with
      | zero =>
          rw [walk_succ_of_none] at h
          exact absurd rfl h
      | succ m =>
          rw [walk_succ] at h ⊢
          unfold completions
          simp only [findSome?_flatMap, List.findSome?_map, Function.comp_def]
          refine tryEach_first (fun k r hbelow => ?_) h
          have hrest := ih hbelow
          rw [List.reverse_cons] at hrest
          simp only [List.append_assoc, List.singleton_append] at hrest
          exact hrest

/-- An attempt in ascending order that is not cut finds what the first
completion that is accepted is accepted as. -/
theorem attempt_inOrder {m : Nat} {source : σ}
    (h : (attempt .inOrder t n m source).1 ≠ .cut) :
    (attempt .inOrder t n m source).1 = .ofFirst ((completions t n 0).findSome? accepted?) :=
  walk_inOrder h

-- ======================================================== the first tuple

/-- The lexicographically least tuple that is accepted, and what it is
accepted as. -/
structure IsFirst (t : Task) (n : Nat) (hs : List Int) (s : Sequence) : Prop where
  mem : hs ∈ t.tuples n
  accepted : accept hs = .ok (some s)
  least : ∀ ks ∈ t.tuples n, ∀ s', accept ks = .ok (some s') → ks = hs ∨ hs < ks

theorem isFirst_of_findSome? {s : Sequence}
    (h : (completions t n 0).findSome? accepted? = some s) : ∃ hs, IsFirst t n hs s := by
  obtain ⟨earlier, hs, later, hsplit, hacc, hnone⟩ := List.findSome?_eq_some_iff.mp h
  have hmem : ∀ ks, ks ∈ t.tuples n ↔ ks ∈ earlier ++ hs :: later := by
    intro ks
    rw [mem_tuples_iff, ← mem_completions, hsplit]
  have hascending : (earlier ++ hs :: later).Pairwise (· < ·) := by
    rw [← hsplit]
    exact pairwise_completions
  obtain ⟨-, hlater, -⟩ := List.pairwise_append.mp hascending
  refine ⟨hs, (hmem hs).mpr (List.mem_append_right _ List.mem_cons_self),
    accepted?_eq_some_iff.mp hacc, ?_⟩
  intro ks hks s' hacc'
  rcases List.mem_append.mp ((hmem ks).mp hks) with hearlier | hrest
  · have hsome := accepted?_eq_some_iff.mpr hacc'
    rw [hnone ks hearlier] at hsome
    cases hsome
  · rcases List.mem_cons.mp hrest with rfl | hks
    · exact .inl rfl
    · exact .inr (List.rel_of_pairwise_cons hlater hks)

/-- The first pattern that is discovered is that of the first tuple that is
accepted. -/
theorem head?_discovered (hfew : (t.tuples n).ncard ≤ maxCombinations) :
    (discovered t n).head? = (completions t n 0).findSome? accepted? := by
  unfold discovered
  rw [head?_eraseDups, List.head?_filterMap, combinations_eq_completions hfew]

/-- What the first attempt comes to, unless it is cut, is what the search
comes to. -/
theorem generate_of_ordered {objects length maxSteps : Int} {c : Option Constraints}
    (sh : Shuffler σ) {source : σ} (ho : 0 ≤ objects) (hl : 1 ≤ length)
    {first : Option Sequence}
    (h : (attempt .inOrder (.ofConstraints objects length (c.getD (.usual objects)))
      length.toNat maxSteps.toNat source).1 = .ofFirst first) :
    ∃ source', generate sh ⟨maxSteps, true⟩ objects length c source = .ok (first, source') := by
  obtain ⟨source', hgen⟩ := generate_eq sh ⟨maxSteps, true⟩ c source ho hl
  refine ⟨source', ?_⟩
  obtain ⟨n, hn⟩ : ∃ n, (c.getD (.usual objects)).maxAttempts.toNat = n + 1 := by
    have hone := (c.getD (.usual objects)).one_le_attempts
    exact ⟨(c.getD (.usual objects)).maxAttempts.toNat - 1, by omega⟩
  rw [hgen]
  unfold Mode.outcomes Mode.shufflers
  rw [hn]
  dsimp only
  rw [if_pos rfl, outcomes, h]
  cases first with
  | none => rfl
  | some s => rfl

-- ============================================================ the search

/-- What an attempt in ascending order finds is what the least tuple that is
accepted is accepted as, whatever the number of steps, and stays found with
more of them. And where patterns can be enumerated, all tuples have room and
the first attempt is not cut, a search without a source of order gives the
first pattern of an enumeration, however many are wanted, or none exactly if
there is none to enumerate. -/
theorem ordered_finds_first (σ : Type) (objects length : Int) (c : Option Constraints)
    (ho : 0 ≤ objects) (hl : 1 ≤ length) :
    let t := Task.ofConstraints objects length (c.getD (.usual objects))
    (∀ (m : Nat) (source : σ) (s : Sequence),
      (attemptOnStack .inOrder t length.toNat m source).1 = .found s →
      (∃ hs, IsFirst t length.toNat hs s)
        ∧ ∀ m', m ≤ m' → (attemptOnStack .inOrder t length.toNat m' source).1 = .found s)
    ∧ (length ≤ maxEnumerated → (t.tuples length.toNat).ncard ≤ maxCombinations →
        ∀ (sh : Shuffler σ) (maxSteps : Int) (source : σ),
          (attemptOnStack .inOrder t length.toNat maxSteps.toNat source).1 ≠ .cut →
          ∀ maxResults, ∃ found source',
            enumerate objects length c maxResults = .ok found
            ∧ generate sh ⟨maxSteps, true⟩ objects length c source
                = .ok (found.head?, source')) := by
  intro t
  simp only [attemptOnStack_eq]
  constructor
  · intro m source s hfound
    have hcut : (attempt .inOrder t length.toNat m source).1 ≠ .cut := by
      rw [hfound]
      nofun
    refine ⟨?_, fun m' hle => ?_⟩
    · have hfirst := attempt_inOrder hcut
      rw [hfound] at hfirst
      exact isFirst_of_findSome? (found_eq_ofFirst.mp hfirst)
    · rw [attempt_of_le hle hcut]
      exact hfound
  · intro hshort hfew sh maxSteps source hcut maxResults
    have hfirst := attempt_inOrder hcut
    obtain ⟨source', hgen⟩ := generate_of_ordered sh ho hl hfirst
    refine ⟨_, source', enumerate_eq c maxResults ho hl hshort, ?_⟩
    rw [List.head?_take, if_neg (by omega), head?_discovered hfew]
    exact hgen

/-- Two fours and a one. -/
def fourFourOne : Sequence := ⟨[4, 4, 1], by decide⟩

/-- Three objects in three beats: two tuples are refused, `144` is accepted
as `441`, with five steps or more. -/
theorem fourFourOne_first :
    let t := Task.ofConstraints 3 3 (.usual 3)
    ((0 : Int) ≤ 3 ∧ (1 : Int) ≤ 3 ∧ (3 : Int) ≤ maxEnumerated
      ∧ (t.tuples 3).ncard ≤ maxCombinations)
    ∧ (attemptOnStack .inOrder t 3 5 ()).1 = .found fourFourOne
    ∧ (∃ hs, IsFirst t 3 hs fourFourOne)
    ∧ (attemptOnStack .inOrder t 3 20 ()).1 = .found fourFourOne
    ∧ ∃ found, enumerate 3 3 none 20 = .ok found ∧ found.length = 5
        ∧ generate .inOrder ⟨20, true⟩ 3 3 none () = .ok (found.head?, ())
        ∧ found.head? = some fourFourOne := by
  intro t
  obtain ⟨hfinds, hagrees⟩ := ordered_finds_first Unit 3 3 none (by decide) (by decide)
  have hfound : (attemptOnStack .inOrder t 3 5 ()).1 = .found fourFourOne := by
    rw [attemptOnStack_eq]
    decide +kernel
  obtain ⟨hfirst, hstays⟩ := hfinds 5 () fourFourOne hfound
  have hfew : (t.tuples 3).ncard ≤ maxCombinations := ncard_tuples_le (by decide +kernel)
  have hagain : (attemptOnStack .inOrder t 3 20 ()).1 = .found fourFourOne :=
    hstays 20 (by decide)
  have hcut : (attemptOnStack .inOrder t 3 20 ()).1 ≠ .cut := by
    rw [hagain]
    nofun
  obtain ⟨found, source', hfound', hgen⟩ := hagrees (by decide) hfew .inOrder 20 () hcut 20
  obtain ⟨found', hsame, hlen, hhead⟩ : ∃ found, enumerate 3 3 none 20 = .ok found
      ∧ found.length = 5 ∧ found.head? = some fourFourOne :=
    ⟨_, rfl, by decide +kernel, by decide +kernel⟩
  rw [hfound'] at hsame
  cases hsame
  exact ⟨⟨by decide, by decide, by decide, hfew⟩, hfound, hfirst, hagain,
    found, hfound', hlen, hgen, hhead⟩

end Siteswap.Search
