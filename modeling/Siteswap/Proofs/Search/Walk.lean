/-
What one attempt finds, whatever the order in which it tries.

An attempt walks a tree: below a prefix stand the heights that bounds
allow next, and its leaves are the completions of the empty prefix. The
order of the heights is up to the shuffler, and of it nothing is used but
that all of them are there.

# How an attempt ends

- `walk_found`: with a pattern, which some completion is accepted as.
- `walk_exhausted`: exhausted, and then no completion is accepted. The
  walk has been at all of them.
- Cut, and then for want of steps alone. `places` counts the places above
  the leaves; as many steps are always enough (`walk_cost`), and steps to
  spare change nothing (`walk_steady`). So each shuffler and each source
  need some number of steps, and an attempt is cut iff it has fewer
  (`attempt_cut_iff`).

Each of these is proved for `tryEach` from what is known of the descents,
then for `walk` by induction on the throws that are missing.
-/
import Mathlib.Data.Nat.Find
import Siteswap.Proofs.Search.Bounds
import Siteswap.Search.Walk

namespace Siteswap.Search

variable {σ : Type} {t : Task} {n : Nat} {before : List Int} {total : Int}
  {r r' : Reserve σ} {s : Sequence}

-- ======================================================== one after another

section TryEach

variable {descend : Int → Reserve σ → Outcome × Reserve σ} {hs : List Int}

/-- What is found is found below one of the heights. -/
theorem tryEach_found (h : tryEach descend hs r = (.found s, r')) :
    ∃ k ∈ hs, ∃ r₁, descend k r₁ = (.found s, r') := by
  induction hs generalizing r with
  | nil => cases h
  | cons k hs ih =>
      unfold tryEach at h
      split at h
      case h_1 r₁ hd =>
          obtain ⟨l, hl, hfound⟩ := ih h
          exact ⟨l, List.mem_cons_of_mem k hl, hfound⟩
      case h_2 => exact ⟨k, List.mem_cons_self, r, h⟩

/-- Only when there was nothing below any height is there nothing. -/
theorem tryEach_exhausted (h : tryEach descend hs r = (.exhausted, r')) :
    ∀ k ∈ hs, ∃ r₁ r₂, descend k r₁ = (.exhausted, r₂) := by
  induction hs generalizing r with
  | nil =>
      intro k hk
      cases hk
  | cons k hs ih =>
      unfold tryEach at h
      split at h
      case h_1 r₁ hd =>
          intro l hl
          rcases List.mem_cons.mp hl with rfl | hl
          · exact ⟨r, r₁, hd⟩
          · exact ih h l hl
      case h_2 hne => exact absurd h (hne r')

/-- Trying costs no more than all descents together, and is cut only if
there are fewer steps than that. -/
theorem tryEach_cost {cost : Int → Nat}
    (hd : ∀ k r, r.steps ≤ (descend k r).2.steps + cost k
      ∧ ((descend k r).1 = .cut → r.steps < cost k))
    (hs : List Int) (r : Reserve σ) :
    r.steps ≤ (tryEach descend hs r).2.steps + (hs.map cost).sum
      ∧ ((tryEach descend hs r).1 = .cut → r.steps < (hs.map cost).sum) := by
  induction hs generalizing r with
  | nil =>
      refine ⟨Nat.le_refl _, fun h => ?_⟩
      cases h
  | cons k hs ih =>
      obtain ⟨hused, hcut⟩ := hd k r
      rw [List.map_cons, List.sum_cons]
      unfold tryEach
      split
      case h_1 r₁ heq =>
          obtain ⟨hrest, hrestcut⟩ := ih r₁
          rw [heq] at hused
          refine ⟨?_, fun h => ?_⟩
          · show r.steps ≤ _
            simp only at hused
            omega
          · have := hrestcut h
            simp only at hused
            omega
      case h_2 =>
          refine ⟨by omega, fun h => ?_⟩
          have := hcut h
          omega

end TryEach

/-- Steps to spare change nothing: they are left over. -/
def Steady (f : Reserve σ → Outcome × Reserve σ) : Prop :=
  ∀ (m k : Nat) (source : σ) (o : Outcome) (r' : Reserve σ),
    f { steps := m, source := source } = (o, r') → o ≠ .cut →
    f { steps := m + k, source := source }
      = (o, { steps := r'.steps + k, source := r'.source })

theorem tryEach_steady {descend : Int → Reserve σ → Outcome × Reserve σ}
    (hd : ∀ k, Steady (descend k)) (hs : List Int) :
    Steady (tryEach descend hs) := by
  induction hs with
  | nil =>
      intro m k source o r' h hne
      unfold tryEach at h ⊢
      cases h
      rfl
  | cons l hs ih =>
      intro m k source o r' h hne
      unfold tryEach at h
      unfold tryEach
      cases hl : descend l { steps := m, source := source } with
      | mk o₁ r₁ =>
          rw [hl] at h
          cases o₁ with
          | found s =>
              rw [hd l m k source _ _ hl (by intro hc; cases hc)]
              cases h
              rfl
          | exhausted =>
              rw [hd l m k source _ _ hl (by intro hc; cases hc)]
              exact ih r₁.steps k r₁.source o r' h hne
          | cut =>
              cases h
              exact absurd rfl hne

-- ================================================================= walks

theorem walk_zero (sh : Shuffler σ) :
    walk sh t 0 before total r
      = (match (if total = t.target then accepted? before.reverse else none) with
          | some s => .found s
          | none => .exhausted, r) := by
  unfold walk
  by_cases htotal : total = t.target
  · rw [if_pos htotal, if_pos htotal]
    cases accepted? before.reverse with
    | none => rfl
    | some s => rfl
  · rw [if_neg htotal, if_neg htotal]

theorem walk_succ (sh : Shuffler σ) {m : Nat} {source : σ} :
    walk sh t (n + 1) before total { steps := m + 1, source := source }
      = tryEach (fun h => walk sh t n (h :: before) (total + h))
          (sh.shuffle source (t.heights total (n + 1))).1
          { steps := m
            source := (sh.shuffle source (t.heights total (n + 1))).2 } := by
  rfl

theorem walk_succ_of_none (sh : Shuffler σ) {source : σ} :
    walk sh t (n + 1) before total { steps := 0, source := source }
      = (.cut, { steps := 0, source := source }) := by
  rfl

/-- What is found is what some completion is accepted as. -/
theorem walk_found (sh : Shuffler σ)
    (h : walk sh t n before total r = (.found s, r')) :
    ∃ hs, Completes t n total hs
      ∧ accepted? (before.reverse ++ hs) = some s := by
  induction n generalizing before total r with
  | zero =>
      rw [walk_zero] at h
      by_cases htotal : total = t.target
      · rw [if_pos htotal] at h
        refine ⟨[], completes_zero.mpr ⟨rfl, htotal⟩, ?_⟩
        rw [List.append_nil]
        cases ha : accepted? before.reverse with
        | none =>
            rw [ha] at h
            cases h
        | some s' =>
            rw [ha] at h
            cases h
            rfl
      · rw [if_neg htotal] at h
        cases h
  | succ n ih =>
      obtain ⟨m, source⟩ := r
      cases m with
      | zero =>
          rw [walk_succ_of_none] at h
          cases h
      | succ m =>
          rw [walk_succ] at h
          obtain ⟨k, hk, r₁, hfound⟩ := tryEach_found h
          obtain ⟨hs, hc, haccept⟩ := ih hfound
          rw [(sh.perm _ _).mem_iff] at hk
          refine ⟨k :: hs, completes_cons.mpr ⟨hk, hc⟩, ?_⟩
          rw [List.reverse_cons, List.append_assoc] at haccept
          exact haccept

/-- A tree that is exhausted holds nothing that is accepted. -/
theorem walk_exhausted (sh : Shuffler σ)
    (h : walk sh t n before total r = (.exhausted, r')) {hs : List Int}
    (hc : Completes t n total hs) :
    accepted? (before.reverse ++ hs) = none := by
  induction n generalizing before total r r' hs with
  | zero =>
      obtain ⟨rfl, htotal⟩ := completes_zero.mp hc
      rw [walk_zero, if_pos htotal] at h
      rw [List.append_nil]
      cases ha : accepted? before.reverse with
      | none => rfl
      | some s =>
          rw [ha] at h
          cases h
  | succ n ih =>
      obtain ⟨m, source⟩ := r
      cases m with
      | zero =>
          rw [walk_succ_of_none] at h
          cases h
      | succ m =>
          rw [walk_succ] at h
          obtain ⟨k, ks, rfl⟩ :=
            List.exists_cons_of_length_pos (by rw [hc.length]; omega)
          obtain ⟨hk, hrest⟩ := completes_cons.mp hc
          rw [← (sh.perm source _).mem_iff] at hk
          obtain ⟨r₁, r₂, hbelow⟩ := tryEach_exhausted h k hk
          have hnone := ih hbelow hrest
          rw [List.reverse_cons, List.append_assoc] at hnone
          exact hnone

-- ================================================================= steps

/-- The places above the leaves. -/
def places (t : Task) : (remaining : Nat) → (total : Int) → Nat
  | 0, _ => 0
  | n + 1, total =>
    1 + ((t.heights total (n + 1)).map fun h => places t n (total + h)).sum

/-- A walk costs no more than there are places, and is cut only if it has
fewer steps. -/
theorem walk_cost (sh : Shuffler σ) :
    r.steps ≤ (walk sh t n before total r).2.steps + places t n total
      ∧ ((walk sh t n before total r).1 = .cut →
          r.steps < places t n total) := by
  induction n generalizing before total r with
  | zero =>
      rw [walk_zero]
      refine ⟨Nat.le_refl _, fun h => ?_⟩
      simp only at h
      split at h
      · cases h
      · cases h
  | succ n ih =>
      obtain ⟨m, source⟩ := r
      unfold places
      cases m with
      | zero =>
          rw [walk_succ_of_none]
          refine ⟨Nat.zero_le _, fun _ => ?_⟩
          show 0 < _
          omega
      | succ m =>
          rw [walk_succ]
          have hperm := sh.perm source (t.heights total (n + 1))
          have hbelow : ∀ (k : Int) (r : Reserve σ),
              r.steps ≤ (walk sh t n (k :: before) (total + k) r).2.steps
                  + places t n (total + k)
                ∧ ((walk sh t n (k :: before) (total + k) r).1 = .cut →
                    r.steps < places t n (total + k)) :=
            fun k r => ih
          obtain ⟨hused, hcut⟩ := tryEach_cost hbelow
            (sh.shuffle source (t.heights total (n + 1))).1
            { steps := m
              source := (sh.shuffle source (t.heights total (n + 1))).2 }
          rw [(hperm.map _).sum_eq] at hused hcut
          refine ⟨?_, fun h => ?_⟩
          · show m + 1 ≤ _
            simp only at hused
            omega
          · have hlt := hcut h
            show m + 1 < _
            simp only at hlt
            omega

theorem walk_steady (sh : Shuffler σ) :
    Steady (walk sh t n before total) := by
  induction n generalizing before total with
  | zero =>
      intro m k source o r' h hne
      rw [walk_zero] at h
      rw [walk_zero]
      cases h
      rfl
  | succ n ih =>
      intro m k source o r' h hne
      cases m with
      | zero =>
          rw [walk_succ_of_none] at h
          cases h
          exact absurd rfl hne
      | succ m =>
          rw [walk_succ] at h
          rw [Nat.add_right_comm, walk_succ]
          exact tryEach_steady (fun l => ih) _ m k _ o r' h hne

-- ============================================================== attempts

variable {length m : Nat} {source : σ}

/-- What an attempt finds is what some candidate is accepted as. -/
theorem attempt_found {sh : Shuffler σ}
    (h : (attempt sh t length m source).1 = .found s) :
    ∃ hs, Completes t length 0 hs ∧ accepted? hs = some s := by
  have hwalk : walk sh t length [] 0 { steps := m, source := source }
      = (.found s, _) := Prod.ext h rfl
  exact walk_found sh hwalk

/-- An exhausted attempt leaves no candidate that is accepted. -/
theorem attempt_exhausted {sh : Shuffler σ}
    (h : (attempt sh t length m source).1 = .exhausted) {hs : List Int}
    (hc : Completes t length 0 hs) : accepted? hs = none := by
  have hwalk : walk sh t length [] 0 { steps := m, source := source }
      = (.exhausted, _) := Prod.ext h rfl
  exact walk_exhausted sh hwalk hc

/-- An attempt that is not cut ends the same with more steps. -/
theorem attempt_of_le {sh : Shuffler σ} {m' : Nat} (hle : m ≤ m')
    (h : (attempt sh t length m source).1 ≠ .cut) :
    attempt sh t length m' source = attempt sh t length m source := by
  obtain ⟨k, rfl⟩ := Nat.exists_eq_add_of_le hle
  unfold attempt at h ⊢
  cases hw : walk sh t length [] 0 { steps := m, source := source } with
  | mk o r' =>
      rw [hw] at h
      rw [walk_steady sh m k source o r' hw h]

/-- An attempt is cut iff it has fewer steps than its order needs. -/
theorem attempt_cut_iff (sh : Shuffler σ) (t : Task) (length : Nat)
    (source : σ) :
    ∃ needed, ∀ m, (attempt sh t length m source).1 = .cut ↔ m < needed := by
  have henough : (attempt sh t length (places t length 0) source).1 ≠ .cut := by
    intro hcut
    exact Nat.lt_irrefl _ ((walk_cost sh).2 hcut)
  have hex : ∃ m, (attempt sh t length m source).1 ≠ .cut := ⟨_, henough⟩
  refine ⟨Nat.find hex, fun m => ?_⟩
  constructor
  · intro hcut
    by_contra hge
    have hsame := attempt_of_le (Nat.not_lt.mp hge) (Nat.find_spec hex)
    exact Nat.find_spec hex (hsame ▸ hcut)
  · intro hlt
    exact not_not.mp (Nat.find_min hex hlt)

-- ============================================================ the search

/-- What comes of attempts with these shufflers, one after the other: each
goes on with the source that the one before it leaves. -/
def outcomes (t : Task) (length m : Nat) :
    List (Shuffler σ) → σ → List Outcome
  | [], _ => []
  | sh :: shs, source =>
    (attempt sh t length m source).1
      :: outcomes t length m shs (attempt sh t length m source).2

/-- What outcomes say together: the first that is no cut decides. -/
def answer : List Outcome → Option Sequence
  | [] => none
  | .found s :: _ => some s
  | .exhausted :: _ => none
  | .cut :: os => answer os

/-- The shufflers of a search that makes `n` attempts. -/
def Mode.shufflers (mode : Mode) (sh : Shuffler σ) : Nat → List (Shuffler σ)
  | 0 => []
  | n + 1 =>
    (if mode.orderedFirst then .inOrder else sh) :: List.replicate n sh

theorem length_outcomes (shs : List (Shuffler σ)) (source : σ) :
    (outcomes t length m shs source).length = shs.length := by
  induction shs generalizing source with
  | nil => rfl
  | cons sh shs ih =>
      unfold outcomes
      rw [List.length_cons, List.length_cons, ih]

theorem Mode.length_shufflers (mode : Mode) (sh : Shuffler σ) (n : Nat) :
    (mode.shufflers sh n).length = n := by
  cases n with
  | zero => rfl
  | succ n =>
      unfold Mode.shufflers
      rw [List.length_cons, List.length_replicate]

theorem attempt_of_mem_outcomes {shs : List (Shuffler σ)} {o : Outcome}
    (h : o ∈ outcomes t length m shs source) :
    ∃ (sh : Shuffler σ) (source' : σ),
      (attempt sh t length m source').1 = o := by
  induction shs generalizing source with
  | nil => cases h
  | cons sh shs ih =>
      unfold outcomes at h
      rcases List.mem_cons.mp h with rfl | h
      · exact ⟨sh, source, rfl⟩
      · exact ih h

theorem mem_of_answer {os : List Outcome} (h : answer os = some s) :
    .found s ∈ os := by
  induction os with
  | nil => cases h
  | cons o os ih =>
      cases o with
      | found s' =>
          cases h
          exact List.mem_cons_self
      | exhausted => cases h
      | cut => exact List.mem_cons_of_mem _ (ih h)

/-- Where no attempt is exhausted, there is no answer iff all are cut. -/
theorem answer_eq_none_iff {os : List Outcome} (h : .exhausted ∉ os) :
    answer os = none ↔ ∀ o ∈ os, o = .cut := by
  induction os with
  | nil =>
      refine ⟨fun _ o ho => ?_, fun _ => rfl⟩
      cases ho
  | cons o os ih =>
      rw [List.mem_cons, not_or] at h
      rw [List.forall_mem_cons]
      cases o with
      | found s =>
          constructor
          · intro hn
            cases hn
          · intro hall
            obtain ⟨hc, -⟩ := hall
            cases hc
      | exhausted => exact absurd rfl h.1
      | cut =>
          unfold answer
          rw [ih h.2]
          exact ⟨fun hall => ⟨rfl, hall⟩, fun hall => hall.2⟩

theorem attempts_answer (sh : Shuffler σ) (n : Nat) (source : σ) :
    (attempts sh t length m n source).1
      = answer (outcomes t length m (List.replicate n sh) source) := by
  induction n generalizing source with
  | zero => rfl
  | succ n ih =>
      rw [List.replicate_succ]
      unfold attempts outcomes
      cases attempt sh t length m source with
      | mk o source' =>
          cases o with
          | found s => rfl
          | exhausted => rfl
          | cut => exact ih source'

theorem run_answer (sh : Shuffler σ) (mode : Mode) (n : Nat) (source : σ) :
    ((if mode.orderedFirst then attemptsInOrder sh t else attempts sh t)
        length m n source).1
      = answer (outcomes t length m (mode.shufflers sh n) source) := by
  cases n with
  | zero =>
      cases mode.orderedFirst with
      | false => rfl
      | true => rfl
  | succ n =>
      rw [Mode.shufflers]
      cases mode.orderedFirst with
      | false => exact attempts_answer sh (n + 1) source
      | true =>
          rw [if_pos rfl, if_pos rfl, attemptsInOrder]
          unfold outcomes
          cases attempt .inOrder t length m source with
          | mk o source' =>
              cases o with
              | found s => rfl
              | exhausted => rfl
              | cut => exact attempts_answer sh n source'

/-- The outcomes of a search whose attempts are all made. -/
def Mode.outcomes (mode : Mode) (sh : Shuffler σ) (objects length : Int)
    (c : Constraints) (source : σ) : List Outcome :=
  Search.outcomes (Task.ofConstraints objects length c) length.toNat
    mode.maxSteps.toNat (mode.shufflers sh c.maxAttempts.toNat) source

theorem Mode.length_outcomes (mode : Mode) (sh : Shuffler σ)
    (objects length : Int) (c : Constraints) (source : σ) :
    (mode.outcomes sh objects length c source).length = c.maxAttempts := by
  have hone := c.one_le_attempts
  unfold Mode.outcomes
  rw [Search.length_outcomes, Mode.length_shufflers]
  exact Int.toNat_of_nonneg (by omega)

theorem generate_eq (sh : Shuffler σ) (mode : Mode) {objects length : Int}
    (c : Option Constraints) (source : σ) (ho : 0 ≤ objects)
    (hl : 1 ≤ length) :
    ∃ source', generate sh mode objects length c source
      = .ok (answer (mode.outcomes sh objects length
          (c.getD (.usual objects)) source), source') := by
  unfold generate Mode.outcomes
  rw [checkArguments_eq_ok ho hl, ← run_answer]
  exact ⟨_, rfl⟩

/-- Only arguments that make sense are searched for. -/
theorem arguments_of_generate {sh : Shuffler σ} {mode : Mode}
    {objects length : Int} {c : Option Constraints}
    {result : Option Sequence × σ}
    (h : generate sh mode objects length c source = .ok result) :
    0 ≤ objects ∧ 1 ≤ length := by
  unfold generate checkArguments at h
  split at h
  case isTrue => cases h
  split at h
  case isTrue => cases h
  case isFalse ho hl => omega

end Siteswap.Search
