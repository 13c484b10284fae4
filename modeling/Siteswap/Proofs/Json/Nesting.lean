/-
Nesting: how many arrays and objects of a text are open at once.

That number can be told before anything is read (`nesting`), and it decides at
which limits a document can be read: at its own and above it is read as the
same value, and below it is too deep (`read_of_read`).

# The stack

The reader's stack and its note of what comes next tell how many arrays and
objects are open (`depth`). What a step does with that number, and what it does
about the limit, is said once (`Moves`): it is refused, goes no deeper, or goes
one deeper where the limit allows it (`moves_step`). All else follows from these
three: the stack keeps pace with the brackets (`depth_of_step`), stays within
the limit (`depth_le_of_step`), and is too deep at no other place than the limit
(`limit_lt_of_step`).

# The limit

It shows in nothing but what it refuses: a result that is not for lack of levels
(`Firm`) is the same with more of them (`step_mono`, `run_mono`).
-/
import Siteswap.Json.Reader

namespace Siteswap.Json

open Number (DigitLimit)

-- ================================================================ nesting

/-- How many arrays and objects are open behind a lexeme, of `n` before
it. -/
def Lexeme.shift (n : Nat) : Lexeme → Nat
  | .openArray | .openObject => n + 1
  | .closeArray | .closeObject => n - 1
  | _ => n

/-- The most arrays and objects that are open at once, of `n` at the
beginning. -/
def nestingFrom (n : Nat) : List Lexeme → Nat
  | [] => n
  | x :: xs => max n (nestingFrom (x.shift n) xs)

/-- The most arrays and objects that are open at once in a text. -/
def nesting (s : String) (digits : DigitLimit := .usual) : Nat :=
  nestingFrom 0 (lexemes digits s.toList)

theorem le_nestingFrom (n : Nat) (xs : List Lexeme) : n ≤ nestingFrom n xs := by
  cases xs with
  | nil => exact Nat.le_refl n
  | cons x xs => exact Nat.le_max_left _ _

theorem nestingFrom_shift_le (n : Nat) (x : Lexeme) (xs : List Lexeme) :
    nestingFrom (x.shift n) xs ≤ nestingFrom n (x :: xs) :=
  Nat.le_max_right _ _

-- ============================================================== the stack

section Stack

/-- How many arrays and objects are open: those on the stack, and one whose
first part is still to come. -/
def depth (stack : List Frame) : Expect → Nat
  | .firstItem | .firstName => stack.length + 1
  | _ => stack.length

variable {limit : Nat} {x : Lexeme} {e e' : Expect} {stack stack' : List Frame}
  {fault : Fault}

/-- What a lexeme does with `n` open arrays and objects, at each limit. -/
inductive Moves (x : Lexeme) (n : Nat)
    (result : Nat → Except Fault (Expect × List Frame)) : Prop
  /-- it is refused at all of them -/
  | refused (h : ∀ limit, result limit = .error .malformed)
  /-- it goes no deeper, at any of them -/
  | level {e : Expect} {stack : List Frame} (h : ∀ limit, result limit = .ok (e, stack))
    (hdepth : depth stack e = x.shift n) (hle : depth stack e ≤ n)
  /-- it goes deeper, but not beyond the limit -/
  | deeper {e : Expect} {stack : List Frame} {fault : Fault}
    (h : ∀ limit, result limit = if n < limit then .ok (e, stack) else .error fault)
    (hdepth : depth stack e = n + 1) (hshift : x.shift n = n + 1) (hdeep : fault ≠ .malformed)

theorem moves_beginValue (x : Lexeme) (stack : List Frame) :
    Moves x stack.length fun limit => beginValue limit x stack := by
  cases x with
  | scalar v => exact .level (fun _ => rfl) rfl (Nat.le_refl _)
  | openArray => exact .deeper (fun _ => rfl) rfl rfl (by decide)
  | openObject => exact .deeper (fun _ => rfl) rfl rfl (by decide)
  | _ => exact .refused fun _ => rfl

/-- The first item of an array begins as any value does. -/
theorem step_firstItem (hx : x ≠ .closeArray) (limit : Nat) (stack : List Frame) :
    step limit x stack .firstItem = beginValue limit x (.array [] :: stack) := by
  cases x with
  | closeArray => exact absurd rfl hx
  | _ => rfl

/-- A step looks at the limit only where a value begins. -/
theorem moves_step (x : Lexeme) (stack : List Frame) (e : Expect) :
    Moves x (depth stack e) fun limit => step limit x stack e := by
  cases e with
  | value => exact moves_beginValue x stack
  | firstItem =>
      by_cases hx : x = .closeArray
      · subst hx
        exact .level (fun _ => rfl) rfl (Nat.le_succ _)
      · simp only [step_firstItem hx]
        exact moves_beginValue x (.array [] :: stack)
  | firstName =>
      cases x with
      | closeObject => exact .level (fun _ => rfl) rfl (Nat.le_succ _)
      | scalar v =>
          cases v with
          | text k => exact .level (fun _ => rfl) rfl (Nat.le_refl _)
          | _ => exact .refused fun _ => rfl
      | _ => exact .refused fun _ => rfl
  | name =>
      cases x with
      | scalar v =>
          cases v with
          | text k => exact .level (fun _ => rfl) rfl (Nat.le_refl _)
          | _ => exact .refused fun _ => rfl
      | _ => exact .refused fun _ => rfl
  | colon k =>
      cases x with
      | colon =>
          cases stack with
          | nil => exact .refused fun _ => rfl
          | cons frame stack =>
              cases frame with
              | array items => exact .refused fun _ => rfl
              | object fields name => exact .level (fun _ => rfl) rfl (Nat.le_refl _)
      | _ => exact .refused fun _ => rfl
  | separator v =>
      cases stack with
      | nil => cases x <;> exact .refused fun _ => rfl
      | cons frame stack =>
          cases frame with
          | array items =>
              cases x with
              | comma => exact .level (fun _ => rfl) rfl (Nat.le_refl _)
              | closeArray => exact .level (fun _ => rfl) rfl (Nat.le_succ _)
              | _ => exact .refused fun _ => rfl
          | object fields name =>
              cases x with
              | comma => exact .level (fun _ => rfl) rfl (Nat.le_refl _)
              | closeObject => exact .level (fun _ => rfl) rfl (Nat.le_succ _)
              | _ => exact .refused fun _ => rfl

theorem depth_of_step (h : step limit x stack e = .ok (e', stack')) :
    depth stack' e' = x.shift (depth stack e) := by
  cases moves_step x stack e with
  | refused hr =>
      rw [hr] at h
      cases h
  | level hr hdepth =>
      rw [hr] at h
      cases h
      exact hdepth
  | deeper hr hdepth hshift =>
      rw [hr] at h
      split at h
      all_goals cases h
      rw [hdepth, hshift]

theorem depth_le_of_step (hd : depth stack e ≤ limit)
    (h : step limit x stack e = .ok (e', stack')) : depth stack' e' ≤ limit := by
  cases moves_step x stack e with
  | refused hr =>
      rw [hr] at h
      cases h
  | level hr _ hle =>
      rw [hr] at h
      cases h
      exact Nat.le_trans hle hd
  | deeper hr hdepth =>
      rw [hr] at h
      split at h
      case isTrue hlt =>
        cases h
        rw [hdepth]
        exact hlt
      case isFalse => cases h

/-- Only an opening bracket goes too deep, and only at the limit. -/
theorem limit_lt_of_step (h : step limit x stack e = .error fault)
    (hdeep : fault ≠ .malformed) : limit < x.shift (depth stack e) := by
  cases moves_step x stack e with
  | refused hr =>
      rw [hr] at h
      cases h
      exact absurd rfl hdeep
  | level hr =>
      rw [hr] at h
      cases h
  | deeper hr _ hshift =>
      rw [hr] at h
      split at h
      case isTrue => cases h
      case isFalse hlimit =>
        rw [hshift]
        omega

theorem limit_lt_of_run {xs : List Lexeme} (h : run limit xs e stack = .error fault)
    (hdeep : fault ≠ .malformed) : limit < nestingFrom (depth stack e) xs := by
  induction xs generalizing e stack with
  | nil =>
      unfold run at h
      split at h
      case h_1 => cases h
      case h_2 => cases h; exact absurd rfl hdeep
      case h_3 heq => cases heq
  | cons x xs ih =>
      rw [run] at h
      split at h
      case h_1 fault' hstep =>
        injection h with h
        subst h
        exact Nat.lt_of_lt_of_le (limit_lt_of_step hstep hdeep)
          (Nat.le_trans (le_nestingFrom _ xs) (nestingFrom_shift_le _ x xs))
      case h_2 hstep =>
        have hrest := ih h
        rw [depth_of_step hstep] at hrest
        exact Nat.lt_of_lt_of_le hrest (nestingFrom_shift_le _ x xs)

/-- What is too deep to be read has more levels than the limit. -/
theorem limit_lt_nesting {s : String} {digits : DigitLimit}
    (h : read limit s digits = .error fault) (hdeep : fault ≠ .malformed) :
    limit < nesting s digits :=
  limit_lt_of_run h hdeep

theorem nestingFrom_le_of_run {xs : List Lexeme} {v : Value} (hd : depth stack e ≤ limit)
    (h : run limit xs e stack = .ok v) : nestingFrom (depth stack e) xs ≤ limit := by
  induction xs generalizing e stack with
  | nil => exact hd
  | cons x xs ih =>
      rw [run] at h
      split at h
      case h_1 => cases h
      case h_2 hstep =>
        have hrest := ih (depth_le_of_step hd hstep) h
        rw [depth_of_step hstep] at hrest
        exact Nat.max_le.mpr ⟨hd, hrest⟩

/-- What is read has no more levels than the limit. -/
theorem nesting_le_limit {s : String} {digits : DigitLimit} {v : Value}
    (h : read limit s digits = .ok v) : nesting s digits ≤ limit :=
  nestingFrom_le_of_run (Nat.zero_le limit) h

-- ============================================================== the limit

/-- A result that is not for lack of levels. With more of them it is the
same. -/
def Firm {α : Type} (result : Except Fault α) : Prop :=
  ∀ fault, result = .error fault → fault = .malformed

theorem firm_ok {α : Type} (a : α) : Firm (.ok a) :=
  nofun

theorem firm_malformed {α : Type} : Firm (.error .malformed : Except Fault α) :=
  fun _ h => by cases h; rfl

variable {limit' : Nat}

theorem step_mono (hle : limit ≤ limit') {p : Except Fault (Expect × List Frame)}
    (hp : Firm p) (h : step limit x stack e = p) : step limit' x stack e = p := by
  cases moves_step x stack e with
  | refused hr => rw [← h, hr, hr]
  | level hr => rw [← h, hr, hr]
  | deeper hr _ _ hdeep =>
      rw [hr] at h ⊢
      split at h
      case isTrue hlt => rwa [if_pos (Nat.lt_of_lt_of_le hlt hle)]
      case isFalse => exact absurd (hp _ h.symm) hdeep

theorem run_mono (hle : limit ≤ limit') {xs : List Lexeme} {result : Except Fault Value}
    (hresult : Firm result) (h : run limit xs e stack = result) :
    run limit' xs e stack = result := by
  induction xs generalizing e stack with
  | nil =>
      cases e with
      | separator w =>
          cases stack with
          | nil => exact h
          | cons frame stack => exact h
      | _ => exact h
  | cons x xs ih =>
      rw [run] at h ⊢
      split at h
      case h_1 fault hstep =>
        rw [step_mono hle (hresult fault h.symm ▸ firm_malformed) hstep]
        exact h
      case h_2 hstep =>
        rw [step_mono hle (firm_ok _) hstep]
        exact ih h

theorem read_mono (hle : limit ≤ limit') {s : String} {digits : DigitLimit}
    {result : Except Fault Value} (hresult : Firm result) (h : read limit s digits = result) :
    read limit' s digits = result :=
  run_mono hle hresult h

/-- A document is one at every limit that its levels do not pass, and too
deep below. -/
theorem read_of_read {s : String} {digits : DigitLimit} {v : Value}
    (h : read limit s digits = .ok v) :
    (nesting s digits ≤ limit' → read limit' s digits = .ok v)
      ∧ (limit' < nesting s digits →
          ∃ fault, fault ≠ .malformed ∧ read limit' s digits = .error fault) := by
  have hmax : read (max limit limit') s digits = .ok v :=
    read_mono (Nat.le_max_left _ _) (firm_ok v) h
  constructor
  · intro hle
    cases hread : read limit' s digits with
    | ok w =>
        rw [read_mono (Nat.le_max_right _ _) (firm_ok w) hread] at hmax
        exact hmax
    | error fault =>
        by_cases hfault : fault = .malformed
        · subst hfault
          rw [read_mono (Nat.le_max_right _ _) firm_malformed hread] at hmax
          cases hmax
        · exact absurd (limit_lt_nesting hread hfault) (Nat.not_lt_of_le hle)
  · intro hlt
    cases hread : read limit' s digits with
    | ok w => exact absurd (nesting_le_limit hread) (Nat.not_le_of_lt hlt)
    | error fault =>
        refine ⟨fault, fun hfault => ?_, rfl⟩
        subst hfault
        rw [read_mono (Nat.le_max_right _ _) firm_malformed hread] at hmax
        cases hmax

end Stack

end Siteswap.Json
