/-
The search for one pattern: depth first, first hit wins.

An attempt walks down from the empty candidate. At each place it asks for
the heights that the next throw may have, in the order of its source, and
tries them in turn; complete candidates are offered for acceptance. Every
place that is looked at costs one step. An attempt ends with a pattern,
with the tree exhausted, or cut off when its steps are used up. Only
after a cut another attempt can bring something new.
-/
import Siteswap.Random.Shuffler
import Siteswap.Search.Acceptance
import Siteswap.Search.Bounds

namespace Siteswap.Search

variable {σ : Type}

-- ========================================================== one attempt

/-- How an attempt ends. -/
inductive Outcome where
  | found (s : Sequence)
  | exhausted
  | cut
  deriving DecidableEq

/-- What an attempt goes on with: the steps left, and its source. -/
structure Reserve (σ : Type) where
  steps : Nat
  source : σ

/-- Tries heights in turn until one does not end exhausted. -/
def tryEach (descend : Int → Reserve σ → Outcome × Reserve σ) :
    List Int → Reserve σ → Outcome × Reserve σ
  | [], r => (.exhausted, r)
  | h :: hs, r =>
    match descend h r with
    | (.exhausted, r) => tryEach descend hs r
    | ended => ended

/-- Walks on below the candidate `before`, its last throw first, which
sums to `total` and lacks `remaining` throws. -/
def walk (sh : Shuffler σ) (t : Task) :
    (remaining : Nat) → (before : List Int) → (total : Int) → Reserve σ → Outcome × Reserve σ
  | 0, before, total, r =>
    if total = t.target then
      match accepted? before.reverse with
      | some s => (.found s, r)
      | none => (.exhausted, r)
    else (.exhausted, r)
  | remaining + 1, before, total, r =>
    if r.steps = 0 then (.cut, r)
    else
      let (order, source) := sh.shuffle r.source (t.heights total (remaining + 1))
      tryEach (fun h => walk sh t remaining (h :: before) (total + h)) order
        { steps := r.steps - 1, source := source }

/-- One attempt at `length` throws. -/
def attempt (sh : Shuffler σ) (t : Task) (length maxSteps : Nat) (source : σ) : Outcome × σ :=
  let (outcome, r) := walk sh t length [] 0 { steps := maxSteps, source := source }
  (outcome, r.source)

-- ============================================================= attempts

/-- At most `n` attempts. -/
def attempts (sh : Shuffler σ) (t : Task) (length maxSteps : Nat) : (n : Nat) → σ →
    Option Sequence × σ
  | 0, source => (none, source)
  | n + 1, source =>
    match attempt sh t length maxSteps source with
    | (.found s, source) => (some s, source)
    | (.exhausted, source) => (none, source)
    | (.cut, source) => attempts sh t length maxSteps n source

/-- At most `n` attempts, the first of them in ascending order. -/
def attemptsInOrder (sh : Shuffler σ) (t : Task) (length maxSteps : Nat) : (n : Nat) → σ →
    Option Sequence × σ
  | 0, source => (none, source)
  | n + 1, source =>
    match attempt .inOrder t length maxSteps source with
    | (.found s, source) => (some s, source)
    | (.exhausted, source) => (none, source)
    | (.cut, source) => attempts sh t length maxSteps n source

-- =========================================================== the search

def defaultSteps : Int := 20000

/-- A search: how many steps an attempt has, and whether the first goes
in ascending order. -/
structure Mode where
  maxSteps : Int
  orderedFirst : Bool

/-- A pattern of `objects` objects in `length` beats, if one is found;
without constraints, under the usual ones. -/
def generate (sh : Shuffler σ) (mode : Mode) (objects length : Int) (c : Option Constraints)
    (source : σ) : Except Error (Option Sequence × σ) := do
  checkArguments objects length
  let c := c.getD (.usual objects)
  let t := Task.ofConstraints objects length c
  let run := if mode.orderedFirst then attemptsInOrder sh t else attempts sh t
  return run length.toNat mode.maxSteps.toNat c.maxAttempts.toNat source

end Siteswap.Search
