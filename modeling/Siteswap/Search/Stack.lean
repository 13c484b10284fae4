/-
An attempt on a stack.

The places still to be looked at lie on a stack, the next one on top. A
complete candidate is offered for acceptance; any other place makes way for
the places of its next heights. They are pushed last height first, so that
the first height to be tried comes to lie on top. An attempt that walks
down does the same without a stack.
-/
import Siteswap.Search.Walk

namespace Siteswap.Search

variable {σ : Type}

/-- A candidate that is begun, its last throw first, and what its throws
sum to. -/
structure Place where
  before : List Int
  total : Int

namespace Place

def root : Place := ⟨[], 0⟩

/-- The place behind one more throw. -/
def next (p : Place) (h : Int) : Place := ⟨h :: p.before, p.total + h⟩

/-- The places behind `p` for some heights, pushed onto a stack from the
last height to the first. -/
def pushAll (p : Place) (hs : List Int) (stack : List Place) : List Place :=
  hs.reverse.foldl (fun stack h => p.next h :: stack) stack

end Place

/-- Looks at the places of a stack until a pattern is found, none is left,
or the steps are used up. -/
def workOff (sh : Shuffler σ) (t : Task) (length : Nat) :
    List Place → Reserve σ → Outcome × Reserve σ
  | [], r => (.exhausted, r)
  | p :: stack, r =>
    if p.before.length = length then
      match if p.total = t.target then accepted? p.before.reverse else none with
      | some s => (.found s, r)
      | none => workOff sh t length stack r
    else if _ : r.steps = 0 then (.cut, r)
    else
      let (order, source) := sh.shuffle r.source (t.heights p.total (length - p.before.length))
      workOff sh t length (p.pushAll order stack) { steps := r.steps - 1, source := source }
termination_by stack r => (r.steps, stack.length)

/-- One attempt at `length` throws. -/
def attemptOnStack (sh : Shuffler σ) (t : Task) (length maxSteps : Nat) (source : σ) :
    Outcome × σ :=
  let (outcome, r) := workOff sh t length [.root] { steps := maxSteps, source := source }
  (outcome, r.source)

end Siteswap.Search
