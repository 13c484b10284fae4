/-
A stack walks down.

An attempt that keeps a stack of places looks at the same places in the
same order as one that walks down, and so ends in the same way with the
same steps and the same source left (`attemptOnStack_eq`).

What lies below the top of a stack waits until the top place and all that
was pushed for it is done. So working off a stack is walking below its top
place and, if that ends exhausted, going on with the rest
(`workOff_cons`). By induction on the throws that are missing: the places
pushed for a place are the tops of the stack one after another, which is
how a walk tries them (`workOff_places`).
-/
import Siteswap.Proofs.Search.Walk
import Siteswap.Search.Stack

namespace Siteswap.Search

variable {σ : Type} {sh : Shuffler σ} {t : Task} {length n : Nat} {stack : List Place}
  {r : Reserve σ}

-- ============================================================= going on

/-- What comes of going on with `next` unless all has ended. -/
def goOn (ended : Outcome × Reserve σ) (next : Reserve σ → Outcome × Reserve σ) :
    Outcome × Reserve σ :=
  match ended with
  | (.exhausted, r) => next r
  | ended => ended

theorem goOn_assoc (ended : Outcome × Reserve σ) (f g : Reserve σ → Outcome × Reserve σ) :
    goOn (goOn ended f) g = goOn ended fun r => goOn (f r) g := by
  obtain ⟨o, r⟩ := ended
  cases o with
  | found s => rfl
  | exhausted => rfl
  | cut => rfl

theorem goOn_exhausted (ended : Outcome × Reserve σ) :
    goOn ended (fun r => (.exhausted, r)) = ended := by
  obtain ⟨o, r⟩ := ended
  cases o with
  | found s => rfl
  | exhausted => rfl
  | cut => rfl

theorem tryEach_cons (descend : Int → Reserve σ → Outcome × Reserve σ) (h : Int)
    (hs : List Int) (r : Reserve σ) :
    tryEach descend (h :: hs) r = goOn (descend h r) (tryEach descend hs) := rfl

-- =============================================================== stacks

/-- The first height comes to lie on top. -/
theorem pushAll_eq (p : Place) (hs : List Int) (stack : List Place) :
    p.pushAll hs stack = hs.map p.next ++ stack := by
  unfold Place.pushAll
  rw [List.foldl_reverse]
  induction hs with
  | nil => rfl
  | cons h hs ih => rw [List.foldr_cons, ih, List.map_cons, List.cons_append]

/-- If each of the places pushed for `p` is walked below when it is on top,
they are walked below one after another. -/
theorem workOff_places {p : Place}
    (hnext : ∀ h stack r, workOff sh t length (p.next h :: stack) r
      = goOn (walk sh t n (h :: p.before) (p.total + h) r) (workOff sh t length stack))
    (hs : List Int) (stack : List Place) (r : Reserve σ) :
    workOff sh t length (hs.map p.next ++ stack) r
      = goOn (tryEach (fun h => walk sh t n (h :: p.before) (p.total + h)) hs r)
          (workOff sh t length stack) := by
  induction hs generalizing r with
  | nil => rfl
  | cons h hs ih =>
      rw [List.map_cons, List.cons_append, hnext, tryEach_cons, goOn_assoc]
      congr 1
      funext r'
      exact ih r'

/-- Working off a stack is walking below its top place, and going on with
the rest. -/
theorem workOff_cons {p : Place} (hlen : p.before.length + n = length) :
    workOff sh t length (p :: stack) r
      = goOn (walk sh t n p.before p.total r) (workOff sh t length stack) := by
  induction n generalizing p stack r with
  | zero =>
      rw [workOff, if_pos (by omega), walk_zero]
      cases (if p.total = t.target then accepted? p.before.reverse else none) with
      | none => rfl
      | some s => rfl
  | succ n ih =>
      have hmissing : length - p.before.length = n + 1 := by omega
      have hnext : ∀ h stack r, workOff sh t length (p.next h :: stack) r
          = goOn (walk sh t n (h :: p.before) (p.total + h) r) (workOff sh t length stack) := by
        intro h stack r
        refine ih ?_
        show (h :: p.before).length + n = length
        rw [List.length_cons]
        omega
      obtain ⟨m, source⟩ := r
      rw [workOff, if_neg (by omega)]
      cases m with
      | zero => rfl
      | succ m =>
          rw [dif_neg (Nat.succ_ne_zero m), walk_succ, hmissing]
          dsimp only
          rw [pushAll_eq, workOff_places hnext]
          rfl

/-- An attempt on a stack is an attempt. -/
theorem attemptOnStack_eq (sh : Shuffler σ) (t : Task) (length maxSteps : Nat) (source : σ) :
    attemptOnStack sh t length maxSteps source = attempt sh t length maxSteps source := by
  unfold attemptOnStack attempt
  rw [workOff_cons (Nat.zero_add length)]
  have hempty : (workOff sh t length [] : Reserve σ → Outcome × Reserve σ)
      = fun r => (.exhausted, r) := by
    funext r
    rw [workOff]
  rw [hempty, goOn_exhausted]
  rfl

end Siteswap.Search
