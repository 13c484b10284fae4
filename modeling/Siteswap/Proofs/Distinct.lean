/-
Lists with each element once, where it first occurs.

Dropping repetitions keeps the first of them (`pairwise_eraseDups`): what
is left stands in the order of first places, so nothing is left twice
(`nodup_eraseDups`) and the list begins as it did (`head?_eraseDups`).
-/
import Mathlib.Data.List.Basic
import Mathlib.Data.List.Induction

namespace Siteswap

variable {α : Type} [BEq α]

theorem head?_eraseDups (l : List α) : l.eraseDups.head? = l.head? := by
  cases l with
  | nil => rfl
  | cons a l =>
      rw [List.eraseDups_cons]
      rfl

variable [LawfulBEq α]

/-- One more element at the end is left iff it is new. -/
theorem eraseDups_concat (l : List α) (a : α) :
    (l ++ [a]).eraseDups
      = if a ∈ l.eraseDups then l.eraseDups else l.eraseDups ++ [a] := by
  rw [List.eraseDups_append]
  simp only [List.mem_eraseDups]
  split
  case isTrue h => simp [List.removeAll, h]
  case isFalse h => simp [List.removeAll, h, List.eraseDups_cons]

/-- What is left stands in the order of the places where it first
occurs. -/
theorem pairwise_eraseDups (l : List α) :
    l.eraseDups.Pairwise fun a b => l.idxOf a < l.idxOf b := by
  induction l using List.reverseRecOn with
  | nil => exact List.Pairwise.nil
  | append_singleton l x ih =>
      have hold : l.eraseDups.Pairwise fun a b =>
          (l ++ [x]).idxOf a < (l ++ [x]).idxOf b := by
        refine ih.imp_of_mem fun ha hb hab => ?_
        rw [List.idxOf_append_of_mem (List.mem_eraseDups.mp ha),
          List.idxOf_append_of_mem (List.mem_eraseDups.mp hb)]
        exact hab
      rw [eraseDups_concat]
      split
      case isTrue => exact hold
      case isFalse hx =>
        rw [List.mem_eraseDups] at hx
        refine List.pairwise_append.mpr ⟨hold, List.pairwise_singleton _ _, ?_⟩
        intro a ha b hb
        rw [List.mem_eraseDups] at ha
        rw [List.mem_singleton.mp hb, List.idxOf_append_of_mem ha,
          List.idxOf_append_of_notMem hx]
        exact Nat.lt_of_lt_of_le (List.idxOf_lt_length_of_mem ha) (Nat.le_add_right _ _)

theorem nodup_eraseDups (l : List α) : l.eraseDups.Nodup := by
  refine (pairwise_eraseDups l).imp fun hlt heq => ?_
  rw [heq] at hlt
  exact Nat.lt_irrefl _ hlt

end Siteswap
