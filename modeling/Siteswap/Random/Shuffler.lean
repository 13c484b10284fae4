/-
Sources of order and of chance.

A search asks for the order in which to try some heights and is told one,
whoever answers. What it finds may depend on the answers; that all
heights are tried exactly once may not, so every source carries that law.
Some sources also draw numbers.
-/
namespace Siteswap

/-- A rule that brings any list into some order, from a state that it may
change. -/
structure Shuffler (σ : Type) where
  shuffle : σ → List Int → List Int × σ
  perm : ∀ s xs, (shuffle s xs).1.Perm xs

namespace Shuffler

/-- Every list as it stands. -/
def inOrder {σ : Type} : Shuffler σ where
  shuffle s xs := (xs, s)
  perm _ xs := .refl xs

end Shuffler

/-- A source of order that also draws numbers from 0 to `n`. -/
structure Chance (σ : Type) extends Shuffler σ where
  upTo : (n : Nat) → σ → Fin (n + 1) × σ

end Siteswap
