/-
The total of a list of heights, which is the number of objects times the
period wherever the list is a valid pattern.
-/
namespace Siteswap

/-- The sum of all heights. -/
def total : List Int → Int
  | [] => 0
  | h :: hs => h + total hs

end Siteswap
