/-
What enumeration lists.

Candidates are taken in order, and what one is accepted as is collected
unless it is known. The list that grows so is the list of all that they are
accepted as, each kept where it first occurs (`discovered`), and stopping
early cuts it (`collect_eq`). So an enumeration gives the first patterns of
one list, which does not depend on how many are wanted (`enumerate_eq`); at
least one is given, if there is any, however few are wanted.
-/
import Siteswap.Proofs.Distinct
import Siteswap.Proofs.Search.Candidates

namespace Siteswap.Search

variable {objects length : Int} {c : Option Constraints} {maxResults : Int}

-- ============================================================ collecting

/-- Patterns in the order of their discovery: what the candidates of `n`
throws are accepted as, each once. -/
def discovered (t : Task) (n : Nat) : List Sequence :=
  ((combinations t n).filterMap accepted?).eraseDups

/-- What is found already is followed by the new ones among what the
candidates are accepted as, as far as they are wanted. -/
theorem collect_eq {found : List Sequence} {candidates : List (List Int)}
    (hroom : found.length < max 1 maxResults) :
    collect maxResults found candidates
      = found.reverse ++ ((candidates.filterMap accepted?).filter (!found.contains ·)).eraseDups.take
          ((max 1 maxResults).toNat - found.length) := by
  induction candidates generalizing found with
  | nil =>
      unfold collect
      rw [List.filterMap_nil, List.filter_nil, List.eraseDups_nil, List.take_nil, List.append_nil]
  | cons hs rest ih =>
      unfold collect
      split
      case h_1 hnone => rw [List.filterMap_cons_none hnone, ih hroom]
      case h_2 s hsome =>
        rw [List.filterMap_cons_some hsome]
        split
        case isTrue hknown =>
          rw [List.filter_cons_of_neg (by rw [hknown]; decide), ih hroom]
        case isFalse hnew =>
          rw [Bool.not_eq_true] at hnew
          have hothers : ((rest.filterMap accepted?).filter (!found.contains ·)).filter
                (fun x => !x == s)
              = (rest.filterMap accepted?).filter (!(s :: found).contains ·) := by
            rw [List.filter_filter]
            refine List.filter_congr fun x _ => ?_
            rw [List.contains_cons, Bool.not_or]
          rw [List.filter_cons_of_pos (by rw [hnew]; rfl), List.eraseDups_cons, hothers]
          split
          case isTrue hfull =>
            have hlast : (max 1 maxResults).toNat - found.length = 1 := by omega
            rw [hlast, List.take_succ_cons, List.take_zero, List.reverse_cons]
          case isFalse hmore =>
            have hleft : (max 1 maxResults).toNat - found.length
                = (max 1 maxResults).toNat - (s :: found).length + 1 := by
              rw [List.length_cons]
              omega
            have hroom' : ((s :: found).length : Int) < max 1 maxResults := by
              rw [List.length_cons]
              omega
            rw [ih hroom', hleft, List.take_succ_cons, List.reverse_cons, List.append_assoc,
              List.singleton_append]

-- =========================================================== enumeration

/-- An enumeration gives the first patterns that are discovered. -/
theorem enumerate_eq (c : Option Constraints) (maxResults : Int) (ho : 0 ≤ objects)
    (hl : 1 ≤ length) (hshort : length ≤ maxEnumerated) :
    enumerate objects length c maxResults
      = .ok ((discovered (.ofConstraints objects length (c.getD (.usual objects)))
          length.toNat).take (max 1 maxResults).toNat) := by
  have hcollect : ∀ candidates, collect maxResults [] candidates
      = ((candidates.filterMap accepted?).eraseDups).take (max 1 maxResults).toNat := by
    intro candidates
    rw [collect_eq (by rw [List.length_nil]; omega)]
    simp only [List.contains_nil, Bool.not_false, List.filter_true, List.length_nil, Nat.sub_zero,
      List.reverse_nil, List.nil_append]
  unfold enumerate
  rw [checkArguments_eq_ok ho hl, if_neg (by omega)]
  exact congrArg Except.ok (hcollect _)

/-- Short patterns can be enumerated. -/
theorem exists_enumerate (c : Option Constraints) (maxResults : Int)
    (ho : 0 ≤ objects) (hl : 1 ≤ length) (hshort : length ≤ maxEnumerated) :
    ∃ found, enumerate objects length c maxResults = .ok found :=
  ⟨_, enumerate_eq c maxResults ho hl hshort⟩

/-- Nothing else can. -/
theorem arguments_of_enumerate {found : List Sequence}
    (h : enumerate objects length c maxResults = .ok found) :
    0 ≤ objects ∧ 1 ≤ length ∧ length ≤ maxEnumerated := by
  unfold enumerate checkArguments at h
  split at h
  case isTrue => cases h
  split at h
  case isTrue => cases h
  case isFalse ho hl =>
    by_cases hlong : maxEnumerated < length
    · rw [if_pos hlong] at h
      cases h
    · omega

/-- What is enumerated is what some candidate is accepted as. -/
theorem accepted_of_mem_enumerate {found : List Sequence} {s : Sequence}
    (h : enumerate objects length c maxResults = .ok found) (hs : s ∈ found) :
    1 ≤ length ∧ ∃ hs,
      Completes (.ofConstraints objects length (c.getD (.usual objects)))
        length.toNat 0 hs ∧ accepted? hs = some s := by
  obtain ⟨ho, hl, hshort⟩ := arguments_of_enumerate h
  rw [enumerate_eq c maxResults ho hl hshort] at h
  cases h
  have hmem := List.mem_eraseDups.mp (List.mem_of_mem_take hs)
  obtain ⟨ks, hks, hacc⟩ := List.mem_filterMap.mp hmem
  exact ⟨hl, ks, completes_of_mem_combinations hks, hacc⟩

end Siteswap.Search
