/-
The statistics of a cycle.

The sum of a word depends on how often the word repeats its root; its average
does not, and neither does the average of anything else that is said of the
letters one by one (`meanOf_eq_of_sameCycle`). So words that write one cycle
have the same mean, and with it the same variance. They have the same
letters, and with them the same greatest and least.

The mean and the variance are taken exactly, among the rationals.
-/
import Mathlib.Algebra.BigOperators.Ring.Finset
import Mathlib.Algebra.Order.Field.Rat
import Siteswap.Proofs.Rotation.Leading
import Siteswap.Proofs.Rotation.Primitive

namespace Siteswap.Rotation

open List (IsRotated)

variable {a b s : List Int} {f : Int → Rat}

-- ================================================================ means

/-- The mean of the values of `f` at the letters of a word. -/
def meanOf (f : Int → Rat) (s : List Int) : Rat :=
  (s.map f).sum / s.length

def mean (s : List Int) : Rat :=
  meanOf (fun h => h) s

/-- The mean of the squared distances from the mean. -/
def variance (s : List Int) : Rat :=
  meanOf (fun h => (h - mean s) ^ 2) s

theorem meanOf_perm (h : a.Perm b) : meanOf f a = meanOf f b := by
  unfold meanOf
  rw [(h.map f).sum_eq, h.length_eq]

theorem meanOf_repeated {k : Nat} (hk : 0 < k) (w : List Int) :
    meanOf f (repeated k w) = meanOf f w := by
  have hk' : (k : Rat) ≠ 0 := Nat.cast_ne_zero.mpr (by omega)
  unfold meanOf
  rw [map_repeated, sum_repeated, length_repeated, Nat.cast_mul, mul_div_mul_left _ _ hk']

theorem meanOf_root (hs : s ≠ []) : meanOf f (root s) = meanOf f s := by
  have hle := Nat.le_of_dvd (List.length_pos_iff.mpr hs) (length_root_dvd hs)
  have hk : 0 < s.length / (root s).length := Nat.div_pos hle (length_root_pos hs)
  rw [← meanOf_repeated hk (root s), repeated_root hs]

/-- The mean of anything that is said of letters is that of the cycle. -/
theorem meanOf_eq_of_sameCycle (ha : a ≠ []) (hb : b ≠ []) (h : SameCycle a b) :
    meanOf f a = meanOf f b := by
  obtain ⟨k, hshift⟩ := h
  rw [← meanOf_root ha, ← meanOf_root hb]
  exact meanOf_perm (root_isRotated_of_shift ha hb hshift).perm.symm

-- ============================================================== letters

theorem mem_iff_endless {h : Int} (hs : s ≠ []) : h ∈ s ↔ ∃ t, endless s t = h := by
  constructor
  · intro hmem
    obtain ⟨i, hi, hget⟩ := List.mem_iff_getElem.mp hmem
    exact ⟨i, (endless_natCast hi).trans hget⟩
  · rintro ⟨t, rfl⟩
    exact endless_mem hs t

/-- Words of one cycle have the same letters. -/
theorem mem_iff_of_sameCycle {h : Int} (ha : a ≠ []) (hb : b ≠ []) (hab : SameCycle a b) :
    h ∈ a ↔ h ∈ b := by
  have hsub : ∀ {a b : List Int}, a ≠ [] → b ≠ [] → SameCycle a b → h ∈ a → h ∈ b := by
    intro a b ha hb hab hmem
    obtain ⟨k, hshift⟩ := hab
    obtain ⟨t, rfl⟩ := (mem_iff_endless ha).mp hmem
    exact (mem_iff_endless hb).mpr ⟨t + k, (hshift t).symm⟩
  exact ⟨hsub ha hb hab, hsub hb ha hab.symm⟩

/-- The greatest of some letters depends on which letters there are. -/
theorem max?_congr (h : ∀ x, x ∈ a ↔ x ∈ b) : a.max? = b.max? := by
  ext m
  rw [List.max?_eq_some_iff, List.max?_eq_some_iff, h]
  simp only [h]

/-- So does the least. -/
theorem min?_congr (h : ∀ x, x ∈ a ↔ x ∈ b) : a.min? = b.min? := by
  ext m
  rw [List.min?_eq_some_iff, List.min?_eq_some_iff, h]
  simp only [h]

-- ============================================================ statistics

/-- Two words have letters, and the same statistics: the sum for each letter,
the greatest and the least letter, and the variance. -/
structure SameStatistics (a b : List Int) : Prop where
  average : a.sum * b.length = b.sum * a.length
  greatest : ∃ m, a.max? = some m ∧ b.max? = some m
  least : ∃ m, a.min? = some m ∧ b.min? = some m
  variance : variance a = variance b

theorem sum_mul_length_eq (ha : a ≠ []) (hb : b ≠ []) (h : mean a = mean b) :
    a.sum * b.length = b.sum * a.length := by
  have ha' : (a.length : Rat) ≠ 0 := Nat.cast_ne_zero.mpr (List.length_pos_iff.mpr ha).ne'
  have hb' : (b.length : Rat) ≠ 0 := Nat.cast_ne_zero.mpr (List.length_pos_iff.mpr hb).ne'
  unfold mean meanOf at h
  rw [← Int.cast_list_sum, ← Int.cast_list_sum, div_eq_div_iff ha' hb'] at h
  exact_mod_cast h

/-- Words of one cycle have the same statistics. -/
theorem sameStatistics_of_sameCycle (ha : a ≠ []) (hb : b ≠ []) (h : SameCycle a b) :
    SameStatistics a b := by
  have hmean : mean a = mean b := meanOf_eq_of_sameCycle ha hb h
  have hmem : ∀ x, x ∈ a ↔ x ∈ b := fun x => mem_iff_of_sameCycle ha hb h
  obtain ⟨m, hm⟩ := Option.isSome_iff_exists.mp (List.isSome_max?_of_ne_nil ha)
  obtain ⟨n, hn⟩ := Option.isSome_iff_exists.mp (List.isSome_min?_of_ne_nil ha)
  constructor
  · exact sum_mul_length_eq ha hb hmean
  · exact ⟨m, hm, (max?_congr hmem).symm.trans hm⟩
  · exact ⟨n, hn, (min?_congr hmem).symm.trans hn⟩
  · unfold Rotation.variance
    rw [hmean, meanOf_eq_of_sameCycle ha hb h]

end Siteswap.Rotation
