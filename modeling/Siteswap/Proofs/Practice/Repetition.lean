/-
Repetition in texts and in patterns: one base for both.

A sequence of throws and its text repeat together, since different heights
have different letters. So the base of a text, which is computed on
characters, is the text of the root, which is computed on heights
(`base_text`). What holds of roots holds of bases: a text repeats its base
(`copies_base`), and what repeats the base has the same one (`base_copies`).

The repetitions of a text are the copies of its base, from one on. Copies
differ by their lengths, so the text is among them iff it is short enough
(`mem_repetitions_self_iff`).
-/
import Siteswap.Practice.Repetition
import Siteswap.Proofs.Pattern.Spelling
import Siteswap.Proofs.Rotation.Primitive

namespace Siteswap

open Rotation (IsRoot repeated root)

namespace Practice

-- ================================================================ texts

/-- The text `w`, `k` times. -/
def copies (k : Nat) (w : String) : String :=
  String.ofList (repeated k w.toList)

theorem toList_copies (k : Nat) (w : String) :
    (copies k w).toList = repeated k w.toList :=
  String.toList_ofList

theorem length_copies (k : Nat) (w : String) :
    (copies k w).length = k * w.length := by
  rw [← String.length_toList, toList_copies, Rotation.length_repeated, String.length_toList]

theorem toList_base (s : String) : (base s).toList = root s.toList :=
  String.toList_ofList

theorem toList_ne_nil {s : String} (hs : s ≠ "") : s.toList ≠ [] := by
  rwa [ne_eq, String.toList_eq_nil_iff]

-- ================================================================ bases

/-- The base of a text is the root of its characters. -/
theorem isRoot_base {s : String} (hs : s ≠ "") : IsRoot s.toList (base s).toList := by
  rw [toList_base]
  exact Rotation.isRoot_root (toList_ne_nil hs)

/-- Copies of a text have its base. -/
theorem base_copies {k : Nat} (hk : 1 ≤ k) (s : String) : base (copies k s) = base s := by
  unfold base
  rw [toList_copies, Rotation.root_repeated hk]

theorem base_base (s : String) : base (base s) = base s := by
  unfold base
  rw [String.toList_ofList, Rotation.root_root]

theorem length_base_dvd {s : String} (hs : s ≠ "") : (base s).length ∣ s.length := by
  rw [← String.length_toList, ← String.length_toList, toList_base]
  exact Rotation.length_root_dvd (toList_ne_nil hs)

theorem length_base_pos {s : String} (hs : s ≠ "") : 0 < (base s).length := by
  rw [← String.length_toList, toList_base]
  exact Rotation.length_root_pos (toList_ne_nil hs)

/-- A text is its base, over and over. -/
theorem copies_base {s : String} (hs : s ≠ "") :
    copies (s.length / (base s).length) (base s) = s := by
  rw [← String.toList_inj, toList_copies, toList_base, ← String.length_toList,
    ← String.length_toList, toList_base]
  exact Rotation.repeated_root (toList_ne_nil hs)

/-- A text is repeating iff it repeats a shorter one. -/
theorem isRepeating_iff {s : String} (hs : s ≠ "") :
    isRepeating s = true ↔ ∃ k w, w.length < s.length ∧ s = copies k w := by
  unfold isRepeating
  rw [decide_eq_true_iff]
  constructor
  · intro hshort
    exact ⟨_, base s, hshort, (copies_base hs).symm⟩
  · intro hrepeats
    obtain ⟨k, w, hshort, hw⟩ := hrepeats
    have hle := Rotation.length_root_le_of_repeated (toList_ne_nil hs)
      (hw ▸ toList_copies k w)
    rw [← toList_base, String.length_toList, String.length_toList] at hle
    omega

/-- The base of a sequence's text is the text of its root. -/
theorem base_text (s : Sequence) : base s.text = Sequence.spell (root s.heights) := by
  unfold base Sequence.spell
  rw [Sequence.toList_text, Rotation.root_map]
  intro h hh k hk
  exact Sequence.eq_of_letter_eq (s.inRange h hh) (s.inRange k hk)

-- ========================================================== repetitions

/-- The repetitions of a text are the copies of its base. -/
theorem mem_repetitions_iff {s w : String} {most : Int} :
    w ∈ repetitions s most ↔ ∃ k : Nat, 1 ≤ k ∧ k ≤ most ∧ w = copies k (base s) := by
  unfold repetitions
  rw [List.mem_map]
  constructor
  · intro hmem
    obtain ⟨k, hk, rfl⟩ := hmem
    rw [List.mem_range] at hk
    refine ⟨k + 1, by omega, by omega, ?_⟩
    unfold copies
    rw [toList_base]
  · intro hmem
    obtain ⟨k, hk, hmost, rfl⟩ := hmem
    refine ⟨k - 1, List.mem_range.mpr (by omega), ?_⟩
    unfold copies
    rw [toList_base, Nat.sub_add_cancel hk]

/-- A text is among its repetitions iff enough of them are asked for. -/
theorem mem_repetitions_self_iff {s : String} (hs : s ≠ "") (most : Int) :
    s ∈ repetitions s most ↔ (s.length / (base s).length : Nat) ≤ most := by
  have hpos := length_base_pos hs
  have hself := copies_base hs
  rw [mem_repetitions_iff]
  constructor
  · intro hmem
    obtain ⟨k, -, hmost, hk⟩ := hmem
    have hlen : s.length = k * (base s).length := by
      rw [← length_copies, ← hk]
    rw [hlen, Nat.mul_div_cancel k hpos]
    exact hmost
  · intro hmost
    refine ⟨_, ?_, hmost, hself.symm⟩
    by_contra hnone
    rw [Nat.lt_one_iff.mp (not_le.mp hnone)] at hself
    exact hs hself.symm

theorem base_of_mem_repetitions {s w : String} {most : Int} (h : w ∈ repetitions s most) :
    base w = base s := by
  obtain ⟨k, hk, -, rfl⟩ := mem_repetitions_iff.mp h
  rw [base_copies hk, base_base]

/-- The root of a word is the primitive word that it repeats, and copies of
the word have the same root. The base of a text is that of its characters,
and of a sequence's text it is the text of the root. A text that is not
empty is among its repetitions iff these go up to the number of bases in
it, and all of them have its base. -/
theorem primitive_roots :
    (∀ {α : Type} [BEq α] [LawfulBEq α] (s : List α), s ≠ [] →
      IsRoot s (root s) ∧ ∀ k, 1 ≤ k → root (repeated k s) = root s)
    ∧ (∀ s : String, s ≠ "" →
      IsRoot s.toList (base s).toList ∧ ∀ k, 1 ≤ k → base (copies k s) = base s)
    ∧ (∀ s : Sequence, base s.text = Sequence.spell (root s.heights))
    ∧ ∀ (s : String) (most : Int), s ≠ "" →
      (base s).length ∣ s.length
      ∧ (s ∈ repetitions s most ↔ (s.length / (base s).length : Nat) ≤ most)
      ∧ ∀ w ∈ repetitions s most, base w = base s := by
  refine ⟨?_, ?_, base_text, ?_⟩
  · intro α _ _ s hs
    have : Inhabited α := ⟨s.head hs⟩
    exact ⟨Rotation.isRoot_root hs, fun k hk => Rotation.root_repeated hk s⟩
  · intro s hs
    exact ⟨isRoot_base hs, fun k hk => base_copies hk s⟩
  · intro s most hs
    exact ⟨length_base_dvd hs, mem_repetitions_self_iff hs most,
      fun w hw => base_of_mem_repetitions hw⟩

/-- Six throws in two copies, as heights and as text: the text is not among
its first repetition alone, and it is among its first three. -/
theorem primitive_roots_of_copies :
    IsRoot ([5, 3, 1, 5, 3, 1] : List Int) [5, 3, 1]
    ∧ root (repeated 3 ([5, 3, 1, 5, 3, 1] : List Int)) = [5, 3, 1]
    ∧ IsRoot "531531".toList "531".toList
    ∧ base (copies 3 "531531") = "531"
    ∧ "531531" ∉ repetitions "531531" 1
    ∧ "531531" ∈ repetitions "531531" 3
    ∧ "531531531" ∈ repetitions "531531" 3 ∧ base "531531531" = "531" := by
  have hroot : root ([5, 3, 1, 5, 3, 1] : List Int) = [5, 3, 1] := by decide
  have hbase : base "531531" = "531" := by decide +kernel
  have hnine : "531531531" ∈ repetitions "531531" 3 := by decide +kernel
  obtain ⟨hlists, htexts, -, hrepetitions⟩ := primitive_roots
  obtain ⟨hlist, hcopies⟩ := hlists ([5, 3, 1, 5, 3, 1] : List Int) (by decide)
  obtain ⟨htext, hcopies'⟩ := htexts "531531" (by decide)
  obtain ⟨-, hone, -⟩ := hrepetitions "531531" 1 (by decide)
  obtain ⟨-, hthree, hsame⟩ := hrepetitions "531531" 3 (by decide)
  rw [hroot] at hlist hcopies
  rw [hbase] at htext hcopies' hone hthree hsame
  exact ⟨hlist, hcopies 3 (by decide), htext, hcopies' 3 (by decide),
    mt hone.mp (by decide), hthree.mpr (by decide), hnine, hsame _ hnine⟩

end Practice

end Siteswap
