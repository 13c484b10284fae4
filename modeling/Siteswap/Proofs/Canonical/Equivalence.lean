/-
What canonical forms identify: cycles.

A pattern has no first throw. Two spellings are one pattern when their
endless repetitions differ by a shift, and canonical forms decide this:
`sameForm_iff_sameCycle` says so of sequences of any two lengths, and of
the comparison of typed async patterns.

Words do the work (`Rotation.canonical_eq_iff`). What is added here is
that nothing is lost on the way from words to forms: canonical heights
stay in range, so the canonical spelling exists (`canonicalOf_heights`),
and an async form is the text of the canonical sequence also where a
single letter is passed through unchanged (`form_of_async`).
-/
import Siteswap.Canonical
import Siteswap.Proofs.Pattern.Spelling
import Siteswap.Proofs.Rotation.Leading

namespace Siteswap

open Rotation (SameCycle endless)

namespace Sequence

-- ================================================ canonical sequences

/-- Heights in range are the heights of a sequence. -/
theorem ofHeights_of_inRange {hs : List Int}
    (hr : ∀ h ∈ hs, 0 ≤ h ∧ h ≤ Alphabet.maxHeight) :
    ofHeights hs = .ok ⟨hs, hr⟩ := by
  unfold ofHeights
  split
  case h_1 h hfind =>
    have hmem := List.mem_of_find?_eq_some hfind
    have hbad := List.find?_some hfind
    simp only [isHeight, (hr h hmem).1, (hr h hmem).2, decide_true,
      Bool.and_self, Bool.not_true] at hbad
    cases hbad
  case h_2 => rfl

/-- A sequence's heights have their canonical spelling. -/
theorem canonicalOf_heights (s : Sequence) :
    canonicalOf s.heights = .ok s.canonical :=
  ofHeights_of_inRange s.canonical.inRange

theorem canonical_heights (s : Sequence) :
    s.canonical.heights = Rotation.canonical s.heights := rfl

/-- Sequences are equal when their heights are. -/
theorem eq_of_heights {a b : Sequence} (h : a.heights = b.heights) :
    a = b := by
  cases a
  cases b
  cases h
  rfl

/-- Sequences have one canonical spelling iff they write one cycle. -/
theorem canonical_eq_iff {a b : Sequence} (ha : a.heights ≠ [])
    (hb : b.heights ≠ []) :
    a.canonical = b.canonical ↔ SameCycle a.heights b.heights := by
  rw [← Rotation.canonical_eq_iff ha hb]
  constructor
  · intro h
    rw [← canonical_heights, h, canonical_heights]
  · intro h
    exact eq_of_heights h

/-- A single throw is canonical. -/
theorem canonical_of_length_one {s : Sequence} (h : s.heights.length = 1) :
    s.canonical = s := by
  obtain ⟨a, ha⟩ := List.length_eq_one_iff.mp h
  apply eq_of_heights
  rw [canonical_heights, ha]
  exact Rotation.canonical_replicate 0 a

end Sequence

namespace Canonical

-- ====================================================== canonical forms

theorem ofTyped_of_read {x : Typed} {p : Pattern} (h : Pattern.read x = .ok p) :
    ofTyped x = .ok (ofPattern p) := by
  unfold ofTyped
  rw [h]
  rfl

/-- The form of an async pattern is the text of its canonical
sequence. -/
theorem form_of_async {x : Typed} {p : Pattern} (h : Pattern.read x = .ok p)
    (hd : p.dialect = .async) : (ofPattern p).form = p.throws.canonical.text := by
  unfold ofPattern
  split
  case isTrue hone =>
    have hlen : p.text.length = 1 := hone.resolve_left (not_not.mpr hd)
    show p.normalText = _
    rw [← Pattern.length_of_async h hd] at hlen
    rw [Pattern.normalText_of_async h hd,
      Sequence.canonical_of_length_one hlen]
  case isFalse => rfl

/-- Comparing what was typed compares the forms. -/
theorem areEquivalent_of_read {x y : Typed} {p q : Pattern}
    (hx : Pattern.read x = .ok p) (hy : Pattern.read y = .ok q) :
    areEquivalent x y
      = .ok (decide ((ofPattern p).form = (ofPattern q).form)) := by
  unfold areEquivalent ofTyped
  rw [hx, hy]
  rfl

/-- Canonical forms are a complete invariant of cycles: two sequences
with throws have one canonical spelling iff their endless repetitions
differ by a shift, and so do two typed async patterns count as
equivalent. -/
theorem sameForm_iff_sameCycle :
    (∀ a b : Sequence, a.heights ≠ [] → b.heights ≠ [] →
      ∃ c d, Sequence.canonicalOf a.heights = .ok c
        ∧ Sequence.canonicalOf b.heights = .ok d
        ∧ (c = d ↔ SameCycle a.heights b.heights))
    ∧ ∀ (x y : Typed) (p q : Pattern),
        Pattern.read x = .ok p → p.dialect = .async →
        Pattern.read y = .ok q → q.dialect = .async →
        ∃ r, areEquivalent x y = .ok r
          ∧ (r = true ↔ SameCycle p.throws.heights q.throws.heights) := by
  constructor
  · intro a b ha hb
    exact ⟨a.canonical, b.canonical, Sequence.canonicalOf_heights a,
      Sequence.canonicalOf_heights b, Sequence.canonical_eq_iff ha hb⟩
  · intro x y p q hx hp hy hq
    refine ⟨_, areEquivalent_of_read hx hy, ?_⟩
    rw [decide_eq_true_iff, form_of_async hx hp, form_of_async hy hq,
      ← Sequence.canonical_eq_iff (Pattern.heights_ne_nil_of_async hx hp)
        (Pattern.heights_ne_nil_of_async hy hq)]
    constructor
    · exact Sequence.text_injective
    · intro h
      rw [h]

/-- Two copies of `531`. -/
def twoCopies : Sequence := ⟨[5, 3, 1, 5, 3, 1], by decide⟩

/-- Three copies of `315`. -/
def threeCopies : Sequence := ⟨[3, 1, 5, 3, 1, 5, 3, 1, 5], by decide⟩

/-- Six throws and nine throws of one pattern. -/
theorem sameForm_of_copies :
    (∃ c d, Sequence.canonicalOf twoCopies.heights = .ok c
      ∧ Sequence.canonicalOf threeCopies.heights = .ok d
      ∧ (c = d ↔ SameCycle twoCopies.heights threeCopies.heights))
    ∧ ∃ r, areEquivalent (some "531531") (some "315 315 315") = .ok r
      ∧ (r = true ↔ SameCycle twoCopies.heights threeCopies.heights) := by
  obtain ⟨hforms, htyped⟩ := sameForm_iff_sameCycle
  constructor
  · exact hforms twoCopies threeCopies (by decide) (by decide)
  · have htwo : Pattern.read (some "531531")
        = .ok ⟨.async, twoCopies, "531531".toList⟩ := by decide +kernel
    have hthree : Pattern.read (some "315 315 315")
        = .ok ⟨.async, threeCopies, "315315315".toList⟩ := by decide +kernel
    exact htyped _ _ _ _ htwo rfl hthree rfl

end Canonical

end Siteswap
