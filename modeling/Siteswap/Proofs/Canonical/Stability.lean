/-
What is answered can be typed again.

Canonicalization answers with texts: the canonical form, and the forms that
share it. Whoever types one of them, or the normal form of what was typed
before, reads a pattern of the same dialect and gets the same texts
(`ofTyped_stable`). The canonical form is its own form.

# Two reasons

An async pattern has its forms by the cycle that it writes
(`spellings_of_sameCycle`), and rotations of its root write the same cycle.
They are the texts of sequences, and such texts read as those sequences.

A pattern of another dialect has one form, its normal form. That is a text
of the notation, which reading leaves as it is (`Pattern.read_normalText`).
-/
import Siteswap.Proofs.Canonical.Orbit

namespace Siteswap.Canonical

open Rotation (root SameCycle)

/-- The text `u` is a pattern of dialect `d` in normal form, and what is
answered to it are the texts of `c`. -/
structure StandsFor (u : String) (d : Dialect) (c : Canonical) : Prop where
  reads : ∃ q, Pattern.read (some u) = .ok q ∧ q.dialect = d ∧ q.normalText = u
  answers : ∃ c', ofTyped (some u) = .ok c' ∧ c'.form = c.form
    ∧ c'.equivalent = c.equivalent

-- ============================================================ one cycle

/-- Sequences of one cycle have the same spellings. -/
theorem spellings_of_sameCycle {s t : Sequence} (hs : s.heights ≠ [])
    (ht : t.heights ≠ []) (h : SameCycle s.heights t.heights) :
    spellings (root s.heights) = spellings (root t.heights) := by
  obtain ⟨k, hshift⟩ := h
  have hrot := Rotation.root_isRotated_of_shift hs ht hshift
  refine (pairwise_spellings hs).eq_of_mem_iff (pairwise_spellings ht) fun form => ?_
  rw [mem_spellings_iff hs, mem_spellings_iff ht]
  exact exists_congr fun w => and_congr_left fun _ => ⟨hrot.trans, hrot.symm.trans⟩

variable {x : Typed} {p : Pattern}

/-- The text of a sequence stands for all patterns of its cycle. -/
theorem standsFor_of_sameCycle (h : Pattern.read x = .ok p) (hd : p.dialect = .async)
    {s : Sequence} (hs : s.heights ≠ []) (hcycle : SameCycle s.heights p.throws.heights) :
    StandsFor s.text .async (ofPattern p) := by
  have hne := Pattern.heights_ne_nil_of_async h hd
  have hread := Pattern.read_text hs
  refine ⟨⟨_, hread, rfl, String.ofList_toList⟩, _, ofTyped_of_read hread, ?_, ?_⟩
  · rw [form_of_async hread rfl, form_of_async h hd,
      (Sequence.canonical_eq_iff hs hne).mpr hcycle]
  · rw [equivalent_of_async hread rfl, equivalent_of_async h hd,
      spellings_of_sameCycle hs hne hcycle]

-- ====================================================== texts of a class

theorem ofPattern_of_ne_async (hd : p.dialect ≠ .async) :
    ofPattern p = ⟨p.normalText, true, [p.normalText], .alreadyCanonical⟩ :=
  if_pos (.inl hd)

theorem standsFor_normalText (h : Pattern.read x = .ok p) :
    StandsFor p.normalText p.dialect (ofPattern p) := by
  have hread := Pattern.read_normalText h
  exact ⟨⟨p, hread, rfl, rfl⟩, _, ofTyped_of_read hread, rfl, rfl⟩

theorem standsFor_of_mem (h : Pattern.read x = .ok p) {u : String}
    (hu : u ∈ (ofPattern p).equivalent) : StandsFor u p.dialect (ofPattern p) := by
  by_cases hd : p.dialect = .async
  · have hne := Pattern.heights_ne_nil_of_async h hd
    rw [equivalent_of_async h hd, mem_spellings_iff hne] at hu
    obtain ⟨w, hw, rfl⟩ := hu
    have hwne : w ≠ [] := by
      rintro rfl
      exact Rotation.root_ne_nil hne (List.isRotated_nil_iff.mp hw)
    rw [hd]
    exact standsFor_of_sameCycle (s := ⟨w, inRange_of_isRotated hw⟩) h hd hwne
      (Rotation.sameCycle_of_isRotated_root hne hw)
  · rw [ofPattern_of_ne_async hd] at hu
    rw [List.mem_singleton.mp hu]
    exact standsFor_normalText h

/-- The form is one of the forms that share it. -/
theorem form_mem_equivalent (h : Pattern.read x = .ok p) :
    (ofPattern p).form ∈ (ofPattern p).equivalent := by
  by_cases hd : p.dialect = .async
  · exact List.mem_of_getLast? (isOrbit_ofPattern h hd).last
  · rw [ofPattern_of_ne_async hd]
    exact List.mem_singleton_self _

/-- What stands for its own form is spelled canonically. -/
theorem StandsFor.isAlready {d : Dialect} {c : Canonical} (h : StandsFor c.form d c) :
    ∃ c', ofTyped (some c.form) = .ok c' ∧ c'.isAlready = true := by
  obtain ⟨⟨q, hread, -, hnormal⟩, c', hc', hform, -⟩ := h
  refine ⟨c', hc', ?_⟩
  rw [ofTyped_of_read hread, Except.ok.injEq] at hc'
  subst hc'
  rw [isAlready_iff, hnormal, hform]

/-- Canonicalization is idempotent and constant on its classes, in every
dialect. -/
theorem ofTyped_stable (h : Pattern.read x = .ok p) :
    ∃ c, ofTyped x = .ok c
      ∧ (∀ u, u = p.normalText ∨ u = c.form ∨ u ∈ c.equivalent →
          StandsFor u p.dialect c)
      ∧ (∃ c', ofTyped (some c.form) = .ok c' ∧ c'.isAlready = true)
      ∧ (c.isAlready = true ↔ p.normalText = c.form) := by
  have hform := standsFor_of_mem h (form_mem_equivalent h)
  refine ⟨_, ofTyped_of_read h, ?_, hform.isAlready, isAlready_iff p⟩
  rintro u (rfl | rfl | hu)
  · exact standsFor_normalText h
  · exact hform
  · exact standsFor_of_mem h hu

/-- Two copies of `315`, typed with a blank: their normal form, the
canonical form and a third form stand for them, and they are not spelled
canonically. -/
theorem stable_of_copies :
    ∃ p c, Pattern.read (some "3 15315") = .ok p ∧ ofTyped (some "3 15315") = .ok c
      ∧ StandsFor "315315" .async c ∧ StandsFor "531" .async c
      ∧ StandsFor "153" .async c ∧ c.isAlready = false := by
  have hread : Pattern.read (some "3 15315")
      = .ok ⟨.async, ⟨[3, 1, 5, 3, 1, 5], by decide⟩, "315315".toList⟩ := by decide +kernel
  obtain ⟨c, hc, hstands, -, halready⟩ := ofTyped_stable hread
  have hof := ofTyped_of_read hread
  rw [hc, Except.ok.injEq] at hof
  have hform : c.form = "531" := by
    rw [hof]
    decide +kernel
  have hmem : "153" ∈ c.equivalent := by
    rw [hof, (isOrbit_ofPattern hread rfl).mem_iff]
    have hroot : root [3, 1, 5, 3, 1, 5] = ([3, 1, 5] : List Int) := by decide
    exact ⟨[1, 5, 3], by rw [hroot]; exact ⟨1, rfl⟩, by decide +kernel⟩
  refine ⟨_, c, hread, hc, hstands _ (.inl rfl), hstands _ (.inr (.inl hform.symm)),
    hstands _ (.inr (.inr hmem)), ?_⟩
  rw [Bool.eq_false_iff, ne_eq, halready, hform]
  decide +kernel

end Siteswap.Canonical
