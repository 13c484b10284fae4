/-
What equivalent patterns have in common.

Two texts that share a canonical form may differ in length, and in how often
they repeat their root. Their statistics do not differ, nor does their
dialect; and if both are valid, they have the same number of objects
(`equivalent_alike`).

# One form, one dialect

A form can be typed, and it reads as a pattern of the dialect it came from
(`standsFor_of_mem`). So a form never stands for patterns of two dialects
(`dialect_eq_of_form`), and there are two cases. Async patterns of one form
write one cycle, which has the statistics. Other patterns are their own
forms: those of one form are one pattern.
-/
import Siteswap.Proofs.Canonical.Acceptance
import Siteswap.Proofs.Canonical.Stability
import Siteswap.Proofs.Rotation.Statistics

namespace Siteswap.Canonical

open Rotation (SameCycle SameStatistics)

variable {x y : Typed} {p q : Pattern}

-- ============================================================== one form

theorem dialect_eq_of_form (hx : Pattern.read x = .ok p) (hy : Pattern.read y = .ok q)
    (h : (ofPattern p).form = (ofPattern q).form) : p.dialect = q.dialect := by
  obtain ⟨⟨p', hp', hdp, -⟩, -⟩ := standsFor_of_mem hx (form_mem_equivalent hx)
  obtain ⟨⟨q', hq', hdq, -⟩, -⟩ := standsFor_of_mem hy (form_mem_equivalent hy)
  rw [h, hq', Except.ok.injEq] at hp'
  rw [← hdp, ← hdq, hp']

/-- Async patterns of one form write one cycle. -/
theorem sameCycle_of_form (hx : Pattern.read x = .ok p) (hy : Pattern.read y = .ok q)
    (hdp : p.dialect = .async) (hdq : q.dialect = .async)
    (h : (ofPattern p).form = (ofPattern q).form) :
    SameCycle p.throws.heights q.throws.heights := by
  rw [form_of_async hx hdp, form_of_async hy hdq] at h
  exact (Sequence.canonical_eq_iff (Pattern.heights_ne_nil hx) (Pattern.heights_ne_nil hy)).mp
    (Sequence.text_injective h)

/-- Other patterns of one form are one pattern. -/
theorem eq_of_form (hx : Pattern.read x = .ok p) (hy : Pattern.read y = .ok q)
    (hdp : p.dialect ≠ .async) (hdq : q.dialect ≠ .async)
    (h : (ofPattern p).form = (ofPattern q).form) : p = q := by
  rw [ofPattern_of_ne_async hdp, ofPattern_of_ne_async hdq] at h
  have hread := Pattern.read_normalText hx
  rw [show p.normalText = q.normalText from h, Pattern.read_normalText hy,
    Except.ok.injEq] at hread
  exact hread.symm

theorem sameStatistics_of_form (hx : Pattern.read x = .ok p) (hy : Pattern.read y = .ok q)
    (h : (ofPattern p).form = (ofPattern q).form) :
    SameStatistics p.throws.heights q.throws.heights := by
  have hdialect := dialect_eq_of_form hx hy h
  refine Rotation.sameStatistics_of_sameCycle (Pattern.heights_ne_nil hx)
    (Pattern.heights_ne_nil hy) ?_
  by_cases hdp : p.dialect = .async
  · exact sameCycle_of_form hx hy hdp (hdialect ▸ hdp) h
  · rw [eq_of_form hx hy hdp (hdialect ▸ hdp) h]
    exact SameCycle.refl _

/-- Patterns that share a form can be read. -/
theorem read_of_areEquivalent (h : areEquivalent x y = .ok true) :
    ∃ p q, Pattern.read x = .ok p ∧ Pattern.read y = .ok q
      ∧ (ofPattern p).form = (ofPattern q).form := by
  obtain ⟨c, hc, h⟩ := bind_eq_ok h
  obtain ⟨c', hc', h⟩ := bind_eq_ok h
  obtain ⟨p, hp, rfl⟩ := map_eq_ok hc
  obtain ⟨q, hq, rfl⟩ := map_eq_ok hc'
  injection h with h
  exact ⟨p, q, hp, hq, of_decide_eq_true h⟩

-- ================================================================ objects

/-- Valid patterns of one average have the same number of objects. -/
theorem objects_eq_of_average (hp : (Verdict.ofPattern p).isValid = true)
    (hq : (Verdict.ofPattern q).isValid = true)
    (h : p.throws.heights.sum * q.throws.heights.length
      = q.throws.heights.sum * p.throws.heights.length) :
    (Verdict.figures p.throws).objects = (Verdict.figures q.throws).objects := by
  have hppass := (Verdict.isValid_iff _ _).mp hp
  have hqpass := (Verdict.isValid_iff _ _).mp hq
  have hppos := List.length_pos_iff.mpr hppass.1
  have hqpos := List.length_pos_iff.mpr hqpass.1
  have hpsum : p.throws.heights.sum
      = (Verdict.figures p.throws).objects * p.throws.heights.length :=
    Verdict.sum_of_findings (Verdict.findings_eq_nil_iff.mpr hppass)
  have hqsum : q.throws.heights.sum
      = (Verdict.figures q.throws).objects * q.throws.heights.length :=
    Verdict.sum_of_findings (Verdict.findings_eq_nil_iff.mpr hqpass)
  rw [hpsum, hqsum, Int.mul_right_comm] at h
  exact Int.eq_of_mul_eq_mul_right (by omega) (Int.eq_of_mul_eq_mul_right (by omega) h)

/-- What counts as equivalent is valid and shares a form. -/
theorem praise?_of_areEquivalent (h : Advisor.areEquivalent x y = true) :
    ∃ p q, (Appraisal.ofTyped x).praise? = some p ∧ (Appraisal.ofTyped y).praise? = some q
      ∧ p.canonical.form = q.canonical.form := by
  unfold Advisor.areEquivalent at h
  split at h
  case h_1 p q hp hq => exact ⟨p, q, hp, hq, of_decide_eq_true h⟩
  case h_2 => cases h

theorem objectCount_of_praise? {p : Praise} (h : (Appraisal.ofTyped x).praise? = some p) :
    Advisor.objectCount x = p.figures.objects := by
  unfold Advisor.objectCount
  rw [h]

/-- Texts that share a canonical form have the same statistics, and are of the
same dialect. Those that count as equivalent, being valid besides, are also
said to be of the same dialect and to have the same number of objects. -/
theorem equivalent_alike (x y : Typed) :
    (areEquivalent x y = .ok true →
      ∃ p q, Pattern.read x = .ok p ∧ Pattern.read y = .ok q ∧ p.dialect = q.dialect
        ∧ SameStatistics p.throws.heights q.throws.heights)
    ∧ (Advisor.areEquivalent x y = true →
      (Appraisal.ofTyped x).dialect = (Appraisal.ofTyped y).dialect
        ∧ Advisor.objectCount x = Advisor.objectCount y
        ∧ ∃ p q, (Appraisal.ofTyped x).praise? = some p
          ∧ (Appraisal.ofTyped y).praise? = some q ∧ p.figures.objects = q.figures.objects) := by
  constructor
  · intro h
    obtain ⟨p, q, hx, hy, hform⟩ := read_of_areEquivalent h
    exact ⟨p, q, hx, hy, dialect_eq_of_form hx hy hform, sameStatistics_of_form hx hy hform⟩
  · intro h
    obtain ⟨_, _, hpx, hpy, hform⟩ := praise?_of_areEquivalent h
    obtain ⟨p, hx, hdx, hvx, rfl⟩ := Appraisal.read_of_praise? hpx
    obtain ⟨q, hy, hdy, hvy, rfl⟩ := Appraisal.read_of_praise? hpy
    have hobjects : (Verdict.figures p.throws).objects = (Verdict.figures q.throws).objects :=
      objects_eq_of_average hvx hvy (sameStatistics_of_form hx hy hform).average
    refine ⟨?_, ?_, _, _, hpx, hpy, hobjects⟩
    · rw [hdx, hdy, dialect_eq_of_form hx hy hform]
    · rw [objectCount_of_praise? hpx, objectCount_of_praise? hpy]
      exact hobjects

/-- Two copies of a cycle, and three copies of a rotation of it. -/
theorem copies_alike :
    (areEquivalent (some "531531") (some "315 315 315") = .ok true
      ∧ ∃ p q, Pattern.read (some "531531") = .ok p
        ∧ Pattern.read (some "315 315 315") = .ok q ∧ p.dialect = q.dialect
        ∧ SameStatistics p.throws.heights q.throws.heights)
    ∧ (Advisor.areEquivalent (some "531531") (some "315 315 315") = true
      ∧ Advisor.objectCount (some "531531") = Advisor.objectCount (some "315 315 315")) := by
  have hform : areEquivalent (some "531531") (some "315 315 315") = .ok true := by
    decide +kernel
  have hvalid : Advisor.areEquivalent (some "531531") (some "315 315 315") = true := by
    decide +kernel
  obtain ⟨halike, hsame⟩ := equivalent_alike (some "531531") (some "315 315 315")
  exact ⟨⟨hform, halike hform⟩, hvalid, (hsame hvalid).2.1⟩

end Siteswap.Canonical
