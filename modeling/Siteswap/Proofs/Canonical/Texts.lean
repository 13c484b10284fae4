/-
What is said of the text of a sequence.

The text of a sequence reads as that sequence, so everything that is said
of what was typed can be said of sequences: the verdict on the text is the
verdict on the sequence, and the form of a canonical sequence is its text.
Conversely, what was typed and is valid has throws that pass the checks, with
the number of objects as their average (`Verdict.valid_of_read`).
-/
import Siteswap.Proofs.Canonical.Equivalence
import Siteswap.Proofs.Validity.Checks

namespace Siteswap

namespace Verdict

theorem ofTyped_text {s : Sequence} (hne : s.heights ≠ []) :
    ofTyped (some s.text) = ofSequence .async s := by
  unfold ofTyped
  rw [Pattern.read_text hne]
  rfl

/-- The verdict on a valid sequence has its figures. -/
theorem outcome_of_isValid {d : Dialect} {s : Sequence}
    (h : (ofSequence d s).isValid = true) :
    (ofSequence d s).outcome = .ok (figures s) := by
  have hfind := findings_eq_nil_iff.mpr ((isValid_iff d s).mp h)
  unfold ofSequence
  rw [if_pos hfind]

/-- The verdict on the text of a valid sequence has its figures. -/
theorem outcome_text {s : Sequence}
    (h : (ofSequence .async s).isValid = true) :
    (ofTyped (some s.text)).outcome = .ok (figures s) := by
  rw [ofTyped_text ((isValid_iff .async s).mp h).1]
  exact outcome_of_isValid h

/-- What was typed and is valid with a number of objects has it as its
average. -/
theorem valid_of_read {x : Typed} {q : Pattern} {objects : Int} (hread : Pattern.read x = .ok q)
    (h : ∃ f, (ofTyped x).outcome = .ok f ∧ f.objects = objects) :
    (ofSequence .async q.throws).isValid = true
      ∧ q.throws.heights.sum = objects * q.throws.heights.length := by
  obtain ⟨f, hvalid, rfl⟩ := h
  have hverdict : ofTyped x = ofSequence q.dialect q.throws := by
    unfold ofTyped
    rw [hread]
    rfl
  have hisValid : (ofSequence q.dialect q.throws).isValid = true := by
    unfold isValid
    rw [← hverdict, hvalid]
  have hpasses := (isValid_iff _ _).mp hisValid
  rw [hverdict, outcome_of_isValid hisValid, Except.ok.injEq] at hvalid
  rw [← hvalid]
  exact ⟨(isValid_iff _ _).mpr hpasses, sum_of_findings (findings_eq_nil_iff.mpr hpasses)⟩

end Verdict

namespace Canonical

/-- A pattern is spelled canonically iff its text is its form. -/
theorem isAlready_iff (p : Pattern) :
    (ofPattern p).isAlready = true ↔ p.normalText = (ofPattern p).form := by
  unfold ofPattern
  split
  case isTrue => exact iff_of_true rfl rfl
  case isFalse => exact decide_eq_true_iff

theorem isAlready_of_async {x : Typed} {p : Pattern}
    (h : Pattern.read x = .ok p) (hd : p.dialect = .async) :
    (ofPattern p).isAlready = decide (p.throws.text = (ofPattern p).form) := by
  rw [Bool.eq_iff_iff, isAlready_iff, decide_eq_true_iff, Pattern.normalText_of_async h hd]

/-- The form of a canonical sequence's text is that text. -/
theorem ofTyped_text {s : Sequence} (hne : s.heights ≠ [])
    (hc : s.canonical = s) :
    ∃ c, ofTyped (some s.text) = .ok c ∧ c.form = s.text := by
  have hread := Pattern.read_text hne
  refine ⟨_, ofTyped_of_read hread, ?_⟩
  rw [form_of_async hread rfl]
  show s.canonical.text = s.text
  rw [hc]

end Canonical

end Siteswap
