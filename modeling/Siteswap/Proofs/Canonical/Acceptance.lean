/-
What becomes of a valid pattern that is taken under its canonical form.

Validation looks at the pattern as it was typed; names, suggestions and
progress go by its canonical form. `kept_of_accepted` says what the two
have to do with each other, for every text that is accepted as an async
pattern. The form can be read, is its own form, and has the same number of
objects; whether it is valid as well depends on its own collisions and its
own state. It is where its period is even, and where the pattern writes it
an odd number of times (`Kept.valid_of_even`, `Kept.valid_of_copies`).

# Where it is not

`126` is valid and its form `612` is not: over an odd period the hands
depend on where the counting begins. Whatever goes by the form and asks
for its validity then says no (`oneTwoSix_lost`): the two spellings do not
count as equivalent, and the form of a pattern just marked does not count
as completed.
-/
import Siteswap.Advisor
import Siteswap.Proofs.Canonical.Texts
import Siteswap.Proofs.Practice.History
import Siteswap.Proofs.Validity.Respelling

namespace Siteswap

open Practice (Date Tracker)

-- ============================================================ acceptance

/-- Whether what is typed is accepted. -/
def Advisor.accepts (x : Typed) : Bool :=
  (Appraisal.ofTyped x).praise?.isSome

namespace Appraisal

variable {x : Typed} {q : Pattern}

/-- All that is said of a valid pattern. -/
def praiseOf (q : Pattern) : Praise where
  figures := Verdict.figures q.throws
  difficulty := Difficulty.grade q.dialect q.throws.heights
  canonical := .ofPattern q

theorem praise?_of_read (h : Pattern.read x = .ok q) :
    (ofTyped x).praise?
      = if (Verdict.ofPattern q).isValid then some (praiseOf q) else none := by
  unfold ofTyped
  rw [h]
  show (ofPattern q).praise? = _
  unfold ofPattern praise?
  simp only
  cases hout : (Verdict.ofPattern q).outcome with
  | error findings =>
      have hinvalid : (Verdict.ofPattern q).isValid = false := by
        unfold Verdict.isValid
        rw [hout]
      rw [hinvalid]
      rfl
  | ok figures =>
      have hvalid : (Verdict.ofPattern q).isValid = true := by
        unfold Verdict.isValid
        rw [hout]
      have hfigures := Verdict.outcome_of_isValid hvalid
      rw [show Verdict.ofSequence q.dialect q.throws = Verdict.ofPattern q from rfl,
        hout] at hfigures
      cases hfigures
      rw [hvalid]
      rfl

/-- What is accepted can be read and is valid. -/
theorem read_of_praise? {p : Praise} (h : (ofTyped x).praise? = some p) :
    ∃ q, Pattern.read x = .ok q ∧ (ofTyped x).dialect = q.dialect
      ∧ (Verdict.ofPattern q).isValid = true ∧ p = praiseOf q := by
  cases hread : Pattern.read x with
  | error e =>
      unfold ofTyped at h
      rw [hread] at h
      cases h
  | ok q =>
      rw [praise?_of_read hread] at h
      split at h
      case isTrue hvalid =>
        cases h
        refine ⟨q, rfl, ?_, hvalid, rfl⟩
        unfold ofTyped
        rw [hread]
        rfl
      case isFalse => cases h

theorem accepts_of_read (h : Pattern.read x = .ok q) :
    Advisor.accepts x = (Verdict.ofPattern q).isValid := by
  unfold Advisor.accepts
  rw [praise?_of_read h]
  split
  case isTrue hv => rw [hv]; rfl
  case isFalse hv => rw [Bool.eq_false_of_not_eq_true hv]; rfl

end Appraisal

-- ================================================================= forms

namespace Canonical

/-- What holds of the canonical form of a text `x` that is accepted as an
async pattern, where `p` is what is said of `x` and `s` the sequence of
the form. -/
structure Kept (x : Typed) (p : Praise) (s : Sequence) : Prop where
  /-- the form reads as its sequence, -/
  reads : Pattern.read (some p.canonical.form)
    = .ok ⟨.async, s, p.canonical.form.toList⟩
  /-- is its own form, -/
  already : ∃ c, Canonical.ofTyped (some p.canonical.form) = .ok c
    ∧ c.form = p.canonical.form ∧ c.isAlready = true
  /-- and has a whole average, the number of objects. -/
  average : Checks.average s.heights = []
    ∧ (Verdict.figures s).objects = p.figures.objects
  /-- It is accepted iff it has no collisions and its state returns, -/
  valid_iff : Advisor.accepts (some p.canonical.form) = true
    ↔ Checks.collisions s.heights = [] ∧ Checks.state s.heights = []
  /-- so where its period is even, -/
  valid_of_even : Even s.period → Advisor.accepts (some p.canonical.form) = true
  /-- and where what was typed is an odd number of copies of it. -/
  valid_of_copies : ∀ q k, Pattern.read x = .ok q → Odd k →
    q.throws.heights = Rotation.repeated k s.heights →
    Advisor.accepts (some p.canonical.form) = true
  /-- If accepted, it is said to have as many objects and to be canonical. -/
  praise : ∀ p', (Appraisal.ofTyped (some p.canonical.form)).praise? = some p' →
    p'.figures.objects = p.figures.objects ∧ p'.canonical.isAlready = true
      ∧ p'.canonical.form = p.canonical.form
  /-- It counts as equivalent iff it is accepted. -/
  equivalent : Advisor.areEquivalent x (some p.canonical.form)
    = Advisor.accepts (some p.canonical.form)
  /-- No other pattern is suggested. -/
  suggestion : ∀ m, Advisor.suggestion? x = some m →
    ∃ rest, m = "Did you mean '" ++ p.canonical.form ++ "'" ++ rest
  /-- No other is recorded by a mark, after which it counts as completed iff
  it is accepted. -/
  marked : ∀ (t : Tracker) store catches day form store',
    t.mark store x catches day = .ok (form, store') →
    form = p.canonical.form
      ∧ t.isCompleted store' (some form) = .ok (Advisor.accepts (some form))
  /-- After any requests of any users a mark succeeds, if its count, where
  there is one, is accepted. -/
  marks : ∀ user limits t history catches day,
    Tracker.ofUser limits user = .ok t →
    (∀ n ∈ catches, Practice.isCountable n = true) →
    ∃ store', t.mark (Practice.after history) x catches day
      = .ok (p.canonical.form, store')

variable {x : Typed} {q : Pattern} {s : Sequence}

theorem accepts_text (hne : s.heights ≠ []) :
    Advisor.accepts (some s.text) = true
      ↔ Checks.average s.heights = [] ∧ Checks.collisions s.heights = []
        ∧ Checks.state s.heights = [] := by
  rw [Appraisal.accepts_of_read (Pattern.read_text hne), ← Checks.all_eq_nil_iff]
  show (Verdict.ofSequence .async s).isValid = true ↔ _
  rw [Verdict.isValid_iff]
  exact and_iff_right hne

/-- The text of a canonical sequence is its own form, spelled
canonically. -/
theorem isAlready_text (hne : s.heights ≠ []) (hc : s.canonical = s) :
    (ofPattern ⟨.async, s, s.text.toList⟩).form = s.text
      ∧ (ofPattern ⟨.async, s, s.text.toList⟩).isAlready = true := by
  have hread := Pattern.read_text hne
  have hform := form_of_async hread rfl
  rw [isAlready_of_async hread rfl, hform]
  show s.canonical.text = s.text ∧ decide (s.text = s.canonical.text) = true
  rw [hc]
  exact ⟨rfl, decide_eq_true rfl⟩

/-- The average and the number of objects are those of the canonical
sequence. -/
theorem average_canonical (hne : s.heights ≠ [])
    (h : Checks.average s.heights = []) :
    Checks.average s.canonical.heights = []
      ∧ (Verdict.figures s.canonical).objects = (Verdict.figures s).objects := by
  obtain ⟨objects, hsum⟩ := (Checks.average_eq_nil_iff _).mp h
  rw [total_eq_sum, Int.mul_comm] at hsum
  have hcanon : s.canonical.heights.sum
      = objects * s.canonical.heights.length :=
    Rotation.sum_canonical_of_average hne hsum
  constructor
  · rw [Checks.average_eq_nil_iff, total_eq_sum, hcanon]
    exact Int.dvd_mul_left _ _
  · rw [Verdict.objects_of_average (Rotation.canonical_ne_nil hne) hcanon,
      Verdict.objects_of_average hne hsum]

theorem canonicalForm_of_read (hread : Pattern.read x = .ok q) {form : String} :
    Practice.canonicalForm x = .ok form
      ↔ Advisor.accepts x = true ∧ (ofPattern q).form = form := by
  rw [Practice.canonicalForm_eq_ok_iff, Appraisal.accepts_of_read hread]
  unfold ofTyped Verdict.ofTyped
  rw [hread]
  refine and_congr_right fun _ => ?_
  constructor
  · rintro ⟨c, hc, h⟩
    cases hc
    exact h
  · intro h
    exact ⟨_, rfl, h⟩

/-- Patterns count as equivalent iff both are accepted and share a form. -/
theorem areEquivalent_iff {y : Typed} {r : Pattern} (hx : Pattern.read x = .ok q)
    (hy : Pattern.read y = .ok r) :
    Advisor.areEquivalent x y = (Advisor.accepts x && Advisor.accepts y
      && decide ((ofPattern q).form = (ofPattern r).form)) := by
  rw [Appraisal.accepts_of_read hx, Appraisal.accepts_of_read hy]
  unfold Advisor.areEquivalent
  rw [Appraisal.praise?_of_read hx, Appraisal.praise?_of_read hy]
  cases (Verdict.ofPattern q).isValid with
  | false => rfl
  | true =>
      cases (Verdict.ofPattern r).isValid with
      | false => rfl
      | true => rfl

/-- What is suggested for a pattern is its form. -/
theorem form_of_suggestion? (hread : Pattern.read x = .ok q) {m : String}
    (h : Advisor.suggestion? x = some m) :
    ∃ rest, m = "Did you mean '" ++ (ofPattern q).form ++ "'" ++ rest := by
  unfold Advisor.suggestion? at h
  rw [Appraisal.praise?_of_read hread] at h
  by_cases hv : (Verdict.ofPattern q).isValid = true
  · rw [if_pos hv] at h
    simp only at h
    split at h
    case isTrue => cases h
    case isFalse =>
      split at h
      case h_1 name _ _ =>
        cases h
        exact ⟨" (" ++ name ++ ")?", by simp only [String.append_assoc]; rfl⟩
      case h_2 =>
        cases h
        exact ⟨"?", rfl⟩
  · rw [if_neg hv] at h
    cases h

/-- The form that a mark recorded counts as completed iff it is accepted. -/
theorem isCompleted_form_of_mark {t : Tracker} {store store' : Store String}
    {catches : Option Int} {day : Practice.Date} {form : String} {r : Pattern}
    (hmark : t.mark store x catches day = .ok (form, store'))
    (hread : Pattern.read (some form) = .ok r) (hform : (ofPattern r).form = form) :
    t.isCompleted store' (some form) = .ok (Advisor.accepts (some form)) := by
  cases hacc : Advisor.accepts (some form) with
  | true =>
      exact Practice.Tracker.isCompleted_of_mark hmark
        ((canonicalForm_of_read hread).mpr ⟨hacc, hform⟩)
  | false =>
      unfold Practice.Tracker.isCompleted
      cases hcanon : Practice.canonicalForm (some form) with
      | error e => rfl
      | ok form' =>
          rw [((canonicalForm_of_read hread).mp hcanon).1] at hacc
          cases hacc

/-- What is accepted as an async pattern has a canonical form that is kept
in all respects but one: whether it is accepted is for its own collisions
and its own state to say. -/
theorem kept_of_accepted {p : Praise}
    (hx : (Appraisal.ofTyped x).praise? = some p)
    (hd : (Appraisal.ofTyped x).dialect = .async) : ∃ s, Kept x p s := by
  obtain ⟨q, hread, hdialect, hv, rfl⟩ := Appraisal.read_of_praise? hx
  rw [hdialect] at hd
  obtain ⟨hne, hall⟩ := (Verdict.isValid_iff _ _).mp hv
  obtain ⟨haverage, hcollisions, hstate⟩ := (Checks.all_eq_nil_iff _).mp hall
  have hform := form_of_async hread hd
  have hcne : q.throws.canonical.heights ≠ [] := Rotation.canonical_ne_nil hne
  have hcc : q.throws.canonical.canonical = q.throws.canonical :=
    Sequence.eq_of_heights (Rotation.canonical_canonical hne)
  have hcread := Pattern.read_text hcne
  obtain ⟨hcform, hcalready⟩ := isAlready_text hcne hcc
  obtain ⟨hcaverage, hobjects⟩ := average_canonical hne haverage
  have hvalid := accepts_text hcne
  have hx : Advisor.accepts x = true := by
    rw [Appraisal.accepts_of_read hread]
    exact hv
  have hxform := (canonicalForm_of_read hread).mpr ⟨hx, hform⟩
  refine ⟨q.throws.canonical, ?_⟩
  show Kept x (Appraisal.praiseOf q) _
  have hp : (Appraisal.praiseOf q).canonical.form = q.throws.canonical.text := hform
  exact {
    reads := by
      rw [hp]
      exact hcread
    already := by
      rw [hp]
      refine ⟨_, ?_, hcform, hcalready⟩
      unfold ofTyped
      rw [hcread]
      rfl
    average := ⟨hcaverage, hobjects⟩
    valid_iff := by
      rw [hp, hvalid]
      exact and_iff_right hcaverage
    valid_of_even := by
      intro heven
      rw [hp, hvalid]
      exact ⟨hcaverage, Checks.collisions_canonical hne heven hcollisions,
        (Checks.state_canonical_iff hne heven).mpr hstate⟩
    valid_of_copies := by
      intro q' k hread' hk hcopies
      rw [hread] at hread'
      cases hread'
      rw [hcopies] at hcollisions hstate
      rw [hp, hvalid]
      exact ⟨hcaverage, Checks.collisions_of_copies hcne hk hcollisions,
        Checks.state_of_copies hk hstate⟩
    praise := by
      intro p' hp'
      rw [hp] at hp' ⊢
      obtain ⟨q', hread', -, -, rfl⟩ := Appraisal.read_of_praise? hp'
      rw [hcread] at hread'
      cases hread'
      exact ⟨hobjects, hcalready, hcform⟩
    equivalent := by
      rw [hp, areEquivalent_iff hread hcread, hx, hform, hcform]
      simp
    suggestion := fun m hm => by
      rw [hp, ← hform]
      exact form_of_suggestion? hread hm
    marked := by
      intro t store catches day form store' hmark
      obtain ⟨hfound, -, -⟩ := Practice.Tracker.mark_eq_ok_iff.mp hmark
      obtain ⟨-, hfound⟩ := (canonicalForm_of_read hread).mp hfound
      rw [hform] at hfound
      subst hfound
      exact ⟨hp.symm, isCompleted_form_of_mark hmark hcread hcform⟩
    marks := by
      intro user limits t history catches day ht hcatches
      rw [hp]
      exact ⟨_, (Tracker.keeps_after ht history).mark_eq_ok_iff.mpr
        ⟨Practice.completion?_mark.mpr ⟨hxform, hcatches, rfl⟩, rfl⟩⟩ }

/-- A one and a seven. -/
def oneSeven : Sequence := ⟨[1, 7], by decide⟩

/-- `17` is kept as `71`. -/
theorem oneSeven_kept :
    ∃ p, (Appraisal.ofTyped (some "17")).praise? = some p
      ∧ (Appraisal.ofTyped (some "17")).dialect = .async
      ∧ p.canonical.form = "71" ∧ ∃ s, Kept (some "17") p s := by
  have hread : Pattern.read (some "17")
      = .ok ⟨.async, oneSeven, "17".toList⟩ := by decide +kernel
  have hv : (Verdict.ofPattern ⟨.async, oneSeven, "17".toList⟩).isValid = true := by
    decide +kernel
  have hx := Appraisal.praise?_of_read hread
  rw [if_pos hv] at hx
  have hd : (Appraisal.ofTyped (some "17")).dialect = .async := by decide +kernel
  exact ⟨_, hx, hd, by decide +kernel, kept_of_accepted hx hd⟩

/-- A valid pattern whose canonical form is not valid: the form does not
count as equivalent, is suggested all the same, and is recorded but not
found again. -/
theorem oneTwoSix_lost :
    (Appraisal.ofTyped (some "126")).dialect = .async
      ∧ Advisor.accepts (some "126") = true
      ∧ (∃ c, ofTyped (some "126") = .ok c ∧ c.form = "612")
      ∧ Advisor.accepts (some "612") = false
      ∧ Advisor.areEquivalent (some "126") (some "612") = false
      ∧ Advisor.suggestion? (some "126") = some "Did you mean '612'?"
      ∧ ∀ (t : Tracker) (day : Date), ∃ store,
          t.mark .empty (some "126") none day = .ok ("612", store)
            ∧ t.isCompleted store (some "612") = .ok false := by
  have hform : Practice.canonicalForm (some "126") = .ok "612" := by decide +kernel
  refine ⟨by decide +kernel, by decide +kernel, ⟨_, rfl, by decide +kernel⟩,
    by decide +kernel, by decide +kernel, by decide +kernel, ?_⟩
  intro t day
  have hkeeps : t.Keeps .empty (Practice.summary []) := fun _ _ => rfl
  have hcompletion : (Practice.Request.mark (some "126") none day).completion?
      = some ("612", day) := Practice.completion?_mark.mpr ⟨hform, nofun, rfl⟩
  exact ⟨_, hkeeps.mark_eq_ok_iff.mpr ⟨hcompletion, rfl⟩, rfl⟩

end Canonical

end Siteswap
