/-
What a memo answers, and when there is an answer.

An answer is the result of an entry that is `Fresh` (`get_eq_some_iff`).
There is one, if only that nothing is kept, whenever the time can be
compared with the dates of the entries (`exists_get_eq_ok`).
-/
import Siteswap.Memo

namespace Siteswap

open Number (Amount)

-- ================================================================ amounts

/-- Whether `a` does not lie above `b`. What is no number lies above
nothing. -/
def Number.Amount.atMost (a b : Amount) : Prop :=
  b.below a = false

/-- Of finite amounts the value decides. -/
theorem Number.Amount.atMost_iff {a b : Amount} {p q : Rat} (ha : a.value? = some p)
    (hb : b.value? = some q) : a.atMost b ↔ p ≤ q := by
  unfold atMost below
  rw [ha, hb]
  exact decide_eq_false_iff_not.trans Rat.not_lt

namespace Memo

variable {κ β : Type}

-- ==================================================================== age

/-- What is stored at the time `since` is not too old at the time `now`: it
has an age, and that is not above the greatest. -/
def Fresh (maxAge : Option Amount) (now since : Amount) : Prop :=
  ∀ most ∈ maxAge, ∃ age, now.minus since = .ok age ∧ age.atMost most

instance (maxAge : Option Amount) (now since : Amount) : Decidable (Fresh maxAge now since) :=
  decidable_of_iff
    ((match maxAge, now.minus since with
      | none, _ => true
      | some most, .ok age => !most.below age
      | some _, .error _ => false) = true)
    (by
      unfold Fresh Amount.atMost
      cases maxAge <;> cases now.minus since <;> simp)

-- ================================================================= answers

variable {m m' : Memo κ β} {e : Entry κ β} {now : Amount} {k : κ} {v : β}

theorem expired_eq_false_iff :
    m.expired now e = .ok false ↔ Fresh m.maxAge now e.since := by
  unfold expired Fresh
  cases m.maxAge with
  | none => simp
  | some most =>
      cases h : now.minus e.since with
      | error err => simp [Except.map]
      | ok age => simp [Except.map, Amount.atMost]

variable [BEq κ]

theorem get_eq_some_iff :
    m.get now k = .ok (some v, m') ↔
      ∃ e, m.entries.find? (fun e => e.key == k) = some e ∧ e.value = some v
        ∧ Fresh m.maxAge now e.since ∧ m' = m := by
  unfold get
  constructor
  · intro h
    split at h
    case h_1 => cases h
    case h_2 e he =>
      split at h
      case h_1 => cases h
      case h_2 => cases h
      case h_3 hexp =>
        simp only [Except.ok.injEq, Prod.mk.injEq] at h
        exact ⟨e, he, h.1, expired_eq_false_iff.mp hexp, h.2.symm⟩
  · rintro ⟨e, he, hv, hfresh, rfl⟩
    rw [he]
    simp only [expired_eq_false_iff.mpr hfresh, hv]

/-- There is an answer if the time has a difference with what dates the
entries; asking never adds one. -/
theorem exists_get_eq_ok (k : κ)
    (h : ∀ e ∈ m.entries, ∃ age, now.minus e.since = .ok age) :
    ∃ r m', m.get now k = .ok (r, m') ∧ m'.entries.Sublist m.entries := by
  unfold get
  cases hf : m.entries.find? fun e => e.key == k with
  | none => exact ⟨none, m, rfl, .refl _⟩
  | some e =>
      have hold : ∃ old, m.expired now e = .ok old := by
        unfold expired
        cases m.maxAge with
        | none => exact ⟨false, rfl⟩
        | some most =>
            obtain ⟨age, hage⟩ := h e (List.mem_of_find?_eq_some hf)
            exact ⟨most.below age, by simp only [hage]; rfl⟩
      obtain ⟨old, hold⟩ := hold
      cases old with
      | false => exact ⟨e.value, m, by simp only [hold], .refl _⟩
      | true => exact ⟨none, m.evict k, by simp only [hold], List.filter_sublist⟩

end Memo

end Siteswap
