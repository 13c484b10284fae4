/-
To be one key is an equivalence, for plain keys and for keys with parts.

Who keeps something under keys asks no more of them: two keys that are one
stand for each other, however they are written.
-/
import Siteswap.Json.Compound

namespace Siteswap

open Number (Amount)

-- =============================================================== amounts

namespace Number.Amount

theorem same_refl (a : Amount) : a.same a = true := by
  unfold same
  cases a.value? <;> simp

theorem same_symm {a b : Amount} (h : a.same b = true) : b.same a = true := by
  unfold same at h ⊢
  cases ha : a.value? <;> cases hb : b.value? <;> simp_all

theorem same_trans {a b c : Amount} (hab : a.same b = true) (hbc : b.same c = true) :
    a.same c = true := by
  unfold same at hab hbc ⊢
  cases ha : a.value? <;> cases hb : b.value? <;> cases hc : c.value? <;> simp_all

end Number.Amount

namespace Json

-- ============================================================ plain keys

namespace Key

theorem same_refl (a : Key) : a.same a = true := by
  cases a <;> simp [same, amount?, Amount.same_refl]

theorem same_symm {a b : Key} (h : a.same b = true) : b.same a = true := by
  unfold same at h ⊢
  cases ha : a.amount? with
  | some p =>
      cases hb : b.amount? with
      | some q =>
          rw [ha, hb] at h
          exact Amount.same_symm h
      | none => simp [ha, hb] at h
  | none =>
      cases hb : b.amount? with
      | some q => simp [ha, hb] at h
      | none => cases a <;> cases b <;> simp_all [amount?]

theorem same_trans {a b c : Key} (hab : a.same b = true) (hbc : b.same c = true) :
    a.same c = true := by
  unfold same at hab hbc ⊢
  cases hb : b.amount? with
  | some q =>
      cases ha : a.amount? with
      | none => simp [ha, hb] at hab
      | some p =>
          cases hc : c.amount? with
          | none => simp [hb, hc] at hbc
          | some r =>
              rw [ha, hb] at hab
              rw [hb, hc] at hbc
              exact Amount.same_trans hab hbc
  | none =>
      cases ha : a.amount? with
      | some p => simp [ha, hb] at hab
      | none =>
          cases hc : c.amount? with
          | some r => simp [hb, hc] at hbc
          | none => cases a <;> cases b <;> cases c <;> simp_all [amount?]

instance : EquivBEq Key where
  rfl := same_refl _
  symm := same_symm
  trans := same_trans

end Key

-- ======================================================= keys with parts

namespace Compound

mutual

theorem same_refl : ∀ a : Compound, a.same a = true
  | key a => by simp [same, Key.same_refl]
  | parts as => by simp [same, sameParts_refl as]

theorem sameParts_refl : ∀ as : List Compound, sameParts as as = true
  | [] => rfl
  | a :: as => by simp [sameParts, same_refl a, sameParts_refl as]

end

mutual

theorem same_symm : ∀ {a b : Compound}, a.same b = true → b.same a = true
  | key a, key b, h => by
      unfold same at h ⊢
      exact Key.same_symm h
  | parts as, parts bs, h => by
      unfold same at h ⊢
      exact sameParts_symm h

theorem sameParts_symm : ∀ {as bs : List Compound},
    sameParts as bs = true → sameParts bs as = true
  | [], [], _ => rfl
  | a :: as, b :: bs, h => by
      simp only [sameParts, Bool.and_eq_true] at h ⊢
      exact ⟨same_symm h.1, sameParts_symm h.2⟩

end

mutual

theorem same_trans : ∀ {a b c : Compound},
    a.same b = true → b.same c = true → a.same c = true
  | key a, key b, key c, hab, hbc => by
      unfold same at hab hbc ⊢
      exact Key.same_trans hab hbc
  | parts as, parts bs, parts cs, hab, hbc => by
      unfold same at hab hbc ⊢
      exact sameParts_trans hab hbc

theorem sameParts_trans : ∀ {as bs cs : List Compound},
    sameParts as bs = true → sameParts bs cs = true → sameParts as cs = true
  | [], [], [], _, _ => rfl
  | a :: as, b :: bs, c :: cs, hab, hbc => by
      simp only [sameParts, Bool.and_eq_true] at hab hbc ⊢
      exact ⟨same_trans hab.1 hbc.1, sameParts_trans hab.2 hbc.2⟩

end

instance : EquivBEq Compound where
  rfl := same_refl _
  symm := same_symm
  trans := same_trans

end Compound

end Json

end Siteswap
