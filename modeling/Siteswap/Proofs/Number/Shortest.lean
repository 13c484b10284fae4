/-
The shortest decimal of a float has no zero in front.

A decimal is written from its digits and its exponent, so a decimal without
digits but with an exponent would come out as a row of zeros. The shortest
decimal is never one (`digits_shortest`): the interval of a positive float
lies above zero, so a decimal in it has a digit, and dropping zeros at the
end does not drop the last digit.
-/
import Siteswap.Number.Shortest

namespace Siteswap.Number

theorem scaled_pos {m : Nat} (hm : 0 < m) (q : Int) : 0 < scaled m q := by
  unfold scaled
  refine Rat.mul_pos ?_ (Rat.zpow_pos (by decide))
  exact Rat.natCast_pos.mpr hm

/-- The interval of a positive float lies above zero. -/
theorem Interval.lower_pos {p : Parts} (hm : 0 < p.mantissa) :
    0 < (ofParts p).lower := by
  unfold ofParts
  simp only
  split
  · exact scaled_pos (by omega) _
  · exact scaled_pos (by omega) _

theorem Interval.pos_of_holds {i : Interval} {x : Rat} (hi : 0 < i.lower)
    (h : i.holds x = true) : 0 < x := by
  unfold holds at h
  split at h
  · rw [decide_eq_true_iff] at h
    exact Std.lt_of_lt_of_le hi h.1
  · rw [decide_eq_true_iff] at h
    exact Std.lt_trans hi h.1

namespace Decimal

theorem digits_pos_of_value_pos {d : Decimal} (h : 0 < d.value) :
    d.digits ≠ 0 := by
  intro h0
  unfold value at h
  rw [h0] at h
  simp at h

/-- A decimal on a grid that lies in a positive interval has a digit. -/
theorem digits_of_onGrid? {i : Interval} {v : Rat} {n : Nat} {d : Decimal}
    (hi : 0 < i.lower) (h : onGrid? i v n = some d) : d.digits ≠ 0 := by
  have hholds : i.holds d.value = true := by
    unfold onGrid? at h
    simp only at h
    split at h
    case h_1 hbelow habove =>
      repeat' split at h
      all_goals injection h with h
      all_goals subst h
      all_goals assumption
    case h_2 hbelow _ =>
      injection h with h
      rw [← h]
      exact hbelow
    case h_3 _ habove =>
      injection h with h
      rw [← h]
      exact habove
    case h_4 => cases h
  exact digits_pos_of_value_pos (Interval.pos_of_holds hi hholds)

theorem digits_full {p : Parts} (hm : p.mantissa ≠ 0) : (full p).digits ≠ 0 := by
  unfold full
  split
  · show p.mantissa <<< _ ≠ 0
    rw [Nat.shiftLeft_eq]
    exact Nat.mul_ne_zero hm (Nat.ne_of_gt (Nat.two_pow_pos _))
  · exact Nat.mul_ne_zero hm (Nat.ne_of_gt (Nat.pow_pos (by decide)))

theorem digits_stripped {d : Decimal} (h : d.digits ≠ 0) :
    d.stripped.digits ≠ 0 := by
  fun_induction stripped d with
  | case1 d hd ih =>
      apply ih
      show d.digits / 10 ≠ 0
      omega
  | case2 => exact h

/-- A shortest decimal without digits is zero itself. -/
theorem digits_shortest {p : Parts} (h : (shortest p).digits = 0) :
    (shortest p).exponent = 0 := by
  unfold shortest at h ⊢
  split at h
  case isTrue hm => rw [if_pos hm]
  case isFalse hm =>
    refine absurd h (digits_stripped ?_)
    cases hfound : (List.range 17).findSome? fun n =>
        onGrid? (.ofParts p) p.magnitude (n + 1) with
    | none => exact digits_full hm
    | some d =>
        obtain ⟨n, -, hn⟩ := List.exists_of_findSome?_eq_some hfound
        exact digits_of_onGrid? (Interval.lower_pos (by omega)) hn

end Decimal

end Siteswap.Number
