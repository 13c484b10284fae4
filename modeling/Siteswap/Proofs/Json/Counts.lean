/-
Lenient reading: what it stops at, and what comes of it.

- A value has no count for many reasons, but only an infinity for the
  reason that it has no end (`count_eq_infinite_iff`). Among the counts of an
  object it shows if all fields before it have counts
  (`counts_eq_infinite_iff`); lists and maps never show it
  (`map_ne_infinite`).
- All counts may be written (`isShort_of_count`): a text has no more digits
  than may be read, and a float ends below `2 ^ 1024`.
- The parts that lists and maps are made of have a level less than what
  they are taken from (`fits_of_items`, `fits_of_map`).
-/
import Mathlib.Algebra.Order.Ring.Rat
import Mathlib.Tactic.Linarith
import Siteswap.Json.Lenient
import Siteswap.Proofs.Json.Levels
import Siteswap.Proofs.Results

namespace Siteswap.Json

open Number (DigitLimit)

namespace Value

variable {digits : DigitLimit}

-- ========================================================= without end

/-- Whether a value is an infinity. -/
def isInfinite : Value → Bool
  | float x => (Number.rational? x).isNone && !x.isNaN
  | _ => false

theorem count_eq_infinite_iff {v : Value} :
    v.count digits = .error .infiniteCount ↔ v.isInfinite = true := by
  unfold count isInfinite
  cases v with
  | float x =>
      cases hq : Number.rational? x with
      | some q => simp [hq]
      | none => simp [hq]
  | text s =>
      cases hs : Number.wholeNumber s.chars digits with
      | ok n => simp [hs]
      | error e => cases e <;> simp [hs]
  | _ => simp

/-- The first field without a count decides why an object has none. -/
theorem counts_eq_infinite_iff {v : Value} :
    v.counts digits = .error .infiniteCount
      ↔ ∃ before name w after, v = .object (before ++ (name, w) :: after)
        ∧ (∀ f ∈ before, ∃ n, f.2.count digits = .ok n) ∧ w.isInfinite = true := by
  cases v with
  | object fields =>
      rw [counts, mapM_eq_error_iff]
      constructor
      · rintro ⟨before, ⟨name, w⟩, after, rfl, hbefore, hw⟩
        refine ⟨before, name, w, after, rfl, fun f hf => ?_, ?_⟩
        · obtain ⟨c, hc⟩ := hbefore f hf
          obtain ⟨n, hn, -⟩ := map_eq_ok hc
          exact ⟨n, hn⟩
        · exact count_eq_infinite_iff.mp (map_eq_error_iff.mp hw)
      · rintro ⟨before, name, w, after, hfields, hbefore, hw⟩
        cases hfields
        refine ⟨before, (name, w), after, rfl, fun f hf => ?_, ?_⟩
        · obtain ⟨n, hn⟩ := hbefore f hf
          exact ⟨(f.1, n), by rw [hn]; rfl⟩
        · exact map_eq_error_iff.mpr (count_eq_infinite_iff.mpr hw)
  | _ => simp [counts]

theorem items_ne_infinite (v : Value) : v.items ≠ .error .infiniteCount := by
  cases v <;> simp [items]

theorem pair_ne_infinite (index : Nat) (v : Value) :
    v.pair index ≠ .error .infiniteCount := by
  unfold pair
  split
  case h_1 => nofun
  case h_2 =>
    split
    case h_1 => nofun
    case h_2 => nofun
  case h_3 => nofun

theorem pairsFrom_ne_infinite (index : Nat) (vs : List Value) :
    pairsFrom index vs ≠ .error .infiniteCount := by
  induction vs generalizing index with
  | nil => nofun
  | cons v vs ih =>
      intro h
      rw [pairsFrom] at h
      rcases bind_eq_error h with h | ⟨p, -, h⟩
      · exact pair_ne_infinite index v h
      · rcases bind_eq_error h with h | ⟨ps, -, h⟩
        · exact ih _ h
        · cases h

theorem map_ne_infinite (v : Value) : v.map ≠ .error .infiniteCount := by
  intro h
  unfold map at h
  split at h
  case h_1 => cases h
  case h_2 =>
    rcases bind_eq_error h with h | ⟨vs, -, h⟩
    · exact items_ne_infinite _ h
    · rcases bind_eq_error h with h | ⟨ps, -, h⟩
      · exact pairsFrom_ne_infinite 0 vs h
      · cases h

-- ================================================================ digits

/-- A decimal digit of any script is less than ten. -/
theorem lt_ten_of_digit? {c : Char} {d : Nat} (h : Number.digit? c = some d) : d < 10 := by
  unfold Number.digit? at h
  obtain ⟨z, hz, rfl⟩ := Option.map_eq_some_iff.mp h
  have hrange := List.find?_some hz
  rw [Bool.and_eq_true, decide_eq_true_eq, decide_eq_true_eq] at hrange
  omega

theorem isShort_of_unsigned {s : List Char} {n : Nat} (negative : Bool)
    (h : Number.unsigned digits s = .ok n) :
    isShort (if negative then -(n : Int) else n) digits = true := by
  unfold Number.unsigned at h
  simp only at h
  split at h
  case isTrue => cases h
  case isFalse =>
    split at h
    case isTrue => cases h
    case isFalse hallowed =>
      split at h
      case isTrue => cases h
      case isFalse =>
        injection h with h
        have hdigits : ∀ d ∈ (s.takeWhile Number.isFigure).filterMap Number.digit?,
            d < 10 := by
          intro d hd
          obtain ⟨c, -, hc⟩ := List.mem_filterMap.mp hd
          exact lt_ten_of_digit? hc
        have hlt := foldl_digits_lt hdigits
        rw [h] at hlt
        have habs : (if negative then -(n : Int) else n).natAbs = n := by
          split <;> omega
        exact isShort_of_lt (habs ▸ hlt) (by simpa using hallowed)

theorem isShort_of_wholeNumber {s : List Char} {n : Int}
    (h : Number.wholeNumber s digits = .ok n) : isShort n digits = true := by
  unfold Number.wholeNumber Number.signed at h
  split at h
  case h_1 =>
    obtain ⟨m, hm, rfl⟩ := map_eq_ok h
    obtain ⟨k, hk, hm⟩ := bind_eq_ok hm
    cases hm
    exact isShort_of_unsigned true hk
  case h_2 =>
    obtain ⟨m, hm, rfl⟩ := map_eq_ok h
    exact isShort_of_unsigned false hm
  case h_3 =>
    obtain ⟨m, hm, rfl⟩ := map_eq_ok h
    exact isShort_of_unsigned false hm

theorem overflow_eq_natCast : Number.overflow = (2 ^ 1024 : Nat) := by
  rw [Nat.cast_pow]
  exact zpow_natCast 2 1024

/-- A finite float has 53 bits, of which the last is at most the 971st. -/
theorem parts_bounds {x : Float} {p : Number.Parts} (h : Number.Parts.ofFloat? x = some p) :
    p.mantissa < 2 ^ 53 ∧ p.exponent ≤ 971 := by
  have hfraction : x.toBits.toNat % Number.leadingOne < Number.leadingOne :=
    Nat.mod_lt _ (by decide)
  have hone : Number.leadingOne = 2 ^ 52 := by decide
  unfold Number.Parts.ofFloat? at h
  simp only at h
  split at h
  case isTrue => cases h
  case isFalse =>
    split at h
    all_goals
      cases h
      simp only
      omega

theorem magnitude_lt {x : Float} {p : Number.Parts} (h : Number.Parts.ofFloat? x = some p) :
    p.magnitude < Number.overflow := by
  obtain ⟨hmantissa, hexponent⟩ := parts_bounds h
  unfold Number.Parts.magnitude Number.scaled
  have hpow : (2 : Rat) ^ p.exponent ≤ 2 ^ (971 : Int) :=
    zpow_le_zpow_right₀ (by norm_num) hexponent
  have hcast : (p.mantissa : Rat) < 2 ^ (53 : Int) := by exact_mod_cast hmantissa
  calc (p.mantissa : Rat) * 2 ^ p.exponent ≤ p.mantissa * 2 ^ (971 : Int) :=
        mul_le_mul_of_nonneg_left hpow (Nat.cast_nonneg _)
    _ < 2 ^ (53 : Int) * 2 ^ (971 : Int) :=
        mul_lt_mul_of_pos_right hcast (zpow_pos (by norm_num) 971)
    _ = Number.overflow := (zpow_add₀ (by norm_num) 53 971).symm

theorem natAbs_wholePart_lt {q : Rat} {n : Nat} (hlow : -(n : Rat) < q) (hhigh : q < n) :
    (wholePart q).natAbs < n := by
  have hfloor : ∀ r : Rat, 0 ≤ r → r < n → 0 ≤ r.floor ∧ r.floor < n := by
    intro r hr hlt
    refine ⟨Rat.le_floor_iff.mpr (by exact_mod_cast hr), ?_⟩
    exact_mod_cast (Rat.floor_le r).trans_lt hlt
  unfold wholePart
  split
  case isTrue hneg =>
    have hq := hfloor (-q) (by linarith) (by linarith)
    omega
  case isFalse hpos =>
    have hq := hfloor q (by linarith) hhigh
    omega

/-- A number has no more decimal digits than binary ones. -/
theorem isShort_of_lt_two_pow {n : Int} {k : Nat} (h : n.natAbs < 2 ^ k)
    (hallowed : digits.allows k = true) : isShort n digits = true :=
  isShort_of_lt (Nat.lt_of_lt_of_le h (Nat.pow_le_pow_left (by decide) k)) hallowed

theorem isShort_wholePart {x : Float} {q : Rat} (h : Number.rational? x = some q) :
    isShort (wholePart q) digits = true := by
  obtain ⟨p, hp, rfl⟩ := Option.map_eq_some_iff.mp h
  have hlt := magnitude_lt hp
  have hpos : 0 ≤ p.magnitude :=
    mul_nonneg (Nat.cast_nonneg _) (zpow_nonneg (by norm_num) _)
  have habs : (wholePart p.value).natAbs < 2 ^ 1024 := by
    apply natAbs_wholePart_lt
    all_goals
      rw [← overflow_eq_natCast]
      unfold Number.Parts.value
      split <;> linarith
  exact isShort_of_lt_two_pow habs (by cases digits <;> rfl)

/-- Every count may be written, if the value may. -/
theorem isShort_of_count {v : Value} {n : Int} (hv : v.isWritable digits = true)
    (h : v.count digits = .ok n) : isShort n digits = true := by
  unfold count at h
  split at h
  case h_1 =>
    cases h
    exact hv
  case h_2 b =>
    cases h
    cases digits <;> cases b <;> rfl
  case h_3 x =>
    split at h
    case h_1 q hq =>
      cases h
      exact isShort_wholePart hq
    case h_2 => cases h
  case h_4 s =>
    split at h
    case h_1 m hm =>
      cases h
      exact isShort_of_wholeNumber hm
    case h_2 => cases h
    case h_3 => cases h
  case h_5 => cases h

theorem isShort_of_counts {v : Value} {catches : Entries Points Int}
    (hv : v.isWritable digits = true) (h : v.counts digits = .ok catches) :
    ∀ e ∈ catches, isShort e.2 digits = true := by
  cases v with
  | object fields =>
      rw [isWritable, fieldsWritable_iff] at hv
      intro e he
      obtain ⟨f, hf, he⟩ := mem_of_mem_mapM h he
      obtain ⟨n, hn, rfl⟩ := map_eq_ok he
      exact isShort_of_count (hv f hf) hn
  | _ => cases h

-- ================================================================= parts

variable {room : Nat}

theorem fits_of_items {v : Value} {vs : List Value} (hv : v.Fits digits (room + 1))
    (h : v.items = .ok vs) : ∀ w ∈ vs, w.Fits digits room := by
  unfold items at h
  split at h
  case h_1 =>
    cases h
    exact fits_array_iff.mp hv
  case h_2 =>
    cases h
    intro w hw
    obtain ⟨c, -, rfl⟩ := List.mem_map.mp hw
    exact fits_text _
  case h_3 =>
    cases h
    intro w hw
    obtain ⟨f, -, rfl⟩ := List.mem_map.mp hw
    exact fits_text _
  case h_4 => cases h

theorem fits_of_pair {index : Nat} {v : Value} {p : Key × Value}
    (hv : v.Fits digits (room + 1)) (h : v.pair index = .ok p) : p.2.Fits digits room := by
  unfold pair at h
  split at h
  case h_1 => cases h
  case h_2 k w hitems =>
    split at h
    case h_1 =>
      cases h
      exact fits_of_items hv hitems w (by simp)
    case h_2 => cases h
  case h_3 => cases h

theorem fits_of_pairsFrom {index : Nat} {vs : List Value} {ps : List (Key × Value)}
    (hvs : ∀ v ∈ vs, v.Fits digits (room + 1)) (h : pairsFrom index vs = .ok ps) :
    ∀ p ∈ ps, p.2.Fits digits room := by
  induction vs generalizing index ps with
  | nil =>
      cases h
      nofun
  | cons v vs ih =>
      rw [pairsFrom] at h
      obtain ⟨p, hp, h⟩ := bind_eq_ok h
      obtain ⟨qs, hqs, h⟩ := bind_eq_ok h
      cases h
      obtain ⟨hv, hvs⟩ := List.forall_mem_cons.mp hvs
      exact List.forall_mem_cons.mpr ⟨fits_of_pair hv hp, ih hvs hqs⟩

theorem fits_of_map {v : Value} {es : Entries Key Value} (hv : v.Fits digits (room + 1))
    (h : v.map = .ok es) : ∀ e ∈ es, e.2.Fits digits room := by
  unfold map at h
  split at h
  case h_1 fields =>
    cases h
    intro e he
    obtain ⟨f, hf, rfl⟩ := List.mem_map.mp he
    exact fits_object_iff.mp hv f hf
  case h_2 =>
    obtain ⟨vs, hvs, h⟩ := bind_eq_ok h
    obtain ⟨ps, hps, h⟩ := bind_eq_ok h
    cases h
    intro e he
    have hparts := fits_of_pairsFrom
      (fun w hw => (fits_of_items hv hvs w hw).mono (Nat.le_succ room)) hps
    obtain ⟨p, hp, hvalue⟩ := List.mem_map.mp (Entries.mem_of_mem_ofPairs he)
    rw [← hvalue]
    exact hparts p hp

end Value

end Siteswap.Json
