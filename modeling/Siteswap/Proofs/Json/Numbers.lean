/-
Numbers of documents: what is written is read as one number.

A number ends where its lexeme ends, so what follows it matters: in a
document that is nothing, a separator or a closing bracket (`Ends`), and
none of them can be taken for one more digit, a fraction or an exponent.

- A whole number is read back as it is (`scalar?_writeInt`), if it has no
  more digits than may be read.
- A float is read as some float, the same whatever follows and whatever
  the limit (`scalar?_writeFloat`). Which one is the business of the shortest
  decimals; here it is the layout that counts. Of the four layouts only
  the one with zeros behind the digits could write a zero in front, and a
  shortest decimal does not (`Decimal.digits_shortest`).
-/
import Siteswap.Json.Lexeme
import Siteswap.Json.Writer
import Siteswap.Proofs.Number.Shortest

namespace Siteswap.Json

open Number (Decimal DigitLimit)

-- ================================================================= ends

/-- What may follow a value: nothing, a separator or a closing bracket. -/
def Ends : List Char → Prop
  | [] => True
  | c :: _ => c = ',' ∨ c = ']' ∨ c = '}'

/-- What does not continue a run of digits. -/
def NoDigit : List Char → Prop
  | [] => True
  | c :: _ => c.isDigit = false

theorem Ends.noDigit {s : List Char} (h : Ends s) : NoDigit s := by
  cases s with
  | nil => trivial
  | cons c s => rcases h with rfl | rfl | rfl <;> rfl

theorem Ends.fractionPart? {s : List Char} (h : Ends s) :
    fractionPart? s = none := by
  cases s with
  | nil => rfl
  | cons c s => rcases h with rfl | rfl | rfl <;> rfl

theorem Ends.exponentPart? {s : List Char} (h : Ends s) :
    exponentPart? s = none := by
  cases s with
  | nil => rfl
  | cons c s => rcases h with rfl | rfl | rfl <;> rfl

-- =============================================================== digits

/-- A run of digits is taken whole. -/
theorem digits?_append {ds rest : List Char} (hne : ds ≠ [])
    (hd : ∀ c ∈ ds, c.isDigit = true) (hrest : NoDigit rest) :
    digits? (ds ++ rest) = some (ds, rest) := by
  have hstop : rest.takeWhile Char.isDigit = []
      ∧ rest.dropWhile Char.isDigit = rest := by
    cases rest with
    | nil => exact ⟨rfl, rfl⟩
    | cons c rest =>
        have hc : c.isDigit = false := hrest
        simp [hc]
  unfold digits?
  rw [List.takeWhile_append_of_pos hd, List.dropWhile_append_of_pos hd,
    hstop.1, hstop.2, List.append_nil]
  exact if_neg hne

theorem isDigit_toDigits (n : Nat) : ∀ c ∈ Nat.toDigits 10 n, c.isDigit = true :=
  fun _ hc => Nat.isDigit_of_mem_toDigits (by decide) (by decide) hc

theorem decimalValue_toDigits (n : Nat) :
    decimalValue (Nat.toDigits 10 n) = n :=
  Nat.ofDigitChars_toDigits (by decide) (by decide)

/-- The digits of a whole number: a zero alone, or none in front. -/
def Whole (ds : List Char) : Prop :=
  (∀ c ∈ ds, c.isDigit = true)
    ∧ (ds = ['0'] ∨ ∃ c cs, ds = c :: cs ∧ c ≠ '0')

theorem whole_singleton {c : Char} (h : c.isDigit = true) : Whole [c] := by
  refine ⟨fun d hd => by rwa [List.mem_singleton.mp hd], ?_⟩
  by_cases h0 : c = '0'
  · exact .inl (by rw [h0])
  · exact .inr ⟨c, [], rfl, h0⟩

/-- Nothing but zero has a zero in front. -/
theorem toDigits_eq_cons {n : Nat} (h : n ≠ 0) :
    ∃ c cs, Nat.toDigits 10 n = c :: cs ∧ c ≠ '0' := by
  induction n using Nat.strongRecOn with
  | ind n ih =>
      by_cases hn : n < 10
      · rw [Nat.toDigits_of_lt_base hn]
        have hall : ∀ n < 10, n ≠ 0 → Nat.digitChar n ≠ '0' := by decide
        exact ⟨_, [], rfl, hall n hn h⟩
      · obtain ⟨c, cs, hcs, hc⟩ := ih (n / 10) (by omega) (by omega)
        rw [Nat.toDigits_of_base_le (by decide) (by omega), hcs]
        exact ⟨c, _, rfl, hc⟩

theorem whole_toDigits (n : Nat) : Whole (Nat.toDigits 10 n) := by
  refine ⟨isDigit_toDigits n, ?_⟩
  by_cases h : n = 0
  · exact .inl (by rw [h]; rfl)
  · exact .inr (toDigits_eq_cons h)

theorem wholePart?_append {ds rest : List Char} (h : Whole ds)
    (hrest : NoDigit rest) : wholePart? (ds ++ rest) = some (ds, rest) := by
  obtain ⟨hd, rfl | ⟨c, cs, rfl, hc⟩⟩ := h
  · rfl
  · rw [← digits?_append (List.cons_ne_nil c cs) hd hrest, List.cons_append,
      wholePart?]
    intro s heq
    injection heq with heq
    exact absurd heq hc

-- ========================================================= whole numbers

/-- No word begins as a number does. -/
theorem word?_of_isDigit {c : Char} (h : c.isDigit = true) (s : List Char) :
    word? (c :: s) = none ∧ word? ('-' :: c :: s) = none := by
  have hc : c ≠ 'n' ∧ c ≠ 't' ∧ c ≠ 'f' ∧ c ≠ 'N' ∧ c ≠ 'I' ∧ c ≠ '-' := by
    refine ⟨?_, ?_, ?_, ?_, ?_, ?_⟩ <;> rintro rfl <;> cases h
  obtain ⟨h1, h2, h3, h4, h5, h6⟩ := hc
  simp [word?, words, h1.symm, h2.symm, h3.symm, h4.symm, h5.symm, h6.symm]

theorem scalar?_of_unsigned? {digits : DigitLimit} {ds rest s : List Char}
    {negative : Bool} {v : Value} (hw : Whole ds)
    (h : unsigned? digits negative (ds ++ rest) = some (v, s)) :
    scalar? digits ((if negative then '-' :: ds else ds) ++ rest) = some (v, s) := by
  obtain ⟨c, cs, hcs⟩ : ∃ c cs, ds = c :: cs := by
    obtain ⟨-, rfl | ⟨c, cs, rfl, -⟩⟩ := hw
    · exact ⟨'0', [], rfl⟩
    · exact ⟨c, cs, rfl⟩
  have hc : c.isDigit = true := hw.1 c (by rw [hcs]; exact List.mem_cons_self)
  have hminus : c ≠ '-' := by
    rintro rfl
    cases hc
  have hquote : c ≠ '"' := by
    rintro rfl
    cases hc
  obtain ⟨hpos, hneg⟩ := word?_of_isDigit hc (cs ++ rest)
  subst hcs
  cases negative with
  | true =>
      show scalar? digits ('-' :: c :: (cs ++ rest)) = _
      rw [scalar?, hneg]
      · exact h
      · intro s heq
        cases heq
  | false =>
      show scalar? digits (c :: (cs ++ rest)) = _
      rw [scalar?, hpos]
      · rw [Option.none_or, number?]
        · exact h
        · intro s heq
          injection heq with heq
          exact absurd heq hminus
      · intro s heq
        injection heq with heq
        exact absurd heq hquote

/-- A whole number is read back, if it may be read. -/
theorem scalar?_writeInt {digits : DigitLimit} {n : Int}
    (hn : isShort n digits = true) {rest : List Char} (hrest : Ends rest) :
    scalar? digits (writeInt n ++ rest) = some (.int n, rest) := by
  unfold isShort at hn
  have hread : ∀ negative, unsigned? digits negative (Nat.toDigits 10 n.natAbs ++ rest)
      = some (.int (if negative then -n.natAbs else n.natAbs), rest) := by
    intro negative
    unfold unsigned?
    rw [wholePart?_append (whole_toDigits _) hrest.noDigit]
    simp only [Option.bind_eq_bind, Option.bind_some, hrest.fractionPart?,
      hrest.exponentPart?, hn, decimalValue_toDigits]
    rfl
  unfold writeInt
  split
  case isTrue h =>
    have hscalar := scalar?_of_unsigned? (whole_toDigits _) (hread true)
    rw [if_pos rfl, if_pos rfl, show -(n.natAbs : Int) = n by omega] at hscalar
    exact hscalar
  case isFalse h =>
    have hscalar := scalar?_of_unsigned? (whole_toDigits _) (hread false)
    rw [if_neg (by decide), if_neg (by decide),
      show (n.natAbs : Int) = n by omega] at hscalar
    exact hscalar

-- ================================================================ floats

/-- The digits of an exponent, two at least. -/
theorem exponentPart?_exponentText (e : Int) :
    ∃ k, ∀ rest, NoDigit rest →
      exponentPart? ('e' :: Decimal.exponentText e ++ rest) = some (k, rest) := by
  obtain ⟨ds, hne, hd, hds⟩ : ∃ ds, ds ≠ [] ∧ (∀ c ∈ ds, c.isDigit = true)
      ∧ Decimal.exponentText e = (if e < 0 then '-' else '+') :: ds := by
    refine ⟨_, ?_, ?_, rfl⟩
    · split
      · exact List.cons_ne_nil _ _
      · exact Nat.toDigits_ne_nil
    · have hdigits := isDigit_toDigits e.natAbs
      split
      · intro c hc
        rcases List.mem_cons.mp hc with rfl | hc
        · rfl
        · exact hdigits c hc
      · exact hdigits
  rw [hds]
  refine ⟨if e < 0 then -(decimalValue ds : Int) else decimalValue ds,
    fun rest hrest => ?_⟩
  have hread := digits?_append hne hd hrest
  by_cases he : e < 0
  · simp [exponentPart?, exponentDigits?, he, hread]
  · simp [exponentPart?, exponentDigits?, he, hread]

/-- A text that is read as one float under either sign, whatever the limit
and whatever follows, once its whole part `ds` is cut off. -/
def WritesFloat (ds tail : List Char) : Prop :=
  ∀ negative, ∃ x, ∀ digits rest, Ends rest →
    unsigned? digits negative (ds ++ (tail ++ rest)) = some (.float x, rest)

variable {ds fraction : List Char}

theorem writesFloat_fraction (hw : Whole ds) (hne : fraction ≠ [])
    (hd : ∀ c ∈ fraction, c.isDigit = true) :
    WritesFloat ds ('.' :: fraction) := by
  intro negative
  refine ⟨floatOf negative (decimalValue (ds ++ fraction)) (-fraction.length),
    fun digits rest hrest => ?_⟩
  unfold unsigned?
  rw [wholePart?_append hw (by exact rfl)]
  simp only [Option.bind_eq_bind, Option.bind_some, List.cons_append,
    fractionPart?, digits?_append hne hd hrest.noDigit, hrest.exponentPart?]
  rfl

theorem writesFloat_exponent (hw : Whole ds) (e : Int) :
    WritesFloat ds ('e' :: Decimal.exponentText e) := by
  intro negative
  obtain ⟨k, hk⟩ := exponentPart?_exponentText e
  refine ⟨floatOf negative (decimalValue ds) k, fun digits rest hrest => ?_⟩
  unfold unsigned?
  rw [wholePart?_append hw (by exact rfl)]
  simp only [Option.bind_eq_bind, Option.bind_some, hk rest hrest.noDigit]
  rfl

theorem writesFloat_both (hw : Whole ds) (hne : fraction ≠ [])
    (hd : ∀ c ∈ fraction, c.isDigit = true) (e : Int) :
    WritesFloat ds ('.' :: fraction ++ 'e' :: Decimal.exponentText e) := by
  intro negative
  obtain ⟨k, hk⟩ := exponentPart?_exponentText e
  refine ⟨floatOf negative (decimalValue (ds ++ fraction)) (k - fraction.length),
    fun digits rest hrest => ?_⟩
  unfold unsigned?
  rw [wholePart?_append hw (by exact rfl), List.append_assoc]
  have hread : digits? (fraction ++ ('e' :: Decimal.exponentText e ++ rest))
      = some (fraction, 'e' :: Decimal.exponentText e ++ rest) :=
    digits?_append hne hd (by exact rfl)
  simp only [Option.bind_eq_bind, Option.bind_some, List.cons_append,
    fractionPart?] at hread ⊢
  rw [hread]
  have hk' := hk rest hrest.noDigit
  rw [List.cons_append] at hk'
  simp only [hk']
  rfl

theorem isDigit_replicate_zero (n : Nat) :
    ∀ c ∈ List.replicate n '0', c.isDigit = true := by
  intro c hc
  rw [List.eq_of_mem_replicate hc]
  rfl

/-- Digits with zeros behind them have none in front, unless they are those
of zero. -/
theorem whole_toDigits_append {n k : Nat} (h : n = 0 → k = 0) :
    Whole (Nat.toDigits 10 n ++ List.replicate k '0') := by
  by_cases hn : n = 0
  · rw [hn, h hn]
    exact whole_singleton rfl
  · obtain ⟨c, cs, hcs, hc⟩ := toDigits_eq_cons hn
    refine ⟨fun x hx => ?_, .inr ⟨c, cs ++ List.replicate k '0', by simp [hcs], hc⟩⟩
    rcases List.mem_append.mp hx with hx | hx
    · exact isDigit_toDigits n x hx
    · exact isDigit_replicate_zero k x hx

theorem Whole.take {cs : List Char} (h : Whole cs) {n : Nat} (hn : 0 < n) :
    Whole (cs.take n) := by
  refine ⟨fun c hc => h.1 c (List.mem_of_mem_take hc), ?_⟩
  obtain ⟨n, rfl⟩ := Nat.exists_eq_succ_of_ne_zero (Nat.ne_of_gt hn)
  rcases h.2 with rfl | ⟨c, cs, rfl, hc⟩
  · exact .inl (by simp)
  · exact .inr ⟨c, cs.take n, by simp, hc⟩

/-- The text of a decimal without zeros in front is read as a float. -/
theorem writesFloat_text {d : Decimal} (h0 : d.digits = 0 → d.exponent = 0) :
    ∃ ds tail, d.text = ds ++ tail ∧ Whole ds ∧ WritesFloat ds tail := by
  have hdigits := isDigit_toDigits d.digits
  have hwhole := whole_toDigits d.digits
  unfold Decimal.text
  simp only
  split
  case isTrue =>
    -- one digit, the others behind a point, and an exponent
    refine ⟨_, _, List.append_assoc _ _ _, hwhole.take Nat.one_pos, ?_⟩
    split
    case isTrue => exact writesFloat_exponent (hwhole.take Nat.one_pos) _
    case isFalse hlen =>
      refine writesFloat_both (hwhole.take Nat.one_pos) ?_
        (fun c hc => hdigits c (List.mem_of_mem_drop hc)) _
      have hpos : 0 < (Nat.toDigits 10 d.digits).length := Nat.length_toDigits_pos
      rw [ne_eq, List.drop_eq_nil_iff]
      omega
  case isFalse =>
    split
    case isTrue =>
      -- all digits, zeros up to the point, and a zero behind it
      have hw := whole_toDigits_append (n := d.digits) (k := d.exponent.toNat)
        (fun hn => by rw [h0 hn]; rfl)
      exact ⟨_, ['.', '0'], rfl, hw,
        writesFloat_fraction hw (List.cons_ne_nil _ _) (isDigit_replicate_zero 1)⟩
    case isFalse =>
      split
      case isTrue =>
        -- a point between the digits
        have hw := hwhole.take (n := (d.exponent
          + (Nat.toDigits 10 d.digits).length - 1).toNat + 1) (Nat.succ_pos _)
        refine ⟨_, _, rfl, hw, writesFloat_fraction hw ?_
          (fun c hc => hdigits c (List.mem_of_mem_drop hc))⟩
        rw [ne_eq, List.drop_eq_nil_iff]
        omega
      case isFalse =>
        -- zeros between the point and the digits
        refine ⟨['0'], _, rfl, whole_singleton rfl,
          writesFloat_fraction (whole_singleton rfl) ?_ ?_⟩
        · simp
        · intro c hc
          rcases List.mem_append.mp hc with hc | hc
          · exact isDigit_replicate_zero _ c hc
          · exact hdigits c hc

/-- The words for what is no finite float are read as floats. -/
theorem scalar?_word {w : List Char}
    (h : w = "NaN".toList ∨ w = "-Infinity".toList ∨ w = "Infinity".toList) :
    ∃ x, ∀ digits rest, scalar? digits (w ++ rest) = some (.float x, rest) := by
  rcases h with rfl | rfl | rfl
  · exact ⟨_, fun _ _ => rfl⟩
  · exact ⟨_, fun _ _ => rfl⟩
  · exact ⟨_, fun _ _ => rfl⟩

/-- A float is read as a float, the same whatever follows. -/
theorem scalar?_writeFloat (x : Float) :
    ∃ y, ∀ digits rest, Ends rest →
      scalar? digits (writeFloat x ++ rest) = some (.float y, rest) := by
  unfold writeFloat
  split
  case h_1 p _ =>
    obtain ⟨ds, tail, htext, hw, hread⟩ :=
      writesFloat_text (Decimal.digits_shortest (p := p))
    obtain ⟨y, hy⟩ := hread p.negative
    refine ⟨y, fun digits rest hrest => ?_⟩
    rw [← scalar?_of_unsigned? hw (hy digits rest hrest), htext]
    simp only
    split <;> simp
  case h_2 =>
    obtain ⟨y, hy⟩ := scalar?_word (w := if x.isNaN then "NaN".toList
      else if x < 0 then "-Infinity".toList else "Infinity".toList) (by
        split
        · exact .inl rfl
        · split
          · exact .inr (.inl rfl)
          · exact .inr (.inr rfl))
    exact ⟨y, fun digits rest _ => hy digits rest⟩

end Siteswap.Json
