/-
Strings of documents: what is written is read back.

Every point is written on its own: a character as itself, by a short escape
or by one or two escaped UTF-16 units, half a character by its unit. Reading
goes two steps, first to pieces and then to a string, and so does the proof:
what a point is written as comes back as its pieces (`pieces?_escaped`), and
the pieces of some points join as the points themselves do
(`joined_flatMap_pieces`). The second step is where a half could join a half
behind it by mistake. It cannot: what begins with a second half was one, and
no string has it behind a first half. `scalar?_writeString` puts the two
together, for all strings.
-/
import Siteswap.Json.Lexeme
import Siteswap.Json.Writer

namespace Siteswap.Json

-- ========================================================== hexadecimals

theorem hexValue?_digitChar {d : Nat} (h : d < 16) :
    hexValue? (Nat.digitChar d) = some d := by
  have hall : ∀ d < 16, hexValue? (Nat.digitChar d) = some d := by decide
  exact hall d h

/-- Four digits write a unit. -/
theorem unit?_hexDigits {n : Nat} (h : n < 0x10000) :
    ∃ a b c d, Text.hexDigits 4 n = [a, b, c, d]
      ∧ unit? a b c d = some n := by
  refine ⟨_, _, _, _, rfl, ?_⟩
  unfold unit?
  rw [hexValue?_digitChar (by omega), hexValue?_digitChar (by omega),
    hexValue?_digitChar (by omega), hexValue?_digitChar (by omega)]
  show some _ = some n
  rw [Option.some.injEq]
  omega

theorem pieces?_escapedUnit {n : Nat} (h : n < 0x10000) {rest after : List Char}
    {ps : List Point} (hrest : pieces? rest = some (ps, after)) :
    pieces? (escapedUnit n ++ rest) = some (.ofUnit n :: ps, after) := by
  obtain ⟨a, b, c, d, hdigits, hunit⟩ := unit?_hexDigits h
  unfold escapedUnit
  rw [hdigits]
  show pieces? ('\\' :: 'u' :: a :: b :: c :: d :: rest) = _
  rw [pieces?, hunit, hrest]
  rfl

-- ================================================================= units

namespace Point

theorem ofUnit_high (i : Fin 0x400) : ofUnit (0xD800 + i) = high i := by
  unfold ofUnit
  rw [dif_pos (by omega)]
  exact congrArg high (Fin.ext (Nat.add_sub_cancel_left ..))

theorem ofUnit_low (j : Fin 0x400) : ofUnit (0xDC00 + j) = low j := by
  unfold ofUnit
  rw [dif_neg (by omega), dif_pos (by omega)]
  exact congrArg low (Fin.ext (Nat.add_sub_cancel_left ..))

/-- Characters are code points without the surrogates. -/
theorem toNat_valid (c : Char) :
    c.toNat < 0xD800 ∨ (0xDFFF < c.toNat ∧ c.toNat < 0x110000) :=
  c.valid

theorem ofUnit_toNat (c : Char) : ofUnit c.toNat = char c := by
  have hvalid := toNat_valid c
  unfold ofUnit
  rw [dif_neg (by omega), dif_neg (by omega), Char.ofNat_toNat]

-- ================================================================ pieces

/-- The pieces that a written point is read as. -/
def pieces : Point → List Point
  | char c =>
    if c.toNat < 0x10000 then [char c]
    else [ofUnit (0xD800 + (c.toNat - 0x10000) / 0x400),
      ofUnit (0xDC00 + (c.toNat - 0x10000) % 0x400)]
  | p => [p]

/-- A character beyond those of one unit is written by a pair. -/
theorem pieces_of_le {c : Char} (h : 0x10000 ≤ c.toNat) :
    ∃ i j, (char c).pieces = [high i, low j] ∧ pair i j = char c := by
  have hvalid := toNat_valid c
  obtain ⟨i, hi⟩ : ∃ i : Fin 0x400, i.val = (c.toNat - 0x10000) / 0x400 :=
    ⟨⟨_, by omega⟩, rfl⟩
  obtain ⟨j, hj⟩ : ∃ j : Fin 0x400, j.val = (c.toNat - 0x10000) % 0x400 :=
    ⟨⟨_, by omega⟩, rfl⟩
  refine ⟨i, j, ?_, ?_⟩
  · rw [pieces, if_neg (by omega), ← hi, ← hj, ofUnit_high, ofUnit_low]
  · have hback : 0x10000 + i * 0x400 + j = c.toNat := by omega
    rw [pair, hback, Char.ofNat_toNat]

end Point

/-- The characters that have a short escape, and what stands for them. -/
theorem unescaped?_of_shortEscape? {c e : Char} (h : shortEscape? c = some e) :
    e ≠ 'u' ∧ c.toNat < 0x10000 ∧ unescaped? e = some c := by
  unfold shortEscape? at h
  repeat' split at h
  all_goals cases h
  all_goals subst_vars
  all_goals decide

theorem pieces?_shortEscape {c e : Char} (h : shortEscape? c = some e)
    {rest after : List Char} {ps : List Point}
    (hrest : pieces? rest = some (ps, after)) :
    pieces? ('\\' :: e :: rest) = some (.char c :: ps, after) := by
  obtain ⟨hu, -, hc⟩ := unescaped?_of_shortEscape? h
  rw [pieces?, hc, hrest]
  · rfl
  · intro a b c d rest' heq
    exact absurd heq hu

theorem pieces?_plain {c : Char} (h : shortEscape? c = none)
    (hlo : 0x20 ≤ c.toNat) {rest after : List Char} {ps : List Point}
    (hrest : pieces? rest = some (ps, after)) :
    pieces? (c :: rest) = some (.char c :: ps, after) := by
  have hquote : c ≠ '"' := by
    rintro rfl
    cases h
  have hslash : c ≠ '\\' := by
    rintro rfl
    cases h
  rw [pieces?, if_neg (not_or.mpr ⟨by omega, hslash⟩), hrest]
  · rfl
  all_goals simp_all

/-- A written character is read as its pieces. -/
theorem pieces?_escaped_char (c : Char) {rest after : List Char} {ps : List Point}
    (hrest : pieces? rest = some (ps, after)) :
    pieces? (escaped c ++ rest) = some ((Point.char c).pieces ++ ps, after) := by
  have hvalid := Point.toNat_valid c
  unfold escaped Point.pieces
  cases he : shortEscape? c with
  | some e =>
      simp only
      rw [if_pos (unescaped?_of_shortEscape? he).2.1]
      exact pieces?_shortEscape he hrest
  | none =>
      simp only
      split
      case isTrue hplain =>
        rw [if_pos (by omega)]
        exact pieces?_plain he hplain.1 hrest
      case isFalse =>
        split
        case isTrue hone =>
          rw [← Point.ofUnit_toNat]
          exact pieces?_escapedUnit hone hrest
        case isFalse =>
          rw [List.append_assoc]
          exact pieces?_escapedUnit (by omega)
            (pieces?_escapedUnit (by omega) hrest)

/-- A written point is read as its pieces. -/
theorem pieces?_escaped (p : Point) {rest after : List Char} {ps : List Point}
    (hrest : pieces? rest = some (ps, after)) :
    pieces? (p.escaped ++ rest) = some (p.pieces ++ ps, after) := by
  cases p with
  | char c => exact pieces?_escaped_char c hrest
  | high i =>
      have hunit := pieces?_escapedUnit (n := 0xD800 + i) (by omega) hrest
      rwa [Point.ofUnit_high] at hunit
  | low j =>
      have hunit := pieces?_escapedUnit (n := 0xDC00 + j) (by omega) hrest
      rwa [Point.ofUnit_low] at hunit

theorem pieces?_flatMap_escaped (ps : List Point) (rest : List Char) :
    pieces? (ps.flatMap Point.escaped ++ '"' :: rest)
      = some (ps.flatMap Point.pieces, rest) := by
  induction ps with
  | nil => rfl
  | cons p ps ih =>
      rw [List.flatMap_cons, List.flatMap_cons, List.append_assoc]
      exact pieces?_escaped p ih

-- =============================================================== joining

/-- The pieces of a character join to it, whatever follows. -/
theorem joined_pieces_char (c : Char) (ps : List Point) :
    joined ((Point.char c).pieces ++ ps) = .char c :: joined ps := by
  by_cases h : c.toNat < 0x10000
  · rw [Point.pieces, if_pos h]
    exact joined_char c ps
  · obtain ⟨i, j, hpieces, hpair⟩ := Point.pieces_of_le (Nat.le_of_not_lt h)
    rw [hpieces, ← hpair]
    exact joined.eq_1 i j ps

/-- The pieces of some points begin with a second half only if the points
do. -/
theorem flatMap_pieces_ne_low {ps : List Point} (h : ∀ j rest, ps ≠ .low j :: rest)
    (j : Fin 0x400) (rest : List Point) : ps.flatMap Point.pieces ≠ .low j :: rest := by
  cases ps with
  | nil => nofun
  | cons p ps =>
      rw [List.flatMap_cons]
      cases p with
      | char c =>
          by_cases hc : c.toNat < 0x10000
          · rw [Point.pieces, if_pos hc]
            nofun
          · obtain ⟨i, k, hpieces, -⟩ := Point.pieces_of_le (Nat.le_of_not_lt hc)
            rw [hpieces]
            nofun
      | high i => nofun
      | low k => exact absurd rfl (h k ps)

/-- The pieces of some points join as the points do. -/
theorem joined_flatMap_pieces (ps : List Point) :
    joined (ps.flatMap Point.pieces) = joined ps := by
  fun_induction joined ps with
  | case1 i j rest ih =>
      show joined (.high i :: .low j :: rest.flatMap Point.pieces) = _
      rw [joined, ih]
  | case2 p rest halone ih =>
      rw [List.flatMap_cons]
      cases p with
      | char c => rw [joined_pieces_char, ih]
      | low j => exact (joined_low j _).trans (congrArg _ ih)
      | high i =>
          have hrest := flatMap_pieces_ne_low fun j rest' heq => halone i j rest' rfl heq
          exact (joined_high hrest).trans (congrArg _ ih)
  | case3 => rfl

-- =============================================================== strings

/-- A written string is read back, whatever follows. -/
theorem scalar?_writeString (digits : Number.DigitLimit) (s : Points)
    (rest : List Char) :
    scalar? digits (writeString s ++ rest) = some (.text s, rest) := by
  have hwrite : writeString s ++ rest
      = '"' :: (s.points.flatMap Point.escaped ++ '"' :: rest) := by
    unfold writeString
    simp
  have hjoin : Points.join (s.points.flatMap Point.pieces) = s := by
    cases s with
    | mk points apart =>
        rw [Points.join, Points.mk.injEq, joined_flatMap_pieces]
        exact apart
  rw [hwrite, scalar?, string?, pieces?_flatMap_escaped]
  simp only [Option.map_some, hjoin]

end Siteswap.Json
