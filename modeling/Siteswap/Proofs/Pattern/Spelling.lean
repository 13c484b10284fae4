/-
Spelling: sequences as text, and async text as sequences.

Every height in range has one letter and every letter one height, so
writing a sequence and reading it back changes nothing (`read_text`), and
what is read as an async pattern is spelled by its throws
(`normalText_of_async`). Together: an async pattern is its sequence, and
two sequences with one text are equal (`text_injective`).

The standard alphabet is a list of 36 characters. What holds of each of
them is checked letter by letter; all else follows by induction on the
text. One such thing is that the characters of the notation are small and
none is white space: a text of them is read as it stands
(`read_of_isNotation`), in every dialect.
-/
import Mathlib.Data.List.Basic
import Siteswap.Pattern.Reader

namespace Siteswap

namespace Alphabet

-- ============================================================== letters

/-- The place that is found holds the letter. -/
theorem getElem?_of_lastIndex? {c : Char} {letters : List Char} {i : Nat}
    (h : lastIndex? c letters = some i) : letters[i]? = some c := by
  induction letters generalizing i with
  | nil => cases h
  | cons l ls ih =>
      unfold lastIndex? at h
      split at h
      case h_1 j hj =>
        rw [Option.some.injEq] at h
        rw [← h, List.getElem?_cons_succ]
        exact ih hj
      case h_2 =>
        split at h
        case isTrue hl =>
          rw [Option.some.injEq] at h
          rw [← h, List.getElem?_cons_zero, hl]
        case isFalse => cases h

/-- Letters are the characters of the alphabet. -/
theorem isLetter_iff_mem (c : Char) :
    isLetter c = true ↔ c ∈ standard.letters := by
  constructor
  · intro h
    obtain ⟨i, hi⟩ := Option.isSome_iff_exists.mp h
    exact List.mem_of_getElem? (getElem?_of_lastIndex? hi)
  · have hall : standard.letters.all isLetter = true := by decide
    exact List.all_eq_true.mp hall c

/-- Each letter is small, no white space and no bracket. -/
theorem letter_plain {c : Char} (h : isLetter c = true) :
    Text.lowerChar c = [c] ∧ Text.isBlank c = false
      ∧ c ≠ '(' ∧ c ≠ ')' ∧ c ≠ '[' ∧ c ≠ ']' := by
  have hall : (standard.letters.all fun c =>
      Text.lowerChar c = [c] ∧ Text.isBlank c = false
        ∧ c ≠ '(' ∧ c ≠ ')' ∧ c ≠ '[' ∧ c ≠ ']') = true := by decide
  have hc := List.all_eq_true.mp hall c ((isLetter_iff_mem c).mp h)
  exact of_decide_eq_true hc

end Alphabet

namespace Sequence

open Alphabet (isLetter standard maxHeight)

/-- The letter of a height stands for it. -/
theorem index?_letter {h : Int} (hlo : 0 ≤ h) (hhi : h ≤ maxHeight) :
    standard.index? (letter h) = some h.toNat := by
  have hall : ∀ i < 36,
      standard.index? (letter (Int.ofNat i)) = some i := by decide
  have hlt : h.toNat < 36 := by
    unfold maxHeight at hhi
    omega
  have hi := hall h.toNat hlt
  rw [Int.ofNat_eq_natCast, Int.toNat_of_nonneg hlo] at hi
  exact hi

/-- The height of a letter is written with it. -/
theorem letter_of_index? {c : Char} {i : Nat}
    (h : standard.index? c = some i) : letter (Int.ofNat i) = c := by
  have hget := Alphabet.getElem?_of_lastIndex? h
  unfold letter
  rw [Int.ofNat_eq_natCast, Int.toNat_natCast, List.getD_eq_getElem?_getD,
    hget, Option.getD_some]

theorem isLetter_letter {h : Int} (hlo : 0 ≤ h) (hhi : h ≤ maxHeight) :
    isLetter (letter h) = true := by
  unfold Alphabet.isLetter
  rw [index?_letter hlo hhi, Option.isSome_some]

/-- Different heights have different letters. -/
theorem eq_of_letter_eq {h k : Int} (hh : 0 ≤ h ∧ h ≤ maxHeight)
    (hk : 0 ≤ k ∧ k ≤ maxHeight) (heq : letter h = letter k) : h = k := by
  have hindex := index?_letter hh.1 hh.2
  rw [heq, index?_letter hk.1 hk.2, Option.some.injEq] at hindex
  omega

/-- Letters stand in the order of their heights. -/
theorem letter_lt_letter {h k : Int} (hlo : 0 ≤ h) (hlt : h < k)
    (hhi : k ≤ maxHeight) : letter h < letter k := by
  have hall : standard.letters.Pairwise (· < ·) := by decide
  have hk : k.toNat < standard.letters.length := by
    show k.toNat < 36
    unfold maxHeight at hhi
    omega
  have hh : h.toNat < k.toNat := by omega
  unfold letter
  simp only [List.getD_eq_getElem?_getD, List.getElem?_eq_getElem hk,
    List.getElem?_eq_getElem (Nat.lt_trans hh hk), Option.getD_some]
  exact List.pairwise_iff_getElem.mp hall _ _ (Nat.lt_trans hh hk) hk hh

theorem letter_lt_letter_iff {h k : Int} (hh : 0 ≤ h ∧ h ≤ maxHeight)
    (hk : 0 ≤ k ∧ k ≤ maxHeight) : letter h < letter k ↔ h < k := by
  constructor
  · intro hlt
    rcases Int.lt_trichotomy h k with hhk | rfl | hkh
    · exact hhk
    · exact absurd hlt (Char.lt_irrefl _)
    · exact absurd (letter_lt_letter hk.1 hkh hh.2) (Char.lt_asymm hlt)
  · intro hlt
    exact letter_lt_letter hh.1 hlt hk.2

-- ============================================== sequences and their text

theorem toList_text (s : Sequence) : s.text.toList = s.heights.map letter := by
  unfold text spell
  rw [String.toList_ofList]

theorem length_text (s : Sequence) : s.text.length = s.heights.length := by
  rw [← String.length_toList, toList_text, List.length_map]

theorem isLetter_of_mem_text {s : Sequence} {c : Char}
    (hc : c ∈ s.text.toList) : isLetter c = true := by
  rw [toList_text, List.mem_map] at hc
  obtain ⟨h, hh, rfl⟩ := hc
  exact isLetter_letter (s.inRange h hh).1 (s.inRange h hh).2

/-- Reading the letters of a text gives back its heights. -/
theorem heights_ofLetters_map {hs : List Int}
    (hr : ∀ h ∈ hs, 0 ≤ h ∧ h ≤ maxHeight) :
    (ofLetters (hs.map letter)).heights = hs := by
  unfold ofLetters
  induction hs with
  | nil => rfl
  | cons h hs ih =>
      obtain ⟨hlo, hhi⟩ := hr h List.mem_cons_self
      have ih' := ih fun k hk => hr k (List.mem_cons_of_mem h hk)
      simp only at ih' ⊢
      rw [List.map_cons, List.filterMap_cons, index?_letter hlo hhi,
        Option.map_some, ih', Int.ofNat_eq_natCast, Int.toNat_of_nonneg hlo]

/-- Writing the heights of letters gives back the letters. -/
theorem map_letter_ofLetters {s : List Char}
    (hs : ∀ c ∈ s, isLetter c = true) :
    (ofLetters s).heights.map letter = s := by
  unfold ofLetters
  induction s with
  | nil => rfl
  | cons c s ih =>
      obtain ⟨i, hi⟩ := Option.isSome_iff_exists.mp (hs c List.mem_cons_self)
      have ih' := ih fun d hd => hs d (List.mem_cons_of_mem c hd)
      simp only at ih' ⊢
      rw [List.filterMap_cons, hi, Option.map_some, List.map_cons, ih',
        letter_of_index? hi]

/-- The letters of a sequence's text are the sequence. -/
theorem ofLetters_text (s : Sequence) : ofLetters s.text.toList = s := by
  obtain ⟨hs, hr⟩ := s
  have hheights := heights_ofLetters_map hr
  rw [toList_text]
  cases hof : ofLetters (hs.map letter) with
  | mk ks hk =>
      rw [hof] at hheights
      subst hheights
      rfl

theorem text_injective {a b : Sequence} (h : a.text = b.text) : a = b := by
  rw [← ofLetters_text a, h, ofLetters_text]

theorem text_toList_ne_nil {s : Sequence} (h : s.heights ≠ []) :
    s.text.toList ≠ [] := by
  rw [toList_text, ne_eq, List.map_eq_nil_iff]
  exact h

end Sequence

namespace Pattern

open Alphabet (isLetter)

-- ==================================================== texts as they stand

/-- Characters of the notation are small, and none is white space. -/
theorem plain_of_isNotation {c : Char} (h : isNotation c = true) :
    Text.lowerChar c = [c] ∧ Text.isBlank c = false := by
  unfold isNotation at h
  simp only [Bool.or_eq_true, decide_eq_true_iff] at h
  rcases h with ((((hletter | rfl) | rfl) | rfl) | rfl) | rfl
  · obtain ⟨hlower, hblank, -⟩ := Alphabet.letter_plain hletter
    exact ⟨hlower, hblank⟩
  all_goals decide

theorem isNotation_of_isLetter {c : Char} (h : isLetter c = true) :
    isNotation c = true := by
  unfold isNotation
  rw [h]
  rfl

theorem isNotation_of_mem_normalize {s : List Char} {c : Char}
    (h : c ∈ normalize s) : isNotation c = true :=
  (List.mem_filter.mp h).2

/-- A text of the notation is its own normal form. -/
theorem normalize_eq_self {s : List Char}
    (hs : ∀ c ∈ s, isNotation c = true) : normalize s = s := by
  have hlower : Text.lower s = s := by
    unfold Text.lower
    induction s with
    | nil => rfl
    | cons c s ih =>
        rw [List.flatMap_cons, ih fun d hd => hs d (List.mem_cons_of_mem c hd),
          (plain_of_isNotation (hs c List.mem_cons_self)).1]
        rfl
  unfold normalize
  rw [hlower, List.filter_eq_self]
  exact hs

/-- A text of the notation is read as it stands. -/
theorem read_of_isNotation {s : List Char} (hne : s ≠ [])
    (hs : ∀ c ∈ s, isNotation c = true) :
    read (some (String.ofList s)) = ofNormal s := by
  have hblank : Typed.isBlank (some (String.ofList s)) = false := by
    unfold Typed.isBlank
    simp only
    rw [String.toList_ofList, List.all_eq_false]
    obtain ⟨c, rest, rfl⟩ := List.exists_cons_of_ne_nil hne
    refine ⟨c, List.mem_cons_self, ?_⟩
    rw [(plain_of_isNotation (hs c List.mem_cons_self)).2]
    exact Bool.false_ne_true
  unfold read
  rw [if_neg (by rw [hblank]; exact Bool.false_ne_true)]
  simp only [Option.getD_some]
  rw [String.toList_ofList, normalize_eq_self hs, if_neg hne]

-- ================================================== reading plain letters

theorem matchBrackets_letters {s : List Char}
    (hs : ∀ c ∈ s, isLetter c = true) (position : Nat) :
    matchBrackets position none s = .ok () := by
  induction s generalizing position with
  | nil => rfl
  | cons c s ih =>
      obtain ⟨-, -, h1, h2, h3, h4⟩ :=
        Alphabet.letter_plain (hs c List.mem_cons_self)
      unfold matchBrackets
      rw [if_neg (not_or.mpr ⟨h1, h3⟩), if_neg (not_or.mpr ⟨h2, h4⟩)]
      exact ih (fun d hd => hs d (List.mem_cons_of_mem c hd)) (position + 1)

/-- Letters alone are async, and nothing else is. -/
theorem classify_eq_async_iff (s : List Char) :
    classify s = .async ↔ s ≠ [] ∧ ∀ c ∈ s, isLetter c = true := by
  constructor
  · intro h
    unfold classify at h
    split at h
    case isTrue => cases h
    split at h
    case isTrue => cases h
    split at h
    case isFalse => cases h
    case isTrue hasync =>
      rw [Bool.and_eq_true, Bool.not_eq_true', List.isEmpty_eq_false_iff,
        List.all_eq_true] at hasync
      exact hasync
  · intro hletters
    obtain ⟨hne, hs⟩ := hletters
    have hround : ¬ (s.any fun c => c = '(' || c = ')') = true := by
      rw [List.any_eq_true]
      intro hround
      obtain ⟨c, hc, hb⟩ := hround
      obtain ⟨-, -, h1, h2, -, -⟩ := Alphabet.letter_plain (hs c hc)
      simp [h1, h2] at hb
    have hsquare : ¬ (s.any fun c => c = '[' || c = ']') = true := by
      rw [List.any_eq_true]
      intro hsquare
      obtain ⟨c, hc, hb⟩ := hsquare
      obtain ⟨-, -, -, -, h3, h4⟩ := Alphabet.letter_plain (hs c hc)
      simp [h3, h4] at hb
    unfold classify
    rw [if_neg hround, if_neg hsquare, if_pos]
    rw [Bool.and_eq_true, Bool.not_eq_true', List.isEmpty_eq_false_iff,
      List.all_eq_true]
    exact ⟨hne, hs⟩

/-- The text of a sequence reads as that sequence. -/
theorem read_text {s : Sequence} (h : s.heights ≠ []) :
    read (some s.text)
      = .ok { dialect := .async, throws := s, text := s.text.toList } := by
  have hs : ∀ c ∈ s.text.toList, isLetter c = true :=
    fun c hc => Sequence.isLetter_of_mem_text hc
  have hne := Sequence.text_toList_ne_nil h
  have hclass := (classify_eq_async_iff s.text.toList).mpr ⟨hne, hs⟩
  have hread := read_of_isNotation hne fun c hc => isNotation_of_isLetter (hs c hc)
  rw [String.ofList_toList] at hread
  rw [hread]
  unfold ofNormal
  rw [matchBrackets_letters hs, hclass]
  show Except.ok (Pattern.mk .async (.ofLetters s.text.toList)
    s.text.toList) = _
  rw [Sequence.ofLetters_text]

-- ====================================================== what was read

/-- What was read is read off the normal form of what was typed. -/
theorem ofNormal_normalize {x : Typed} {p : Pattern} (h : read x = .ok p) :
    normalize (x.getD "").toList ≠ []
      ∧ ofNormal (normalize (x.getD "").toList) = .ok p := by
  unfold read at h
  split at h
  case isTrue => cases h
  simp only at h
  split at h
  case isTrue => cases h
  case isFalse hne => exact ⟨hne, h⟩

/-- An async pattern is a text of letters with their heights as
throws. -/
theorem of_read_async {x : Typed} {p : Pattern} (h : read x = .ok p)
    (hd : p.dialect = .async) :
    p.text ≠ [] ∧ (∀ c ∈ p.text, isLetter c = true)
      ∧ p.throws = .ofLetters p.text := by
  obtain ⟨-, h⟩ := ofNormal_normalize h
  unfold ofNormal at h
  generalize normalize (x.getD "").toList = s at h
  cases hm : matchBrackets 0 none s with
  | error e => rw [hm] at h; cases h
  | ok u =>
      rw [hm] at h
      cases hl : letters (classify s) s with
      | error e => rw [hl] at h; cases h
      | ok ls =>
          rw [hl] at h
          injection h with h
          subst h
          have hclass : classify s = .async := hd
          rw [hclass] at hl
          injection hl with hl
          obtain ⟨hne, hs⟩ := (classify_eq_async_iff s).mp hclass
          exact ⟨hne, hs, by rw [hl]⟩

/-- An async pattern is spelled by its throws. -/
theorem normalText_of_async {x : Typed} {p : Pattern} (h : read x = .ok p)
    (hd : p.dialect = .async) : p.normalText = p.throws.text := by
  obtain ⟨-, hs, hthrows⟩ := of_read_async h hd
  unfold normalText Sequence.text Sequence.spell
  rw [hthrows, Sequence.map_letter_ofLetters hs]

theorem length_of_async {x : Typed} {p : Pattern} (h : read x = .ok p)
    (hd : p.dialect = .async) : p.throws.heights.length = p.text.length := by
  obtain ⟨-, hs, hthrows⟩ := of_read_async h hd
  rw [hthrows, ← List.length_map Sequence.letter,
    Sequence.map_letter_ofLetters hs]

theorem heights_ne_nil_of_async {x : Typed} {p : Pattern}
    (h : read x = .ok p) (hd : p.dialect = .async) :
    p.throws.heights ≠ [] := by
  rw [← List.length_pos_iff, length_of_async h hd, List.length_pos_iff]
  exact (of_read_async h hd).1

end Pattern

end Siteswap
