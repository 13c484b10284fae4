/-
The grammar of the notation.

A text in normal form is a pattern in one of three ways (`Writes`): throws
alone; pairs of throws, either of which may carry a crossing mark; throws
and groups of throws in square brackets, at least one of them a group. The
grammar says which throws a text makes, and nothing of how it is read.

The three dialects exclude each other. Throws are no brackets, so the
brackets of a pattern are those of its dialect (`Writes.brackets`), and a
text of throws and groups that closes a group has opened it
(`Groups.opened`). A text of three characters has no room for a pair and, if
it has a group, no room for more than the group of one throw
(`Groups.bracketed`).
-/
import Siteswap.Proofs.Pattern.Spelling

namespace Siteswap

-- =============================================================== throws

/-- The characters of throws. -/
def IsThrow (c : Char) : Prop :=
  ('0' ≤ c ∧ c ≤ '9') ∨ ('a' ≤ c ∧ c ≤ 'z')

instance (c : Char) : Decidable (IsThrow c) :=
  inferInstanceAs (Decidable (_ ∨ _))

/-- The height that a throw stands for: digits up to nine, letters from
ten on. -/
def throwHeight (c : Char) : Nat :=
  if c ≤ '9' then c.toNat - 48 else c.toNat - 97 + 10

namespace Alphabet

theorem isLetter_iff_isThrow (c : Char) : isLetter c = true ↔ IsThrow c := by
  constructor
  · intro h
    have hall : (standard.letters.all fun c => IsThrow c) = true := by decide
    exact of_decide_eq_true (List.all_eq_true.mp hall c ((isLetter_iff_mem c).mp h))
  · intro h
    have hall : ∀ n < 123, IsThrow (Char.ofNat n) →
        isLetter (Char.ofNat n) = true := by decide
    have hn : c.toNat < 123 := by
      rcases h with ⟨-, h⟩ | ⟨-, h⟩
      · have : c.toNat ≤ 57 := h
        omega
      · have : c.toNat ≤ 122 := h
        omega
    have hc := hall c.toNat hn
    rw [Char.ofNat_toNat] at hc
    exact hc h

/-- Each throw stands for its height. -/
theorem index?_of_isThrow {c : Char} (h : IsThrow c) :
    standard.index? c = some (throwHeight c) := by
  have hall : (standard.letters.all fun c =>
      standard.index? c = some (throwHeight c)) = true := by decide
  have hc := (isLetter_iff_mem c).mp ((isLetter_iff_isThrow c).mpr h)
  exact of_decide_eq_true (List.all_eq_true.mp hall c hc)

/-- Throws are read as their heights, wherever they stand. -/
theorem encodeFrom_throws {ls : List Char} (h : ∀ c ∈ ls, IsThrow c)
    (position : Nat) :
    standard.encodeFrom position ls = .ok (ls.map fun c => (throwHeight c : Int)) := by
  induction ls generalizing position with
  | nil => rfl
  | cons c ls ih =>
      have hc := h c List.mem_cons_self
      have hheight : standard.heightOf? [c] = some (throwHeight c) := by
        unfold heightOf? Text.lower
        rw [List.flatMap_singleton,
          (letter_plain ((isLetter_iff_isThrow c).mpr hc)).1]
        exact index?_of_isThrow hc
      rw [encodeFrom, hheight]
      simp only
      rw [ih fun d hd => h d (List.mem_cons_of_mem c hd)]
      rfl

theorem heights_throws {ls : List Char} (h : ∀ c ∈ ls, IsThrow c) :
    (Sequence.ofLetters ls).heights = ls.map fun c => (throwHeight c : Int) := by
  unfold Sequence.ofLetters
  rw [← List.filterMap_eq_map]
  refine List.filterMap_congr fun c hc => ?_
  rw [index?_of_isThrow (h c hc)]
  rfl

end Alphabet

namespace Pattern

-- ============================================================== grammar

/-- One side of a pair and its throw. -/
inductive Side : List Char → Char → Prop
  | straight {c : Char} (h : IsThrow c) : Side [c] c
  | crossing {c : Char} (h : IsThrow c) : Side [c, 'x'] c

/-- Pairs and their throws. -/
inductive Pairs : List Char → List Char → Prop
  | nil : Pairs [] []
  | cons {left right rest ls : List Char} {a b : Char} (hleft : Side left a)
      (hright : Side right b) (hrest : Pairs rest ls) :
      Pairs ('(' :: left ++ ',' :: right ++ ')' :: rest) (a :: b :: ls)

/-- Throws alone and groups of throws, and all their throws. -/
inductive Groups : List Char → List Char → Prop
  | nil : Groups [] []
  | throw {c : Char} {rest ls : List Char} (hc : IsThrow c) (hrest : Groups rest ls) :
      Groups (c :: rest) (c :: ls)
  | group {g rest ls : List Char} (hne : g ≠ []) (hg : ∀ c ∈ g, IsThrow c)
      (hrest : Groups rest ls) : Groups ('[' :: g ++ ']' :: rest) (g ++ ls)

/-- The patterns of each dialect and their throws. -/
inductive Writes : Dialect → List Char → List Char → Prop
  | async {s : List Char} (hne : s ≠ []) (hs : ∀ c ∈ s, IsThrow c) :
      Writes .async s s
  | sync {s ls : List Char} (hne : s ≠ []) (hs : Pairs s ls) : Writes .sync s ls
  | multiplex {s ls : List Char} (hgroup : '[' ∈ s) (hs : Groups s ls) :
      Writes .multiplex s ls

-- ------------------------------------------------ characters of a pattern

/-- The characters that open and close pairs and groups. -/
def IsBracket (c : Char) : Prop :=
  c = '(' ∨ c = ')' ∨ c = '[' ∨ c = ']'

theorem not_isBracket_of_isThrow {c : Char} (h : IsThrow c) : ¬ IsBracket c := by
  rintro (rfl | rfl | rfl | rfl)
  all_goals
    revert h
    decide

theorem Side.throw {s : List Char} {c : Char} (h : Side s c) :
    IsThrow c ∧ ∀ d ∈ s, IsThrow d := by
  cases h with
  | straight hc => exact ⟨hc, by simpa using hc⟩
  | crossing hc => exact ⟨hc, by simpa using ⟨hc, by decide⟩⟩

theorem Pairs.throws {s ls : List Char} (h : Pairs s ls) :
    (∀ c ∈ ls, IsThrow c) ∧ ∀ c ∈ s, IsThrow c ∨ c = '(' ∨ c = ',' ∨ c = ')' := by
  induction h with
  | nil => exact ⟨nofun, nofun⟩
  | cons hleft hright _ ih =>
      constructor
      · intro c hc
        rcases List.mem_cons.mp hc with rfl | hc
        · exact hleft.throw.1
        rcases List.mem_cons.mp hc with rfl | hc
        · exact hright.throw.1
        · exact ih.1 c hc
      · intro c hc
        simp only [List.cons_append, List.append_assoc, List.mem_cons,
          List.mem_append] at hc
        rcases hc with rfl | hc | rfl | hc | rfl | hc
        · exact .inr (.inl rfl)
        · exact .inl (hleft.throw.2 c hc)
        · exact .inr (.inr (.inl rfl))
        · exact .inl (hright.throw.2 c hc)
        · exact .inr (.inr (.inr rfl))
        · exact ih.2 c hc

theorem Groups.throws {s ls : List Char} (h : Groups s ls) :
    (∀ c ∈ ls, IsThrow c) ∧ ∀ c ∈ s, IsThrow c ∨ c = '[' ∨ c = ']' := by
  induction h with
  | nil => exact ⟨nofun, nofun⟩
  | throw hc _ ih =>
      constructor
      · intro d hd
        rcases List.mem_cons.mp hd with rfl | hd
        · exact hc
        · exact ih.1 d hd
      · intro d hd
        rcases List.mem_cons.mp hd with rfl | hd
        · exact .inl hc
        · exact ih.2 d hd
  | group _ hg _ ih =>
      constructor
      · intro d hd
        rcases List.mem_append.mp hd with hd | hd
        · exact hg d hd
        · exact ih.1 d hd
      · intro d hd
        simp only [List.cons_append, List.mem_cons, List.mem_append] at hd
        rcases hd with rfl | hd | rfl | hd
        · exact .inr (.inl rfl)
        · exact .inl (hg d hd)
        · exact .inr (.inr rfl)
        · exact ih.2 d hd

/-- A group that is closed was opened. -/
theorem Groups.opened {s ls : List Char} (h : Groups s ls) (hclose : ']' ∈ s) :
    '[' ∈ s := by
  induction h with
  | nil => cases hclose
  | throw hc _ ih =>
      rcases List.mem_cons.mp hclose with rfl | hclose
      · exact absurd (.inr (.inr (.inr rfl))) (not_isBracket_of_isThrow hc)
      · exact List.mem_cons_of_mem _ (ih hclose)
  | group => exact List.mem_cons_self

theorem Writes.throws {d : Dialect} {s ls : List Char} (h : Writes d s ls) :
    ∀ c ∈ ls, IsThrow c := by
  cases h with
  | async _ hs => exact hs
  | sync _ hs => exact hs.throws.1
  | multiplex _ hs => exact hs.throws.1

theorem Pairs.begins {s ls : List Char} (h : Pairs s ls) (hne : s ≠ []) :
    '(' ∈ s := by
  cases h with
  | nil => exact absurd rfl hne
  | cons => exact List.mem_cons_self

/-- Every pattern has a throw. -/
theorem Writes.ne_nil {d : Dialect} {s ls : List Char} (h : Writes d s ls) : ls ≠ [] := by
  cases h with
  | async hne _ => exact hne
  | sync hne hs =>
      cases hs with
      | nil => exact absurd rfl hne
      | cons => exact List.cons_ne_nil _ _
  | multiplex hgroup hs =>
      cases hs with
      | nil => cases hgroup
      | throw => exact List.cons_ne_nil _ _
      | group hne => exact List.append_ne_nil_of_left_ne_nil hne _

/-- The brackets of a pattern are those of its dialect. -/
theorem Writes.brackets {d : Dialect} {s ls : List Char} (h : Writes d s ls) :
    ('(' ∈ s ↔ d = .sync) ∧ ('[' ∈ s ↔ d = .multiplex) ∧ (')' ∈ s → d = .sync) := by
  cases h with
  | async _ hs =>
      have hplain := fun c hc => not_isBracket_of_isThrow (hs c hc)
      exact ⟨iff_of_false (fun h => hplain _ h (.inl rfl)) nofun,
        iff_of_false (fun h => hplain _ h (.inr (.inr (.inl rfl)))) nofun,
        fun h => absurd (.inr (.inl rfl)) (hplain _ h)⟩
  | sync hne hs =>
      refine ⟨iff_of_true (hs.begins hne) rfl, iff_of_false (fun h => ?_) nofun,
        fun _ => rfl⟩
      have := hs.throws.2 _ h
      revert this
      decide
  | multiplex hgroup hs =>
      refine ⟨iff_of_false (fun h => ?_) nofun, iff_of_true hgroup rfl, fun h => ?_⟩
      · have := hs.throws.2 _ h
        revert this
        decide
      · have := hs.throws.2 _ h
        revert this
        decide

-- -------------------------------------------------- lengths of a pattern

theorem Side.length_pos {s : List Char} {c : Char} (h : Side s c) : 0 < s.length := by
  cases h with
  | straight => exact Nat.zero_lt_succ _
  | crossing => exact Nat.zero_lt_succ _

theorem Pairs.long {s ls : List Char} (h : Pairs s ls) (hne : s ≠ []) : 5 ≤ s.length := by
  cases h with
  | nil => exact absurd rfl hne
  | cons hleft hright =>
      have hl := hleft.length_pos
      have hr := hright.length_pos
      simp only [List.cons_append, List.append_assoc, List.length_cons, List.length_append]
      omega

/-- In three characters there is room for one throw in brackets. -/
theorem Groups.bracketed {s ls : List Char} (h : Groups s ls) (hgroup : '[' ∈ s)
    (hshort : s.length ≤ 3) : ∃ c, IsThrow c ∧ s = ['[', c, ']'] ∧ ls = [c] := by
  induction h with
  | nil => cases hgroup
  | throw hc hrest ih =>
      rw [List.length_cons] at hshort
      rcases List.mem_cons.mp hgroup with rfl | hgroup
      · exact absurd (.inr (.inr (.inl rfl))) (not_isBracket_of_isThrow hc)
      · obtain ⟨c, -, rfl, -⟩ := ih hgroup (by omega)
        simp only [List.length_cons, List.length_nil] at hshort
        omega
  | @group g rest ls hne hg hrest _ =>
      have hsome := List.length_pos_iff.mpr hne
      simp only [List.cons_append, List.length_cons, List.length_append] at hshort
      have hone : g.length = 1 := by omega
      have hnil : rest.length = 0 := by omega
      obtain ⟨c, rfl⟩ := List.length_eq_one_iff.mp hone
      obtain rfl := List.length_eq_zero_iff.mp hnil
      cases hrest
      exact ⟨c, hg c (List.mem_singleton_self c), rfl, rfl⟩

end Pattern

end Siteswap
