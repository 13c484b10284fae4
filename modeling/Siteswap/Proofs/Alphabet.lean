/-
Alphabets: what is read can be written, and what is written can be read.

Any text may be an alphabet, also one that repeats letters. `round_trips`
says how far reading and writing undo each other all the same. A text that
is read comes back with each character lowered. Heights that are written
come back unchanged if no letter is a capital, for only reading ignores
case. A text is refused at its first character that is no letter when
lowered. By the standard alphabet, sequences and texts of throws are the
same.

# Letters and places

A letter stands for its last place. So a place has a letter only if that
letter does not come again, and a letter has one place: which letter and
which height belong together is a matching whatever the alphabet
(`letterOf?_eq_some_iff`). Both ways of looking it up are those of maps into
which the pairs of the matching were stored in turn, later pairs over
earlier ones (`get?_places`, `get?_names`).

# Texts and heights

Texts are read, and heights written, one by one, so all else is by induction
on them with the matching for one step. A position is carried along: it
counts from where the text began.
-/
import Mathlib.Data.List.Nodup
import Siteswap.Proofs.Entries
import Siteswap.Proofs.Pattern.Grammar
import Siteswap.Proofs.Results

namespace Siteswap

namespace Alphabet

-- ==================================================== letters and places

theorem exists_lastIndex?_of_mem {c : Char} {letters : List Char} (h : c ∈ letters) :
    ∃ i, lastIndex? c letters = some i := by
  induction letters with
  | nil => cases h
  | cons l letters ih =>
      unfold lastIndex?
      split
      case h_1 i hi => exact ⟨i + 1, rfl⟩
      case h_2 hnone =>
        have hl : l = c := by
          rcases List.mem_cons.mp h with heq | hmem
          · exact heq.symm
          · obtain ⟨i, hi⟩ := ih hmem
            rw [hi] at hnone
            cases hnone
        exact ⟨0, if_pos hl⟩

/-- One more letter at the end has the last place. -/
theorem lastIndex?_concat (c l : Char) (letters : List Char) :
    lastIndex? c (letters ++ [l])
      = if l = c then some letters.length else lastIndex? c letters := by
  induction letters with
  | nil => rfl
  | cons l' letters ih =>
      rw [List.cons_append, lastIndex?, ih, lastIndex?]
      by_cases hl : l = c
      · rw [if_pos hl, if_pos hl]
        rfl
      · rw [if_neg hl, if_neg hl]

variable {a : Alphabet}

theorem mem_of_index? {c : Char} {i : Nat} (h : a.index? c = some i) : c ∈ a.letters :=
  List.mem_of_getElem? (getElem?_of_lastIndex? h)

/-- A height is written as the letter that stands for it. -/
theorem letterOf?_eq_some_iff {h : Int} {c : Char} :
    a.letterOf? h = some c ↔ 0 ≤ h ∧ a.index? c = some h.toNat := by
  unfold letterOf?
  split
  case isTrue hneg => exact iff_of_false nofun fun hc => absurd hc.1 (by omega)
  case isFalse hnonneg =>
    rw [Option.filter_eq_some_iff, decide_eq_true_iff]
    constructor
    · exact fun hc => ⟨by omega, hc.2⟩
    · exact fun hc => ⟨getElem?_of_lastIndex? hc.2, hc.2⟩

-- ------------------------------------------------------------- two maps

variable (a) in
/-- The letters with their places, stored in turn. -/
def places : Entries Char Nat :=
  .ofPairs a.letters.zipIdx

variable (a) in
/-- The places with their letters, stored in turn. -/
def names : Entries Nat Char :=
  .ofPairs (a.places.map Prod.swap)

theorem get?_places (c : Char) : a.places.get? c = a.index? c := by
  unfold places index?
  induction a.letters using List.reverseRecOn with
  | nil => rfl
  | append_singleton letters l ih =>
      rw [List.zipIdx_append, List.zipIdx_singleton, Entries.ofPairs_concat, Entries.get?_put,
        ih, lastIndex?_concat, Nat.zero_add]
      simp only [beq_iff_eq]

theorem mem_places {c : Char} {i : Nat} : (c, i) ∈ a.places ↔ a.index? c = some i := by
  rw [← get?_places, places, Entries.get?_eq_some_iff_mem (Entries.nodup_keys_ofPairs _)]

/-- No two letters have one place, so no name is stored over another. -/
theorem names_eq : a.names = a.places.map Prod.swap := by
  refine Entries.ofPairs_of_nodup ?_
  rw [List.map_map]
  refine List.Nodup.map_on ?_ (List.Nodup.of_map _ (Entries.nodup_keys_ofPairs _))
  rintro ⟨c, i⟩ hc ⟨c', i'⟩ hc' (rfl : i = i')
  have hletter : some c = some c' :=
    (getElem?_of_lastIndex? (mem_places.mp hc)).symm.trans
      (getElem?_of_lastIndex? (mem_places.mp hc'))
  rw [Option.some.inj hletter]

theorem get?_names (i : Nat) : a.names.get? i = a.letterOf? i := by
  refine Option.ext fun c => ?_
  have hkeys : (a.names.map (·.1)).Nodup := Entries.nodup_keys_ofPairs _
  rw [Entries.get?_eq_some_iff_mem hkeys, names_eq, letterOf?_eq_some_iff, Int.toNat_natCast,
    and_iff_right (Int.natCast_nonneg i), ← mem_places, List.mem_map]
  constructor
  · rintro ⟨⟨c', i'⟩, hmem, heq⟩
    cases heq
    exact hmem
  · exact fun hmem => ⟨(c, i), hmem, rfl⟩

-- ===================================================== texts and heights

variable (a) in
/-- Whether a typed character is a letter when lowered. -/
def Knows (c : Char) : Prop :=
  ∃ l ∈ a.letters, Text.lowerChar c = [l]

theorem heightOf?_eq_some_iff {c : Char} {i : Nat} :
    a.heightOf? [c] = some i ↔ ∃ l, Text.lowerChar c = [l] ∧ a.index? l = some i := by
  unfold heightOf? Text.lower
  rw [List.flatMap_singleton]
  split
  case h_1 l hl =>
    rw [hl]
    constructor
    · exact fun hi => ⟨l, rfl, hi⟩
    · rintro ⟨l', hl', hi⟩
      cases hl'
      exact hi
  case h_2 hmany => exact iff_of_false nofun fun ⟨l, hl, _⟩ => hmany l hl

theorem knows_iff {c : Char} : a.Knows c ↔ ∃ i, a.heightOf? [c] = some i := by
  constructor
  · rintro ⟨l, hmem, hl⟩
    obtain ⟨i, hi⟩ := exists_lastIndex?_of_mem hmem
    exact ⟨i, heightOf?_eq_some_iff.mpr ⟨l, hl, hi⟩⟩
  · rintro ⟨i, hi⟩
    obtain ⟨l, hl, hindex⟩ := heightOf?_eq_some_iff.mp hi
    exact ⟨l, mem_of_index? hindex, hl⟩

variable {s : List Char} {hs : List Int} {e : Error}

theorem decode_of_encodeFrom {position : Nat} (h : a.encodeFrom position s = .ok hs) :
    a.decode hs = .ok (Text.lower s) := by
  induction s generalizing position hs with
  | nil =>
      cases h
      rfl
  | cons c s ih =>
      unfold encodeFrom at h
      split at h
      case h_1 => cases h
      case h_2 i hi =>
        obtain ⟨hs, hrest, rfl⟩ := map_eq_ok h
        obtain ⟨l, hl, hindex⟩ := heightOf?_eq_some_iff.mp hi
        have hletter : a.letterOf? i = some l :=
          letterOf?_eq_some_iff.mpr ⟨Int.natCast_nonneg i, hindex⟩
        have hlower : Text.lower (c :: s) = l :: Text.lower s := by
          rw [Text.lower, List.flatMap_cons, hl]
          rfl
        rw [decode, hletter, hlower]
        simp only [ih hrest]
        rfl

/-- Where no letter is a capital, lowering leaves what was written. -/
theorem encodeFrom_of_decode (hsmall : ∀ l ∈ a.letters, Text.lowerChar l = [l])
    (h : a.decode hs = .ok s) (position : Nat) : a.encodeFrom position s = .ok hs := by
  induction hs generalizing s position with
  | nil =>
      cases h
      rfl
  | cons x hs ih =>
      unfold decode at h
      split at h
      case h_1 => cases h
      case h_2 c hc =>
        obtain ⟨s, hrest, rfl⟩ := map_eq_ok h
        obtain ⟨hx, hindex⟩ := letterOf?_eq_some_iff.mp hc
        have hheight : a.heightOf? [c] = some x.toNat :=
          heightOf?_eq_some_iff.mpr ⟨c, hsmall c (mem_of_index? hindex), hindex⟩
        rw [encodeFrom, hheight]
        simp only [ih hrest, Except.map, Int.toNat_of_nonneg hx]

/-- Reading goes on past every character that is known. -/
theorem encodeFrom_eq_error_iff {position : Nat} :
    a.encodeFrom position s = .error e
      ↔ ∃ before c after, s = before ++ c :: after ∧ (∀ d ∈ before, a.Knows d)
        ∧ ¬ a.Knows c ∧ e = .unknownLetter c (position + before.length) := by
  constructor
  · intro h
    induction s generalizing position with
    | nil => cases h
    | cons c s ih =>
        unfold encodeFrom at h
        split at h
        case h_1 hnone =>
          cases h
          refine ⟨[], c, s, rfl, nofun, ?_, rfl⟩
          rw [knows_iff, hnone]
          exact fun ⟨_, hi⟩ => nomatch hi
        case h_2 i hi =>
          obtain ⟨before, d, after, rfl, hbefore, hd, rfl⟩ := ih (map_eq_error_iff.mp h)
          refine ⟨c :: before, d, after, rfl, ?_, hd, ?_⟩
          · exact List.forall_mem_cons.mpr ⟨knows_iff.mpr ⟨i, hi⟩, hbefore⟩
          · rw [List.length_cons, Nat.add_assoc, Nat.add_comm 1]
  · rintro ⟨before, c, after, rfl, hbefore, hc, rfl⟩
    induction before generalizing position with
    | nil =>
        have hnone : a.heightOf? [c] = none :=
          Option.eq_none_iff_forall_ne_some.mpr fun i hi => hc (knows_iff.mpr ⟨i, hi⟩)
        rw [List.nil_append, encodeFrom, hnone]
        rfl
    | cons b before ih =>
        obtain ⟨hb, hbefore⟩ := List.forall_mem_cons.mp hbefore
        obtain ⟨i, hi⟩ := knows_iff.mp hb
        rw [List.cons_append, encodeFrom, hi]
        simp only [ih hbefore]
        rw [List.length_cons, Nat.add_assoc, Nat.add_comm 1]
        rfl

-- ================================================= the standard alphabet

theorem letterOf?_of_inRange {x : Int} (h : 0 ≤ x ∧ x ≤ maxHeight) :
    standard.letterOf? x = some (Sequence.letter x) :=
  letterOf?_eq_some_iff.mpr ⟨h.1, Sequence.index?_letter h.1 h.2⟩

theorem decode_of_inRange (h : ∀ x ∈ hs, 0 ≤ x ∧ x ≤ maxHeight) :
    standard.decode hs = .ok (hs.map Sequence.letter) := by
  induction hs with
  | nil => rfl
  | cons x hs ih =>
      rw [decode, letterOf?_of_inRange (h x List.mem_cons_self)]
      simp only [ih fun y hy => h y (List.mem_cons_of_mem x hy)]
      rfl

theorem lowerChar_of_mem_standard {l : Char} (h : l ∈ standard.letters) :
    Text.lowerChar l = [l] :=
  (letter_plain ((isLetter_iff_mem l).mpr h)).1

theorem ofText_of_encode {q : Sequence} (h : standard.encode s = .ok q.heights) :
    Sequence.ofText s = .ok q := by
  unfold Sequence.ofText
  split
  case h_1 e he =>
    rw [h] at he
    cases he
  case h_2 hs hhs =>
    obtain rfl : q.heights = hs := Except.ok.inj (h.symm.trans hhs)
    rfl

/-- A sequence is written as its text, and its text is read as it. -/
theorem ofText_text (q : Sequence) :
    standard.decode q.heights = .ok q.text.toList ∧ Sequence.ofText q.text.toList = .ok q := by
  have hdecode : standard.decode q.heights = .ok q.text.toList := by
    rw [Sequence.toList_text]
    exact decode_of_inRange q.inRange
  refine ⟨hdecode, ofText_of_encode ?_⟩
  exact encodeFrom_of_decode (fun l hl => lowerChar_of_mem_standard hl) hdecode 0

/-- A text of throws is the text of a sequence. -/
theorem exists_text_eq (hthrows : ∀ c ∈ s, IsThrow c) :
    ∃ q : Sequence, q.text.toList = s := by
  refine ⟨.ofLetters s, ?_⟩
  rw [Sequence.toList_text]
  exact Sequence.map_letter_ofLetters fun c hc => (isLetter_iff_isThrow c).mpr (hthrows c hc)

/-- What any alphabet reads it writes again, in small letters; where a text
has a character that it does not know, it names the first of them; and it
reads what it writes if its letters are small. By the standard alphabet,
sequences and texts of throws correspond one to one. -/
theorem round_trips :
    (∀ (a : Alphabet) (s : List Char) (hs : List Int),
      a.encode s = .ok hs → a.decode hs = .ok (Text.lower s))
    ∧ (∀ (a : Alphabet) (s : List Char) (e : Error),
      a.encode s = .error e
        ↔ ∃ before c after, s = before ++ c :: after ∧ (∀ d ∈ before, a.Knows d)
          ∧ ¬ a.Knows c ∧ e = .unknownLetter c before.length)
    ∧ (∀ (a : Alphabet) (s : List Char) (hs : List Int),
      (∀ l ∈ a.letters, Text.lowerChar l = [l]) → a.decode hs = .ok s → a.encode s = .ok hs)
    ∧ (∀ q : Sequence, standard.decode q.heights = .ok q.text.toList
      ∧ (∀ c ∈ q.text.toList, IsThrow c) ∧ Sequence.ofText q.text.toList = .ok q)
    ∧ (∀ s : String, (∀ c ∈ s.toList, IsThrow c) →
      ∃ q, Sequence.ofText s.toList = .ok q ∧ q.text = s) := by
  refine ⟨fun a s hs h => decode_of_encodeFrom h, fun a s e => ?_,
    fun a s hs hsmall h => encodeFrom_of_decode hsmall h 0, fun q => ?_, fun s hthrows => ?_⟩
  · unfold encode
    simp only [encodeFrom_eq_error_iff, Nat.zero_add]
  · obtain ⟨hwrite, hread⟩ := ofText_text q
    exact ⟨hwrite, fun c hc => (isLetter_iff_isThrow c).mp (Sequence.isLetter_of_mem_text hc),
      hread⟩
  · obtain ⟨q, hq⟩ := exists_text_eq hthrows
    refine ⟨q, ?_, String.toList_inj.mp hq⟩
    rw [← hq]
    exact (ofText_text q).2

/-- Of the two `a`s the last counts. -/
def repeating : Alphabet where
  letters := ['a', 'b', 'a']

theorem repeating_round_trips :
    (repeating.encode ['B', 'A'] = .ok [1, 2]
      ∧ repeating.decode [1, 2] = .ok (Text.lower ['B', 'A']))
    ∧ ((∀ l ∈ repeating.letters, Text.lowerChar l = [l])
      ∧ repeating.decode [2, 1] = .ok ['a', 'b'] ∧ repeating.encode ['a', 'b'] = .ok [2, 1])
    ∧ ((∀ c ∈ "4b1".toList, IsThrow c)
      ∧ ∃ q, Sequence.ofText "4b1".toList = .ok q ∧ q.text = "4b1") := by
  obtain ⟨hread, -, hwrite, -, htext⟩ := round_trips
  have hupper : repeating.encode ['B', 'A'] = .ok [1, 2] := by decide
  have hsmall : ∀ l ∈ repeating.letters, Text.lowerChar l = [l] := by
    have hall : (repeating.letters.all fun l => Text.lowerChar l = [l]) = true := by decide
    exact fun l hl => of_decide_eq_true (List.all_eq_true.mp hall l hl)
  have hlower : repeating.decode [2, 1] = .ok ['a', 'b'] := by decide
  have hthrows : ∀ c ∈ "4b1".toList, IsThrow c := by
    have hall : ("4b1".toList.all fun c => IsThrow c) = true := by decide
    exact fun c hc => of_decide_eq_true (List.all_eq_true.mp hall c hc)
  exact ⟨⟨hupper, hread _ _ _ hupper⟩, ⟨hsmall, hlower, hwrite _ _ _ hsmall hlower⟩,
    hthrows, htext _ hthrows⟩

end Alphabet

end Siteswap
