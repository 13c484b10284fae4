/-
Levels: what a value that was read has of them, and what they cost.

A value that was read has no more levels than its text, and all its whole
numbers have few digits, so that it may be written again (`fits_of_read`). Room
for the steps of each level and for those at the end is enough to go through a
value (`overrun?_eq_none`), and the steps of each level are needed.

# What was read

The levels and the digits are carried along the reader's stack at once (`Fits`,
`Kept`): what lies `n` levels deep has all levels but `n` to itself. Where a
part is finished the brackets around it are still open, and there are no more of
them than the text has at once.
-/
import Mathlib.Algebra.Order.Ring.Nat
import Siteswap.Proofs.Entries
import Siteswap.Proofs.Json.Nesting
import Siteswap.Proofs.Json.RoundTrip

namespace Siteswap.Json

open Number (DigitLimit)

-- ================================================================= values

namespace Value

section Fits

variable {digits : DigitLimit} {room n : Nat}

theorem levelsOfItems_le_iff {vs : List Value} :
    levelsOfItems vs ≤ n ↔ ∀ v ∈ vs, v.levels ≤ n := by
  induction vs with
  | nil => simp [levelsOfItems]
  | cons v vs ih => rw [levelsOfItems, Nat.max_le, ih, List.forall_mem_cons]

theorem levelsOfFields_le_iff {fields : List (Points × Value)} :
    levelsOfFields fields ≤ n ↔ ∀ f ∈ fields, f.2.levels ≤ n := by
  induction fields with
  | nil => simp [levelsOfFields]
  | cons f fields ih => rw [levelsOfFields, Nat.max_le, ih, List.forall_mem_cons]

theorem areWritable_iff {vs : List Value} :
    areWritable digits vs = true ↔ ∀ v ∈ vs, v.isWritable digits = true := by
  induction vs with
  | nil => simp [areWritable]
  | cons v vs ih => rw [areWritable, Bool.and_eq_true, ih, List.forall_mem_cons]

theorem fieldsWritable_iff {fields : List (Points × Value)} :
    fieldsWritable digits fields = true ↔ ∀ f ∈ fields, f.2.isWritable digits = true := by
  induction fields with
  | nil => simp [fieldsWritable]
  | cons f fields ih => rw [fieldsWritable, Bool.and_eq_true, ih, List.forall_mem_cons]

/-- A value with at most `room` levels, of whole numbers that may be
written. -/
structure Fits (digits : DigitLimit) (room : Nat) (v : Value) : Prop where
  levels : v.levels ≤ room
  writable : v.isWritable digits = true

theorem Fits.mono {v : Value} (h : v.Fits digits n) (hle : n ≤ room) :
    v.Fits digits room :=
  ⟨Nat.le_trans h.levels hle, h.writable⟩

theorem fits_text (s : Points) : (text s).Fits digits room :=
  ⟨Nat.zero_le _, rfl⟩

theorem fits_array_iff {vs : List Value} :
    (array vs).Fits digits (room + 1) ↔ ∀ v ∈ vs, v.Fits digits room := by
  constructor
  · rintro ⟨hlevels, hwritable⟩ v hv
    rw [levels, Nat.succ_le_succ_iff, levelsOfItems_le_iff] at hlevels
    rw [isWritable, areWritable_iff] at hwritable
    exact ⟨hlevels v hv, hwritable v hv⟩
  · intro h
    constructor
    · rw [levels, Nat.succ_le_succ_iff, levelsOfItems_le_iff]
      exact fun v hv => (h v hv).levels
    · rw [isWritable, areWritable_iff]
      exact fun v hv => (h v hv).writable

theorem fits_object_iff {fields : List (Points × Value)} :
    (object fields).Fits digits (room + 1) ↔ ∀ f ∈ fields, f.2.Fits digits room := by
  constructor
  · rintro ⟨hlevels, hwritable⟩ f hf
    rw [levels, Nat.succ_le_succ_iff, levelsOfFields_le_iff] at hlevels
    rw [isWritable, fieldsWritable_iff] at hwritable
    exact ⟨hlevels f hf, hwritable f hf⟩
  · intro h
    constructor
    · rw [levels, Nat.succ_le_succ_iff, levelsOfFields_le_iff]
      exact fun f hf => (h f hf).levels
    · rw [isWritable, fieldsWritable_iff]
      exact fun f hf => (h f hf).writable

end Fits

end Value

-- ================================================================= digits

section Digits

variable {digits : DigitLimit}

theorem allows_usual_iff {n : Nat} :
    DigitLimit.usual.allows n = true ↔ n ≤ Number.maxDigits := by
  unfold DigitLimit.allows
  exact decide_eq_true_iff

theorem isShort_iff {n : Int} : isShort n = true ↔ n.natAbs < 10 ^ Number.maxDigits := by
  have hlength := Nat.length_toDigits_le_iff (n := n.natAbs) (show 1 < 10 by decide)
    (show 0 < Number.maxDigits by decide)
  exact allows_usual_iff.trans hlength

/-- What is written with some digits has no more of them. -/
theorem foldl_digits_lt {α : Type} {value : α → Nat} {ds : List α}
    (h : ∀ d ∈ ds, value d < 10) :
    ds.foldl (fun n d => 10 * n + value d) 0 < 10 ^ ds.length := by
  induction ds using List.reverseRecOn with
  | nil => simp
  | append_singleton ds d ih =>
      have hds := ih fun d hd => h d (List.mem_append_left _ hd)
      have hd := h d (List.mem_append_right _ (List.mem_singleton_self d))
      rw [List.foldl_append, List.length_append, List.length_singleton, Nat.pow_succ]
      simp only [List.foldl_cons, List.foldl_nil]
      omega

/-- A number of no more digits than may be read is one of no more than may
be written. -/
theorem isShort_of_lt {digits : DigitLimit} {n : Int} {k : Nat}
    (hn : n.natAbs < 10 ^ k) (hallowed : digits.allows k = true) :
    isShort n digits = true := by
  cases digits with
  | off => rfl
  | usual =>
      rw [isShort_iff]
      exact Nat.lt_of_lt_of_le hn
        (Nat.pow_le_pow_right (by decide) (allows_usual_iff.mp hallowed))

theorem decimalValue_lt {ds : List Char} (h : ∀ c ∈ ds, c.isDigit = true) :
    decimalValue ds < 10 ^ ds.length := by
  unfold decimalValue
  apply foldl_digits_lt
  intro c hc
  have hc := h c hc
  simp only [Char.isDigit, Bool.and_eq_true, decide_eq_true_eq, UInt32.le_iff_toNat_le] at hc
  have hle : c.toNat ≤ 57 := hc.2
  omega

theorem isDigit_of_wholePart? {s ds rest : List Char} (h : wholePart? s = some (ds, rest)) :
    ∀ c ∈ ds, c.isDigit = true := by
  unfold wholePart? at h
  split at h
  case h_1 =>
    cases h
    intro c hc
    rw [List.mem_singleton.mp hc]
    rfl
  case h_2 =>
    unfold digits? at h
    simp only at h
    split at h
    case isTrue => cases h
    case isFalse =>
      cases h
      exact List.all_eq_true.mp List.all_takeWhile

open Value in
theorem fits_of_unsigned? {digits : DigitLimit} {negative : Bool} {s after : List Char}
    {v : Value} (h : unsigned? digits negative s = some (v, after)) : v.Fits digits 0 := by
  unfold unsigned? at h
  rw [Option.bind_eq_bind, Option.bind_eq_some_iff] at h
  obtain ⟨⟨whole, rest⟩, hwhole, h⟩ := h
  simp only at h
  split at h
  case h_1 =>
    split at h
    case isTrue => cases h
    case isFalse hallowed =>
      cases h
      refine ⟨Nat.le_refl 0, isShort_of_lt (k := whole.length) ?_ (by simpa using hallowed)⟩
      have hlt := decimalValue_lt (isDigit_of_wholePart? hwhole)
      split <;> omega
  case h_2 => cases h; exact ⟨Nat.le_refl 0, rfl⟩
  case h_3 =>
    split at h
    all_goals cases h
    all_goals exact ⟨Nat.le_refl 0, rfl⟩

theorem fits_of_scalar? {digits : DigitLimit} {s after : List Char} {v : Value}
    (h : scalar? digits s = some (v, after)) : v.Fits digits 0 := by
  unfold scalar? at h
  split at h
  case h_1 =>
    obtain ⟨⟨t, rest⟩, -, h⟩ := Option.map_eq_some_iff.mp h
    cases h
    exact Value.fits_text t
  case h_2 =>
    rcases Option.or_eq_some_iff.mp h with h | ⟨-, h⟩
    · obtain ⟨⟨w, v'⟩, hmem, h⟩ := List.exists_of_findSome?_eq_some h
      simp only at h
      split at h
      case isFalse => cases h
      case isTrue =>
        cases h
        have hwords : ∀ e ∈ words, e.2.levels = 0 ∧ e.2.isWritable digits = true := by
          simp [words, Value.levels, Value.isWritable]
        obtain ⟨hlevels, hwritable⟩ := hwords _ hmem
        exact ⟨Nat.le_of_eq hlevels, hwritable⟩
    · unfold number? at h
      split at h
      all_goals exact fits_of_unsigned? h

/-- A value that is one lexeme has no parts, and no more digits than are
read. -/
theorem fits_of_mem_lexemes {digits : DigitLimit} {s : List Char} {v : Value}
    (h : .scalar v ∈ lexemes digits s) : v.Fits digits 0 := by
  fun_induction lexemes digits s with
  | case1 => cases h
  | case2 c rest hspace ih => exact ih h
  | case3 c rest hspace m hmark ih =>
      rcases List.mem_cons.mp h with rfl | h
      · unfold mark? at hmark
        repeat' split at hmark
        all_goals cases hmark
      · exact ih h
  | case4 c rest hspace hmark hscalar => simp at h
  | case5 c rest hspace hmark v' after hscalar ih =>
      rcases List.mem_cons.mp h with heq | h
      · cases heq
        exact fits_of_scalar? hscalar
      · exact ih h

end Digits

-- =========================================================== what was read

section Kept

/-- The finished values of an open array or object. -/
def Frame.parts : Frame → List Value
  | .array items => items
  | .object fields _ => fields.map (·.2)

/-- All that is finished within the open arrays and objects fits, below so
many levels as are open around it. -/
def StackFits (digits : DigitLimit) (top : Nat) : List Frame → Prop
  | [] => True
  | frame :: stack =>
    (∀ v ∈ frame.parts, v.Fits digits (top - (stack.length + 1))) ∧ StackFits digits top stack

/-- A value that has just been finished fits. -/
def Expect.Fits (digits : DigitLimit) (room : Nat) : Expect → Prop
  | .separator v => v.Fits digits room
  | _ => True

variable {digits : DigitLimit} {limit top : Nat} {x : Lexeme} {e e' : Expect}
  {stack stack' : List Frame}

theorem stackFits_cons {frame : Frame} :
    StackFits digits top (frame :: stack)
      ↔ (∀ v ∈ frame.parts, v.Fits digits (top - (stack.length + 1)))
        ∧ StackFits digits top stack :=
  Iff.rfl

/-- All that is finished fits into `top` levels. -/
structure Kept (digits : DigitLimit) (top : Nat) (stack : List Frame) (e : Expect) :
    Prop where
  around : StackFits digits top stack
  last : e.Fits digits (top - stack.length)

theorem kept_beginValue (hx : ∀ v, x = .scalar v → v.Fits digits 0)
    (hk : StackFits digits top stack)
    (h : beginValue limit x stack = .ok (e', stack')) : Kept digits top stack' e' := by
  unfold beginValue at h
  split at h
  case h_1 v =>
    cases h
    exact ⟨hk, (hx v rfl).mono (Nat.zero_le _)⟩
  case h_2 =>
    split at h
    all_goals cases h
    exact ⟨hk, trivial⟩
  case h_3 =>
    split at h
    all_goals cases h
    exact ⟨hk, trivial⟩
  case h_4 => cases h

/-- The finished array takes one level of those that its items had above
them. -/
theorem fits_array_of_open {vs : List Value} {n : Nat} (hopen : n + 1 ≤ top)
    (h : ∀ v ∈ vs, v.Fits digits (top - (n + 1))) :
    (Value.array vs).Fits digits (top - n) := by
  rw [show top - n = top - (n + 1) + 1 by omega, Value.fits_array_iff]
  exact h

theorem fits_object_of_open {fields : List (Points × Value)} {n : Nat} (hopen : n + 1 ≤ top)
    (h : ∀ v ∈ fields.map (·.2), v.Fits digits (top - (n + 1))) :
    (Value.object (Entries.ofPairs fields)).Fits digits (top - n) := by
  rw [show top - n = top - (n + 1) + 1 by omega, Value.fits_object_iff]
  exact fun f hf => h _ (Entries.mem_of_mem_ofPairs hf)

theorem kept_step (hx : ∀ v, x = .scalar v → v.Fits digits 0)
    (htop : depth stack e ≤ top) (hk : Kept digits top stack e)
    (h : step limit x stack e = .ok (e', stack')) : Kept digits top stack' e' := by
  obtain ⟨hstack, hlast⟩ := hk
  unfold step at h
  split at h
  case h_1 => exact kept_beginValue hx hstack h
  case h_2 =>
    split at h
    case h_1 =>
      cases h
      exact ⟨hstack, fits_array_of_open htop nofun⟩
    case h_2 => exact kept_beginValue hx (stackFits_cons.mpr ⟨List.forall_mem_nil _, hstack⟩) h
  case h_3 =>
    split at h
    case h_1 =>
      cases h
      have hempty : (Value.object (Entries.ofPairs [])).Fits digits (top - stack.length) :=
        fits_object_of_open htop (List.forall_mem_nil _)
      exact ⟨hstack, hempty⟩
    case h_2 =>
      cases h
      exact ⟨stackFits_cons.mpr ⟨List.forall_mem_nil _, hstack⟩, trivial⟩
    case h_3 => cases h
  case h_4 =>
    split at h
    case h_1 =>
      cases h
      exact ⟨hstack, trivial⟩
    case h_2 => cases h
  case h_5 k =>
    split at h
    case h_1 =>
      cases h
      exact ⟨hstack, trivial⟩
    case h_2 => cases h
  case h_6 v =>
    split at h
    case h_1 items stack =>
      -- the array goes on
      have hparts : ∀ w ∈ v :: items, w.Fits digits (top - (stack.length + 1)) :=
        List.forall_mem_cons.mpr ⟨hlast, hstack.1⟩
      cases h
      exact ⟨stackFits_cons.mpr ⟨hparts, hstack.2⟩, trivial⟩
    case h_2 items stack =>
      -- the array ends, and its items lose the level that it takes
      have hparts : ∀ w ∈ v :: items, w.Fits digits (top - (stack.length + 1)) :=
        List.forall_mem_cons.mpr ⟨hlast, hstack.1⟩
      cases h
      exact ⟨hstack.2, fits_array_of_open htop fun w hw => hparts w (List.mem_reverse.mp hw)⟩
    case h_3 fields k stack =>
      -- the object goes on
      have hparts : ∀ w ∈ v :: fields.map (·.2), w.Fits digits (top - (stack.length + 1)) :=
        List.forall_mem_cons.mpr ⟨hlast, hstack.1⟩
      cases h
      exact ⟨stackFits_cons.mpr ⟨hparts, hstack.2⟩, trivial⟩
    case h_4 fields k stack =>
      -- the object ends, and of fields with one name the last stays
      have hparts : ∀ w ∈ v :: fields.map (·.2), w.Fits digits (top - (stack.length + 1)) :=
        List.forall_mem_cons.mpr ⟨hlast, hstack.1⟩
      cases h
      refine ⟨hstack.2, fits_object_of_open htop fun w hw => ?_⟩
      rw [List.map_reverse, List.mem_reverse] at hw
      exact hparts w hw
    case h_5 => cases h

theorem fits_of_run {xs : List Lexeme} {v : Value}
    (hxs : ∀ v, .scalar v ∈ xs → v.Fits digits 0)
    (htop : nestingFrom (depth stack e) xs ≤ top) (hk : Kept digits top stack e)
    (h : run limit xs e stack = .ok v) : v.Fits digits top := by
  induction xs generalizing e stack with
  | nil =>
      unfold run at h
      split at h
      case h_1 => cases h; exact hk.last
      case h_2 => cases h
      case h_3 heq => cases heq
  | cons x xs ih =>
      rw [run] at h
      split at h
      case h_1 => cases h
      case h_2 hstep =>
        have hopen := Nat.le_trans (le_nestingFrom _ (x :: xs)) htop
        have hrest := Nat.le_trans (nestingFrom_shift_le _ x xs) htop
        rw [← depth_of_step hstep] at hrest
        refine ih (fun v hv => hxs v (List.mem_cons_of_mem _ hv)) hrest ?_ h
        exact kept_step (fun v hv => hxs v (hv ▸ List.mem_cons_self)) hopen hk hstep

/-- A value that was read has no more levels than its text, and may be
written again. -/
theorem fits_of_read {s : String} {v : Value} (h : read limit s digits = .ok v) :
    v.Fits digits (nesting s digits) :=
  have hbegin : Kept digits (nesting s digits) [] .value := ⟨trivial, trivial⟩
  fits_of_run (fun _ => fits_of_mem_lexemes) (Nat.le_refl _) hbegin h

end Kept

-- =================================================================== room

section Room

variable {c : Steps} {m n room : Nat}

theorem Steps.roomFor_succ : c.roomFor (n + 1) = c.roomFor n + c.level := by
  unfold roomFor
  rw [Nat.mul_succ]
  omega

theorem Steps.roomFor_mono (h : m ≤ n) : c.roomFor m ≤ c.roomFor n :=
  Nat.add_le_add_right (Nat.mul_le_mul_left _ h) _

theorem Steps.endOverrun?_eq_none (h : c.roomFor n ≤ room) : c.endOverrun? room = none := by
  unfold roomFor at h
  unfold endOverrun?
  rw [if_neg (by omega), if_neg (by omega)]

namespace Value

mutual

/-- Room for the levels of a value is enough for it. -/
theorem overrun?_eq_none (v : Value) {room : Nat} (h : c.roomFor v.levels ≤ room) :
    v.overrun? c room = none := by
  cases v with
  | array vs =>
      rw [levels, Steps.roomFor_succ] at h
      rw [overrun?, if_neg (by omega)]
      exact itemsOverrun?_eq_none vs (by omega)
  | object fields =>
      rw [levels, Steps.roomFor_succ] at h
      rw [overrun?, if_neg (by omega)]
      exact fieldsOverrun?_eq_none fields (by omega)
  | _ => exact Steps.endOverrun?_eq_none h

theorem itemsOverrun?_eq_none (vs : List Value) {room : Nat}
    (h : c.roomFor (levelsOfItems vs) ≤ room) : itemsOverrun? c room vs = none := by
  cases vs with
  | nil => rfl
  | cons v vs =>
      rw [levelsOfItems] at h
      have hv := Nat.le_trans (Steps.roomFor_mono (Nat.le_max_left _ _)) h
      have hvs := Nat.le_trans (Steps.roomFor_mono (Nat.le_max_right _ _)) h
      rw [itemsOverrun?, overrun?_eq_none v hv, itemsOverrun?_eq_none vs hvs]
      rfl

theorem fieldsOverrun?_eq_none (fields : List (Points × Value)) {room : Nat}
    (h : c.roomFor (levelsOfFields fields) ≤ room) : fieldsOverrun? c room fields = none := by
  cases fields with
  | nil => rfl
  | cons f fields =>
      obtain ⟨k, v⟩ := f
      rw [levelsOfFields] at h
      have hv := Nat.le_trans (Steps.roomFor_mono (Nat.le_max_left _ _)) h
      have hfields := Nat.le_trans (Steps.roomFor_mono (Nat.le_max_right _ _)) h
      rw [fieldsOverrun?, Steps.endOverrun?_eq_none h, overrun?_eq_none v hv,
        fieldsOverrun?_eq_none fields hfields]
      rfl

end

end Value

end Room

end Siteswap.Json
