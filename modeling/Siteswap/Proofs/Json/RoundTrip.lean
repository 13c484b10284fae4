/-
Documents: what is written is read back.

Writing and reading meet in the lexemes. A written document is cut into
the lexemes of its value (`lexemes_write`), and the reader takes the
lexemes of a value, wherever in a document they stand, as that value
(`run_lexemesOf`). Both go through a value along its parts, with a
statement of their own for the items of an array and the fields of an
object that are still to come.

# What comes back

Not quite the value: a float comes back as the float that its text reads
as, and an object whose names repeat comes back with each name once
(`readBack`). All else is as it was; in particular, what is no text does
not become one (`readBack_eq_text_iff`). The reader has a limit of levels, and
going through a value takes the steps of each of its levels
(`levels_le_of_overrun?`).
-/
import Siteswap.Json.Depth
import Siteswap.Json.Reader
import Siteswap.Proofs.Json.Numbers
import Siteswap.Proofs.Json.Strings

namespace Siteswap.Json

open Number (DigitLimit)

-- ============================================================== one lexeme

section Lexemes

variable {digits : DigitLimit}

theorem lexemes_nil : lexemes digits [] = [] := by
  rw [lexemes]

theorem lexemes_space (s : List Char) :
    lexemes digits (' ' :: s) = lexemes digits s := by
  rw [lexemes]
  rfl

theorem lexemes_mark {c : Char} {x : Lexeme} (hspace : isSpace c = false)
    (hmark : mark? c = some x) (s : List Char) :
    lexemes digits (c :: s) = x :: lexemes digits s := by
  rw [lexemes, hspace, hmark]
  rfl

/-- Neither a blank nor a bracket nor a separator begins a scalar. -/
theorem scalar?_eq_none {c : Char} (h : isSpace c = true ∨ (mark? c).isSome = true)
    (s : List Char) : scalar? digits (c :: s) = none := by
  have hc : c ∈ [' ', '\t', '\n', '\r', '[', ']', '{', '}', ',', ':'] := by
    unfold isSpace mark? at h
    repeat' split at h
    all_goals simp_all [or_assoc]
  simp only [List.mem_cons, List.not_mem_nil, or_false] at hc
  rcases hc with rfl | rfl | rfl | rfl | rfl | rfl | rfl | rfl | rfl | rfl
  all_goals rfl

theorem lexemes_scalar {s after : List Char} {v : Value}
    (h : scalar? digits s = some (v, after)) :
    lexemes digits s = .scalar v :: lexemes digits after := by
  cases s with
  | nil => cases h
  | cons c s =>
      have hspace : isSpace c = false := by
        cases hs : isSpace c with
        | false => rfl
        | true =>
            rw [scalar?_eq_none (.inl hs)] at h
            cases h
      have hmark : mark? c = none := by
        cases hm : mark? c with
        | none => rfl
        | some x =>
            rw [scalar?_eq_none (.inr (by rw [hm]; rfl))] at h
            cases h
      rw [lexemes, hspace, hmark]
      simp only [Bool.false_eq_true, if_false]
      split
      case h_1 hnone =>
        rw [h] at hnone
        cases hnone
      case h_2 v' after' hsome =>
        rw [h] at hsome
        injection hsome with hsome
        injection hsome with hv hafter
        rw [hv, hafter]

end Lexemes

-- ============================================================= what comes back

/-- The float that the text of a float reads as, whatever the limit. -/
def floatBack (x : Float) : Value :=
  match scalar? .usual (writeFloat x) with
  | some (v, _) => v
  | none => .null

theorem scalar?_floatBack (digits : DigitLimit) (x : Float) {rest : List Char}
    (h : Ends rest) :
    scalar? digits (writeFloat x ++ rest) = some (floatBack x, rest)
      ∧ ∃ y, floatBack x = .float y := by
  obtain ⟨y, hy⟩ := scalar?_writeFloat x
  have hend := hy .usual [] trivial
  rw [List.append_nil] at hend
  have hback : floatBack x = .float y := by
    unfold floatBack
    rw [hend]
  exact ⟨by rw [hy digits rest h, hback], y, hback⟩

namespace Value

mutual

/-- The value that a written value is read back as. -/
def readBack : Value → Value
  | .float x => floatBack x
  | .array vs => .array (itemsBack vs)
  | .object fields => .object (Entries.ofPairs (fieldsBack fields))
  | v => v

/-- The values that some written values are read back as. -/
def itemsBack : List Value → List Value
  | [] => []
  | v :: vs => readBack v :: itemsBack vs

/-- The fields that some written fields are read back as. -/
def fieldsBack : List (Points × Value) → List (Points × Value)
  | [] => []
  | (k, v) :: fields => (k, readBack v) :: fieldsBack fields

end

theorem itemsBack_eq_map (vs : List Value) : itemsBack vs = vs.map readBack := by
  induction vs with
  | nil => rfl
  | cons v vs ih => rw [itemsBack, ih, List.map_cons]

theorem fieldsBack_eq_map (fields : List (Points × Value)) :
    fieldsBack fields = fields.map fun f => (f.1, f.2.readBack) := by
  induction fields with
  | nil => rfl
  | cons f fields ih => rw [fieldsBack, ih, List.map_cons]

/-- Texts come back as they were, and nothing else comes back as a text. -/
theorem readBack_eq_text_iff {v : Value} {s : Points} :
    v.readBack = .text s ↔ v = .text s := by
  cases v with
  | float x =>
      obtain ⟨-, y, hy⟩ := scalar?_floatBack .usual x (show Ends [] from trivial)
      rw [readBack, hy]
      exact iff_of_false nofun nofun
  | array vs => exact iff_of_false nofun nofun
  | object fields => exact iff_of_false nofun nofun
  | _ => exact Iff.rfl

end Value

-- ================================================================ lexemes

mutual

/-- The lexemes of a written value. -/
def lexemesOf : Value → List Lexeme
  | .array [] => [.openArray, .closeArray]
  | .array (v :: vs) => .openArray :: lexemesOf v ++ lexemesOfItems vs ++ [.closeArray]
  | .object [] => [.openObject, .closeObject]
  | .object ((k, v) :: fields) =>
    .openObject :: .scalar (.text k) :: .colon :: lexemesOf v ++ lexemesOfFields fields
      ++ [.closeObject]
  | v => [.scalar v.readBack]

/-- The lexemes of the items behind the first. -/
def lexemesOfItems : List Value → List Lexeme
  | [] => []
  | v :: vs => .comma :: lexemesOf v ++ lexemesOfItems vs

/-- The lexemes of the fields behind the first. -/
def lexemesOfFields : List (Points × Value) → List Lexeme
  | [] => []
  | (k, v) :: fields =>
    .comma :: .scalar (.text k) :: .colon :: lexemesOf v ++ lexemesOfFields fields

end

section Cutting

variable {digits : DigitLimit}

theorem ends_writeItems (vs : List Value) (rest : List Char) :
    Ends (writeItems vs ++ ']' :: rest) := by
  cases vs with
  | nil => exact .inr (.inl rfl)
  | cons v vs => exact .inl rfl

theorem ends_writeFields (fields : List (Points × Value)) (rest : List Char) :
    Ends (writeFields fields ++ '}' :: rest) := by
  cases fields with
  | nil => exact .inr (.inr rfl)
  | cons f fields => exact .inl rfl

/-- A name with its colon. -/
theorem lexemes_name (k : Points) (s : List Char) :
    lexemes digits (writeString k ++ ':' :: ' ' :: s)
      = .scalar (.text k) :: .colon :: lexemes digits s := by
  rw [lexemes_scalar (scalar?_writeString digits k _), lexemes_mark rfl rfl,
    lexemes_space]

mutual

/-- A written value is cut into its lexemes. -/
theorem lexemes_write (v : Value) (hw : v.isWritable digits = true)
    {rest : List Char} (hrest : Ends rest) :
    lexemes digits (write v ++ rest) = lexemesOf v ++ lexemes digits rest := by
  cases v with
  | null => exact lexemes_scalar rfl
  | bool b => cases b <;> exact lexemes_scalar rfl
  | int n => exact lexemes_scalar (scalar?_writeInt hw hrest)
  | float x => exact lexemes_scalar (scalar?_floatBack digits x hrest).1
  | text s => exact lexemes_scalar (scalar?_writeString digits s rest)
  | array vs =>
      cases vs with
      | nil =>
          show lexemes digits ('[' :: ']' :: rest) = _
          rw [lexemes_mark rfl rfl, lexemes_mark rfl rfl]
          rfl
      | cons v vs =>
          rw [Value.isWritable, Value.areWritable, Bool.and_eq_true] at hw
          rw [write, lexemesOf]
          simp only [List.cons_append, List.append_assoc, List.nil_append]
          rw [lexemes_mark rfl rfl,
            lexemes_write v hw.1 (ends_writeItems vs rest),
            lexemes_writeItems vs hw.2 rest]
  | object fields =>
      cases fields with
      | nil =>
          show lexemes digits ('{' :: '}' :: rest) = _
          rw [lexemes_mark rfl rfl, lexemes_mark rfl rfl]
          rfl
      | cons f fields =>
          obtain ⟨k, v⟩ := f
          rw [Value.isWritable, Value.fieldsWritable, Bool.and_eq_true] at hw
          rw [write, lexemesOf]
          simp only [List.cons_append, List.append_assoc, List.nil_append]
          rw [lexemes_mark rfl rfl, lexemes_name,
            lexemes_write v hw.1 (ends_writeFields fields rest),
            lexemes_writeFields fields hw.2 rest]

theorem lexemes_writeItems (vs : List Value)
    (hw : Value.areWritable digits vs = true) (rest : List Char) :
    lexemes digits (writeItems vs ++ ']' :: rest)
      = lexemesOfItems vs ++ .closeArray :: lexemes digits rest := by
  cases vs with
  | nil => exact lexemes_mark rfl rfl rest
  | cons v vs =>
      rw [Value.areWritable, Bool.and_eq_true] at hw
      rw [writeItems, lexemesOfItems]
      simp only [List.cons_append, List.append_assoc]
      rw [lexemes_mark rfl rfl, lexemes_space,
        lexemes_write v hw.1 (ends_writeItems vs rest),
        lexemes_writeItems vs hw.2 rest]

theorem lexemes_writeFields (fields : List (Points × Value))
    (hw : Value.fieldsWritable digits fields = true) (rest : List Char) :
    lexemes digits (writeFields fields ++ '}' :: rest)
      = lexemesOfFields fields ++ .closeObject :: lexemes digits rest := by
  cases fields with
  | nil => exact lexemes_mark rfl rfl rest
  | cons f fields =>
      obtain ⟨k, v⟩ := f
      rw [Value.fieldsWritable, Bool.and_eq_true] at hw
      rw [writeFields, lexemesOfFields]
      simp only [List.cons_append, List.append_assoc, List.nil_append]
      rw [lexemes_mark rfl rfl, lexemes_space, lexemes_name,
        lexemes_write v hw.1 (ends_writeFields fields rest),
        lexemes_writeFields fields hw.2 rest]

end

end Cutting

-- ================================================================= levels

namespace Value

mutual

/-- How many arrays and objects a value has inside each other. -/
def levels : Value → Nat
  | .array vs => levelsOfItems vs + 1
  | .object fields => levelsOfFields fields + 1
  | _ => 0

/-- The most levels of some values. -/
def levelsOfItems : List Value → Nat
  | [] => 0
  | v :: vs => max (levels v) (levelsOfItems vs)

/-- The most levels of the values of some fields. -/
def levelsOfFields : List (Points × Value) → Nat
  | [] => 0
  | (_, v) :: fields => max (levels v) (levelsOfFields fields)

end

variable {c : Steps}

mutual

/-- Going through a value takes the steps of each level. -/
theorem levels_le_of_overrun? (v : Value) {room : Nat}
    (h : v.overrun? c room = none) : c.level * v.levels ≤ room := by
  cases v with
  | array vs =>
      rw [overrun?] at h
      split at h
      case isTrue => cases h
      case isFalse hroom =>
        have := levelsOfItems_le vs h
        rw [levels, Nat.mul_succ]
        omega
  | object fields =>
      rw [overrun?] at h
      split at h
      case isTrue => cases h
      case isFalse hroom =>
        have := levelsOfFields_le fields h
        rw [levels, Nat.mul_succ]
        omega
  | _ => exact Nat.zero_le _

theorem levelsOfItems_le (vs : List Value) {room : Nat}
    (h : itemsOverrun? c room vs = none) : c.level * levelsOfItems vs ≤ room := by
  cases vs with
  | nil => exact Nat.zero_le _
  | cons v vs =>
      rw [itemsOverrun?, Option.or_eq_none_iff] at h
      have hv := levels_le_of_overrun? v h.1
      have hvs := levelsOfItems_le vs h.2
      rw [levelsOfItems, ← Nat.mul_max_mul_left]
      exact Nat.max_le.mpr ⟨hv, hvs⟩

theorem levelsOfFields_le (fields : List (Points × Value)) {room : Nat}
    (h : fieldsOverrun? c room fields = none) :
    c.level * levelsOfFields fields ≤ room := by
  cases fields with
  | nil => exact Nat.zero_le _
  | cons f fields =>
      obtain ⟨k, v⟩ := f
      rw [fieldsOverrun?, Option.or_eq_none_iff, Option.or_eq_none_iff] at h
      have hv := levels_le_of_overrun? v h.1.2
      have hfields := levelsOfFields_le fields h.2
      rw [levelsOfFields, ← Nat.mul_max_mul_left]
      exact Nat.max_le.mpr ⟨hv, hfields⟩

end

end Value

-- ================================================================ reading

section Reading

variable {limit : Nat}

theorem run_step {x : Lexeme} {e e' : Expect} {stack stack' : List Frame}
    (h : step limit x stack e = .ok (e', stack')) (xs : List Lexeme) :
    run limit (x :: xs) e stack = run limit xs e' stack' := by
  rw [run, h]

/-- The first item of an array is read as any value is: no value begins
with the bracket that closes an array. -/
theorem run_firstItem (v : Value) (xs : List Lexeme) (stack : List Frame) :
    run limit (lexemesOf v ++ xs) .firstItem stack
      = run limit (lexemesOf v ++ xs) .value (.array [] :: stack) := by
  cases v with
  | array vs => cases vs <;> rfl
  | object fields => cases fields <;> rfl
  | _ => rfl

mutual

/-- The lexemes of a value are read as what comes back of it, where there
is room for its levels. -/
theorem run_lexemesOf (v : Value) {stack : List Frame} (xs : List Lexeme)
    (h : stack.length + v.levels ≤ limit) :
    run limit (lexemesOf v ++ xs) .value stack
      = run limit xs (.separator v.readBack) stack := by
  cases v with
  | array vs =>
      rw [Value.levels] at h
      have hopen : step limit .openArray stack .value = .ok (.firstItem, stack) :=
        if_pos (by omega)
      cases vs with
      | nil =>
          rw [lexemesOf, List.cons_append, List.cons_append, run_step hopen,
            run_step rfl]
          rfl
      | cons v vs =>
          rw [Value.levelsOfItems] at h
          rw [lexemesOf]
          simp only [List.cons_append, List.append_assoc, List.nil_append]
          rw [run_step hopen, run_firstItem,
            run_lexemesOf v _ (by rw [List.length_cons]; omega),
            run_lexemesOfItems vs xs (by omega)]
          rfl
  | object fields =>
      rw [Value.levels] at h
      have hopen : step limit .openObject stack .value = .ok (.firstName, stack) :=
        if_pos (by omega)
      cases fields with
      | nil =>
          rw [lexemesOf, List.cons_append, List.cons_append, run_step hopen,
            run_step rfl]
          rfl
      | cons f fields =>
          obtain ⟨k, v⟩ := f
          rw [Value.levelsOfFields] at h
          rw [lexemesOf]
          simp only [List.cons_append, List.append_assoc, List.nil_append]
          rw [run_step hopen, run_step rfl, run_step rfl,
            run_lexemesOf v _ (by rw [List.length_cons]; omega),
            run_lexemesOfFields fields xs (by omega)]
          rfl
  | _ => rfl

theorem run_lexemesOfItems (vs : List Value) {v : Value} {items : List Value}
    {stack : List Frame} (xs : List Lexeme)
    (h : stack.length + 1 + Value.levelsOfItems vs ≤ limit) :
    run limit (lexemesOfItems vs ++ .closeArray :: xs) (.separator v)
        (.array items :: stack)
      = run limit xs
          (.separator (.array ((v :: items).reverse ++ Value.itemsBack vs))) stack := by
  cases vs with
  | nil =>
      rw [Value.itemsBack, List.append_nil]
      rfl
  | cons w vs =>
      rw [Value.levelsOfItems] at h
      rw [lexemesOfItems]
      simp only [List.cons_append, List.append_assoc]
      rw [run_step rfl, run_lexemesOf w _ (by rw [List.length_cons]; omega),
        run_lexemesOfItems vs xs (by omega), Value.itemsBack,
        List.reverse_cons (a := w.readBack), List.append_assoc]
      rfl

theorem run_lexemesOfFields (fields : List (Points × Value)) {k : Points}
    {v : Value} {done : List (Points × Value)} {stack : List Frame}
    (xs : List Lexeme)
    (h : stack.length + 1 + Value.levelsOfFields fields ≤ limit) :
    run limit (lexemesOfFields fields ++ .closeObject :: xs) (.separator v)
        (.object done k :: stack)
      = run limit xs
          (.separator (.object (Entries.ofPairs
            (((k, v) :: done).reverse ++ Value.fieldsBack fields)))) stack := by
  cases fields with
  | nil =>
      rw [Value.fieldsBack, List.append_nil]
      rfl
  | cons f fields =>
      obtain ⟨k', w⟩ := f
      rw [Value.levelsOfFields] at h
      rw [lexemesOfFields]
      simp only [List.cons_append, List.append_assoc]
      rw [run_step rfl, run_step rfl, run_step rfl,
        run_lexemesOf w _ (by rw [List.length_cons]; omega),
        run_lexemesOfFields fields xs (by omega), Value.fieldsBack,
        List.reverse_cons, List.append_assoc]
      rfl

end

end Reading

/-- A written document is read back, where the reader has room for its
levels. -/
theorem read_render {digits : DigitLimit} {v : Value} {limit : Nat}
    (hw : v.isWritable digits = true) (hlevels : v.levels ≤ limit) :
    read limit v.render digits = .ok v.readBack := by
  have hcut := lexemes_write v hw (show Ends [] from trivial)
  rw [List.append_nil, lexemes_nil] at hcut
  rw [read, Value.render, String.toList_ofList, hcut,
    run_lexemesOf v [] (by simpa using hlevels)]
  rfl

end Siteswap.Json
