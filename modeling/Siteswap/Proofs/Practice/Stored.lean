/-
Stored records: what is saved is loaded again.

A record is saved as a document on one line and loaded by reading it. What
comes back (`Record.readBack`) is the record but for two things: floats
come back as the floats that their texts read as, and keys that share a
name come back as one, a text. `loadWithin_of_saveWithin` says so of every
record and every store, with no word about the record: saving itself
refuses what could not be read.

# Operations

Marking and counting read the record, change it and store it. Each has one
lemma that says all it does when it succeeds (`mark_eq_ok_iff`,
`recordCatches_eq_ok_iff`).
-/
import Siteswap.Practice.Tracker
import Siteswap.Proofs.Entries
import Siteswap.Proofs.Json.RoundTrip

namespace Siteswap

theorem Store.get?_set (s : Store String) (key key' value : String) :
    (s.set key value).get? key' = if key = key' then some value else s.get? key' := by
  unfold get? set
  rw [Entries.get?_put]
  simp only [beq_iff_eq]

theorem Store.get?_delete (s : Store String) (key key' : String) :
    (s.delete key).get? key' = if key = key' then none else s.get? key' := by
  unfold get? delete
  rw [Entries.get?_erase]
  simp only [beq_iff_eq]

namespace Practice

open Json (Key Points Value)
open Number (DigitLimit)

-- ============================================================== records

namespace Record

/-- The record that a saved record is loaded as. -/
def readBack (r : Record) : Record where
  completed := r.completed.map Value.readBack
  catches := Entries.ofPairs r.catches
  dates := (Entries.ofPairs (r.dates.map fun e => (e.1.name, e.2.readBack))).map
    fun e => (.text e.1, e.2)

theorem counts_int (digits : DigitLimit) (catches : Entries Points Int) :
    (Value.object (catches.map fun e => (e.1, .int e.2))).counts digits
      = .ok catches := by
  rw [Value.counts]
  induction catches with
  | nil => rfl
  | cons e catches ih =>
      rw [List.map_cons, List.mapM_cons, ih]
      rfl

/-- Days under texts are stored under these texts. -/
theorem map_name_text (days : Entries Points Value) :
    (days.map fun e => (Key.text e.1, e.2)).map (fun e => (e.1.name, e.2)) = days := by
  rw [List.map_map]
  exact List.map_id days

/-- A document that has all three fields is read field by field. -/
theorem ofValue_fields (digits : DigitLimit) (completed catches dates : Value) :
    ofValue (.object [("completed_patterns", completed), ("max_catches", catches),
        ("completion_dates", dates)]) digits
      = (do return ⟨← completed.items, ← catches.counts digits, ← dates.map⟩) := rfl

/-- A record is read from its document, the keys of the days as texts. -/
theorem ofValue_toValue (digits : DigitLimit) (r : Record) :
    ofValue r.toValue digits
      = .ok { r with dates := r.dates.map fun e => (.text e.1.name, e.2) } := by
  rw [toValue, ofValue_fields, counts_int, Value.map, List.map_map]
  rfl

theorem readBack_toValue (r : Record) :
    r.toValue.readBack = r.readBack.toValue := by
  have hcatches : Value.fieldsBack (r.catches.map fun e => (e.1, .int e.2))
      = r.catches.map fun e => (e.1, .int e.2) := by
    rw [Value.fieldsBack_eq_map, List.map_map]
    rfl
  have hdates : Value.fieldsBack (r.dates.map fun e => (e.1.name, e.2))
      = r.dates.map fun e => (e.1.name, e.2.readBack) := by
    rw [Value.fieldsBack_eq_map, List.map_map]
    rfl
  unfold toValue
  simp only [Value.readBack, Value.fieldsBack, hcatches, hdates,
    Value.itemsBack_eq_map]
  rw [Entries.ofPairs_of_nodup (by simp), ← Entries.map_ofPairs]
  simp only [readBack, map_name_text]

theorem ofValue_readBack (digits : DigitLimit) (r : Record) :
    ofValue r.toValue.readBack digits = .ok r.readBack := by
  rw [readBack_toValue, ofValue_toValue]
  simp only [readBack, List.map_map]
  rfl

theorem hasCompleted_iff {r : Record} {form : String} :
    r.hasCompleted form = true ↔ Value.text form ∈ r.completed := by
  unfold hasCompleted
  rw [List.any_eq_true]
  constructor
  · rintro ⟨v, hv, htext⟩
    cases v with
    | text s =>
        simp only [decide_eq_true_eq] at htext
        rwa [← htext]
    | _ => cases htext
  · intro h
    exact ⟨.text form, h, by simp⟩

/-- No completed pattern is lost or gained on the way back. -/
theorem hasCompleted_readBack (r : Record) (form : String) :
    r.readBack.hasCompleted form = r.hasCompleted form := by
  rw [Bool.eq_iff_iff, hasCompleted_iff, hasCompleted_iff]
  show _ ∈ r.completed.map Value.readBack ↔ _
  rw [List.mem_map]
  constructor
  · rintro ⟨v, hv, htext⟩
    rwa [← Value.readBack_eq_text_iff.mp htext]
  · intro h
    exact ⟨_, h, rfl⟩

end Record

-- ================================================================ limits

namespace Limits

variable (limits : Limits)

/-- More levels can be read than there is room for. -/
theorem lt_levels {n : Nat} (h : limits.steps.level * n ≤ limits.room) : n < limits.levels :=
  Nat.lt_of_mul_lt_mul_left (Nat.lt_of_le_of_lt h limits.readable)

theorem lt_levels_of_roomFor {n : Nat} (h : limits.steps.roomFor n < limits.room) :
    n < limits.levels :=
  limits.lt_levels (Nat.le_trans (Nat.le_add_right _ _) (Nat.le_of_lt h))

/-- Two levels can be read within another operation as well. -/
theorem two_le_levels : 2 ≤ limits.levels - 1 :=
  Nat.le_sub_one_of_lt (limits.lt_levels_of_roomFor limits.roomy)

end Limits

-- =============================================================== trackers

namespace Tracker

variable {t : Tracker} {s s' : Store String} {digits : DigitLimit}

/-- What saving does to the store, and what it asks for. -/
theorem saveWithin_eq_ok_iff {room : Nat} {r : Record} :
    t.saveWithin s room r digits = .ok s'
      ↔ r.toValue.overrun? t.limits.steps room = none ∧ r.toValue.isWritable digits = true
        ∧ s' = s.set t.key r.text := by
  unfold saveWithin
  split
  case h_1 what h =>
    rw [h]
    exact iff_of_false nofun nofun
  case h_2 h =>
    rw [h]
    split
    case isTrue hw =>
      rw [hw, Except.ok.injEq]
      exact ⟨fun heq => ⟨rfl, rfl, heq.symm⟩, fun h => h.2.2.symm⟩
    case isFalse hw => exact iff_of_false nofun fun h => hw h.2.1

/-- A stored record is loaded as what is read back of it, with a level for
each of its own. -/
theorem loadWithin_set {levels : Nat} {r : Record} (t : Tracker) (s : Store String)
    (hwritable : r.toValue.isWritable digits = true) (hlevels : r.toValue.levels ≤ levels) :
    t.loadWithin (s.set t.key r.text) levels digits = .ok r.readBack := by
  have hread : Json.read levels r.toValue.render digits = .ok r.toValue.readBack :=
    Json.read_render hwritable hlevels
  unfold loadWithin
  rw [Store.get?_set, if_pos rfl]
  unfold Record.text
  simp only
  rw [hread]
  simp only
  rw [Record.ofValue_readBack]

/-- What is saved is loaded, also within another operation: it has fewer
levels than are read. -/
theorem loadWithin_of_saveWithin {room levels : Nat} {r : Record}
    (h : t.saveWithin s room r digits = .ok s') (hroom : room ≤ t.limits.room)
    (hlimit : t.limits.levels - 1 ≤ levels) :
    t.loadWithin s' levels digits = .ok r.readBack := by
  obtain ⟨hoverrun, hwritable, rfl⟩ := saveWithin_eq_ok_iff.mp h
  have hlevels := t.limits.lt_levels
    (Nat.le_trans (Value.levels_le_of_overrun? r.toValue hoverrun) hroom)
  exact loadWithin_set t s hwritable (by omega)

end Tracker

-- ============================================================= operations

/-- A pattern has a canonical form to record iff it is valid. -/
theorem canonicalForm_eq_ok_iff {typed : Typed} {form : String} :
    canonicalForm typed = .ok form
      ↔ (Verdict.ofTyped typed).isValid = true
        ∧ ∃ c, Canonical.ofTyped typed = .ok c ∧ c.form = form := by
  unfold canonicalForm Verdict.ofTyped Canonical.ofTyped Verdict.isValid
  cases hread : Pattern.read typed with
  | error e => exact iff_of_false nofun fun h => nomatch h.1
  | ok p =>
      simp only
      cases hout : (Verdict.ofPattern p).outcome with
      | error findings => exact iff_of_false nofun fun h => nomatch h.1
      | ok figures =>
          show Except.ok (Canonical.ofPattern p).form = .ok form ↔ _
          rw [Except.ok.injEq]
          constructor
          · intro h
            exact ⟨rfl, _, rfl, h⟩
          · rintro ⟨-, c, hc, h⟩
            cases hc
            exact h

/-- The record after a mark. -/
def Record.marked (r : Record) (form : String) (catches : Option Int)
    (day : String) : Record :=
  match catches with
  | none => r.complete form day
  | some n => (r.complete form day).keepBest form n

namespace Tracker

variable {t : Tracker} {s s' : Store String}

/-- An operation ends by storing a record and giving its answer. -/
theorem answer_eq_ok_iff {α : Type} {a b : α} {x : Except Error (Store String)} :
    (do return (a, ← x) : Except Error (α × Store String)) = .ok (b, s')
      ↔ a = b ∧ x = .ok s' := by
  cases x with
  | error e => exact iff_of_false nofun fun h => nomatch h.2
  | ok s₁ =>
      show Except.ok (a, s₁) = _ ↔ _
      simp

theorem counted_eq_ok_iff {α : Type} {n : Int} {a b : α}
    {x : Except Error (Store String)} :
    (do
        if n < 0 then throw .negativeCatches
        return (a, ← x) : Except Error (α × Store String)) = .ok (b, s')
      ↔ 0 ≤ n ∧ a = b ∧ x = .ok s' := by
  by_cases h : n < 0
  · rw [if_pos h]
    exact iff_of_false nofun fun hpos => by omega
  · rw [if_neg h]
    exact answer_eq_ok_iff.trans (iff_and_self.mpr fun _ => by omega)

/-- All that marking does: the pattern has a form, the record is read, the
count is not negative, and the record is stored. -/
theorem mark_eq_ok_iff {typed : Typed} {catches : Option Int} {day : Date}
    {form : String} :
    t.mark s typed catches day = .ok (form, s')
      ↔ canonicalForm typed = .ok form ∧ (∀ n ∈ catches, 0 ≤ n)
        ∧ ∃ r, t.current s = .ok r
          ∧ t.update s (r.marked form catches day.render) = .ok s' := by
  unfold mark
  cases hform : canonicalForm typed with
  | error e => exact iff_of_false nofun fun h => nomatch h.1
  | ok form' =>
      cases hr : t.current s with
      | error e => exact iff_of_false nofun fun ⟨_, _, _, h, _⟩ => nomatch h
      | ok r =>
          have hmarked : (∃ r', Except.ok (ε := Error) r = .ok r'
              ∧ t.update s (r'.marked form catches day.render) = .ok s')
              ↔ t.update s (r.marked form catches day.render) = .ok s' := by
            simp
          rw [hmarked, Except.ok.injEq]
          cases catches with
          | none =>
              refine answer_eq_ok_iff.trans ?_
              constructor
              · rintro ⟨rfl, h⟩
                exact ⟨rfl, nofun, h⟩
              · rintro ⟨rfl, -, h⟩
                exact ⟨rfl, h⟩
          | some n =>
              refine counted_eq_ok_iff.trans ?_
              constructor
              · rintro ⟨hn, rfl, h⟩
                exact ⟨rfl, by simpa using hn, h⟩
              · rintro ⟨rfl, hn, h⟩
                exact ⟨hn n rfl, rfl, h⟩

/-- All that counting catches does. -/
theorem recordCatches_eq_ok_iff {typed : Typed} {n best : Int} :
    t.recordCatches s typed n = .ok (best, s')
      ↔ 0 ≤ n ∧ ∃ form r, canonicalForm typed = .ok form ∧ t.current s = .ok r
          ∧ r.best form n = best ∧ t.update s (r.keepBest form n) = .ok s' := by
  unfold recordCatches
  cases hform : canonicalForm typed with
  | error e => exact iff_of_false nofun fun ⟨_, _, _, h, _⟩ => nomatch h
  | ok form =>
      cases hr : t.current s with
      | error e => exact iff_of_false nofun fun ⟨_, _, _, _, h, _⟩ => nomatch h
      | ok r =>
          refine counted_eq_ok_iff.trans (and_congr_right fun _ => ?_)
          simp

/-- A mark completes its form. -/
theorem hasCompleted_marked (r : Record) (form : String) (catches : Option Int)
    (day : String) : (r.marked form catches day).hasCompleted form = true := by
  have hcomplete : (r.complete form day).hasCompleted form = true := by
    unfold Record.complete
    split
    case isTrue h => exact h
    case isFalse =>
      rw [Record.hasCompleted_iff]
      exact List.mem_append_right _ (List.mem_singleton_self _)
  cases catches with
  | none => exact hcomplete
  | some n => exact hcomplete

/-- What was just marked is completed, also under another spelling of its
form. -/
theorem isCompleted_of_mark {typed again : Typed} {catches : Option Int}
    {day : Date} {form : String}
    (hmark : t.mark s typed catches day = .ok (form, s'))
    (hagain : canonicalForm again = .ok form) :
    t.isCompleted s' again = .ok true := by
  obtain ⟨-, -, r, -, hupdate⟩ := mark_eq_ok_iff.mp hmark
  have hcurrent : t.current s' = .ok (r.marked form catches day.render).readBack :=
    loadWithin_of_saveWithin hupdate (Nat.sub_le _ _) (Nat.le_refl _)
  unfold isCompleted
  rw [hagain]
  show (t.current s').map _ = _
  rw [hcurrent]
  show Except.ok (Record.hasCompleted _ form) = _
  rw [Record.hasCompleted_readBack, hasCompleted_marked]

end Tracker

end Practice

end Siteswap
