/-
Journals: records of texts and counts.

What a tracker writes on its own account holds nothing else. Such a record
comes back as it was (`readBack_record`), and room for two levels is enough to
store it, whatever it holds (`overrun?_record`); only a count of too many
digits stands in the way (`isWritable_record`), and it only where digits
have a limit. So saving and then loading changes nothing (`load_of_save`).
-/
import Siteswap.Proofs.Json.Levels
import Siteswap.Proofs.Practice.Stored

namespace Siteswap.Practice

open Json (Key Points Value)

/-- Limits where not much room is left. -/
def narrow : Limits := ⟨16, 20, ⟨2, 3⟩, by decide, by decide⟩

/-- Limits where there is room for most documents. -/
def wide : Limits := ⟨900, 905, ⟨2, 3⟩, by decide, by decide⟩

/-- A record of texts and counts. -/
structure Journal where
  completed : List String
  catches : Entries String Int
  dates : Entries String String
  deriving DecidableEq

namespace Journal

/-- A journal as a record. -/
def record (j : Journal) : Record where
  completed := j.completed.map fun form => .text (.ofString form)
  catches := j.catches.map fun e => (.ofString e.1, e.2)
  dates := j.dates.map fun e => (.text (.ofString e.1), .text (.ofString e.2))

/-- No key occurs twice. -/
structure Proper (j : Journal) : Prop where
  catches : (j.catches.map (·.1)).Nodup
  dates : (j.dates.map (·.1)).Nodup

variable {j : Journal}

theorem hasCompleted_record {form : String} :
    j.record.hasCompleted form = true ↔ form ∈ j.completed := by
  rw [Record.hasCompleted_iff]
  simp [record]

theorem ofString_beq (a b : String) : (Points.ofString a == Points.ofString b) = (a == b) := by
  rw [Bool.eq_iff_iff, beq_iff_eq, beq_iff_eq, Points.ofString_inj]

theorem get?_catches (j : Journal) (form : String) :
    j.record.catches.get? (.ofString form) = j.catches.get? form :=
  (Entries.get?_map ofString_beq id form j.catches).trans (by rw [Option.map_id, id])

theorem put_catches (form : String) (n : Int) (catches : Entries String Int) :
    Entries.put (.ofString form) n (catches.map fun e => (Points.ofString e.1, e.2))
      = (catches.put form n).map fun e => (.ofString e.1, e.2) :=
  (Entries.map_put ofString_beq id form n catches).symm

theorem put_dates (form day : String) (dates : Entries String String) :
    Entries.put (.text (.ofString form)) (.text (.ofString day))
        (dates.map fun e => (Key.text (.ofString e.1), Value.text (.ofString e.2)))
      = (dates.put form day).map fun e => (.text (.ofString e.1), .text (.ofString e.2)) :=
  (Entries.map_put (g := fun k => Key.text (.ofString k)) ofString_beq
    (fun day => Value.text (.ofString day)) form day dates).symm

/-- Texts that differ are names that differ. -/
theorem nodup_names {β γ : Type} {es : Entries String β} (h : (es.map (·.1)).Nodup)
    (f : β → γ) : ((es.map fun e => (Points.ofString e.1, f e.2)).map (·.1)).Nodup := by
  have hnames : (es.map fun e => (Points.ofString e.1, f e.2)).map (·.1)
      = (es.map (·.1)).map Points.ofString := by
    rw [List.map_map, List.map_map]
    rfl
  rw [hnames]
  exact List.Pairwise.map _ (fun _ _ hne heq => hne (Points.ofString_inj.mp heq)) h

/-- A journal comes back as it was. -/
theorem readBack_record (h : j.Proper) : j.record.readBack = j.record := by
  have hdates : j.record.dates.map (fun e => (e.1.name, e.2.readBack))
      = j.dates.map fun e => (.ofString e.1, .text (.ofString e.2)) := by
    rw [record, List.map_map]
    rfl
  unfold Record.readBack
  have hcatches : Entries.ofPairs j.record.catches = j.record.catches :=
    Entries.ofPairs_of_nodup (nodup_names h.catches id)
  rw [hdates, hcatches,
    Entries.ofPairs_of_nodup (nodup_names h.dates fun day => Value.text (.ofString day)),
    record, List.map_map, List.map_map]
  rfl

/-- The document of a journal. -/
theorem toValue_record (j : Journal) :
    j.record.toValue = .object [
      ("completed_patterns", .array (j.completed.map fun form => .text (.ofString form))),
      ("max_catches", .object (j.catches.map fun e => (.ofString e.1, .int e.2))),
      ("completion_dates",
        .object (j.dates.map fun e => (.ofString e.1, .text (.ofString e.2))))] := by
  simp [Record.toValue, record, Key.name]

/-- The document of a journal has two levels. -/
theorem levels_record (j : Journal) : j.record.toValue.levels = 2 := by
  have hcompleted :
      Value.levelsOfItems (j.completed.map fun form => .text (.ofString form)) ≤ 0 :=
    Value.levelsOfItems_le_iff.mpr (List.forall_mem_map.mpr fun _ _ => Nat.le_refl 0)
  have hcatches :
      Value.levelsOfFields (j.catches.map fun e => (.ofString e.1, .int e.2)) ≤ 0 :=
    Value.levelsOfFields_le_iff.mpr (List.forall_mem_map.mpr fun _ _ => Nat.le_refl 0)
  have hdates :
      Value.levelsOfFields (j.dates.map fun e => (.ofString e.1, .text (.ofString e.2))) ≤ 0 :=
    Value.levelsOfFields_le_iff.mpr (List.forall_mem_map.mpr fun _ _ => Nat.le_refl 0)
  rw [toValue_record]
  simp only [Value.levels, Value.levelsOfFields]
  omega

/-- Room for two levels is enough for a journal. -/
theorem overrun?_record {c : Json.Steps} {room : Nat} (hroom : c.roomFor 2 ≤ room) (j : Journal) :
    j.record.toValue.overrun? c room = none := by
  refine Value.overrun?_eq_none _ ?_
  rwa [levels_record]

variable {digits : Number.DigitLimit}

/-- The counts decide whether a journal may be written. -/
theorem isWritable_record (j : Journal) :
    j.record.toValue.isWritable digits
      = j.catches.all fun e => Json.isShort e.2 digits := by
  have hcompleted :
      Value.areWritable digits (j.completed.map fun form => .text (.ofString form)) = true :=
    Value.areWritable_iff.mpr (List.forall_mem_map.mpr fun _ _ => rfl)
  have hcatches :
      Value.fieldsWritable digits (j.catches.map fun e => (.ofString e.1, .int e.2))
        = j.catches.all fun e => Json.isShort e.2 digits := by
    rw [Bool.eq_iff_iff, Value.fieldsWritable_iff, List.forall_mem_map, List.all_eq_true]
    rfl
  have hdates :
      Value.fieldsWritable digits
        (j.dates.map fun e => (.ofString e.1, .text (.ofString e.2))) = true :=
    Value.fieldsWritable_iff.mpr (List.forall_mem_map.mpr fun _ _ => rfl)
  rw [toValue_record]
  simp only [Value.isWritable, Value.fieldsWritable, hcompleted, hcatches, hdates,
    Bool.true_and, Bool.and_true]

variable {t : Tracker} {s : Store String}

/-- A journal is saved if its counts are short. -/
theorem saveWithin_record {room : Nat} (hroom : t.limits.steps.roomFor 2 ≤ room)
    (hshort : ∀ e ∈ j.catches, Json.isShort e.2 digits = true) :
    t.saveWithin s room j.record digits = .ok (s.set t.key j.record.text) := by
  rw [Tracker.saveWithin_eq_ok_iff]
  refine ⟨overrun?_record hroom j, ?_, rfl⟩
  rw [isWritable_record]
  exact List.all_eq_true.mpr hshort

/-- What is saved is loaded, whatever the texts and the counts are and
whatever was stored before. Where digits have no limit every journal is
saved; where they have one, those are whose counts are short. -/
theorem load_of_save (hj : j.Proper) (t : Tracker) (s : Store String) :
    (∃ s', t.save s j.record .off = .ok s' ∧ t.load s' .off = .ok j.record)
    ∧ ((∃ s', t.save s j.record = .ok s')
        ↔ ∀ e ∈ j.catches, Json.isShort e.2 = true)
    ∧ ∀ s', t.save s j.record = .ok s' → t.load s' = .ok j.record := by
  have hload : ∀ {digits s'}, t.save s j.record digits = .ok s' →
      t.load s' digits = .ok j.record := by
    intro digits s' h
    have hback : t.load s' digits = .ok j.record.readBack :=
      Tracker.loadWithin_of_saveWithin h (Nat.le_refl _) (Nat.sub_le _ _)
    rwa [readBack_record hj] at hback
  refine ⟨?_, ⟨?_, ?_⟩, fun s' h => hload h⟩
  · have hsave : t.save s j.record .off = .ok (s.set t.key j.record.text) :=
      saveWithin_record (Nat.le_of_lt t.limits.roomy) fun _ _ => rfl
    exact ⟨_, hsave, hload hsave⟩
  · rintro ⟨s', h⟩
    obtain ⟨-, hwritable, -⟩ := Tracker.saveWithin_eq_ok_iff.mp h
    rw [isWritable_record] at hwritable
    exact List.all_eq_true.mp hwritable
  · intro hshort
    exact ⟨_, saveWithin_record (Nat.le_of_lt t.limits.roomy) hshort⟩

/-- Quotes, a backslash, controls and a character of two units, an empty
text that counts as a pattern, and a count of more digits than a limit
would allow. -/
def unusual : Journal where
  completed := ["\"\\/\x00\u2028😀", "", ""]
  catches := [("é", .negSucc (Nat.pow 10 5000)), ("", 0)]
  dates := [("\n", "\x7f")]

theorem unusual_loaded :
    ∃ s', Tracker.save ⟨"ada:progress", narrow⟩ .empty unusual.record .off = .ok s'
      ∧ Tracker.load ⟨"ada:progress", narrow⟩ s' .off = .ok unusual.record :=
  (load_of_save ⟨by decide, by decide⟩ _ _).1

end Journal

end Siteswap.Practice
