/-
Recovery: what a tracker makes of a text that it did not write.

Anything may stand under a tracker's key. Of most texts a tracker makes a
record, of the others mostly the empty one; `recovers` says that this holds
for all texts but those that stop it (`Stops`), and that a pattern can then be
marked.

# What stops a tracker

Two things do. An infinity may stand where a count is expected, all that is
read before it being in order (`Endless`); whatever else stands there is passed
over (`ofValue_eq_infinite_iff`). And arrays and objects may lie too deep: such
a text has more levels than are read. No document stops a tracker otherwise
(`stops_iff_of_read`).

# What can be stored again

Whatever a record was recovered from, its numbers may be written, so that
nothing but its levels keeps it from being stored (`exists_mark_iff`). These are
no more than those of the text (`fits_of_decode`). How many are too many is up
to the limits, for storing and for reading apart; a text is admitted if there
is room for all of its levels (`admits_of_roomFor`).
-/
import Siteswap.Practice.Act
import Siteswap.Proofs.Json.Counts
import Siteswap.Proofs.Practice.Summary

namespace Siteswap.Practice

open Json (Points Value)
open Number (DigitLimit)

namespace Record

variable {digits : DigitLimit} {levels room : Nat} {v : Value} {text : String}

-- ================================================================== stops

/-- A document that would be read on but for an infinity among its counts.
What is read before it is in order: the patterns, and the counts in front. -/
def Endless (v : Value) (digits : DigitLimit := .usual) : Prop :=
  ∃ fields before name w after,
    v = .object fields
      ∧ (∃ vs, ((Entries.get? (.ofString "completed_patterns") fields).getD (.array [])).items
          = .ok vs)
      ∧ Entries.get? (.ofString "max_catches") fields
          = some (.object (before ++ (name, w) :: after))
      ∧ (∀ f ∈ before, ∃ n, f.2.count digits = .ok n)
      ∧ w.isInfinite = true

/-- A document has a count without end as its first fault, or not at all. -/
theorem ofValue_eq_infinite_iff :
    ofValue v digits = .error .infiniteCount ↔ Endless v digits := by
  constructor
  · intro h
    unfold ofValue at h
    split at h
    case h_2 => cases h
    case h_1 fields =>
      rcases bind_eq_error h with h | ⟨vs, hvs, h⟩
      · exact absurd h (Value.items_ne_infinite _)
      · rcases bind_eq_error h with h | ⟨catches, -, h⟩
        · obtain ⟨before, name, w, after, hcounts, hbefore, hw⟩ :=
            Value.counts_eq_infinite_iff.mp h
          refine ⟨fields, before, name, w, after, rfl, ⟨vs, hvs⟩, ?_, hbefore, hw⟩
          cases hget : Entries.get? (Points.ofString "max_catches") fields with
          | none => simp [hget] at hcounts
          | some u =>
              rw [hget, Option.getD_some] at hcounts
              rw [hcounts]
        · rcases bind_eq_error h with h | ⟨dates, -, h⟩
          · exact absurd h (Value.map_ne_infinite _)
          · cases h
  · rintro ⟨fields, before, name, w, after, rfl, ⟨vs, hvs⟩, hget, hbefore, hw⟩
    have hcounts : (Value.object (before ++ (name, w) :: after)).counts digits
        = .error .infiniteCount :=
      Value.counts_eq_infinite_iff.mpr ⟨before, name, w, after, rfl, hbefore, hw⟩
    rw [ofValue, hvs, hget, Option.getD_some, hcounts]
    rfl

/-- What stops a tracker that reads so many levels. -/
inductive Stops (levels : Nat) (text : String) : Prop
  /-- the first fault is an array or object that lies too deep -/
  | tooDeep {fault : Json.Fault} (hread : Json.read levels text = .error fault)
    (hdeep : fault ≠ .malformed)
  /-- the first fault is a count without end -/
  | endless {v : Value} (hread : Json.read levels text = .ok v) (hv : Endless v)

/-- The record that a text holds, the empty one if it holds none. -/
def recovered (levels : Nat) (text : String) : Record :=
  ((Json.read levels text).toOption.bind fun v => (ofValue v).toOption).getD .empty

theorem decode_of_stops (h : Stops levels text) : ∃ e, decode levels text = .error e := by
  unfold decode
  cases h with
  | tooDeep hread hdeep =>
      rw [hread]
      split
      case h_1 heq => cases heq; exact absurd rfl hdeep
      case h_2 => exact ⟨_, rfl⟩
      case h_3 => exact ⟨_, rfl⟩
      case h_4 heq => cases heq
  | endless hread hv =>
      rw [hread]
      simp only
      rw [ofValue_eq_infinite_iff.mpr hv]
      exact ⟨_, rfl⟩

/-- What does not stop a tracker is read, or passed over. -/
theorem decode_of_not_stops (h : ¬ Stops levels text) :
    decode levels text = .ok (recovered levels text) := by
  unfold decode recovered
  cases hread : Json.read levels text with
  | error fault =>
      by_cases hdeep : fault = .malformed
      · subst hdeep
        rfl
      · exact absurd (.tooDeep hread hdeep) h
  | ok v =>
      have hrecovered : ((Except.ok v : Except Json.Fault Value).toOption.bind fun v =>
          (ofValue v).toOption) = (ofValue v).toOption := rfl
      simp only [hrecovered]
      cases hv : ofValue v with
      | ok r => rfl
      | error e =>
          by_cases he : e = .infiniteCount
          · subst he
            exact absurd (.endless hread (ofValue_eq_infinite_iff.mp hv)) h
          · simp only
            rfl

theorem decode_eq_error_iff : (∃ e, decode levels text = .error e) ↔ Stops levels text := by
  refine ⟨fun ⟨e, he⟩ => ?_, decode_of_stops⟩
  by_contra h
  rw [decode_of_not_stops h] at he
  cases he

/-- A text that is not too deep does not stop one who reads fewer levels
sooner than others. -/
theorem Stops.of_le {levels' : Nat} (hle : levels ≤ levels')
    (hnesting : Json.nesting text ≤ levels) (h : Stops levels text) : Stops levels' text := by
  cases h with
  | tooDeep hread hdeep =>
      exact absurd (Json.limit_lt_nesting hread hdeep) (Nat.not_lt_of_le hnesting)
  | endless hread hv => exact .endless (Json.read_mono hle (Json.firm_ok _) hread) hv

/-- A document stops a tracker by its levels or by a count. -/
theorem stops_iff_of_read {limit : Nat} (h : Json.read limit text = .ok v) :
    Stops levels text ↔ levels < Json.nesting text ∨ Endless v := by
  obtain ⟨hshallow, hdeeper⟩ := @Json.read_of_read limit levels text .usual v h
  constructor
  · intro hstops
    cases hstops with
    | tooDeep hfault hdeep => exact .inl (Json.limit_lt_nesting hfault hdeep)
    | endless hok hv =>
        rw [hshallow (Json.nesting_le_limit hok)] at hok
        cases hok
        exact .inr hv
  · intro hor
    by_cases hlt : levels < Json.nesting text
    · obtain ⟨fault, hdeep, hfault⟩ := hdeeper hlt
      exact .tooDeep hfault hdeep
    · exact .endless (hshallow (Nat.le_of_not_lt hlt)) (hor.resolve_left hlt)

-- ================================================================ levels

/-- A record whose values have at most `room` levels, and of which all
numbers may be written. -/
structure Fits (digits : DigitLimit) (room : Nat) (r : Record) : Prop where
  completed : ∀ v ∈ r.completed, v.Fits digits room
  catches : ∀ e ∈ r.catches, Json.isShort e.2 digits = true
  dates : ∀ e ∈ r.dates, e.2.Fits digits room

variable {r : Record}

theorem fits_empty : empty.Fits digits room :=
  ⟨nofun, nofun, nofun⟩

/-- The document of a record has two levels more than its values. -/
theorem Fits.toValue (h : r.Fits digits room) : r.toValue.Fits digits (room + 2) := by
  have hcompleted : (Value.array r.completed).Fits digits (room + 1) :=
    Value.fits_array_iff.mpr h.completed
  have hcatches : (Value.object (r.catches.map fun e => (e.1, .int e.2))).Fits digits
      (room + 1) := by
    rw [Value.fits_object_iff]
    intro f hf
    obtain ⟨e, he, rfl⟩ := List.mem_map.mp hf
    exact ⟨Nat.zero_le _, h.catches e he⟩
  have hdates : (Value.object (r.dates.map fun e => (e.1.name, e.2))).Fits digits
      (room + 1) := by
    rw [Value.fits_object_iff]
    intro f hf
    obtain ⟨e, he, rfl⟩ := List.mem_map.mp hf
    exact h.dates e he
  rw [Record.toValue, Value.fits_object_iff]
  simpa using ⟨hcompleted, hcatches, hdates⟩

/-- What is found in a document, or taken in its place, fits as its fields
do. -/
theorem fits_getD {fields : List (Points × Value)} {fallback : Value} (name : Points)
    (hfields : ∀ f ∈ fields, f.2.Fits digits room) (hfallback : fallback.Fits digits room) :
    ((Entries.get? name fields).getD fallback).Fits digits room := by
  cases hget : Entries.get? name fields with
  | none => exact hfallback
  | some v =>
      obtain ⟨f, hf, rfl⟩ := Entries.exists_mem_of_get? hget
      exact hfields f hf

theorem fits_of_ofValue (hv : v.Fits digits (room + 2)) (h : ofValue v digits = .ok r) :
    r.Fits digits room := by
  unfold ofValue at h
  split at h
  case h_2 => cases h
  case h_1 fields =>
    have hfields := Value.fits_object_iff.mp hv
    obtain ⟨completed, hcompleted, h⟩ := bind_eq_ok h
    obtain ⟨catches, hcatches, h⟩ := bind_eq_ok h
    obtain ⟨dates, hdates, h⟩ := bind_eq_ok h
    cases h
    have hnone : (Value.array []).Fits digits (room + 1) :=
      Value.fits_array_iff.mpr nofun
    have hnothing : (Value.object []).Fits digits (room + 1) :=
      Value.fits_object_iff.mpr nofun
    exact ⟨Value.fits_of_items (fits_getD _ hfields hnone) hcompleted,
      Value.isShort_of_counts (fits_getD _ hfields hnothing).writable hcatches,
      Value.fits_of_map (fits_getD _ hfields hnothing) hdates⟩

theorem fits_of_decode (hlevels : Json.nesting text ≤ room + 2)
    (h : decode levels text = .ok r) : r.Fits .usual room := by
  unfold decode at h
  split at h
  case h_1 => cases h; exact fits_empty
  case h_2 => cases h
  case h_3 => cases h
  case h_4 v hread =>
    split at h
    case h_1 hv =>
      cases h
      exact fits_of_ofValue ((Json.fits_of_read hread).mono hlevels) hv
    case h_2 => cases h
    case h_3 => cases h; exact fits_empty

theorem Fits.complete (h : r.Fits digits room) (form day : String) :
    (r.complete form day).Fits digits room := by
  unfold Record.complete
  split
  case isTrue => exact h
  case isFalse =>
    refine ⟨fun v hv => ?_, h.catches, fun e he => ?_⟩
    · rcases List.mem_append.mp hv with hv | hv
      · exact h.completed v hv
      · rw [List.mem_singleton.mp hv]
        exact Value.fits_text form
    · rcases Entries.mem_or_eq_of_mem_put he with he | he
      · exact h.dates e he
      · rw [he]
        exact Value.fits_text day

theorem Fits.keepBest (h : r.Fits digits room) (form : String) {n : Int}
    (hn : Json.isShort n digits = true) : (r.keepBest form n).Fits digits room := by
  have hbest : Json.isShort (r.best form n) digits = true := by
    have hold : Json.isShort ((r.catches.get? (.ofString form)).getD 0) digits = true := by
      cases hget : r.catches.get? (.ofString form) with
      | none => cases digits <;> rfl
      | some m =>
          obtain ⟨e, he, rfl⟩ := Entries.exists_mem_of_get? hget
          exact h.catches e he
    unfold Record.best
    rcases max_choice ((r.catches.get? (.ofString form)).getD 0) n with hmax | hmax
    · rwa [hmax]
    · rwa [hmax]
  refine ⟨h.completed, fun e he => ?_, h.dates⟩
  rcases Entries.mem_or_eq_of_mem_put he with he | he
  · exact h.catches e he
  · rwa [he]

theorem Fits.marked (h : r.Fits digits room) (form : String) {catches : Option Int}
    (hcatches : ∀ n ∈ catches, Json.isShort n digits = true) (day : String) :
    (r.marked form catches day).Fits digits room := by
  cases catches with
  | none => exact h.complete form day
  | some n => exact (h.complete form day).keepBest form (hcatches n rfl)

end Record

-- =============================================================== trackers

namespace Tracker

open Record

variable {t : Tracker} {s : Store String} {levels : Nat}

theorem loadWithin_eq (t : Tracker) (s : Store String) (levels : Nat) :
    t.loadWithin s levels = match s.get? t.key with
      | none => .ok .empty
      | some text => decode levels text := by
  unfold loadWithin
  cases s.get? t.key with
  | none => rfl
  | some text => rfl

/-- What is loaded may be written. -/
theorem exists_fits_of_loadWithin {r : Record} (h : t.loadWithin s levels = .ok r) :
    ∃ room, r.Fits .usual room := by
  rw [loadWithin_eq] at h
  split at h
  case h_1 =>
    cases h
    exact ⟨0, fits_empty⟩
  case h_2 text _ => exact ⟨Json.nesting text, fits_of_decode (Nat.le_add_right _ 2) h⟩

theorem exists_canonicalForm {typed : Typed} (h : (Verdict.ofTyped typed).isValid = true) :
    ∃ form, canonicalForm typed = .ok form := by
  simp only [canonicalForm_eq_ok_iff]
  unfold Verdict.ofTyped at h
  unfold Canonical.ofTyped
  cases hread : Pattern.read typed with
  | error e =>
      rw [hread] at h
      cases h
  | ok p =>
      unfold Verdict.ofTyped
      rw [hread] at h ⊢
      exact ⟨_, h, _, rfl, rfl⟩

/-- All that keeps a valid pattern from being marked, where its count is
accepted: that there is no record, or no room for it. -/
theorem exists_mark_iff {typed : Typed} {catches : Option Int} {day : Date} {form : String}
    (hform : canonicalForm typed = .ok form)
    (hcatches : ∀ n ∈ catches, isCountable n = true) :
    (∃ s', t.mark s typed catches day = .ok (form, s'))
      ↔ ∃ r, t.current s = .ok r
        ∧ (r.marked form catches day.render).toValue.overrun? t.limits.steps (t.limits.room - 1)
          = none := by
  constructor
  · rintro ⟨s', h⟩
    obtain ⟨-, -, r, hr, hupdate⟩ := mark_eq_ok_iff.mp h
    exact ⟨r, hr, (saveWithin_eq_ok_iff.mp hupdate).1⟩
  · rintro ⟨r, hr, hroom⟩
    obtain ⟨room, hfits⟩ := exists_fits_of_loadWithin hr
    have hmarked := hfits.marked form
      (fun n hn => (isCountable_iff.mp (hcatches n hn)).2) day.render
    have hupdate : t.update s (r.marked form catches day.render)
        = .ok (s.set t.key (r.marked form catches day.render).text) :=
      saveWithin_eq_ok_iff.mpr ⟨hroom, hmarked.toValue.writable, rfl⟩
    exact ⟨_, mark_eq_ok_iff.mpr ⟨hform,
      fun n hn => (isCountable_iff.mp (hcatches n hn)).1, r, hr, hupdate⟩⟩

/-- A text that a tracker can go on from when it marks a pattern: it does not
stop the tracker, and the marked record has room. -/
def Admits (t : Tracker) (text form : String) (catches : Option Int) (day : Date) : Prop :=
  ¬ Stops (t.limits.levels - 1) text
    ∧ ((recovered (t.limits.levels - 1) text).marked form catches day.render).toValue.overrun?
        t.limits.steps (t.limits.room - 1) = none

/-- The room within an operation is enough for the document of a record
whose values leave two levels. -/
theorem overrun?_of_fits {r : Record} {room : Nat} (limits : Limits) (h : r.Fits .usual room)
    (hroom : limits.steps.roomFor (room + 2) < limits.room) :
    r.toValue.overrun? limits.steps (limits.room - 1) = none :=
  Value.overrun?_eq_none _
    (Nat.le_trans (Json.Steps.roomFor_mono h.toValue.levels) (Nat.le_sub_one_of_lt hroom))

/-- The empty record has room, and a text decides about its own. -/
theorem exists_mark_iff_admits {typed : Typed} {catches : Option Int} {day : Date}
    {form : String} (hform : canonicalForm typed = .ok form)
    (hcatches : ∀ n ∈ catches, isCountable n = true) :
    (∃ s', t.mark s typed catches day = .ok (form, s'))
      ↔ ∀ text, s.get? t.key = some text → t.Admits text form catches day := by
  rw [exists_mark_iff hform hcatches, current, loadWithin_eq]
  cases htext : s.get? t.key with
  | none =>
      have hfits : (Record.empty.marked form catches day.render).Fits .usual 0 :=
        fits_empty.marked form (fun n hn => (isCountable_iff.mp (hcatches n hn)).2) day.render
      exact iff_of_true ⟨.empty, rfl, overrun?_of_fits t.limits hfits t.limits.roomy⟩ nofun
  | some text =>
      simp only [Option.some.injEq, forall_eq']
      constructor
      · rintro ⟨r, hr, hroom⟩
        have hstops : ¬ Stops (t.limits.levels - 1) text := by
          rw [← decode_eq_error_iff, hr]
          nofun
        rw [decode_of_not_stops hstops] at hr
        cases hr
        exact ⟨hstops, hroom⟩
      · rintro ⟨hstops, hroom⟩
        exact ⟨_, decode_of_not_stops hstops, hroom⟩

/-- A text leaves room for its own record if there is room for all its
levels. -/
theorem admits_of_roomFor {text form : String} {catches : Option Int} (day : Date)
    (hcatches : ∀ n ∈ catches, isCountable n = true)
    (hroom : t.limits.steps.roomFor (Json.nesting text) < t.limits.room)
    (hstops : ¬ Stops t.limits.levels text) : t.Admits text form catches day := by
  have hnesting := t.limits.lt_levels_of_roomFor hroom
  have hstops' : ¬ Stops (t.limits.levels - 1) text := fun h =>
    hstops (Stops.of_le (Nat.sub_le _ _) (Nat.le_sub_one_of_lt hnesting) h)
  -- the levels of its values, those of a text without any levels included
  obtain ⟨room, hlevels, hroom⟩ : ∃ room, Json.nesting text ≤ room + 2
      ∧ t.limits.steps.roomFor (room + 2) < t.limits.room := by
    by_cases htwo : Json.nesting text ≤ 2
    · exact ⟨0, htwo, t.limits.roomy⟩
    · have hback : Json.nesting text - 2 + 2 = Json.nesting text := by omega
      exact ⟨Json.nesting text - 2, by omega, by rwa [hback]⟩
  have hfits := fits_of_decode hlevels (decode_of_not_stops hstops')
  exact ⟨hstops', overrun?_of_fits t.limits
    (hfits.marked form (fun n hn => (isCountable_iff.mp (hcatches n hn)).2) day.render) hroom⟩

/-- Whatever its limits, a tracker loads something whatever text is stored,
unless the text has a count without end or too many levels: the record that it
holds, or the empty one. Then a valid pattern can be marked as well, if there
is room for the record; there is if there is room for all levels of the
text. -/
theorem recovers (t : Tracker) (s : Store String) :
    (s.get? t.key = none → t.load s = .ok .empty)
    ∧ (∀ text, s.get? t.key = some text →
        ((∃ e, t.load s = .error e) ↔ Stops t.limits.levels text)
        ∧ (¬ Stops t.limits.levels text → t.load s = .ok (recovered t.limits.levels text)))
    ∧ (∀ levels text,
        (∀ limit v, Json.read limit text = .ok v →
          (Stops levels text ↔ levels < Json.nesting text ∨ Endless v))
        ∧ (Stops levels text → Json.nesting text ≤ levels →
          ∃ v, Json.read levels text = .ok v ∧ Endless v))
    ∧ ∀ typed catches day, (Verdict.ofTyped typed).isValid = true →
        (∀ n ∈ catches, isCountable n = true) →
        ∃ form, canonicalForm typed = .ok form
          ∧ ((∃ s', t.mark s typed catches day = .ok (form, s'))
              ↔ ∀ text, s.get? t.key = some text → t.Admits text form catches day)
          ∧ ∀ text, t.limits.steps.roomFor (Json.nesting text) < t.limits.room →
              ¬ Stops t.limits.levels text → t.Admits text form catches day := by
  refine ⟨fun hnone => ?_, fun text htext => ⟨?_, fun hstops => ?_⟩,
    fun levels text => ⟨fun limit v hread => stops_iff_of_read hread, fun hstops hle => ?_⟩,
    fun typed catches day hvalid hcatches => ?_⟩
  · rw [load, loadWithin_eq, hnone]
  · rw [load, loadWithin_eq, htext]
    exact decode_eq_error_iff
  · rw [load, loadWithin_eq, htext]
    exact decode_of_not_stops hstops
  · cases hstops with
    | tooDeep hread hdeep =>
        exact absurd (Json.limit_lt_nesting hread hdeep) (Nat.not_lt_of_le hle)
    | endless hread hv => exact ⟨_, hread, hv⟩
  · obtain ⟨form, hform⟩ := exists_canonicalForm hvalid
    exact ⟨form, hform, exists_mark_iff_admits hform hcatches,
      fun _ => admits_of_roomFor day hcatches⟩

/-- A document of a user who writes down counts in words. -/
def scribbled : String :=
  "\x7b\"completed_patterns\": [5, \"3\"], \"max_catches\": \x7b\"3\": \"twelve\"\x7d\x7d"

def leapDay : Date := ⟨2000, 2, 29, by decide, by decide, by decide⟩

/-- It counts as nothing, and the next mark replaces it. -/
theorem scribbled_recovered :
    Tracker.load ⟨"ada:progress", narrow⟩ ⟨[("ada:progress", scribbled)]⟩ = .ok .empty
      ∧ ∃ form s', Tracker.mark ⟨"ada:progress", narrow⟩ ⟨[("ada:progress", scribbled)]⟩
          (some "531") (some 7) leapDay = .ok (form, s') := by
  have hsolid : ¬ Stops narrow.levels scribbled := by
    have hread : (decode narrow.levels scribbled).toOption.isSome = true := by decide +kernel
    rw [← decode_eq_error_iff]
    rintro ⟨e, he⟩
    rw [he] at hread
    cases hread
  have hempty : recovered narrow.levels scribbled = .empty := by
    have hnone : ((Json.read narrow.levels scribbled).toOption.bind fun v =>
        (ofValue v).toOption).isNone = true := by decide +kernel
    rw [recovered, Option.isNone_iff_eq_none.mp hnone]
    rfl
  have hvalid : (Verdict.ofTyped (some "531")).isValid = true := by decide +kernel
  have hcatches : ∀ n ∈ some (7 : Int), isCountable n = true := by decide
  have hroom : narrow.steps.roomFor (Json.nesting scribbled) < narrow.room := by
    decide +kernel
  have hstored : (Store.mk [("ada:progress", scribbled)]).get? "ada:progress"
      = some scribbled := by decide
  obtain ⟨-, hload, -, hmark⟩ := recovers ⟨"ada:progress", narrow⟩ ⟨[("ada:progress", scribbled)]⟩
  obtain ⟨form, -, hmarked, hadmits⟩ := hmark (some "531") (some 7) leapDay hvalid hcatches
  refine ⟨?_, form, hmarked.mpr fun text htext => ?_⟩
  · rw [(hload scribbled hstored).2 hsolid, hempty]
  · rw [hstored] at htext
    cases htext
    exact hadmits scribbled hroom hsolid

/-- A document of a user who never drops. -/
def dropless : String :=
  "\x7b\"max_catches\": \x7b\"3\": Infinity\x7d\x7d"

/-- It is not passed over. -/
theorem dropless_not_loaded :
    Tracker.load ⟨"ada:progress", narrow⟩ ⟨[("ada:progress", dropless)]⟩
      = .error (.record .infiniteCount) := by
  have hload : (Tracker.load ⟨"ada:progress", narrow⟩ ⟨[("ada:progress", dropless)]⟩).map
      (fun _ => ()) = .error (.record .infiniteCount) := by decide +kernel
  exact map_eq_error_iff.mp hload

/-- Nor is it where two names are halves of characters: these are not one
name, of which the last count would be kept. -/
example : (Tracker.load ⟨"ada:progress", narrow⟩ ⟨[("ada:progress",
      "\x7b\"max_catches\": \x7b\"\\ud800\": Infinity, \"\\ud801\": 1\x7d\x7d")]⟩).map (fun _ => ())
    = .error (.record .infiniteCount) := by decide +kernel

end Tracker

end Siteswap.Practice
