/-
What a tracker knows is what happened.

Trackers of many users share a store, and each request decodes, changes
and encodes the document under one key. `progress_eq_history` says what
comes of it, after any requests of any users, starting from an empty
store: the record of a user is the summary of the user's own requests
since the last reset. A pattern is in it from its first completion on, in
the order and with the day of that; a count is the greatest of those that
were accepted; requests that fail, requests that only ask, and requests of
others leave no trace.

# The invariant

After every request the store keeps, for each user, the journal that sums
up the requests so far (`Keeps`). A request of the user turns the summary
into that of one request more (`Keeps.perform`), a request of someone else
does not touch the document (`get?_perform`), and keys of different users
differ.
-/
import Mathlib.Data.List.DropRight
import Siteswap.Proofs.Practice.Summary

namespace Siteswap.Practice

-- ================================================================ events

/-- A request of a user, and the limits at that time. -/
structure Event where
  user : String
  limits : Limits
  request : Request

/-- The store after a request. -/
def Tracker.perform (t : Tracker) (s : Store String) : Request → Store String
  | .mark typed catches day =>
    match t.mark s typed catches day with
    | .ok (_, s') => s'
    | .error _ => s
  | .recordCatches typed n =>
    match t.recordCatches s typed n with
    | .ok (_, s') => s'
    | .error _ => s
  | .isCompleted _ => s
  | .load => s
  | .reset => t.reset s

/-- The store after a request of a user. Without a name there is no
tracker to ask. -/
def Event.perform (s : Store String) (e : Event) : Store String :=
  match Tracker.ofUser e.limits e.user with
  | .ok t => t.perform s e.request
  | .error _ => s

/-- The store after all that happened, at first empty. -/
def after (history : List Event) : Store String :=
  history.foldl Event.perform .empty

/-- The requests of a user since the last reset. -/
def requestsOf (user : String) (history : List Event) : List Request :=
  ((history.filter (·.user = user)).map (·.request)).rtakeWhile (· ≠ .reset)

-- ============================================================ invariant

namespace Tracker

variable {t t' : Tracker} {s s' : Store String} {j : Journal}

/-- The store keeps a journal for a tracker, which loads it whole from two
levels on. -/
def Keeps (t : Tracker) (s : Store String) (j : Journal) : Prop :=
  ∀ levels, 2 ≤ levels → t.loadWithin s levels = .ok j.record

theorem Keeps.congr (h : t.Keeps s j) (heq : s'.get? t'.key = s.get? t.key) :
    t'.Keeps s' j := by
  intro levels hl
  rw [← h levels hl]
  unfold loadWithin
  rw [heq]

/-- A journal is kept once it is stored. -/
theorem Keeps.set (hj : j.Proper)
    (hshort : ∀ e ∈ j.catches, Json.isShort e.2 = true) :
    t.Keeps (s.set t.key j.record.text) j := by
  intro levels hl
  have hwritable : j.record.toValue.isWritable .usual = true := by
    rw [Journal.isWritable_record]
    exact List.all_eq_true.mpr hshort
  rw [loadWithin_set t s hwritable (by rwa [Journal.levels_record]), Journal.readBack_record hj]

theorem Keeps.current (h : t.Keeps s j) : t.current s = .ok j.record :=
  h _ t.limits.two_le_levels

/-- An operation stores one document under the tracker's own key, or
none. -/
theorem get?_perform (t : Tracker) (s : Store String) (q : Request) {key : String}
    (hne : key ≠ t.key) : (t.perform s q).get? key = s.get? key := by
  have hset : ∀ {r s'}, t.update s r = .ok s' → s'.get? key = s.get? key := by
    intro r s' h
    obtain ⟨-, -, rfl⟩ := saveWithin_eq_ok_iff.mp h
    rw [Store.get?_set, if_neg (Ne.symm hne)]
  cases q with
  | mark typed catches day =>
      unfold perform
      simp only
      split
      case h_1 form s' h =>
        obtain ⟨-, -, r, -, hr⟩ := mark_eq_ok_iff.mp h
        exact hset hr
      case h_2 => rfl
  | recordCatches typed n =>
      unfold perform
      simp only
      split
      case h_1 best s' h =>
        obtain ⟨-, form, r, -, -, -, hr⟩ := recordCatches_eq_ok_iff.mp h
        exact hset hr
      case h_2 => rfl
  | isCompleted typed => rfl
  | load => rfl
  | reset =>
      show (s.delete t.key).get? key = _
      rw [Store.get?_delete, if_neg (Ne.symm hne)]

end Tracker

-- ============================================================ one request

variable {t t' : Tracker} {s s' : Store String} {j : Journal} {qs : List Request}

/-- A journal with the counts of some requests and perhaps one more is
stored iff that one is short. -/
theorem update_ofEvents {completed : List (String × Date)}
    {more : List (String × Int)} (hmore : ∀ c ∈ more, 0 ≤ c.2) :
    t.update s (Journal.ofEvents completed (counts qs ++ more)).record = .ok s'
      ↔ (∀ c ∈ more, Json.isShort c.2 = true)
        ∧ s' = s.set t.key
            (Journal.ofEvents completed (counts qs ++ more)).record.text := by
  have hold := isCountable_counts qs
  have hpos : ∀ c ∈ counts qs ++ more, 0 ≤ c.2 := by
    intro c hc
    rcases List.mem_append.mp hc with hc | hc
    · exact (isCountable_iff.mp (hold c hc)).1
    · exact hmore c hc
  unfold Tracker.update
  rw [Tracker.saveWithin_eq_ok_iff, Journal.isWritable_record, List.all_eq_true,
    Journal.isShort_catches_iff hpos, List.forall_mem_append]
  constructor
  · rintro ⟨-, ⟨-, hshort⟩, hs⟩
    exact ⟨hshort, hs⟩
  · rintro ⟨hshort, hs⟩
    exact ⟨Journal.overrun?_record (Nat.le_sub_one_of_lt t.limits.roomy) _,
      ⟨fun c hc => (isCountable_iff.mp (hold c hc)).2, hshort⟩, hs⟩

namespace Tracker

/-- A mark succeeds iff it is a completion, which it stores. -/
theorem Keeps.mark_eq_ok_iff (h : t.Keeps s (summary qs)) {typed : Typed}
    {catches : Option Int} {day : Date} {form : String} :
    t.mark s typed catches day = .ok (form, s')
      ↔ (Request.mark typed catches day).completion? = some (form, day)
        ∧ s' = s.set t.key
            (summary (qs ++ [.mark typed catches day])).record.text := by
  unfold summary at h ⊢
  rw [Tracker.mark_eq_ok_iff, h.current, completions_concat, counts_concat]
  constructor
  · rintro ⟨hform, hpos, r, hr, hupdate⟩
    cases hr
    rw [Journal.marked_ofEvents _ _ _ _ hpos] at hupdate
    obtain ⟨hshort, hs⟩ := (update_ofEvents (by simpa using hpos)).mp hupdate
    have hc : ∀ n ∈ catches, isCountable n = true := fun n hn =>
      isCountable_iff.mpr ⟨hpos n hn, hshort (form, n) (by simpa using hn)⟩
    have hcompletion : (Request.mark typed catches day).completion?
        = some (form, day) := completion?_mark.mpr ⟨hform, hc, rfl⟩
    rw [hcompletion, count?_mark day hform hc]
    exact ⟨rfl, hs⟩
  · rintro ⟨hcompletion, hs⟩
    obtain ⟨hform, hc, -⟩ := completion?_mark.mp hcompletion
    have hpos : ∀ n ∈ catches, 0 ≤ n := fun n hn => (isCountable_iff.mp (hc n hn)).1
    rw [hcompletion, count?_mark day hform hc] at hs
    refine ⟨hform, hpos, _, rfl, ?_⟩
    rw [Journal.marked_ofEvents _ _ _ _ hpos]
    refine (update_ofEvents (by simpa using hpos)).mpr ⟨?_, hs⟩
    intro c hmem
    obtain ⟨n, hn, rfl⟩ : ∃ n ∈ catches, (form, n) = c := by simpa using hmem
    exact (isCountable_iff.mp (hc n hn)).2

/-- Counting catches succeeds iff the count is accepted, which it stores.
The answer is the greatest count of the form, this one included. -/
theorem Keeps.recordCatches_eq_ok_iff (h : t.Keeps s (summary qs))
    {typed : Typed} {n best : Int} :
    t.recordCatches s typed n = .ok (best, s')
      ↔ ∃ form, (Request.recordCatches typed n).count? = some (form, n)
        ∧ (valuesOf form (counts qs ++ [(form, n)])).max? = some best
        ∧ s' = s.set t.key
            (summary (qs ++ [.recordCatches typed n])).record.text := by
  have hcount : ∀ form, (Request.recordCatches typed n).count? = some (form, n)
      ↔ canonicalForm typed = .ok form ∧ isCountable n = true := by
    intro form
    exact count?_counted.trans (by simp)
  unfold summary at h ⊢
  rw [Tracker.recordCatches_eq_ok_iff, h.current, completions_concat, counts_concat]
  constructor
  · rintro ⟨hpos, form, r, hform, hr, hbest, hupdate⟩
    cases hr
    obtain ⟨hmax, hkeep⟩ := Journal.keepBest_ofEvents (completions qs) (counts qs)
      form hpos
    rw [hkeep] at hupdate
    obtain ⟨hshort, hs⟩ := (update_ofEvents (by simpa using hpos)).mp hupdate
    have hcount := (hcount form).mpr
      ⟨hform, isCountable_iff.mpr ⟨hpos, by simpa using hshort⟩⟩
    refine ⟨form, hcount, ?_, ?_⟩
    · rw [valuesOf_concat, if_pos rfl, max?_concat _ hpos, ← hmax, hbest]
    · rw [hcount, show (Request.recordCatches typed n).completion? = none from rfl]
      simpa using hs
  · rintro ⟨form, hc, hbest, hs⟩
    obtain ⟨hform, hcountable⟩ := (hcount form).mp hc
    obtain ⟨hpos, hshort⟩ := isCountable_iff.mp hcountable
    obtain ⟨hmax, hkeep⟩ := Journal.keepBest_ofEvents (completions qs) (counts qs)
      form hpos
    rw [valuesOf_concat, if_pos rfl, max?_concat _ hpos, ← hmax] at hbest
    rw [hc, show (Request.recordCatches typed n).completion? = none from rfl] at hs
    refine ⟨hpos, form, _, hform, rfl, Option.some.inj hbest, ?_⟩
    rw [hkeep]
    exact (update_ofEvents (by simpa using hpos)).mpr
      ⟨by simpa using hshort, by simpa using hs⟩

theorem Keeps.isCompleted (h : t.Keeps s j) (typed : Typed) :
    t.isCompleted s typed = .ok (match canonicalForm typed with
      | .ok form => decide (form ∈ j.completed)
      | .error _ => false) := by
  unfold Tracker.isCompleted
  cases hform : canonicalForm typed with
  | error e => rfl
  | ok form =>
      simp only [h.current]
      show Except.ok _ = _
      congr 1
      rw [Bool.eq_iff_iff, Journal.hasCompleted_record, decide_eq_true_iff]

-- ============================================================ histories

/-- A request of the tracker's own: the store keeps the summary of the
requests since the last reset. -/
theorem Keeps.perform (h : t.Keeps s (summary qs)) (q : Request) :
    t.Keeps (t.perform s q)
      (summary (if q = .reset then [] else qs ++ [q])) := by
  have hset : ∀ qs, t.Keeps (s.set t.key (summary qs).record.text) (summary qs) :=
    fun qs => .set (proper_summary qs) (isShort_summary qs)
  have hsame : q.completion? = none → q.count? = none →
      summary (qs ++ [q]) = summary qs := by
    intro hcompletion hcount
    unfold summary
    rw [completions_concat, counts_concat, hcompletion, hcount]
    simp
  cases q with
  | mark typed catches day =>
      rw [if_neg (by simp)]
      unfold Tracker.perform
      simp only
      split
      case h_1 form s' hmark =>
        rw [(h.mark_eq_ok_iff.mp hmark).2]
        exact hset _
      case h_2 e hmark =>
        have hnone : (Request.mark typed catches day).completion? = none := by
          rw [Option.eq_none_iff_forall_ne_some]
          rintro ⟨form, day'⟩ hsome
          obtain ⟨-, -, rfl⟩ := completion?_mark.mp hsome
          rw [h.mark_eq_ok_iff.mpr ⟨hsome, rfl⟩] at hmark
          cases hmark
        rw [hsame hnone (count?_of_completion?_eq_none hnone)]
        exact h
  | recordCatches typed n =>
      rw [if_neg (by simp)]
      unfold Tracker.perform
      simp only
      split
      case h_1 best s' hrecord =>
        obtain ⟨form, -, -, rfl⟩ := h.recordCatches_eq_ok_iff.mp hrecord
        exact hset _
      case h_2 e hrecord =>
        have hnone : (Request.recordCatches typed n).count? = none := by
          rw [Option.eq_none_iff_forall_ne_some]
          rintro ⟨form, m⟩ hsome
          obtain ⟨-, hc, rfl⟩ := count?_counted.mp hsome
          rw [h.recordCatches_eq_ok_iff.mpr ⟨form, hsome, by
            rw [valuesOf_concat, if_pos rfl,
              max?_concat _ (isCountable_iff.mp hc).1], rfl⟩] at hrecord
          cases hrecord
        rw [hsame rfl hnone]
        exact h
  | isCompleted typed =>
      rw [if_neg (by simp), hsame rfl rfl]
      exact h
  | load =>
      rw [if_neg (by simp), hsame rfl rfl]
      exact h
  | reset =>
      have hnone : (t.reset s).get? t.key = none := by
        show (s.delete t.key).get? t.key = none
        rw [Store.get?_delete, if_pos rfl]
      intro levels _
      show t.loadWithin (t.reset s) levels = _
      unfold Tracker.loadWithin
      rw [hnone]
      rfl

variable {user user' : String} {limits limits' : Limits}

theorem ofUser_eq_ok_iff :
    ofUser limits user = .ok t
      ↔ user ≠ "" ∧ t.key = user ++ ":progress" ∧ t.limits = limits := by
  unfold ofUser Store.userKey
  split
  case isTrue h => exact iff_of_false nofun fun hne => hne.1 h
  case isFalse h =>
    rw [String.append_assoc]
    cases t with
    | mk key limits' =>
        show Except.ok (Tracker.mk (user ++ ":progress") limits) = .ok ⟨key, limits'⟩ ↔ _
        rw [Except.ok.injEq, Tracker.mk.injEq]
        exact ⟨fun heq => ⟨h, heq.1.symm, heq.2.symm⟩, fun heq => ⟨heq.2.1.symm, heq.2.2.symm⟩⟩

theorem key_of_ofUser (h : ofUser limits user = .ok t) : t.key = user ++ ":progress" :=
  (ofUser_eq_ok_iff.mp h).2.1

/-- Users have keys of their own. -/
theorem key_ne (h : ofUser limits user = .ok t) (h' : ofUser limits' user' = .ok t')
    (hne : user ≠ user') : t.key ≠ t'.key := by
  rw [key_of_ofUser h, key_of_ofUser h']
  exact fun heq => hne (String.append_left_inj _ |>.mp heq)

/-- Who has a tracker has one within any limits. -/
theorem exists_ofUser (h : ofUser limits user = .ok t) (limits' : Limits) :
    ∃ t', ofUser limits' user = .ok t' ∧ t'.key = t.key := by
  obtain ⟨huser, hkey, -⟩ := ofUser_eq_ok_iff.mp h
  exact ⟨⟨t.key, limits'⟩, ofUser_eq_ok_iff.mpr ⟨huser, hkey, rfl⟩, rfl⟩

end Tracker

theorem requestsOf_concat (user : String) (history : List Event) (e : Event) :
    requestsOf user (history ++ [e])
      = if e.user = user then
          if e.request = .reset then [] else requestsOf user history ++ [e.request]
        else requestsOf user history := by
  unfold requestsOf
  rw [List.filter_append]
  by_cases h : e.user = user
  · rw [if_pos h, List.filter_cons_of_pos (by simpa using h), List.filter_nil,
      List.map_append, List.map_singleton, List.rtakeWhile_concat]
    by_cases hr : e.request = .reset
    · simp [hr]
    · simp [hr]
  · rw [if_neg h, List.filter_cons_of_neg (by simpa using h), List.filter_nil,
      List.append_nil]

theorem after_concat (history : List Event) (e : Event) :
    after (history ++ [e]) = e.perform (after history) := by
  unfold after
  rw [List.foldl_append]
  rfl

namespace Tracker

/-- After any requests of any users the store keeps the summary of each
user's own requests since the last reset. -/
theorem keeps_after {user : String} {limits : Limits} (ht : ofUser limits user = .ok t)
    (history : List Event) :
    t.Keeps (after history) (summary (requestsOf user history)) := by
  induction history using List.reverseRecOn with
  | nil => exact fun levels _ => rfl
  | append_singleton history e ih =>
      rw [after_concat, requestsOf_concat]
      unfold Event.perform
      split
      case h_1 t' ht' =>
        split
        case isTrue huser =>
          have hkey : t'.key = t.key := by
            rw [key_of_ofUser ht', key_of_ofUser ht, huser]
          have hown : t'.Keeps (after history) (summary (requestsOf user history)) :=
            ih.congr (by rw [hkey])
          exact (hown.perform e.request).congr (by rw [hkey])
        case isFalse huser =>
          exact ih.congr
            (get?_perform t' _ e.request (key_ne ht ht' (Ne.symm huser)))
      case h_2 err herr =>
        rw [if_neg]
        · exact ih
        · rintro rfl
          obtain ⟨t', ht', -⟩ := exists_ofUser ht e.limits
          rw [ht'] at herr
          cases herr

end Tracker

/-- Progress is the history. After any requests of any users, starting from
an empty store, a user's record is the summary of the user's requests
since the last reset. A mark succeeds iff it is a completion, and gives
its form; counting succeeds iff the count is accepted, and gives the
greatest count of the form, this one included; a pattern is said to be
completed iff it is valid and its form is in the summary. -/
theorem progress_eq_history {user : String} {limits : Limits} {t : Tracker}
    (ht : Tracker.ofUser limits user = .ok t) (history : List Event) :
    t.load (after history) = .ok (summary (requestsOf user history)).record
    ∧ (∀ typed catches day form,
        (∃ s', t.mark (after history) typed catches day = .ok (form, s'))
          ↔ (Request.mark typed catches day).completion? = some (form, day))
    ∧ (∀ typed n best,
        (∃ s', t.recordCatches (after history) typed n = .ok (best, s'))
          ↔ ∃ form, (Request.recordCatches typed n).count? = some (form, n)
            ∧ (valuesOf form (counts (requestsOf user history) ++ [(form, n)])).max?
              = some best)
    ∧ ∀ typed, ∃ answer, t.isCompleted (after history) typed = .ok answer
        ∧ (answer = true ↔ (Verdict.ofTyped typed).isValid = true
            ∧ ∃ c, Canonical.ofTyped typed = .ok c
              ∧ c.form ∈ (summary (requestsOf user history)).completed) := by
  have hkeeps := Tracker.keeps_after ht history
  refine ⟨hkeeps _ (Nat.le_trans t.limits.two_le_levels (Nat.sub_le _ _)), ?_, ?_, ?_⟩
  · intro typed catches day form
    simp only [hkeeps.mark_eq_ok_iff, exists_and_left, exists_eq, and_true]
  · intro typed n best
    constructor
    · rintro ⟨s', h⟩
      obtain ⟨form, hcount, hbest, -⟩ := hkeeps.recordCatches_eq_ok_iff.mp h
      exact ⟨form, hcount, hbest⟩
    · rintro ⟨form, hcount, hbest⟩
      exact ⟨_, hkeeps.recordCatches_eq_ok_iff.mpr ⟨form, hcount, hbest, rfl⟩⟩
  · intro typed
    refine ⟨_, hkeeps.isCompleted typed, ?_⟩
    cases hform : canonicalForm typed with
    | error e =>
        refine iff_of_false nofun ?_
        rintro ⟨hvalid, c, hc, -⟩
        rw [canonicalForm_eq_ok_iff.mpr ⟨hvalid, c, hc, rfl⟩] at hform
        cases hform
    | ok form =>
        obtain ⟨hvalid, c, hc, rfl⟩ := canonicalForm_eq_ok_iff.mp hform
        rw [decide_eq_true_iff]
        constructor
        · intro hmem
          exact ⟨hvalid, c, hc, hmem⟩
        · rintro ⟨-, c', hc', hmem⟩
          rw [hc] at hc'
          cases hc'
          exact hmem

/-- The second and the fourth of May. -/
def secondOfMay : Date := ⟨2024, 5, 2, by decide, by decide, by decide⟩
def fourthOfMay : Date := ⟨2024, 5, 4, by decide, by decide, by decide⟩

/-- Two jugglers at it, one of whom starts anew. -/
def twoJugglers : List Event :=
  [⟨"ada", narrow, .mark (some "441") none secondOfMay⟩,
    ⟨"ada", narrow, .reset⟩,
    ⟨"ada", wide, .recordCatches (some "531") 7⟩,
    ⟨"ada", narrow, .mark (some "315") (some 4) secondOfMay⟩,
    ⟨"bob", narrow, .mark (some "3") (some 90) secondOfMay⟩,
    ⟨"ada", narrow, .mark (some "54") none secondOfMay⟩,
    ⟨"ada", wide, .mark (some "153153") (some 20) fourthOfMay⟩,
    ⟨"bob", wide, .reset⟩,
    ⟨"ada", narrow, .recordCatches (some "51") (-1)⟩]

/-- Three spellings of one pattern, and what fails leaves no trace. -/
theorem twoJugglers_progress :
    ∃ t, Tracker.ofUser wide "ada" = .ok t
      ∧ t.load (after twoJugglers) = .ok (Journal.record
          { completed := ["531"]
            catches := [("531", 20)]
            dates := [("531", "5-2-2024")] }) := by
  have ht : Tracker.ofUser wide "ada" = .ok ⟨"ada:progress", wide⟩ := rfl
  have hsummary : summary (requestsOf "ada" twoJugglers)
      = ⟨["531"], [("531", 20)], [("531", "5-2-2024")]⟩ := by decide +kernel
  refine ⟨_, ht, ?_⟩
  rw [(progress_eq_history ht twoJugglers).1, hsummary]

end Siteswap.Practice
