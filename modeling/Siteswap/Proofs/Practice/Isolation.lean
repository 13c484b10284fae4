/-
Users keep to themselves, and what fails changes nothing.

Trackers of many users work on one store, act by act, and no act is ever
taken back. `isolated` says that none needs to be. Whatever is stored, under
whatever keys, an operation makes at most one change, to its user's own
document, after which nothing of it can fail. So an operation that fails
has changed nothing, even where it had gone on in memory, and a question
changes nothing at all; and what a user is told depends on the user's own
document and operations, however these take turns with those of others.

# How an operation is made

Two properties of acts are kept by composition. An act `Looks` at a key
when its result depends on the value under it alone and the ledger is left
as it is. An act that `Owns` a key may also change that value, if it then
succeeds. Acts that look may come before such an act, and only what cannot
fail may come after it (`Looks.bind_owns`, `Owns.bind_pure`); every operation
is composed in this way (`owns_act`). For turns of many users there is a
step for a visit of the user, one for a visit of someone else, and an
induction on the visits (`replies_of_visitsOf`).

# Two accounts of one thing

The same operations are also given as functions of the store, which cannot
but leave it as it was where they fail. Both accounts agree on the reply,
the error and the store (`outcome_eq`).
-/
import Siteswap.Practice.Act
import Siteswap.Proofs.Practice.History

namespace Siteswap.Practice

-- ================================================================== acts

namespace Act

variable {α β : Type} {m : Act α} {f : α → Act β} {l l' : Ledger} {key : String}

theorem run_bind_ok {a : α} (h : m.run l = (.ok a, l')) : (m >>= f).run l = (f a).run l' := by
  unfold run at *
  rw [ExceptT.run_bind, StateT.run_bind, h]
  rfl

theorem run_bind_error {e : Error} (h : m.run l = (.error e, l')) :
    (m >>= f).run l = (.error e, l') := by
  unfold run at *
  rw [ExceptT.run_bind, StateT.run_bind, h]
  rfl

theorem run_bind (m : Act α) (f : α → Act β) (l : Ledger) :
    (m >>= f).run l = match m.run l with
      | (.ok a, l') => (f a).run l'
      | (.error e, l') => (.error e, l') := by
  split
  case h_1 a l' h => exact run_bind_ok h
  case h_2 e l' h => exact run_bind_error h

theorem run_pure (a : α) (l : Ledger) : (pure a : Act α).run l = (.ok a, l) :=
  rfl

theorem run_ofExcept (result : Except Error α) (l : Ledger) :
    (ofExcept result).run l = (result, l) :=
  rfl

-- ========================================================= looking, changing

/-- The result depends on the value under a key alone, and the ledger is
left as it is. -/
def Looks (key : String) (m : Act α) : Prop :=
  ∀ document, ∃ result, ∀ l : Ledger, l.store.get? key = document → m.run l = (result, l)

/-- As the value under a key decides, the ledger is left as it is, or the
value is changed and the act succeeds. -/
def Owns (key : String) (m : Act α) : Prop :=
  ∀ document,
    (∃ result, ∀ l : Ledger, l.store.get? key = document → m.run l = (result, l))
    ∨ ∃ a c, Change.key c = key
      ∧ ∀ l : Ledger, l.store.get? key = document → m.run l = (.ok a, l.record c)

theorem looks_ofExcept (result : Except Error α) : Looks key (ofExcept result) :=
  fun _ => ⟨result, fun _ _ => rfl⟩

theorem looks_pure (a : α) : Looks key (pure a) :=
  looks_ofExcept (.ok a)

theorem looks_look (key : String) : Looks key (look key) := by
  intro document
  refine ⟨.ok document, fun l hl => ?_⟩
  rw [← hl]
  rfl

theorem Looks.bind (hm : Looks key m) (hf : ∀ a, Looks key (f a)) : Looks key (m >>= f) := by
  intro document
  obtain ⟨result, hresult⟩ := hm document
  cases result with
  | error e => exact ⟨.error e, fun l hl => run_bind_error (hresult l hl)⟩
  | ok a =>
      obtain ⟨result, hthen⟩ := hf a document
      exact ⟨result, fun l hl => (run_bind_ok (hresult l hl)).trans (hthen l hl)⟩

theorem Looks.owns (hm : Looks key m) : Owns key m :=
  fun document => .inl (hm document)

/-- Acts that only look may come before. -/
theorem Looks.bind_owns (hm : Looks key m) (hf : ∀ a, Owns key (f a)) :
    Owns key (m >>= f) := by
  intro document
  obtain ⟨result, hresult⟩ := hm document
  cases result with
  | error e => exact .inl ⟨.error e, fun l hl => run_bind_error (hresult l hl)⟩
  | ok a =>
      rcases hf a document with ⟨result, hthen⟩ | ⟨b, c, hc, hthen⟩
      · exact .inl ⟨result, fun l hl => (run_bind_ok (hresult l hl)).trans (hthen l hl)⟩
      · exact .inr ⟨b, c, hc, fun l hl => (run_bind_ok (hresult l hl)).trans (hthen l hl)⟩

theorem owns_change (c : Change) : Owns c.key (change c) :=
  fun _ => .inr ⟨(), c, rfl, fun _ _ => rfl⟩

/-- What is left to do after a change must not fail. -/
theorem Owns.bind_pure (hm : Owns key m) (g : α → β) :
    Owns key (m >>= fun a => pure (g a)) := by
  intro document
  rcases hm document with ⟨result, hresult⟩ | ⟨a, c, hc, hresult⟩
  · cases result with
    | error e => exact .inl ⟨.error e, fun l hl => run_bind_error (hresult l hl)⟩
    | ok a => exact .inl ⟨.ok (g a), fun l hl => run_bind_ok (hresult l hl)⟩
  · exact .inr ⟨g a, c, hc, fun l hl => run_bind_ok (hresult l hl)⟩

end Act

-- ============================================================ operations

namespace Tracker

open Act (Looks Owns)

variable {t t' : Tracker} {l l' : Ledger}

theorem looks_fetch (t : Tracker) (levels : Nat) : Looks t.key (t.fetch levels) := by
  refine (Act.looks_look t.key).bind fun text => ?_
  cases text with
  | none => exact Act.looks_pure _
  | some text => exact Act.looks_ofExcept _

theorem looks_bump {key : String} (r : Record) (form : String) (n : Int) :
    Looks key (bump r form n) := by
  unfold bump
  split
  case isTrue => exact Act.looks_ofExcept (.error .negativeCatches)
  case isFalse => exact Act.looks_pure _

theorem owns_put (t : Tracker) (room : Nat) (r : Record) : Owns t.key (t.put room r) :=
  (Act.looks_ofExcept _).bind_owns fun text => Act.owns_change (.set t.key text)

/-- A question only looks. -/
theorem looks_act {q : Operation} (hq : q.isQuestion = true) (t : Tracker) :
    Looks t.key (t.act q) := by
  cases q with
  | load => exact (looks_fetch t _).bind fun _ => Act.looks_pure _
  | isCompleted typed =>
      simp only [act]
      cases canonicalForm typed with
      | error e => exact Act.looks_pure _
      | ok form => exact (looks_fetch t _).bind fun _ => Act.looks_pure _
  | save | mark | recordCatches | reset => cases hq

/-- Every operation looks first, and changes its own document last. -/
theorem owns_act (t : Tracker) (q : Operation) : Owns t.key (t.act q) := by
  cases q with
  | load => exact (looks_act rfl t).owns
  | save r => exact (owns_put t _ r).bind_pure _
  | mark typed catches day =>
      refine (Act.looks_ofExcept _).bind_owns fun form => ?_
      refine (looks_fetch t _).bind_owns fun r => ?_
      cases catches with
      | none => exact (owns_put t _ _).bind_pure _
      | some n => exact (looks_bump _ form n).bind_owns fun _ => (owns_put t _ _).bind_pure _
  | recordCatches typed n =>
      refine (Act.looks_ofExcept _).bind_owns fun form => ?_
      refine (looks_fetch t _).bind_owns fun r => ?_
      exact (looks_bump r form n).bind_owns fun _ => (owns_put t _ _).bind_pure _
  | isCompleted typed => exact (looks_act rfl t).owns
  | reset => exact (Act.owns_change (.delete t.key)).bind_pure _

/-- An operation leaves the ledger as it is, or changes its own document
and succeeds. -/
theorem carryOut_changes (t : Tracker) (q : Operation) (l : Ledger) :
    (t.carryOut q l).2 = l
      ∨ ∃ a c, Change.key c = t.key ∧ t.carryOut q l = (.ok a, l.record c) := by
  rcases owns_act t q (l.store.get? t.key) with ⟨result, h⟩ | ⟨a, c, hc, h⟩
  · exact .inl (congrArg Prod.snd (h l rfl))
  · exact .inr ⟨a, c, hc, h l rfl⟩

/-- Who fails has changed nothing. -/
theorem carryOut_of_error {q : Operation} {e : Error} (h : (t.carryOut q l).1 = .error e) :
    (t.carryOut q l).2 = l := by
  rcases carryOut_changes t q l with hsame | ⟨a, c, -, hdone⟩
  · exact hsame
  · rw [hdone] at h
    cases h

/-- Who asks changes nothing. -/
theorem carryOut_of_isQuestion {q : Operation} (hq : q.isQuestion = true) (t : Tracker)
    (l : Ledger) : (t.carryOut q l).2 = l := by
  obtain ⟨result, h⟩ := looks_act hq t (l.store.get? t.key)
  exact congrArg Prod.snd (h l rfl)

end Tracker

-- ================================================= functions of the store

namespace Tracker

theorem run_fetch (t : Tracker) (levels : Nat) (l : Ledger) :
    (t.fetch levels).run l = (t.loadWithin l.store levels, l) := by
  have hlook : (Act.look t.key).run l = (.ok (l.store.get? t.key), l) := rfl
  refine (Act.run_bind_ok hlook).trans ?_
  unfold loadWithin
  cases l.store.get? t.key with
  | none => rfl
  | some text => rfl

theorem run_put (t : Tracker) (room : Nat) (r : Record) (l : Ledger) :
    (t.put room r).run l = match t.saveWithin l.store room r with
      | .ok s => (.ok (), ⟨s, .set t.key r.text :: l.changes⟩)
      | .error e => (.error e, l) := by
  unfold put saveWithin Record.encode
  cases r.toValue.overrun? t.limits.steps room with
  | some what => rfl
  | none =>
      cases r.toValue.isWritable .usual with
      | true => rfl
      | false => rfl

theorem run_bump (r : Record) (form : String) (n : Int) (l : Ledger) :
    (bump r form n).run l
      = (if n < 0 then .error .negativeCatches else .ok (r.keepBest form n), l) := by
  unfold bump
  split
  case isTrue => rfl
  case isFalse => rfl

/-- What an operation gives and stores, as a function of the store. -/
def outcome (t : Tracker) (s : Store String) : Operation → Except Error (Reply × Store String)
  | .load => (t.load s).map fun r => (.record r, s)
  | .save r => (t.save s r).map fun s => (.done, s)
  | .mark typed catches day =>
    (t.mark s typed catches day).map fun (form, s) => (.form form, s)
  | .recordCatches typed n => (t.recordCatches s typed n).map fun (best, s) => (.catches best, s)
  | .isCompleted typed => (t.isCompleted s typed).map fun answer => (.completed answer, s)
  | .reset => .ok (.done, t.reset s)

/-- Act by act or as a function of the store, an operation gives the same
reply and the same store, or fails with the same error. -/
theorem outcome_eq (t : Tracker) (q : Operation) (l : Ledger) :
    t.outcome l.store q = (t.carryOut q l).1.map fun a => (a, (t.carryOut q l).2.store) := by
  unfold carryOut
  cases q with
  | load =>
      simp only [outcome, act, load, Act.run_bind, run_fetch]
      cases t.loadWithin l.store t.limits.levels <;> rfl
  | save r =>
      simp only [outcome, act, save, Act.run_bind, run_put]
      cases t.saveWithin l.store t.limits.room r <;> rfl
  | mark typed catches day =>
      simp only [outcome, act, mark, current, update, Act.run_bind, Act.run_ofExcept]
      cases canonicalForm typed with
      | error e => rfl
      | ok form =>
          simp only [run_fetch]
          cases t.loadWithin l.store (t.limits.levels - 1) with
          | error e => rfl
          | ok r =>
              cases catches with
              | none =>
                  simp only [Act.run_bind, Act.run_pure, run_put]
                  cases hsave : t.saveWithin l.store (t.limits.room - 1)
                      (r.complete form day.render) <;>
                    simp only [bind, Except.bind, hsave] <;> rfl
              | some n =>
                  simp only [Act.run_bind, run_bump, run_put]
                  by_cases hn : n < 0
                  · simp only [if_pos hn]
                    rfl
                  · simp only [if_neg hn]
                    cases hsave : t.saveWithin l.store (t.limits.room - 1)
                        ((r.complete form day.render).keepBest form n) <;>
                      simp only [bind, Except.bind, hsave] <;> rfl
  | recordCatches typed n =>
      simp only [outcome, act, recordCatches, current, update, Act.run_bind, Act.run_ofExcept]
      cases canonicalForm typed with
      | error e => rfl
      | ok form =>
          simp only [run_fetch]
          cases t.loadWithin l.store (t.limits.levels - 1) with
          | error e => rfl
          | ok r =>
              simp only [run_bump, run_put]
              by_cases hn : n < 0
              · simp only [if_pos hn]
                rfl
              · simp only [if_neg hn]
                cases hsave : t.saveWithin l.store (t.limits.room - 1) (r.keepBest form n) <;>
                  simp only [bind, Except.bind, hsave] <;> rfl
  | isCompleted typed =>
      simp only [outcome, act, isCompleted, current]
      cases canonicalForm typed with
      | error e => rfl
      | ok form =>
          simp only [Act.run_bind, run_fetch]
          cases t.loadWithin l.store (t.limits.levels - 1) <;> rfl
  | reset => rfl

theorem carryOut_eq_error_iff {t : Tracker} {q : Operation} {l : Ledger} {e : Error} :
    (t.carryOut q l).1 = .error e ↔ t.outcome l.store q = .error e := by
  rw [outcome_eq]
  cases (t.carryOut q l).1 with
  | ok a => exact iff_of_false nofun nofun
  | error e' => simp [Except.map]

end Tracker

-- =============================================================== changes

/-- A change leaves all other values as and where they are. -/
theorem Change.delete_apply (c : Change) (s : Store String) :
    (c.apply s).delete c.key = s.delete c.key := by
  cases c with
  | set key text => exact congrArg Store.mk (Entries.erase_put key text s.entries)
  | delete key => exact congrArg Store.mk (Entries.erase_erase key s.entries)

theorem Change.get?_apply_of_ne {c : Change} {key : String} (h : c.key ≠ key)
    (s : Store String) : (c.apply s).get? key = s.get? key := by
  cases c with
  | set key' text => exact (Store.get?_set s key' key text).trans (if_neg h)
  | delete key' => exact (Store.get?_delete s key' key).trans (if_neg h)

/-- What was there before has no part in the value after a change. -/
theorem Change.get?_apply_key (c : Change) (s s' : Store String) :
    (c.apply s).get? c.key = (c.apply s').get? c.key := by
  cases c with
  | set key text => simp only [apply, Change.key, Store.get?_set, if_true]
  | delete key => simp only [apply, Change.key, Store.get?_delete, if_true]

namespace Tracker

variable {t t' : Tracker} {l l' : Ledger}

theorem delete_carryOut (t : Tracker) (q : Operation) (l : Ledger) :
    (t.carryOut q l).2.store.delete t.key = l.store.delete t.key := by
  rcases carryOut_changes t q l with hsame | ⟨a, c, hc, hdone⟩
  · rw [hsame]
  · rw [hdone, ← hc]
    exact c.delete_apply l.store

theorem get?_carryOut_of_ne {key : String} (h : t.key ≠ key) (q : Operation) (l : Ledger) :
    (t.carryOut q l).2.store.get? key = l.store.get? key := by
  rcases carryOut_changes t q l with hsame | ⟨a, c, hc, hdone⟩
  · rw [hsame]
  · rw [hdone]
    exact Change.get?_apply_of_ne (hc.trans_ne h) l.store

/-- On ledgers with the same document for a tracker, an operation has the
same reply and leaves the same document. -/
theorem carryOut_congr (h : l.store.get? t.key = l'.store.get? t.key) (q : Operation) :
    (t.carryOut q l).1 = (t.carryOut q l').1
      ∧ (t.carryOut q l).2.store.get? t.key = (t.carryOut q l').2.store.get? t.key := by
  rcases owns_act t q (l.store.get? t.key) with ⟨result, hdone⟩ | ⟨a, c, hc, hdone⟩
  · have hl : t.carryOut q l = (result, l) := hdone l rfl
    have hl' : t.carryOut q l' = (result, l') := hdone l' h.symm
    rw [hl, hl']
    exact ⟨rfl, h⟩
  · have hl : t.carryOut q l = (.ok a, l.record c) := hdone l rfl
    have hl' : t.carryOut q l' = (.ok a, l'.record c) := hdone l' h.symm
    rw [hl, hl', ← hc]
    exact ⟨rfl, c.get?_apply_key l.store l'.store⟩

end Tracker

-- ================================================================ visits

section Visits

variable {user : String} {limits : Limits} {t : Tracker} {v : Visit} {l l' : Ledger}

/-- A visit of someone else does not touch the document of a user. -/
theorem Visit.get?_carryOut_of_ne (ht : Tracker.ofUser limits user = .ok t) (hv : v.user ≠ user)
    (l : Ledger) : (v.carryOut l).2.store.get? t.key = l.store.get? t.key := by
  unfold Visit.carryOut
  cases ht' : Tracker.ofUser v.limits v.user with
  | error e => rfl
  | ok t' => exact Tracker.get?_carryOut_of_ne (Tracker.key_ne ht' ht hv) v.operation l

/-- A visit of a user has the same reply, and leaves the same document,
wherever the document was the same. -/
theorem Visit.carryOut_congr (ht : Tracker.ofUser limits user = .ok t) (hv : v.user = user)
    (h : l.store.get? t.key = l'.store.get? t.key) :
    (v.carryOut l).1 = (v.carryOut l').1
      ∧ (v.carryOut l).2.store.get? t.key = (v.carryOut l').2.store.get? t.key := by
  obtain ⟨t', ht', hkey⟩ := Tracker.exists_ofUser ht v.limits
  unfold Visit.carryOut
  rw [hv, ht']
  rw [← hkey] at h ⊢
  obtain ⟨hreply, hdocument⟩ := Tracker.carryOut_congr h v.operation
  exact ⟨congrArg Except.ok hreply, hdocument⟩

/-- The visits of one user. -/
def visitsOf (user : String) (visits : List Visit) : List Visit :=
  visits.filter (·.user = user)

/-- Some visits have the same replies to a user, and leave the same document,
as the user's own do where no one else comes. -/
theorem replies_of_visitsOf (ht : Tracker.ofUser limits user = .ok t) (visits : List Visit)
    (h : l.store.get? t.key = l'.store.get? t.key) :
    repliesTo user visits l = repliesTo user (visitsOf user visits) l'
      ∧ (l.afterVisits visits).store.get? t.key
          = (l'.afterVisits (visitsOf user visits)).store.get? t.key := by
  induction visits generalizing l l' with
  | nil => exact ⟨rfl, h⟩
  | cons v visits ih =>
      unfold visitsOf
      by_cases hv : v.user = user
      · obtain ⟨hreply, hdocument⟩ := Visit.carryOut_congr ht hv h
        obtain ⟨hreplies, hafter⟩ := ih hdocument
        rw [List.filter_cons_of_pos (by simpa using hv), repliesTo, repliesTo]
        simp only [if_pos hv]
        exact ⟨congrArg₂ List.cons hreply hreplies, hafter⟩
      · have hdocument := (Visit.get?_carryOut_of_ne ht hv l).trans h
        obtain ⟨hreplies, hafter⟩ := ih hdocument
        rw [List.filter_cons_of_neg (by simpa using hv), repliesTo]
        simp only [if_neg hv]
        exact ⟨hreplies, hafter⟩

end Visits

/-- Operations are atomic and users are isolated, on every store. An
operation leaves all that is stored under other keys as and where it is; if
it fails it has changed nothing, and a question never changes anything. No
other user has the same key. And however a user's operations take turns
with those of others, the user's replies and what is loaded in the end
depend on these operations and on the document at the beginning alone. -/
theorem isolated {user : String} {limits : Limits} {t : Tracker}
    (ht : Tracker.ofUser limits user = .ok t) :
    (∀ q l, (t.carryOut q l).2.store.delete t.key = l.store.delete t.key
      ∧ (∀ e, (t.carryOut q l).1 = .error e → (t.carryOut q l).2 = l)
      ∧ (q.isQuestion = true → (t.carryOut q l).2 = l))
    ∧ (∀ user' limits' t', Tracker.ofUser limits' user' = .ok t' → user' ≠ user →
        t'.key ≠ t.key)
    ∧ ∀ visits visits' l l',
        l.store.get? t.key = l'.store.get? t.key →
        visitsOf user visits = visitsOf user visits' →
        repliesTo user visits l = repliesTo user visits' l'
        ∧ (t.carryOut .load (l.afterVisits visits)).1
            = (t.carryOut .load (l'.afterVisits visits')).1 := by
  refine ⟨fun q l => ⟨t.delete_carryOut q l, ?_, ?_⟩, ?_, ?_⟩
  · intro e h
    exact Tracker.carryOut_of_error h
  · intro hq
    exact Tracker.carryOut_of_isQuestion hq t l
  · intro user' limits' t' ht' hne
    exact Tracker.key_ne ht' ht hne
  · intro visits visits' l l' h hvisits
    obtain ⟨hreplies, hdocument⟩ := replies_of_visitsOf ht visits h
    have hsame : l'.store.get? t.key = l'.store.get? t.key := rfl
    obtain ⟨hreplies', hdocument'⟩ := replies_of_visitsOf ht visits' hsame
    rw [← hvisits] at hreplies' hdocument'
    refine ⟨hreplies.trans hreplies'.symm, ?_⟩
    exact (Tracker.carryOut_congr (hdocument.trans hdocument'.symm) .load).1

/-- A store with texts of all kinds, some of them under keys that look like
those of users. -/
def crowded : Ledger :=
  ⟨⟨[("ada", "\x7bnope"), ("ada:progress:progress", "7"), ("ada:progress", "[[1")]⟩, []⟩

/-- The third text alone. -/
def solitary : Ledger :=
  ⟨⟨[("ada:progress", "[[1")]⟩, []⟩

/-- What one user asks for, and others in between, one of them without a
name. -/
def comings : List Visit := [
  ⟨"ada:progress", wide, .reset⟩,
  ⟨"ada", narrow, .recordCatches (some "531") 7⟩,
  ⟨"", narrow, .reset⟩,
  ⟨"bob", narrow, .mark (some "531") (some 90) secondOfMay⟩,
  ⟨"ada", wide, .mark (some "3") (some (-1)) secondOfMay⟩]

/-- The visits of that user. -/
def ownComings : List Visit := [
  ⟨"ada", narrow, .recordCatches (some "531") 7⟩,
  ⟨"ada", wide, .mark (some "3") (some (-1)) secondOfMay⟩]

/-- A mark with a negative count fails after its completion was recorded in
memory, and leaves all texts; among others a user is told what the user
would be told alone. -/
theorem crowded_isolated :
    ∃ t, Tracker.ofUser narrow "ada" = .ok t
      ∧ ((t.carryOut (.mark (some "531") (some (-1)) secondOfMay) crowded).1
          = .error .negativeCatches
        ∧ (t.carryOut (.mark (some "531") (some (-1)) secondOfMay) crowded).2 = crowded)
      ∧ (crowded.store.get? t.key = solitary.store.get? t.key
        ∧ visitsOf "ada" comings = visitsOf "ada" ownComings
        ∧ repliesTo "ada" comings crowded = repliesTo "ada" ownComings solitary) := by
  have ht : Tracker.ofUser narrow "ada" = .ok ⟨"ada:progress", narrow⟩ := rfl
  obtain ⟨hatomic, -, hturns⟩ := isolated ht
  have hfails : ((Tracker.mk "ada:progress" narrow).carryOut
      (.mark (some "531") (some (-1)) secondOfMay) crowded).1 = .error .negativeCatches := by
    have hmark : (Tracker.mk "ada:progress" narrow).mark crowded.store (some "531") (some (-1))
        secondOfMay = .error .negativeCatches := by decide +kernel
    refine Tracker.carryOut_eq_error_iff.mpr ?_
    unfold Tracker.outcome
    simp only [hmark]
    rfl
  have hdocument : crowded.store.get? "ada:progress" = solitary.store.get? "ada:progress" := by
    decide
  have hown : visitsOf "ada" comings = visitsOf "ada" ownComings := rfl
  exact ⟨_, ht, ⟨hfails, (hatomic _ crowded).2.1 _ hfails⟩, hdocument, hown,
    (hturns _ _ _ _ hdocument hown).1⟩

end Siteswap.Practice
