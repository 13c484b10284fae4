/-
What a memo answers, told from the requests it has served.

There are four ways to lose an entry: its key is stored again, it is
evicted, it has become too old when it is asked for, or newer entries need
its room. `get_after` says what is left of them after any requests, at any
times, later ones or earlier: the entries stand in the order in which
their keys were last stored, and never outnumber the room; an answer is
what was stored last under its key, was not dropped since and is not too
old; and what was stored last is the answer until it is dropped, has been
too old for one who asked, or as many other keys were stored as there is
room for.

# The two bounds

A memo without a limit and without an age would keep what `standing`
holds: a request drops what it drops and adds what it stores.
`exists_survives` says what a request does to the entries of a memo, and
from its first half they are always a part of what stands, in the same
order (`kept_after`); the order and the answers rest on that alone.

Its second half follows one entry (`holds_after`). What stands behind it
are last entries of keys stored since, so that there are no more of them
than such keys; what goes for lack of room goes from the front.
-/
import Mathlib.Data.List.DropRight
import Mathlib.Data.List.Induction
import Siteswap.Proofs.Json.Keys
import Siteswap.Proofs.Memo.Answers

namespace Siteswap

open Number (Amount)

namespace Memo

variable {κ β : Type}

-- =============================================================== requests

/-- What may be asked of a memo, with the time of it where that plays a
part. -/
inductive Request (κ β : Type) where
  | set (now : Amount) (k : κ) (v : Option β)
  | get (now : Amount) (k : κ)
  | contains (now : Amount) (k : κ)
  | evict (k : κ)
  | clear

namespace Request

/-- The entry that a request stores. -/
def entry? : Request κ β → Option (Entry κ β)
  | set now k v => some ⟨k, now, v⟩
  | _ => none

variable [BEq κ]

/-- Whether a request takes away what stands under `k`, in any memo. -/
def drops (k : κ) : Request κ β → Bool
  | set _ k' _ => k == k'
  | evict k' => k == k'
  | clear => true
  | _ => false

/-- The time at which a request asks for what stands under `k`. -/
def asks? (k : κ) : Request κ β → Option Amount
  | get now k' => if k == k' then some now else none
  | contains now k' => if k == k' then some now else none
  | _ => none

end Request

-- ============================================================== histories

/-- The entries that some requests stored, the newest last. -/
def stored (history : List (Request κ β)) : List (Entry κ β) :=
  history.filterMap Request.entry?

variable [BEq κ]

/-- Of each key the last entry. -/
def lastOfKeys : List (Entry κ β) → List (Entry κ β)
  | [] => []
  | e :: es => if es.any (e.key == ·.key) then lastOfKeys es else e :: lastOfKeys es

/-- What stands after some requests, were there neither a limit nor an
age. -/
def standing (history : List (Request κ β)) : List (Entry κ β) :=
  history.foldl (fun es q => (es.filter fun e => !q.drops e.key) ++ q.entry?.toList) []

/-- The memo after a request. One that gets no answer changes nothing. -/
def perform (m : Memo κ β) : Request κ β → Memo κ β
  | .set now k v => m.set now k v
  | .get now k =>
    match m.get now k with
    | .ok (_, m') => m'
    | .error _ => m
  | .contains now k =>
    match m.contains now k with
    | .ok (_, m') => m'
    | .error _ => m
  | .evict k => m.evict k
  | .clear => m.clear

/-- The memo after some requests. -/
def after (m : Memo κ β) (history : List (Request κ β)) : Memo κ β :=
  history.foldl perform m

omit [BEq κ] in
theorem stored_concat (history : List (Request κ β)) (q : Request κ β) :
    stored (history ++ [q]) = stored history ++ q.entry?.toList := by
  unfold stored
  rw [List.filterMap_append]
  cases h : q.entry? <;> simp [h]

theorem standing_concat (history : List (Request κ β)) (q : Request κ β) :
    standing (history ++ [q])
      = ((standing history).filter fun e => !q.drops e.key) ++ q.entry?.toList := by
  simp [standing]

theorem after_concat (m : Memo κ β) (history : List (Request κ β)) (q : Request κ β) :
    m.after (history ++ [q]) = (m.after history).perform q := by
  simp [after]

-- ======================================================= one entry a key

variable {e : Entry κ β} {es es' : List (Entry κ β)}

/-- Whether two entries stand under different keys. -/
def Apart (a b : Entry κ β) : Prop :=
  (a.key == b.key) = false

theorem lastOfKeys_concat (es : List (Entry κ β)) (e : Entry κ β) :
    lastOfKeys (es ++ [e]) = ((lastOfKeys es).filter fun x => !(x.key == e.key)) ++ [e] := by
  induction es with
  | nil => rfl
  | cons x es ih =>
      simp only [List.cons_append, lastOfKeys, List.any_append, List.any_cons, List.any_nil,
        Bool.or_false, ih]
      cases hx : es.any (x.key == ·.key) with
      | true => simp
      | false => cases he : x.key == e.key <;> simp [he]

theorem lastOfKeys_sublist (es : List (Entry κ β)) : (lastOfKeys es).Sublist es := by
  induction es with
  | nil => exact .slnil
  | cons x es ih =>
      unfold lastOfKeys
      split
      · exact ih.cons x
      · exact ih.cons_cons x

theorem pairwise_lastOfKeys [EquivBEq κ] (es : List (Entry κ β)) :
    (lastOfKeys es).Pairwise Apart := by
  induction es with
  | nil => exact .nil
  | cons x es ih =>
      unfold lastOfKeys
      split
      case isTrue h => exact ih
      case isFalse h =>
        refine List.pairwise_cons.mpr ⟨fun y hy => ?_, ih⟩
        unfold Apart
        simpa using fun hk => h (List.any_eq_true.mpr
          ⟨y, (lastOfKeys_sublist es).subset hy, hk⟩)

/-- Every key has an entry. -/
theorem any_lastOfKeys [EquivBEq κ] (es : List (Entry κ β)) (k : κ) :
    (lastOfKeys es).any (k == ·.key) = es.any (k == ·.key) := by
  induction es with
  | nil => rfl
  | cons x es ih =>
      unfold lastOfKeys
      split
      case isTrue h =>
        obtain ⟨z, hz, hzx⟩ := List.any_eq_true.mp h
        by_cases hx : (k == x.key) = true
        · have hany : es.any (k == ·.key) = true :=
            List.any_eq_true.mpr ⟨z, hz, BEq.trans hx hzx⟩
          rw [ih, List.any_cons, hx, hany, Bool.or_self]
        · rw [ih, List.any_cons, Bool.eq_false_iff.mpr hx, Bool.false_or]
      case isFalse => rw [List.any_cons, List.any_cons, ih]

/-- Entries under different keys are no more than entries that have all
these keys. -/
theorem length_le_of_covered [EquivBEq κ] (hes : es.Pairwise Apart)
    (h : ∀ e ∈ es, es'.any (e.key == ·.key) = true) : es.length ≤ es'.length := by
  induction es generalizing es' with
  | nil => exact Nat.zero_le _
  | cons e es ih =>
      obtain ⟨hapart, hes⟩ := List.pairwise_cons.mp hes
      obtain ⟨x, hx, hxe⟩ := List.any_eq_true.mp (h e (List.mem_cons_self ..))
      -- what covers `e` covers no other entry, so the others do without it
      have hrest : ∀ y ∈ es,
          (es'.filter fun z => !(e.key == z.key)).any (y.key == ·.key) = true := by
        intro y hy
        obtain ⟨z, hz, hzy⟩ := List.any_eq_true.mp (h y (List.mem_cons_of_mem _ hy))
        have hze : ¬ (e.key == z.key) = true := fun hze =>
          Bool.eq_false_iff.mp (hapart y hy) (BEq.trans hze (BEq.symm hzy))
        exact List.any_eq_true.mpr ⟨z, List.mem_filter.mpr ⟨hz, by simpa using hze⟩, hzy⟩
      have hlt : (es'.filter fun z => !(e.key == z.key)).length < es'.length :=
        List.length_filter_lt_length_iff_exists.mpr ⟨x, hx, by simpa using hxe⟩
      exact Nat.lt_of_le_of_lt (ih hes hrest) hlt

/-- Later requests store under all the keys that the earlier ones stored
under. -/
theorem length_lastOfKeys_le [EquivBEq κ] (es es' : List (Entry κ β)) :
    (lastOfKeys es).length ≤ (lastOfKeys (es ++ es')).length := by
  refine length_le_of_covered (pairwise_lastOfKeys es) fun e he => ?_
  rw [any_lastOfKeys]
  exact List.any_eq_true.mpr
    ⟨e, List.mem_append_left _ ((lastOfKeys_sublist es).subset he), BEq.rfl⟩

-- ================================================================ standing

/-- What stands was stored, as the last under its key. -/
theorem standing_sublist (history : List (Request κ β)) :
    (standing history).Sublist (lastOfKeys (stored history)) := by
  induction history using List.reverseRecOn with
  | nil => exact .slnil
  | append_singleton history q ih =>
      rw [standing_concat, stored_concat]
      cases q with
      | set now k v =>
          show List.Sublist ((standing history).filter _ ++ [⟨k, now, v⟩])
            (lastOfKeys (stored history ++ [⟨k, now, v⟩]))
          rw [lastOfKeys_concat]
          exact (ih.filter _).append (.refl _)
      | get now k | contains now k | evict k | clear =>
          show List.Sublist ((standing history).filter _ ++ [])
            (lastOfKeys (stored history ++ []))
          rw [List.append_nil, List.append_nil]
          exact List.filter_sublist.trans ih

/-- What stands under a key was stored under it and not dropped since. -/
theorem exists_of_mem_standing {history : List (Request κ β)} (he : e ∈ standing history) :
    ∃ before later, history = before ++ .set e.since e.key e.value :: later
      ∧ ∀ q ∈ later, q.drops e.key = false := by
  induction history using List.reverseRecOn with
  | nil => cases he
  | append_singleton history q ih =>
      rw [standing_concat, List.mem_append, List.mem_filter] at he
      rcases he with ⟨he, hq⟩ | he
      · obtain ⟨before, later, rfl, hlater⟩ := ih he
        refine ⟨before, later ++ [q], by simp, fun r hr => ?_⟩
        rcases List.mem_append.mp hr with hr | hr
        · exact hlater r hr
        · rw [List.mem_singleton.mp hr]
          simpa using hq
      · cases q with
        | set now k v =>
            have hset : e = ⟨k, now, v⟩ := List.mem_singleton.mp he
            subst hset
            exact ⟨history, [], rfl, fun r hr => nomatch hr⟩
        | get now k | contains now k | evict k | clear => cases he

/-- Of what stood, what a request spares stands after it. -/
theorem survivors_sublist {history : List (Request κ β)} {q : Request κ β}
    {survives : Entry κ β → Bool} (hs : ∀ e, survives e = true → q.drops e.key = false)
    (h : es.Sublist (standing history)) :
    (es.filter survives ++ q.entry?.toList).Sublist (standing (history ++ [q])) := by
  rw [standing_concat]
  refine List.Sublist.append ?_ (.refl _)
  calc (es.filter survives).Sublist (es.filter fun e => !q.drops e.key) :=
        List.monotone_filter_right _ fun e he => by simp [hs e he]
    _ |>.Sublist ((standing history).filter fun e => !q.drops e.key) := h.filter _

-- ==================================================================== room

theorem length_rtake {α : Type} (n : Nat) (l : List α) :
    (l.rtake n).length = min n l.length := by
  rw [List.rtake, List.length_drop]
  omega

theorem rtake_of_length_le {α : Type} {n : Nat} {l : List α} (h : l.length ≤ n) :
    l.rtake n = l := by
  rw [List.rtake, Nat.sub_eq_zero_of_le h, List.drop_zero]

/-- What goes for lack of room goes from the front. -/
theorem suffix_rtake {α : Type} {n : Nat} {l l' : List α} (h : l <:+ l') (hn : l.length ≤ n) :
    l <:+ l'.rtake n := by
  refine List.suffix_of_suffix_length_le h (List.drop_suffix _ _) ?_
  show l.length ≤ (l'.rtake n).length
  rw [length_rtake]
  exact Nat.le_min.mpr ⟨hn, h.length_le⟩

-- ============================================================ one request

variable {m : Memo κ β} {now : Amount} {k : κ}

/-- To ask whether there is something is to ask for it. -/
theorem perform_contains : m.perform (.contains now k) = m.perform (.get now k) := by
  simp only [perform, contains]
  cases m.get now k <;> rfl

/-- A memo that is asked loses at most what stands under the key, and that
only if the entry it finds is too old. -/
theorem perform_get (m : Memo κ β) (now : Amount) (k : κ) :
    m.perform (.get now k) = m
      ∨ m.perform (.get now k) = m.evict k
        ∧ ∃ e, m.entries.find? (fun e => e.key == k) = some e
          ∧ ¬ Fresh m.maxAge now e.since := by
  simp only [perform, get, ← expired_eq_false_iff]
  cases m.entries.find? fun e => e.key == k with
  | none => exact .inl rfl
  | some e =>
      cases hexp : m.expired now e with
      | error err => exact .inl (by simp only [hexp])
      | ok old =>
          cases old with
          | false => exact .inl (by simp only [hexp])
          | true => exact .inr ⟨by simp only [hexp], e, rfl, by simp [hexp]⟩

/-- A request changes the entries at most. -/
theorem exists_perform_eq (m : Memo κ β) (q : Request κ β) :
    ∃ es, m.perform q = { m with entries := es } := by
  have hget : ∀ now k, ∃ es, m.perform (.get now k) = { m with entries := es } := by
    intro now k
    rcases perform_get m now k with h | ⟨h, -⟩
    · exact ⟨m.entries, h⟩
    · exact ⟨_, h⟩
  cases q with
  | set now k v | evict k | clear => exact ⟨_, rfl⟩
  | get now k => exact hget now k
  | contains now k =>
      rw [perform_contains]
      exact hget now k

/-- What was found under a key is what stands there. -/
theorem find?_of_mem [EquivBEq κ] (hapart : es.Pairwise Apart) (he : e ∈ es)
    (hk : (e.key == k) = true) : es.find? (fun e => e.key == k) = some e := by
  induction es with
  | nil => cases he
  | cons x es ih =>
      obtain ⟨hx, hes⟩ := List.pairwise_cons.mp hapart
      rw [List.find?_cons]
      rcases List.mem_cons.mp he with rfl | he
      · rw [hk]
      · have hxk : ¬ (x.key == k) = true := fun hxk =>
          Bool.eq_false_iff.mp (hx e he) (BEq.trans hxk (BEq.symm hk))
        rw [Bool.eq_false_iff.mpr hxk]
        exact ih hes he

/-- A memo that is asked keeps what stands under other keys, and what is
fresh. -/
theorem exists_survives_get [EquivBEq κ] (hapart : m.entries.Pairwise Apart) (now : Amount)
    (k : κ) :
    ∃ survives : Entry κ β → Bool,
      (m.perform (.get now k)).entries = m.entries.filter survives
        ∧ ∀ e ∈ m.entries, (∀ t ∈ (Request.get now k : Request κ β).asks? e.key,
            Fresh m.maxAge t e.since) → survives e = true := by
  rcases perform_get m now k with h | ⟨h, old, hold, hstale⟩
  · exact ⟨fun _ => true, by rw [h, List.filter_true], fun _ _ _ => rfl⟩
  · refine ⟨fun e => !(e.key == k), by rw [h]; rfl, fun e he hfresh => ?_⟩
    -- under the key only the entry that was found could go, and that is stale
    by_contra hk
    have hk : (e.key == k) = true := by simpa using hk
    rw [find?_of_mem hapart he hk] at hold
    cases hold
    exact hstale (hfresh now (by simp [Request.asks?, hk]))

/-- What a request does to the entries: those survive that it does not
drop and that are fresh if it asks for them; what it stores is added, and
the newest remain that have room. -/
theorem exists_survives [EquivBEq κ] (q : Request κ β) (hroom : m.size ≤ m.maxEntries)
    (hapart : m.entries.Pairwise Apart) :
    ∃ survives : Entry κ β → Bool,
      (m.perform q).entries
          = (m.entries.filter survives ++ q.entry?.toList).rtake m.maxEntries
        ∧ (∀ e, survives e = true → q.drops e.key = false)
        ∧ ∀ e ∈ m.entries, q.drops e.key = false →
            (∀ now ∈ q.asks? e.key, Fresh m.maxAge now e.since) → survives e = true := by
  have hfits : ∀ p : Entry κ β → Bool,
      (m.entries.filter p ++ []).rtake m.maxEntries = m.entries.filter p := by
    intro p
    rw [List.append_nil]
    exact rtake_of_length_le (Nat.le_trans (List.length_filter_le ..) hroom)
  have hkeeps : ∀ k (e : Entry κ β), (!(e.key == k)) = true ↔ (e.key == k) = false :=
    fun _ _ => Iff.of_eq (Bool.not_eq_true' _)
  cases q with
  | set now k v =>
      exact ⟨fun e => !(e.key == k), rfl, fun e => (hkeeps k e).mp,
        fun e _ he _ => (hkeeps k e).mpr he⟩
  | get now k =>
      obtain ⟨survives, heq, hs⟩ := exists_survives_get hapart now k
      exact ⟨survives, heq.trans (hfits _).symm, fun _ _ => rfl, fun e he _ => hs e he⟩
  | contains now k =>
      obtain ⟨survives, heq, hs⟩ := exists_survives_get hapart now k
      rw [perform_contains]
      exact ⟨survives, heq.trans (hfits _).symm, fun _ _ => rfl, fun e he _ => hs e he⟩
  | evict k =>
      exact ⟨fun e => !(e.key == k), (hfits _).symm, fun e => (hkeeps k e).mp,
        fun e _ he _ => (hkeeps k e).mpr he⟩
  | clear =>
      refine ⟨fun _ => false, ?_, fun _ hs => Bool.noConfusion hs,
        fun _ _ hd _ => Bool.noConfusion hd⟩
      show [] = (m.entries.filter (fun _ => false) ++ []).rtake m.maxEntries
      rw [hfits, List.filter_false]

-- ================================================================ any run

/-- What a memo of some room and age has kept of what it served. -/
structure Kept (n : Nat) (maxAge : Option Amount) (history : List (Request κ β))
    (m : Memo κ β) : Prop where
  room : m.maxEntries = n
  age : m.maxAge = maxAge
  size : m.size ≤ n
  entries : m.entries.Sublist (standing history)

namespace Kept

variable {n : Nat} {maxAge : Option Amount} {history : List (Request κ β)}

theorem sublist_lastOfKeys (h : Kept n maxAge history m) :
    m.entries.Sublist (lastOfKeys (stored history)) :=
  h.entries.trans (standing_sublist history)

theorem apart [EquivBEq κ] (h : Kept n maxAge history m) : m.entries.Pairwise Apart :=
  (pairwise_lastOfKeys _).sublist h.sublist_lastOfKeys

theorem survives [EquivBEq κ] (h : Kept n maxAge history m) (q : Request κ β) :
    ∃ survives : Entry κ β → Bool,
      (m.perform q).entries = (m.entries.filter survives ++ q.entry?.toList).rtake n
        ∧ (∀ e, survives e = true → q.drops e.key = false)
        ∧ ∀ e ∈ m.entries, q.drops e.key = false →
            (∀ now ∈ q.asks? e.key, Fresh maxAge now e.since) → survives e = true := by
  rw [← h.age]
  have hsize : m.size ≤ m.maxEntries := by rw [h.room]; exact h.size
  have := exists_survives q hsize h.apart
  rwa [h.room] at this

theorem perform [EquivBEq κ] (h : Kept n maxAge history m) (q : Request κ β) :
    Kept n maxAge (history ++ [q]) (m.perform q) := by
  obtain ⟨es, hes⟩ := exists_perform_eq m q
  obtain ⟨survives, heq, hdrops, -⟩ := h.survives q
  refine ⟨by rw [hes]; exact h.room, by rw [hes]; exact h.age, ?_, ?_⟩
  · rw [Memo.size, heq, length_rtake]
    exact Nat.min_le_left ..
  · rw [heq]
    exact (List.drop_sublist ..).trans (survivors_sublist hdrops h.entries)

end Kept

theorem kept_after [EquivBEq κ] {n : Nat} (hn : 1 ≤ n) (maxAge : Option Amount)
    (history : List (Request κ β)) :
    Kept n maxAge history (after ⟨n, maxAge, [], hn⟩ history) := by
  induction history using List.reverseRecOn with
  | nil => exact ⟨rfl, rfl, Nat.zero_le _, .refl _⟩
  | append_singleton history q ih =>
      rw [after_concat]
      exact ih.perform q

-- ========================================================= one entry's way

/-- An entry is there, and what is newer is of what was stored later. -/
def Holds (m : Memo κ β) (e : Entry κ β) (later : List (Request κ β)) : Prop :=
  ∃ newer, (e :: newer) <:+ m.entries ∧ newer.Sublist (standing later)

theorem holds_set (m : Memo κ β) (now : Amount) (k : κ) (v : Option β) :
    (m.set now k v).Holds ⟨k, now, v⟩ [] :=
  ⟨[], suffix_rtake (List.suffix_append _ _) m.one_le_max, .refl _⟩

theorem Holds.perform [EquivBEq κ] {n : Nat} {maxAge : Option Amount}
    {history later : List (Request κ β)} {q : Request κ β} (hm : Kept n maxAge history m)
    (h : m.Holds e later) (hdrops : q.drops e.key = false)
    (hfresh : ∀ now ∈ q.asks? e.key, Fresh maxAge now e.since)
    (hroom : (lastOfKeys (stored (later ++ [q]))).length < n) :
    (m.perform q).Holds e (later ++ [q]) := by
  obtain ⟨newer, hsuffix, hnewer⟩ := h
  obtain ⟨survives, heq, hs, hfirst⟩ := hm.survives q
  have he : survives e = true :=
    hfirst e (hsuffix.subset (List.mem_cons_self ..)) hdrops hfresh
  have hstanding := survivors_sublist hs hnewer
  refine ⟨newer.filter survives ++ q.entry?.toList, ?_, hstanding⟩
  rw [heq]
  apply suffix_rtake
  · obtain ⟨older, hentries⟩ := hsuffix
    refine ⟨older.filter survives, ?_⟩
    rw [← hentries, List.filter_append, List.filter_cons_of_pos he, List.append_assoc,
      List.cons_append]
  · have hcount := (hstanding.trans (standing_sublist _)).length_le
    rw [List.length_cons]
    omega

/-- An entry stays as long as it is not dropped, is fresh whenever it is
asked for, and fewer keys are stored under than there is room for. -/
theorem holds_after [EquivBEq κ] {n : Nat} (hn : 1 ≤ n) (maxAge : Option Amount)
    (before later : List (Request κ β)) (since : Amount) (k : κ) (v : Option β)
    (hdrops : ∀ q ∈ later, q.drops k = false)
    (hfresh : ∀ q ∈ later, ∀ now ∈ q.asks? k, Fresh maxAge now since)
    (hroom : (lastOfKeys (stored later)).length < n) :
    (after ⟨n, maxAge, [], hn⟩ (before ++ .set since k v :: later)).Holds ⟨k, since, v⟩ later := by
  induction later using List.reverseRecOn with
  | nil =>
      rw [after_concat]
      exact holds_set ..
  | append_singleton later q ih =>
      have hbefore : (lastOfKeys (stored later)).length < n := by
        refine Nat.lt_of_le_of_lt ?_ hroom
        rw [stored_concat]
        exact length_lastOfKeys_le ..
      have hlater := ih (fun r hr => hdrops r (List.mem_append_left _ hr))
        (fun r hr => hfresh r (List.mem_append_left _ hr)) hbefore
      have hq : q ∈ later ++ [q] := List.mem_append_right _ (List.mem_singleton.mpr rfl)
      rw [← List.cons_append, ← List.append_assoc, after_concat]
      exact hlater.perform (kept_after hn maxAge _) (hdrops q hq) (hfresh q hq) hroom

-- ================================================================= answers

theorem Request.drops_congr [EquivBEq κ] {k k' : κ} (h : (k == k') = true) (q : Request κ β) :
    q.drops k = q.drops k' := by
  cases q <;> simp [drops, BEq.congr_left h]

theorem Request.asks?_congr [EquivBEq κ] {k k' : κ} (h : (k == k') = true) (q : Request κ β) :
    q.asks? k = q.asks? k' := by
  cases q <;> simp [asks?, BEq.congr_left h]

/-- Of a memo that began empty, after any requests: there are no more
entries than there is room for, of different keys and in the order in which
these were last stored. A result it gives was the last that was stored
under the key, was not dropped since, and is no older than allowed.
Conversely, such a result is what it gives if whoever asked for it since
found it no older either, and fewer other keys were stored under since than
there is room for. -/
theorem get_after [EquivBEq κ] {n : Int} (hn : 1 ≤ n) (maxAge : Option Amount) :
    ∃ m : Memo κ β, Memo.empty κ β n maxAge = .ok m ∧ ∀ history : List (Request κ β),
      ((m.after history).size ≤ n
        ∧ (m.after history).entries.Pairwise Apart
        ∧ (m.after history).entries.Sublist (lastOfKeys (stored history)))
      ∧ (∀ now k v m', (m.after history).get now k = .ok (some v, m') →
          ∃ before since k' later, history = before ++ .set since k' (some v) :: later
            ∧ (k == k') = true
            ∧ (∀ q ∈ later, q.drops k = false)
            ∧ Fresh maxAge now since)
      ∧ (∀ before since k' v later now k, history = before ++ .set since k' (some v) :: later →
          (k == k') = true →
          (∀ q ∈ later, q.drops k = false) →
          (∀ q ∈ later, ∀ t ∈ q.asks? k, Fresh maxAge t since) →
          Fresh maxAge now since →
          (lastOfKeys (stored later)).length < n →
          (m.after history).get now k = .ok (some v, m.after history)) := by
  have hroom : 1 ≤ n.toNat := by omega
  refine ⟨⟨n.toNat, maxAge, [], hroom⟩, by rw [empty, dif_neg (by omega)], fun history => ?_⟩
  have hkept := kept_after hroom maxAge history
  refine ⟨⟨?_, hkept.apart, hkept.sublist_lastOfKeys⟩, ?_, ?_⟩
  · have := hkept.size
    omega
  · intro now k v m' hget
    obtain ⟨e, hfind, hv, hfresh, -⟩ := get_eq_some_iff.mp hget
    have hek : (e.key == k) = true := by simpa using List.find?_some hfind
    obtain ⟨before, later, heq, hdrops⟩ :=
      exists_of_mem_standing (hkept.entries.subset (List.mem_of_find?_eq_some hfind))
    rw [hv] at heq
    rw [hkept.age] at hfresh
    refine ⟨before, e.since, e.key, later, heq, BEq.symm hek, fun q hq => ?_, hfresh⟩
    rw [← Request.drops_congr hek]
    exact hdrops q hq
  · intro before since k' v later now k heq hk hdrops hasked hfresh hcount
    subst heq
    have hdrops' : ∀ q ∈ later, q.drops k' = false := fun q hq => by
      rw [← Request.drops_congr hk]
      exact hdrops q hq
    have hasked' : ∀ q ∈ later, ∀ t ∈ q.asks? k', Fresh maxAge t since := fun q hq => by
      rw [← Request.asks?_congr hk]
      exact hasked q hq
    obtain ⟨newer, hsuffix, -⟩ :=
      holds_after hroom maxAge before later since k' (some v) hdrops' hasked' (by omega)
    have hmem := hsuffix.subset (List.mem_cons_self ..)
    exact get_eq_some_iff.mpr ⟨_, find?_of_mem hkept.apart hmem (BEq.symm hk), rfl,
      by rwa [hkept.age], rfl⟩

/-- A memo with room for two is asked at a quarter past for what was stored at
five: its key is written another way, a third key has been stored, and the
clock has gone back once. -/
def visits : List (Request Json.Compound String) := [
  .set (.whole 3) (.key (.text "first")) (some "3"),
  .set (.whole 5) (.parts [.key (.int 1), .key (.text "box")]) (some "441"),
  .get (.whole 9) (.parts [.key (.int 1), .key (.text "box")]),
  .set (.whole 2) (.key (.text "third")) (some "51"),
  .evict (.key (.text "first")),
  .contains (.whole 14) (.parts [.key (.bool true), .key (.text "box")])]

theorem visits_remembered :
    (1 : Int) ≤ 2 ∧ ∃ m : Memo Json.Compound String,
      Memo.empty Json.Compound String 2 (some (.whole 10)) = .ok m
        ∧ (m.after visits).get (.whole 15) (.parts [.key (.bool true), .key (.text "box")])
          = .ok (some "441", m.after visits) := by
  refine ⟨by decide, ?_⟩
  obtain ⟨m, hm, h⟩ : ∃ m : Memo Json.Compound String, _ ∧ _ :=
    get_after (by decide : (1 : Int) ≤ 2) (some (.whole 10))
  refine ⟨m, hm, (h visits).2.2 [.set (.whole 3) (.key (.text "first")) (some "3")] (.whole 5)
    (.parts [.key (.int 1), .key (.text "box")]) "441" (visits.drop 2) _ _ rfl ?_ ?_ ?_ ?_ ?_⟩
  · decide
  · decide
  · decide
  · decide
  · decide

end Memo

end Siteswap
