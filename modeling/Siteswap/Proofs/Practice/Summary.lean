/-
Requests of trackers, and the journal that sums them up.

The completions and the counts among some requests are listed first, and
the journal is made from the two lists (`Journal.ofEvents`): every
completed form with its first day, every counted form with its greatest
count. Nothing here looks at a store.

One more completion or count changes the journal as a tracker changes its
record (`complete_ofEvents`, `keepBest_ofEvents`), and so does a mark
(`marked_ofEvents`). The counts of a journal are short iff all counts were
(`isShort_catches_iff`).
-/
import Siteswap.Proofs.Distinct
import Siteswap.Proofs.Practice.Journal

namespace Siteswap.Practice

open Json (Key Value)

-- ============================================================= requests

/-- What may be asked of a tracker. -/
inductive Request where
  | mark (typed : Typed) (catches : Option Int) (day : Date)
  | recordCatches (typed : Typed) (n : Int)
  | isCompleted (typed : Typed)
  | load
  | reset
  deriving DecidableEq

-- ============================================================== summary

/-- Whether a count of catches is accepted. -/
def isCountable (n : Int) : Bool :=
  0 ≤ n && Json.isShort n

/-- The form and the day of a request to mark a pattern, if the pattern is
valid and the count, if there is one, is accepted. -/
def Request.completion? : Request → Option (String × Date)
  | .mark typed catches day =>
    match canonicalForm typed with
    | .ok form => if catches.all isCountable then some (form, day) else none
    | .error _ => none
  | _ => none

/-- The form and the count of a request that counts catches, if the
pattern is valid and the count is accepted. -/
def Request.count? : Request → Option (String × Int)
  | .mark typed (some n) _ => counted typed n
  | .recordCatches typed n => counted typed n
  | _ => none
where
  counted (typed : Typed) (n : Int) : Option (String × Int) :=
    match canonicalForm typed with
    | .ok form => if isCountable n then some (form, n) else none
    | .error _ => none

/-- The values that are listed for a form. -/
def valuesOf {β : Type} (form : String) (pairs : List (String × β)) : List β :=
  pairs.filterMap fun p => if p.1 = form then some p.2 else none

/-- The forms in the order in which they first occur, each once. -/
def formsOf {β : Type} (pairs : List (String × β)) : List String :=
  (pairs.map (·.1)).eraseDups

/-- The journal of some completions and counts: every completed form with
its first day, every counted form with its greatest count. -/
def Journal.ofEvents (completions : List (String × Date))
    (counts : List (String × Int)) : Journal where
  completed := formsOf completions
  catches := .tabulate (formsOf counts) fun form => (valuesOf form counts).max?
  dates := .tabulate (formsOf completions) fun form =>
    (valuesOf form completions).head?.map Date.render

/-- The completions among some requests. -/
def completions (requests : List Request) : List (String × Date) :=
  requests.filterMap Request.completion?

/-- The counts among some requests. -/
def counts (requests : List Request) : List (String × Int) :=
  requests.filterMap Request.count?

/-- The journal of some requests. -/
def summary (requests : List Request) : Journal :=
  .ofEvents (completions requests) (counts requests)

-- ==================================================== forms and values

section Lists

variable {β : Type} {pairs : List (String × β)} {form : String}

theorem formsOf_concat (pairs : List (String × β)) (form : String) (b : β) :
    formsOf (pairs ++ [(form, b)])
      = if form ∈ formsOf pairs then formsOf pairs else formsOf pairs ++ [form] := by
  unfold formsOf
  rw [List.map_append]
  exact eraseDups_concat _ _

theorem nodup_formsOf (pairs : List (String × β)) : (formsOf pairs).Nodup :=
  nodup_eraseDups _

theorem valuesOf_concat (pairs : List (String × β)) (form form' : String) (b : β) :
    valuesOf form' (pairs ++ [(form, b)])
      = if form = form' then valuesOf form' pairs ++ [b] else valuesOf form' pairs := by
  unfold valuesOf
  rw [List.filterMap_append]
  by_cases h : form = form'
  · simp [h]
  · simp [h]

/-- The forms are those that values are listed for. -/
theorem mem_formsOf : form ∈ formsOf pairs ↔ valuesOf form pairs ≠ [] := by
  unfold formsOf valuesOf
  rw [List.mem_eraseDups, List.mem_map, ne_eq, List.filterMap_eq_nil_iff]
  constructor
  · rintro ⟨p, hp, rfl⟩ hall
    have := hall p hp
    rw [if_pos rfl] at this
    cases this
  · intro hne
    by_contra hno
    exact hne fun p hp => if_neg fun heq => hno ⟨p, hp, heq⟩

theorem mem_valuesOf {b : β} : b ∈ valuesOf form pairs ↔ (form, b) ∈ pairs := by
  unfold valuesOf
  rw [List.mem_filterMap]
  constructor
  · rintro ⟨p, hp, hsome⟩
    split at hsome
    case isTrue h =>
      cases hsome
      rwa [← h]
    case isFalse => cases hsome
  · intro h
    exact ⟨_, h, if_pos rfl⟩

theorem max?_concat (l : List Int) {n : Int} (hn : 0 ≤ n) :
    (l ++ [n]).max? = some (max (l.max?.getD 0) n) := by
  cases l with
  | nil => exact congrArg some (Int.max_eq_right hn).symm
  | cons a l =>
      rw [List.cons_append, List.max?_cons', List.foldl_append, List.max?_cons']
      rfl

end Lists

-- ============================================================= journals

namespace Journal

variable {completions : List (String × Date)} {counts : List (String × Int)}

theorem proper_ofEvents (completions : List (String × Date))
    (counts : List (String × Int)) : (ofEvents completions counts).Proper where
  catches := (nodup_formsOf counts).sublist (Entries.keys_tabulate_sublist _ _)
  dates := (nodup_formsOf completions).sublist (Entries.keys_tabulate_sublist _ _)

/-- One more completion. -/
theorem complete_ofEvents (completions : List (String × Date))
    (counts : List (String × Int)) (form : String) (day : Date) :
    (ofEvents completions counts).record.complete form day.render
      = (ofEvents (completions ++ [(form, day)]) counts).record := by
  unfold Record.complete
  have hforms := formsOf_concat completions form day
  have hvalues := valuesOf_concat completions form
  split
  case isTrue h =>
    have hmem : form ∈ formsOf completions := hasCompleted_record.mp h
    rw [if_pos hmem] at hforms
    congr 1
    unfold ofEvents
    rw [hforms]
    congr 1
    refine Entries.tabulate_congr fun form' hform' => ?_
    have hne := mem_formsOf.mp hform'
    rw [hvalues]
    split
    · rw [List.head?_append_of_ne_nil _ hne]
    · rfl
  case isFalse h =>
    have hnot : form ∉ formsOf completions := fun hmem =>
      h (hasCompleted_record.mpr hmem)
    have hnil : valuesOf form completions = [] := by
      by_contra hne
      exact hnot (mem_formsOf.mpr hne)
    have hput := Entries.put_tabulate (nodup_formsOf completions)
      (f := fun form => (valuesOf form completions).head?.map Date.render)
      (g := fun form' =>
        (valuesOf form' (completions ++ [(form, day)])).head?.map Date.render)
      (k := form) (v := day.render)
      (fun form' hmem => by
        rw [Option.isSome_map, List.isSome_head?]
        exact mem_formsOf.mp hmem)
      (fun form' hne => by rw [hvalues, if_neg (Ne.symm hne)])
      (by rw [hvalues, if_pos rfl, hnil]; rfl)
    rw [← hforms] at hput
    rw [if_neg hnot] at hforms
    unfold ofEvents record
    simp only
    rw [← hput, hforms, List.map_append, put_dates]
    rfl

/-- One more count. -/
theorem keepBest_ofEvents (completions : List (String × Date))
    (counts : List (String × Int)) (form : String) {n : Int} (hn : 0 ≤ n) :
    (ofEvents completions counts).record.best form n
        = max ((valuesOf form counts).max?.getD 0) n
      ∧ (ofEvents completions counts).record.keepBest form n
        = (ofEvents completions (counts ++ [(form, n)])).record := by
  have hbest : (ofEvents completions counts).record.best form n
      = max ((valuesOf form counts).max?.getD 0) n := by
    unfold Record.best
    rw [get?_catches]
    show max (((Entries.tabulate _ _).get? form).getD 0) n = _
    rw [Entries.get?_tabulate]
    split
    case isTrue => rfl
    case isFalse h =>
      rw [mem_formsOf, not_not] at h
      rw [h]
      rfl
  refine ⟨hbest, ?_⟩
  unfold Record.keepBest
  rw [hbest]
  have hput := Entries.put_tabulate (nodup_formsOf counts)
    (f := fun form => (valuesOf form counts).max?)
    (g := fun form' => (valuesOf form' (counts ++ [(form, n)])).max?)
    (k := form) (v := max ((valuesOf form counts).max?.getD 0) n)
    (fun form' hmem => List.isSome_max?_of_ne_nil (mem_formsOf.mp hmem))
    (fun form' hne => by rw [valuesOf_concat, if_neg (Ne.symm hne)])
    (by rw [valuesOf_concat, if_pos rfl, max?_concat _ hn])
  rw [← formsOf_concat counts form n] at hput
  show ({ completed := _, catches := Entries.put _ _ _, dates := _ } : Record) = _
  unfold ofEvents record
  simp only
  rw [put_catches, hput]

theorem marked_ofEvents (completions : List (String × Date))
    (counts : List (String × Int)) (form : String) {catches : Option Int}
    (day : Date) (hpos : ∀ n ∈ catches, 0 ≤ n) :
    (ofEvents completions counts).record.marked form catches day.render
      = (ofEvents (completions ++ [(form, day)])
          (counts ++ (catches.map (form, ·)).toList)).record := by
  cases catches with
  | none =>
      show Record.complete _ _ _ = (ofEvents _ (counts ++ [])).record
      rw [complete_ofEvents, List.append_nil]
  | some n =>
      show (Record.complete _ _ _).keepBest _ _ = _
      rw [complete_ofEvents]
      exact (keepBest_ofEvents _ _ form (hpos n rfl)).2

end Journal

-- =============================================================== counts

/-- Counts below a short one are short. -/
theorem isShort_of_le {m n : Int} (hm : 0 ≤ m) (hmn : m ≤ n)
    (hn : Json.isShort n = true) : Json.isShort m = true := by
  rw [Json.isShort_iff] at hn ⊢
  omega

/-- A journal's counts are short iff all counts were. -/
theorem Journal.isShort_catches_iff {completions : List (String × Date)}
    {counts : List (String × Int)} (hpos : ∀ c ∈ counts, 0 ≤ c.2) :
    (∀ e ∈ (ofEvents completions counts).catches, Json.isShort e.2 = true)
      ↔ ∀ c ∈ counts, Json.isShort c.2 = true := by
  constructor
  · intro h c hc
    have hmem : c.2 ∈ valuesOf c.1 counts := mem_valuesOf.mpr hc
    obtain ⟨m, hm⟩ := Option.isSome_iff_exists.mp
      (List.isSome_max?_of_ne_nil (List.ne_nil_of_mem hmem))
    have hle := (List.max?_eq_some_iff.mp hm).2 _ hmem
    have hshort := h (c.1, m) (Entries.mem_tabulate.mpr
      ⟨mem_formsOf.mpr (List.ne_nil_of_mem hmem), hm⟩)
    exact isShort_of_le (hpos c hc) hle hshort
  · intro h e he
    obtain ⟨-, hm⟩ := Entries.mem_tabulate.mp he
    exact h _ (mem_valuesOf.mp (List.max?_mem hm))

-- ===================================================== accepted requests

theorem count?_counted {typed : Typed} {n m : Int} {form : String} :
    Request.count?.counted typed n = some (form, m)
      ↔ canonicalForm typed = .ok form ∧ isCountable n = true ∧ n = m := by
  unfold Request.count?.counted
  split
  case h_1 form' h =>
    rw [h]
    split
    case isTrue hc => simp [hc]
    case isFalse hc => simp [hc]
  case h_2 e h =>
    rw [h]
    exact iff_of_false nofun fun h => nomatch h.1

theorem completion?_mark {typed : Typed} {catches : Option Int}
    {day day' : Date} {form : String} :
    (Request.mark typed catches day).completion? = some (form, day')
      ↔ canonicalForm typed = .ok form ∧ (∀ n ∈ catches, isCountable n = true)
        ∧ day = day' := by
  unfold Request.completion?
  simp only
  split
  case h_1 form' h =>
    rw [h]
    split
    case isTrue hc =>
      have hc' := (Option.all_eq_true _ _).mp hc
      rw [Option.some.injEq, Prod.mk.injEq, Except.ok.injEq]
      exact ⟨fun heq => ⟨heq.1, hc', heq.2⟩, fun heq => ⟨heq.1, heq.2.2⟩⟩
    case isFalse hc =>
      exact iff_of_false nofun fun heq => hc ((Option.all_eq_true _ _).mpr heq.2.1)
  case h_2 e h =>
    rw [h]
    exact iff_of_false nofun fun h => nomatch h.1

theorem count?_mark {typed : Typed} {catches : Option Int} {form : String}
    (day : Date) (hform : canonicalForm typed = .ok form)
    (hcatches : ∀ n ∈ catches, isCountable n = true) :
    (Request.mark typed catches day).count? = catches.map (form, ·) := by
  cases catches with
  | none => rfl
  | some n => exact count?_counted.mpr ⟨hform, hcatches n rfl, rfl⟩

/-- A mark that is no completion counts nothing. -/
theorem count?_of_completion?_eq_none {typed : Typed} {catches : Option Int}
    {day : Date} (h : (Request.mark typed catches day).completion? = none) :
    (Request.mark typed catches day).count? = none := by
  cases catches with
  | none => rfl
  | some n =>
      rw [Option.eq_none_iff_forall_ne_some]
      rintro ⟨form, m⟩ hcount
      obtain ⟨hform, hc, -⟩ := count?_counted.mp hcount
      have hcompletion : (Request.mark typed (some n) day).completion?
          = some (form, day) := completion?_mark.mpr
        ⟨hform, fun k hk => by rwa [← Option.some.inj hk], rfl⟩
      rw [h] at hcompletion
      cases hcompletion

theorem isCountable_of_count? {q : Request} {c : String × Int}
    (h : q.count? = some c) : isCountable c.2 = true := by
  obtain ⟨form, m⟩ := c
  cases q with
  | mark typed catches day =>
      cases catches with
      | none => cases h
      | some n =>
          obtain ⟨-, hc, rfl⟩ := count?_counted.mp h
          exact hc
  | recordCatches typed n =>
      obtain ⟨-, hc, rfl⟩ := count?_counted.mp h
      exact hc
  | _ => cases h

theorem isCountable_iff {n : Int} :
    isCountable n = true ↔ 0 ≤ n ∧ Json.isShort n = true := by
  unfold isCountable
  rw [Bool.and_eq_true, decide_eq_true_iff]

theorem proper_summary (qs : List Request) : (summary qs).Proper :=
  Journal.proper_ofEvents _ _

/-- All counts of a summary were accepted. -/
theorem isCountable_counts (qs : List Request) :
    ∀ c ∈ counts qs, isCountable c.2 = true := by
  intro c hc
  obtain ⟨q, -, hq⟩ := List.mem_filterMap.mp hc
  exact isCountable_of_count? hq

theorem isShort_summary (qs : List Request) :
    ∀ e ∈ (summary qs).catches, Json.isShort e.2 = true :=
  (Journal.isShort_catches_iff fun c hc =>
    (isCountable_iff.mp (isCountable_counts qs c hc)).1).mpr fun c hc =>
      (isCountable_iff.mp (isCountable_counts qs c hc)).2

theorem completions_concat (qs : List Request) (q : Request) :
    completions (qs ++ [q]) = completions qs ++ q.completion?.toList := by
  unfold completions
  rw [List.filterMap_append]
  cases h : q.completion? with
  | none => simp [h]
  | some c => simp [h]

theorem counts_concat (qs : List Request) (q : Request) :
    counts (qs ++ [q]) = counts qs ++ q.count?.toList := by
  unfold counts
  rw [List.filterMap_append]
  cases h : q.count? with
  | none => simp [h]
  | some c => simp [h]

end Siteswap.Practice
