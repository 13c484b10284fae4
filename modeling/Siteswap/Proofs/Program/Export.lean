/-
An export lists each count of objects as if it were the only one.

The lists of an export share a shelf, and a count may be given more than
once, near to its first place or far from it. `lists_apart` says that none
of this shows: no answer of a catalog depends on what it has kept, and the
rows under each count are those of an export of that count alone. There
are such rows for every count that is not negative (`exists_list`), so
that an export of such counts always comes to its end.
-/
import Siteswap.Proofs.Catalog.Lengths
import Siteswap.Proofs.Catalog.Shelf
import Siteswap.Proofs.Entries
import Siteswap.Proofs.Results
import Siteswap.Proofs.Search.Enumeration
import Siteswap.Program.Export

namespace Siteswap

namespace Catalog

-- ====================================================== there is a list

open Search (Constraints)

variable {objects length : Int}

theorem exists_patternsOfLength (maxSteps : Int) (c : Constraints) (ho : 0 ≤ objects)
    (hl : 1 ≤ length) : ∃ found, patternsOfLength maxSteps objects length c = .ok found :=
  ⟨_, patternsDrawn_eq _ _ c ho hl⟩

theorem exists_candidates (maxSteps : Int) (c : Constraints) (ho : 0 ≤ objects) (maxLength : Int) :
    ∃ texts, candidates maxSteps objects maxLength c = .ok texts := by
  have hlists : ∃ lists, (Search.span 1 maxLength).mapM
      (fun length => patternsOfLength maxSteps objects length c) = .ok lists :=
    exists_mapM_ok fun length hlength =>
      exists_patternsOfLength maxSteps c ho (Search.mem_span.mp hlength).1
  obtain ⟨lists, hlists⟩ := hlists
  unfold candidates
  rw [hlists]
  exact ⟨_, rfl⟩

theorem exists_compute {maxSteps : Int} {r : Request}
    (hlimits : ∃ c, Constraints.ofLimitsFor r.objects r.minHeight r.maxHeight r.includeZeros
      attemptsPerDraw = .ok c)
    (ho : 0 ≤ r.objects) : ∃ l, compute maxSteps r = .ok l := by
  obtain ⟨c, hc⟩ := hlimits
  obtain ⟨texts, htexts⟩ := exists_candidates maxSteps c ho r.maxLength
  refine ⟨select r texts, ?_⟩
  unfold compute
  rw [hc]
  show (searching (candidates maxSteps r.objects r.maxLength c) >>= fun texts =>
    pure (select r texts)) = _
  rw [htexts]
  rfl

end Catalog

namespace Program

open Json (Value)

variable {maxLength n : Int} {includeZeros : Bool}

/-- There is a list for every count that is not negative. -/
theorem exists_list (maxSteps maxLength : Int) (includeZeros : Bool) (hn : 0 ≤ n) :
    ∃ l, Catalog.list maxSteps (request maxLength includeZeros n) = .ok l := by
  rw [Catalog.list_eq]
  apply Catalog.exists_compute
  · exact Search.Constraints.exists_ofLimits (Int.le_refl 0) (Search.minHeight_le_default n 0)
      (Search.defaultMaxHeight_le n 0 (by decide)) (by decide)
  · exact hn

-- ==================================================================== rows

/-- The rows of a count, if there is a list for it. -/
def rowsOf (maxLength : Int) (includeZeros : Bool) (n : Int) : Value :=
  match Catalog.list Search.defaultSteps (request maxLength includeZeros n) with
  | .ok l => .array (l.map (row n))
  | .error _ => .array []

/-- An export puts the rows of each count in their place, one count after
the other. -/
theorem build_eq {s : Catalog.Shelf} (hs : s.Sound Search.defaultSteps)
    {objects : List Int} (hobjects : ∀ n ∈ objects, 0 ≤ n) (rows : Entries String Value) :
    (build maxLength includeZeros s rows objects).2
      = .ok (objects.foldl
          (fun rows n => rows.put (toString n) (rowsOf maxLength includeZeros n)) rows) := by
  induction objects generalizing s rows with
  | nil => rfl
  | cons n objects ih =>
      obtain ⟨l, hl⟩ := exists_list Search.defaultSteps maxLength includeZeros
        (hobjects n List.mem_cons_self)
      obtain ⟨heq, hs'⟩ := hs.list (request maxLength includeZeros n)
      have hrows : rowsOf maxLength includeZeros n = .array (l.map (row n)) := by
        unfold rowsOf
        rw [hl]
      rw [hl] at heq
      unfold build
      rcases hlist : s.list Search.defaultSteps (request maxLength includeZeros n) with ⟨result, s'⟩
      rw [hlist] at heq hs'
      cases heq
      rw [List.foldl_cons, ← ih hs' (fun n hn => hobjects n (List.mem_cons_of_mem _ hn)), hrows]

/-- Counts that are not negative have different names. -/
theorem toString_injective {m n : Int} (hm : 0 ≤ m) (hn : 0 ≤ n)
    (h : toString m = toString n) : m = n := by
  rw [Int.toString_eq_repr, Int.toString_eq_repr, Int.repr_eq_if, Int.repr_eq_if, if_pos hm,
    if_pos hn] at h
  have hdigits : Nat.toDigits 10 m.toNat = Nat.toDigits 10 n.toNat := by
    rw [← Nat.toList_repr, ← Nat.toList_repr, h]
  have hnat : m.toNat = n.toNat := by
    calc m.toNat = Nat.ofDigitChars 10 (Nat.toDigits 10 m.toNat) 0 :=
          Nat.ofDigitChars_ten_toDigits.symm
      _ = Nat.ofDigitChars 10 (Nat.toDigits 10 n.toNat) 0 := by rw [hdigits]
      _ = n.toNat := Nat.ofDigitChars_ten_toDigits
  omega

theorem sound_emptyShelf (clock : Clock) :
    (emptyShelf clock).Sound Search.defaultSteps :=
  .of_empty rfl

/-- A catalog that keeps lists, at first none, answers all it is asked like
one that keeps none: whatever room and age it has, and whatever its clock
shows. In an export of counts that are not negative, where the lists of
all counts share a shelf, the rows of each count are those of an export of
that count alone. -/
theorem lists_apart {room : Int} (hroom : 1 ≤ room) (maxAge : Option Number.Amount) :
    (∃ memo, Memo.empty Catalog.Request (List Catalog.Listing) room maxAge = .ok memo
      ∧ ∀ (clock : Clock) (maxSteps : Int) (calls : List Catalog.Call),
          Catalog.Shelf.answers maxSteps ⟨memo, clock⟩ calls
            = calls.map (·.plain maxSteps))
    ∧ ∀ (clock clock' : Clock) (maxLength : Int) (includeZeros : Bool) (objects : List Int),
        (∀ n ∈ objects, 0 ≤ n) →
        ∃ rows, (build maxLength includeZeros (emptyShelf clock) [] objects).2 = .ok rows
          ∧ ∀ n ∈ objects, ∃ list,
              (build maxLength includeZeros (emptyShelf clock') [] [n]).2
                  = .ok [(toString n, list)]
                ∧ rows.get? (toString n) = some list := by
  constructor
  · refine ⟨⟨room.toNat, maxAge, [], by omega⟩, ?_, fun clock maxSteps calls => ?_⟩
    · rw [Memo.empty, dif_neg (by omega)]
    · exact Catalog.Shelf.Sound.answers (.of_empty rfl) calls
  · intro clock clock' maxLength includeZeros objects hobjects
    refine ⟨_, build_eq (sound_emptyShelf clock) hobjects [], fun n hn => ?_⟩
    refine ⟨rowsOf maxLength includeZeros n, ?_, ?_⟩
    · rw [build_eq (sound_emptyShelf clock') (by simpa using hobjects n hn)]
      rfl
    · exact Entries.get?_foldl_put _ hn
        (fun m hm => toString_injective (hobjects m hm) (hobjects n hn)) []

/-- A list that is asked for again after one that does not exist and many
that do. -/
def asked : List Catalog.Call := [
  .list (.plain 3),
  .list { Catalog.Request.plain 3 with difficulty := "steep" },
  .categories,
  .list (.plain 3),
  .list (.plain 3)]

/-- There is room for one list only, and the clock runs back. -/
theorem lists_apart_of_one :
    (1 : Int) ≤ 1
      ∧ (∃ memo, Memo.empty Catalog.Request (List Catalog.Listing) 1 (some (.whole 0)) = .ok memo
        ∧ Catalog.Shelf.answers 100 ⟨memo, .whole fun i => -i⟩ asked
          = asked.map (·.plain 100))
      ∧ (∀ n ∈ [3, 4, 3], (0 : Int) ≤ n)
      ∧ ∃ rows, (build 2 true (emptyShelf (.whole fun i => -i)) [] [3, 4, 3]).2 = .ok rows
        ∧ ∃ list, (build 2 true (emptyShelf (.still (.whole 0))) [] [3]).2 = .ok [("3", list)]
          ∧ rows.get? "3" = some list := by
  obtain ⟨⟨memo, hmemo, hanswers⟩, hbuild⟩ :=
    lists_apart (by decide : (1 : Int) ≤ 1) (some (.whole 0))
  have hnonneg : ∀ n ∈ [3, 4, 3], (0 : Int) ≤ n := by decide
  obtain ⟨rows, hrows, heach⟩ := hbuild (.whole fun i => -i) (.still (.whole 0)) 2 true _ hnonneg
  obtain ⟨list, hlist, hget⟩ := heach 3 (by decide)
  exact ⟨by decide, ⟨memo, hmemo, hanswers _ _ _⟩, hnonneg, rows, hrows, list, hlist, hget⟩

end Program

end Siteswap
