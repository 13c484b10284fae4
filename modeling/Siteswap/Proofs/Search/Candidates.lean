/-
The candidates of a task, in order.

A listing goes through the tree of prefixes with a room that shrinks by
what is listed, checked before each height. Without the room it would list
all completions in lexicographic order (`completions`), since heights are
tried in ascending order and bounds drop none. With it, it lists the first
of them: room that is passed on from one subtree to the next cuts the whole
as it would be cut at the end (`gather_eq_take`), so a listing below any
prefix is that much of all completions (`listBelow_eq_take`).

# How deep it goes

A listing holds exactly the first tuples (`Lists`), whatever their length.
But it goes a step deeper with each throw, and where the depth has an end, so
has this: every height that is tried leads on to a tuple, so the first of them
is followed down to that end before anything is listed
(`listWithin_eq_error`). Up to there the depth does not show, and it takes no
depth to see that there is nothing to list. `candidates_listed` puts this
together; no depth is enough for all lengths (`onesOnly_not_listed`).
-/
import Mathlib.Data.Set.Card
import Siteswap.Proofs.Search.Bounds
import Siteswap.Search.Enumeration

namespace Siteswap.Search

variable {t : Task} {n : Nat} {total : Int}

-- ======================================================= all completions

/-- All throws that complete a prefix which sums to `total` and lacks
`remaining` throws, in lexicographic order. -/
def completions (t : Task) : (remaining : Nat) → (total : Int) → List (List Int)
  | 0, total => if total = t.target then [[]] else []
  | n + 1, total =>
    (t.heights total (n + 1)).flatMap fun h => (completions t n (total + h)).map (h :: ·)

theorem mem_completions {hs : List Int} :
    hs ∈ completions t n total ↔ Completes t n total hs := by
  induction n generalizing total hs with
  | zero =>
      rw [completes_zero]
      unfold completions
      split
      case isTrue h => rw [List.mem_singleton, and_iff_left h]
      case isFalse h => exact iff_of_false List.not_mem_nil fun hc => h hc.2
  | succ n ih =>
      unfold completions
      simp only [List.mem_flatMap, List.mem_map, ih]
      constructor
      · rintro ⟨h, hh, rest, hc, rfl⟩
        exact completes_cons.mpr ⟨hh, hc⟩
      · intro hc
        obtain ⟨h, rest, rfl⟩ := List.exists_cons_of_length_pos (by rw [hc.length]; omega)
        obtain ⟨hh, hrest⟩ := completes_cons.mp hc
        exact ⟨h, hh, rest, hrest, rfl⟩

theorem pairwise_span (lo hi : Int) : (span lo hi).Pairwise (· < ·) := by
  unfold span
  rw [List.pairwise_map]
  refine List.pairwise_lt_range.imp fun hlt => ?_
  omega

/-- They stand in strictly ascending order. -/
theorem pairwise_completions : (completions t n total).Pairwise (· < ·) := by
  induction n generalizing total with
  | zero =>
      unfold completions
      split
      · exact List.pairwise_singleton _ _
      · exact List.Pairwise.nil
  | succ n ih =>
      unfold completions
      rw [List.pairwise_flatMap]
      constructor
      · intro h _
        rw [List.pairwise_map]
        exact ih.imp fun hlt => List.cons_lt_cons_iff.mpr (.inr ⟨rfl, hlt⟩)
      · refine (pairwise_span _ _).imp fun hlt => ?_
        intro hs hhs ks hks
        obtain ⟨hs', -, rfl⟩ := List.mem_map.mp hhs
        obtain ⟨ks', -, rfl⟩ := List.mem_map.mp hks
        exact List.cons_lt_cons_iff.mpr (.inl hlt)

-- ================================================================== room

/-- Lists gathered with the room that is left, each as far as it fits, are
the whole lists as far as they fit. -/
theorem gather_eq_take {α : Type} {list : Int → Nat → List α} {whole : Int → List α}
    (h : ∀ k room, 0 < room → list k room = (whole k).take room) (hs : List Int) (room : Nat) :
    gather list hs room = (hs.flatMap whole).take room := by
  induction hs generalizing room with
  | nil => exact List.take_nil.symm
  | cons k hs ih =>
      unfold gather
      split
      case isTrue hnone => rw [hnone, List.take_zero]
      case isFalse hsome =>
        have hleft : room - min room (whole k).length = room - (whole k).length := by omega
        dsimp only
        rw [h k room (by omega), ih, List.flatMap_cons, List.take_append, List.length_take, hleft]

/-- Below a prefix stand its first completions, as many as there is room
for. -/
theorem listBelow_eq_take {before : List Int} {room : Nat} (hroom : 0 < room) :
    listBelow t n before total room
      = ((completions t n total).map (before.reverse ++ ·)).take room := by
  induction n generalizing before total room with
  | zero =>
      unfold listBelow completions
      split
      case isTrue =>
        rw [List.map_singleton, List.append_nil, List.take_of_length_le]
        rw [List.length_singleton]
        exact hroom
      case isFalse => exact List.take_nil.symm
  | succ n ih =>
      have hbelow : ∀ (k : Int) (room' : Nat), 0 < room' →
          listBelow t n (k :: before) (total + k) room'
            = ((completions t n (total + k)).map ((k :: before).reverse ++ ·)).take room' :=
        fun k room' hroom' => ih hroom'
      unfold listBelow completions
      rw [gather_eq_take hbelow, List.map_flatMap]
      simp only [List.map_map, Function.comp_def, List.reverse_cons, List.append_assoc,
        List.singleton_append]

theorem combinations_eq_take :
    combinations t n = (completions t n 0).take maxCombinations := by
  unfold combinations
  rw [listBelow_eq_take (by decide)]
  simp only [List.reverse_nil, List.nil_append, List.map_id']

/-- What is listed completes the empty prefix. -/
theorem completes_of_mem_combinations {hs : List Int} (h : hs ∈ combinations t n) :
    Completes t n 0 hs := by
  rw [combinations_eq_take] at h
  exact mem_completions.mp (List.mem_of_mem_take h)

-- ================================================================ tuples

/-- The tuples of `n` heights within the bounds that add up to the
target. -/
def Task.tuples (t : Task) (n : Nat) : Set (List Int) :=
  {hs | hs.length = n ∧ (∀ h ∈ hs, t.lowest ≤ h ∧ h ≤ t.highest) ∧ hs.sum = t.target}

theorem mem_tuples_iff {hs : List Int} : hs ∈ t.tuples n ↔ Completes t n 0 hs := by
  constructor
  · rintro ⟨hlen, hin, hsum⟩
    exact ⟨hlen, hin, by rw [Int.zero_add, hsum]⟩
  · intro hc
    have hsum := hc.sum
    rw [Int.zero_add] at hsum
    exact ⟨hc.length, hc.inBounds, hsum⟩

/-- As many tuples have a property as the list of completions has with
it. -/
theorem ncard_tuples (p : List Int → Bool) :
    {hs ∈ t.tuples n | p hs = true}.ncard = (completions t n 0).countP p := by
  have hnodup : ((completions t n 0).filter p).Nodup :=
    (pairwise_completions.imp fun hlt => ne_of_lt hlt).filter p
  have hset : {hs ∈ t.tuples n | p hs = true}
      = ↑((completions t n 0).filter p).toFinset := by
    ext hs
    simp only [Set.mem_ofPred_eq, List.coe_toFinset, List.mem_filter, mem_tuples_iff,
      mem_completions]
  rw [hset, Set.ncard_coe_finset, List.toFinset_card_of_nodup hnodup, List.countP_eq_length_filter]

theorem ncard_tuples_eq_length : (t.tuples n).ncard = (completions t n 0).length := by
  have hall := ncard_tuples (t := t) (n := n) fun _ => true
  rw [List.countP_true] at hall
  simpa using hall

/-- Where there is room for all tuples, all completions are listed. -/
theorem combinations_eq_completions (hfew : (t.tuples n).ncard ≤ maxCombinations) :
    combinations t n = completions t n 0 := by
  rw [ncard_tuples_eq_length] at hfew
  rw [combinations_eq_take, List.take_of_length_le hfew]

/-- The first of an ascending list are those with few before them. -/
theorem mem_take_iff {l : List (List Int)} (hl : l.Pairwise (· < ·)) {k : Nat} {x : List Int} :
    x ∈ l.take k ↔ x ∈ l ∧ l.countP (· < x) < k := by
  induction l generalizing k with
  | nil => simp
  | cons a l ih =>
      obtain ⟨hfirst, hl⟩ := List.pairwise_cons.mp hl
      cases k with
      | zero => simp
      | succ k =>
          rw [List.take_succ_cons, List.mem_cons, List.mem_cons, ih hl, List.countP_cons]
          constructor
          · rintro (rfl | ⟨hx, hlt⟩)
            · have hnone : l.countP (· < x) = 0 := by
                rw [List.countP_eq_zero]
                intro y hy
                simpa using le_of_lt (hfirst y hy)
              simp [hnone]
            · refine ⟨.inr hx, ?_⟩
              split <;> omega
          · rintro ⟨rfl | hx, hlt⟩
            · exact .inl rfl
            · rw [if_pos (by simpa using hfirst x hx)] at hlt
              exact .inr ⟨hx, by omega⟩

-- ============================================================== listings

/-- What a listing of tuples holds: in strictly ascending order those with
fewer than `maxCombinations` tuples before them, hence as many of the first
as there is room for. -/
structure Lists (t : Task) (n : Nat) (listed : List (List Int)) : Prop where
  ascending : listed.Pairwise (· < ·)
  mem_iff : ∀ hs, hs ∈ listed
    ↔ hs ∈ t.tuples n ∧ {ks ∈ t.tuples n | ks < hs}.ncard < maxCombinations
  length_eq : listed.length = min maxCombinations (t.tuples n).ncard

theorem lists_combinations (t : Task) (n : Nat) : Lists t n (combinations t n) := by
  rw [combinations_eq_take]
  refine ⟨pairwise_completions.sublist (List.take_sublist _ _), fun hs => ?_, ?_⟩
  · have hbefore := ncard_tuples (t := t) (n := n) fun ks => decide (ks < hs)
    simp only [decide_eq_true_eq] at hbefore
    rw [mem_take_iff pairwise_completions, mem_completions, mem_tuples_iff, hbefore]
  · rw [List.length_take, ncard_tuples_eq_length]

/-- A listing with room left has had room for all tuples. -/
theorem ncard_tuples_le (h : (combinations t n).length < maxCombinations) :
    (t.tuples n).ncard ≤ maxCombinations := by
  have hlen := (lists_combinations t n).length_eq
  omega

-- ================================================================= depth

section Depth

variable {depth : Nat} {before : List Int} {room : Nat}

/-- As long as no listing fails, the depth does not show. -/
theorem gatherWithin_eq_gather {α : Type} {list : Int → Nat → Except Error (List α)}
    {list' : Int → Nat → List α} (h : ∀ k room, list k room = .ok (list' k room))
    (hs : List Int) (room : Nat) : gatherWithin list hs room = .ok (gather list' hs room) := by
  induction hs generalizing room with
  | nil => rfl
  | cons k hs ih =>
      unfold gatherWithin gather
      split
      case isTrue => rfl
      case isFalse =>
        rw [h]
        show (gatherWithin list hs (room - (list' k room).length) >>= fun rest => pure _) = _
        rw [ih]
        rfl

theorem listWithin_zero (t : Task) (depth : Nat) (before : List Int) (total : Int) (room : Nat) :
    listWithin t depth (0 : Nat) before total room = .ok (listBelow t 0 before total room) := by
  unfold listWithin listBelow
  rw [if_pos Nat.cast_zero]

/-- One more throw is looked for within one depth less. -/
theorem listWithin_succ (t : Task) (depth n : Nat) (before : List Int) (total : Int)
    (room : Nat) :
    listWithin t (depth + 1) (n + 1 : Nat) before total room
      = gatherWithin (fun h => listWithin t depth n (h :: before) (total + h))
          (t.heights total (n + 1)) room := by
  rw [listWithin, if_neg (by omega)]
  have hn : ((n + 1 : Nat) : Int) - 1 = n := by omega
  simp only [hn]
  rfl

/-- A depth for every throw is enough. -/
theorem listWithin_eq_listBelow (hdepth : n ≤ depth) :
    listWithin t depth n before total room = .ok (listBelow t n before total room) := by
  induction n generalizing depth before total room with
  | zero => exact listWithin_zero t depth before total room
  | succ n ih =>
      obtain ⟨depth, rfl⟩ : ∃ d, depth = d + 1 := ⟨depth - 1, by omega⟩
      rw [listWithin_succ, listBelow]
      exact gatherWithin_eq_gather (fun k room => ih (by omega)) _ room

/-- With fewer, a listing that has something to list goes down to where the
depth ends: each of the heights that it tries leads on to a tuple. -/
theorem listWithin_eq_error (hdepth : depth < n) (hroom : 0 < room)
    (hsome : ∃ hs, Completes t n total hs) :
    listWithin t depth n before total room = .error .tooDeep := by
  obtain ⟨n, rfl⟩ : ∃ m, n = m + 1 := ⟨n - 1, by omega⟩
  induction depth generalizing n before total with
  | zero =>
      rw [listWithin, if_neg (by omega)]
  | succ depth ih =>
      obtain ⟨hs, hc⟩ := hsome
      obtain ⟨h, hs, rfl⟩ := List.exists_cons_of_length_pos (by rw [hc.length]; omega)
      obtain ⟨first, others, hheights⟩ :=
        List.exists_cons_of_ne_nil (List.ne_nil_of_mem (completes_cons.mp hc).1)
      have hfirst : first ∈ t.heights total (n + 1) := by
        rw [hheights]
        exact List.mem_cons_self
      obtain ⟨m, rfl⟩ : ∃ m, n = m + 1 := ⟨n - 1, by omega⟩
      rw [listWithin_succ, hheights, gatherWithin, if_neg (by omega),
        ih m (by omega) (mem_heights_iff_completes.mp hfirst).2]
      rfl

/-- Where there is nothing to list, no height is tried. -/
theorem listWithin_eq_nil (hdepth : 0 < depth) (hnone : ¬ ∃ hs, Completes t n total hs) :
    listWithin t depth n before total room = .ok [] := by
  cases n with
  | zero =>
      rw [listWithin_zero, listBelow, if_neg]
      exact fun htotal => hnone ⟨[], completes_zero.mpr ⟨rfl, htotal⟩⟩
  | succ n =>
      obtain ⟨depth, rfl⟩ : ∃ d, depth = d + 1 := ⟨depth - 1, by omega⟩
      have hheights : t.heights total (n + 1) = [] := by
        rw [List.eq_nil_iff_forall_not_mem]
        intro h hh
        obtain ⟨-, rest, hc⟩ := mem_heights_iff_completes.mp hh
        exact hnone ⟨h :: rest, completes_cons.mpr ⟨hh, hc⟩⟩
      rw [listWithin_succ, hheights]
      rfl

theorem tuples_nonempty_iff : (t.tuples n).Nonempty ↔ ∃ hs, Completes t n 0 hs :=
  exists_congr fun _ => mem_tuples_iff

theorem candidates_eq_error (hdepth : depth < n) (hsome : (t.tuples n).Nonempty) :
    candidates t depth n = .error .tooDeep :=
  listWithin_eq_error hdepth (by decide) (tuples_nonempty_iff.mp hsome)

end Depth

/-- For all heights, targets and lengths a listing holds the first tuples in
lexicographic order, each once, none left out before the room is full.
Within a depth this is what is listed if no more throws are asked for. If
more are, there is no listing where there is any tuple, and an empty one
where there is none. -/
theorem candidates_listed (t : Task) (n : Nat) :
    Lists t n (combinations t n)
      ∧ ∀ depth : Nat,
        (n ≤ depth → candidates t depth n = .ok (combinations t n))
        ∧ (depth < n → (t.tuples n).Nonempty → candidates t depth n = .error .tooDeep)
        ∧ (0 < depth → t.tuples n = ∅ → candidates t depth n = .ok []) := by
  refine ⟨lists_combinations t n, fun depth => ⟨?_, candidates_eq_error, ?_⟩⟩
  · intro hdepth
    exact listWithin_eq_listBelow hdepth
  · intro hdepth hnone
    refine listWithin_eq_nil hdepth ?_
    rw [← tuples_nonempty_iff, hnone]
    exact Set.not_nonempty_empty

/-- One object in `n` beats, without gaps. -/
def ones (n : Nat) : Task := ⟨n, 1, 6⟩

theorem replicate_mem_ones (n : Nat) : List.replicate n 1 ∈ (ones n).tuples n := by
  refine ⟨List.length_replicate, ?_, ?_⟩
  · intro h hh
    rw [List.eq_of_mem_replicate hh]
    exact ⟨Int.le_refl 1, show (1 : Int) ≤ 6 by decide⟩
  · rw [List.sum_replicate_int, Int.mul_one]
    rfl

/-- Three throws that add up to nine: twenty-five tuples from 1, 2, 6 on,
within a depth of three and not within two. Twelve hundred throws are too
many to add up to one less, which shows at once. -/
theorem threeOfNine_listed :
    (Lists ⟨9, 1, 6⟩ 3 (combinations ⟨9, 1, 6⟩ 3)
      ∧ (combinations ⟨9, 1, 6⟩ 3).length = 25
      ∧ (combinations ⟨9, 1, 6⟩ 3).head? = some [1, 2, 6])
    ∧ candidates ⟨9, 1, 6⟩ 3 (3 : Nat) = .ok (combinations ⟨9, 1, 6⟩ 3)
    ∧ ((Task.tuples ⟨9, 1, 6⟩ 3).Nonempty ∧ candidates ⟨9, 1, 6⟩ 2 (3 : Nat) = .error .tooDeep)
    ∧ (Task.tuples ⟨1199, 1, 6⟩ 1200 = ∅ ∧ candidates ⟨1199, 1, 6⟩ 1 (1200 : Nat) = .ok []) := by
  obtain ⟨hlists, hwithin⟩ := candidates_listed ⟨9, 1, 6⟩ 3
  have hsome : (Task.tuples ⟨9, 1, 6⟩ 3).Nonempty := ⟨[3, 3, 3], rfl, by decide, rfl⟩
  have hnone : Task.tuples ⟨1199, 1, 6⟩ 1200 = ∅ := by
    rw [← Set.not_nonempty_iff_eq_empty, tuples_nonempty_iff, exists_completes_iff]
    decide
  exact ⟨⟨hlists, by decide +kernel, by decide +kernel⟩, (hwithin 3).1 (by decide),
    ⟨hsome, (hwithin 2).2.1 (by decide) hsome⟩,
    ⟨hnone, ((candidates_listed ⟨1199, 1, 6⟩ 1200).2 1).2.2 (by decide) hnone⟩⟩

/-- No depth is enough for all lengths: there is a tuple of twelve hundred
ones, and a depth of one less does not list it. -/
theorem onesOnly_not_listed :
    (List.replicate 1200 1 ∈ (ones 1200).tuples 1200
      ∧ candidates (ones 1200) 1199 (1200 : Nat) = .error .tooDeep)
    ∧ ¬ ∃ depth : Nat, ∀ (t : Task) (n : Nat),
        ∃ listed, candidates t depth n = .ok listed ∧ Lists t n listed := by
  have hfails : ∀ depth, candidates (ones (depth + 1)) depth (depth + 1 : Nat)
      = .error .tooDeep :=
    fun depth => candidates_eq_error (Nat.lt_succ_self depth) ⟨_, replicate_mem_ones _⟩
  refine ⟨⟨replicate_mem_ones 1200, hfails 1199⟩, ?_⟩
  rintro ⟨depth, h⟩
  obtain ⟨listed, hlisted, -⟩ := h (ones (depth + 1)) (depth + 1)
  rw [hfails depth] at hlisted
  cases hlisted

end Siteswap.Search
