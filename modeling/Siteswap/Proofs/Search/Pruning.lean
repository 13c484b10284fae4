/-
Bounds leave no dead end.

A height lies within the bounds of the next throw iff it is allowed and the
missing throws behind it can bring the sum to its target (`mem_bounds_iff`).
So whatever bounds let through begins some tuple (`Place.Tracked.next`). From
this one step it follows of all places that a run comes to.

# Two runs

- An attempt looks at the top of a stack, again and again
  (`workOff_eq_look`). A look ends the attempt, or takes the top place away
  and pushes the places behind it. So all places of every stack that comes
  about are tracked, whether they are looked at in the end or not
  (`Reached.tracked`).
- A listing goes below one place after another, as long as there is room. It
  lists the tuples at the places it comes to (`tuplesAt_visitBelow`), and these
  are tracked (`tracked_of_mem_visitBelow`).

The empty prefix alone is not let through by bounds. It need not begin a
tuple, and where no throw is asked for it need not come to the target.
-/
import Siteswap.Proofs.Search.Candidates
import Siteswap.Proofs.Search.Stack

namespace Siteswap.Search

variable {t : Task} {length n : Nat} {total h : Int} {p q : Place}

-- =============================================================== the rule

/-- Within the bounds of the next of `remaining` throws are the heights that
are allowed and leave a sum that the others can have. -/
theorem mem_bounds_iff (target total h : Int) {remaining lowest highest : Int}
    (hr : 1 ≤ remaining) :
    ((heightBounds target total remaining lowest highest).1 ≤ h
        ∧ h ≤ (heightBounds target total remaining lowest highest).2)
      ↔ (lowest ≤ h ∧ h ≤ highest)
        ∧ ∃ rest : List Int, rest.length = remaining - 1
          ∧ (∀ k ∈ rest, lowest ≤ k ∧ k ≤ highest) ∧ rest.sum = target - total - h := by
  obtain ⟨n, rfl⟩ : ∃ n : Nat, remaining = (n + 1 : Nat) := ⟨(remaining - 1).toNat, by omega⟩
  have hspan : ((heightBounds target total (n + 1 : Nat) lowest highest).1 ≤ h
        ∧ h ≤ (heightBounds target total (n + 1 : Nat) lowest highest).2)
      ↔ h ∈ Task.heights ⟨target, lowest, highest⟩ total (n + 1) := mem_span.symm
  rw [hspan, mem_heights_iff_completes]
  refine and_congr_right fun _ => exists_congr fun rest => ?_
  constructor
  · intro hc
    have hlen := hc.length
    have hsum : total + h + rest.sum = target := hc.sum
    exact ⟨by omega, hc.inBounds, by omega⟩
  · rintro ⟨hlen, hin, hsum⟩
    refine ⟨by omega, hin, ?_⟩
    show total + h + rest.sum = target
    omega

-- ================================================================= places

namespace Place

/-- Its throws are the first of some tuple. -/
def Begins (t : Task) (length : Nat) (p : Place) : Prop :=
  ∃ hs ∈ t.tuples length, p.before.reverse <+: hs

/-- A place whose total is right, and whose throws begin a tuple unless there
are none. -/
structure Tracked (t : Task) (length : Nat) (p : Place) : Prop where
  sum : p.before.sum = p.total
  begins : p ≠ root → p.Begins t length

theorem tracked_root : Tracked t length root where
  sum := rfl
  begins := fun hne => absurd rfl hne

theorem Begins.length_le (hp : p.Begins t length) : p.before.length ≤ length := by
  obtain ⟨hs, ⟨hlen, -, -⟩, hbegin⟩ := hp
  have hle := hbegin.length_le
  rw [List.length_reverse, hlen] at hle
  exact hle

theorem Begins.inBounds (hp : p.Begins t length) :
    ∀ k ∈ p.before, t.lowest ≤ k ∧ k ≤ t.highest := by
  obtain ⟨hs, ⟨-, hin, -⟩, hbegin⟩ := hp
  intro k hk
  exact hin k (hbegin.subset (List.mem_reverse.mpr hk))

theorem Tracked.length_le (hp : p.Tracked t length) : p.before.length ≤ length := by
  by_cases hroot : p = root
  · rw [hroot]
    exact Nat.zero_le _
  · exact (hp.begins hroot).length_le

theorem Tracked.inBounds (hp : p.Tracked t length) :
    ∀ k ∈ p.before, t.lowest ≤ k ∧ k ≤ t.highest := by
  by_cases hroot : p = root
  · rw [hroot]
    exact fun k hk => absurd hk List.not_mem_nil
  · exact (hp.begins hroot).inBounds

/-- Behind a tracked place that lacks throws, the place of each height that is
tried is tracked. -/
theorem Tracked.next (hp : p.Tracked t length) (hmissing : p.before.length ≠ length)
    (hh : h ∈ t.heights p.total (length - p.before.length)) : (p.next h).Tracked t length := by
  have hle := hp.length_le
  obtain ⟨n, hn⟩ : ∃ n, length - p.before.length = n + 1 :=
    ⟨length - p.before.length - 1, by omega⟩
  rw [hn, mem_heights_iff_completes] at hh
  obtain ⟨hin, rest, hc⟩ := hh
  refine ⟨?_, fun _ => ⟨(h :: p.before).reverse ++ rest, ⟨?_, ?_, ?_⟩, List.prefix_append _ _⟩⟩
  · show (h :: p.before).sum = p.total + h
    rw [List.sum_cons, hp.sum, Int.add_comm]
  · rw [List.length_append, List.length_reverse, List.length_cons, hc.length]
    omega
  · intro k hk
    rcases List.mem_append.mp hk with hk | hk
    · rcases List.mem_cons.mp (List.mem_reverse.mp hk) with rfl | hk
      · exact hin
      · exact hp.inBounds k hk
    · exact hc.inBounds k hk
  · rw [List.sum_append, List.sum_reverse, List.sum_cons, hp.sum, Int.add_comm h]
    exact hc.sum

/-- A place that is no dead end: its throws begin a tuple unless there are
none; while throws are missing, they do so with each height that is tried
next; and when all are there, they come to the target. -/
structure LeadsOn (t : Task) (length : Nat) (p : Place) : Prop where
  begins : p ≠ root → p.Begins t length
  children : p.before.length ≠ length →
    ∀ h ∈ t.heights p.total (length - p.before.length), (p.next h).Begins t length
  leaf : length ≠ 0 → p.before.length = length → p.total = t.target

theorem Tracked.leadsOn (hp : p.Tracked t length) : p.LeadsOn t length := by
  refine ⟨hp.begins, fun hmissing h hh => (hp.next hmissing hh).begins nofun, ?_⟩
  intro hlength hall
  have hne : p ≠ root := by
    rintro rfl
    exact hlength hall.symm
  obtain ⟨hs, ⟨hlen, -, hsum⟩, hbegin⟩ := hp.begins hne
  have hsame : p.before.reverse = hs := by
    refine hbegin.eq_of_length ?_
    rw [List.length_reverse, hall, hlen]
  rw [← hp.sum, ← hsum, ← hsame, List.sum_reverse]

end Place

-- =============================================================== on a stack

section Stack

variable {σ : Type} {sh : Shuffler σ} {maxSteps : Nat} {source : σ} {stack : List Place}
  {r : Reserve σ}

/-- What a look at the top of a stack comes to. -/
inductive Look (σ : Type) where
  /-- the attempt ends -/
  | ends (o : Outcome) (r : Reserve σ)
  /-- it goes on with another stack -/
  | goesOn (stack : List Place) (r : Reserve σ)

/-- How the attempt ends after a look, if it goes on by `next`. -/
def Look.finish (next : List Place → Reserve σ → Outcome × Reserve σ) :
    Look σ → Outcome × Reserve σ
  | ends o r => (o, r)
  | goesOn stack r => next stack r

/-- One look at the top of a stack. -/
def look (sh : Shuffler σ) (t : Task) (length : Nat) : List Place → Reserve σ → Look σ
  | [], r => .ends .exhausted r
  | p :: stack, r =>
    if p.before.length = length then
      match if p.total = t.target then accepted? p.before.reverse else none with
      | some s => .ends (.found s) r
      | none => .goesOn stack r
    else if r.steps = 0 then .ends .cut r
    else
      let (order, source) := sh.shuffle r.source (t.heights p.total (length - p.before.length))
      .goesOn (p.pushAll order stack) { steps := r.steps - 1, source := source }

/-- Working off a stack is looking at its top, again and again. -/
theorem workOff_eq_look :
    workOff sh t length stack r = (look sh t length stack r).finish (workOff sh t length) := by
  cases stack with
  | nil =>
      rw [workOff]
      rfl
  | cons p stack =>
      rw [workOff, look]
      by_cases hleaf : p.before.length = length
      · rw [if_pos hleaf, if_pos hleaf]
        cases (if p.total = t.target then accepted? p.before.reverse else none) with
        | none => rfl
        | some s => rfl
      · rw [if_neg hleaf, if_neg hleaf]
        by_cases hnone : r.steps = 0
        · rw [dif_pos hnone, if_pos hnone]
          rfl
        · rw [dif_neg hnone, if_neg hnone]
          rfl

/-- The stacks that an attempt comes to, and what is left to go on with. -/
inductive Reached (sh : Shuffler σ) (t : Task) (length maxSteps : Nat) (source : σ) :
    List Place → Reserve σ → Prop
  | start : Reached sh t length maxSteps source [.root] { steps := maxSteps, source := source }
  | next {stack stack' : List Place} {r r' : Reserve σ} :
      Reached sh t length maxSteps source stack r →
      look sh t length stack r = .goesOn stack' r' →
      Reached sh t length maxSteps source stack' r'

/-- Working off any of them ends the attempt as it would have ended. -/
theorem Reached.attemptOnStack_eq (h : Reached sh t length maxSteps source stack r) :
    attemptOnStack sh t length maxSteps source
      = ((workOff sh t length stack r).1, (workOff sh t length stack r).2.source) := by
  induction h with
  | start => rfl
  | next _ hlook ih => rw [ih, workOff_eq_look, hlook, Look.finish]

/-- A look at tracked places leads to tracked places. -/
theorem tracked_of_look {stack' : List Place} {r' : Reserve σ}
    (hlook : look sh t length stack r = .goesOn stack' r')
    (hstack : ∀ p ∈ stack, p.Tracked t length) : ∀ p ∈ stack', p.Tracked t length := by
  cases stack with
  | nil => cases hlook
  | cons p stack =>
      obtain ⟨hp, hbelow⟩ := List.forall_mem_cons.mp hstack
      rw [look] at hlook
      split at hlook
      case isTrue =>
        split at hlook
        case h_1 => cases hlook
        case h_2 =>
          cases hlook
          exact hbelow
      case isFalse hmissing =>
        split at hlook
        case isTrue => cases hlook
        case isFalse =>
          cases hlook
          rw [pushAll_eq]
          intro q hq
          rcases List.mem_append.mp hq with hq | hq
          · obtain ⟨h, hh, rfl⟩ := List.mem_map.mp hq
            rw [(sh.perm _ _).mem_iff] at hh
            exact hp.next hmissing hh
          · exact hbelow q hq

theorem Reached.tracked (h : Reached sh t length maxSteps source stack r) :
    ∀ p ∈ stack, p.Tracked t length := by
  induction h with
  | start =>
      intro p hp
      rw [List.mem_singleton.mp hp]
      exact Place.tracked_root
  | next _ hlook ih => exact tracked_of_look hlook ih

end Stack

-- ============================================================== in a listing

/-- The tuples among the throws of some places. -/
def tuplesAt (t : Task) (length : Nat) (places : List Place) : List (List Int) :=
  (places.filter fun p => p.before.length = length ∧ p.total = t.target).map
    fun p => p.before.reverse

/-- The places below each height in turn, as long as there is room for
tuples. -/
def visitEach (t : Task) (length : Nat) (below : Int → Nat → List Place) :
    List Int → Nat → List Place
  | [], _ => []
  | h :: hs, room =>
    if room = 0 then []
    else
      let first := below h room
      first ++ visitEach t length below hs (room - (tuplesAt t length first).length)

/-- The places that a listing comes to below a place that lacks `remaining`
throws, itself the first of them. -/
def visitBelow (t : Task) (length : Nat) : (remaining : Nat) → Place → (room : Nat) → List Place
  | 0, p, _ => [p]
  | remaining + 1, p, room =>
    p :: visitEach t length (fun h => visitBelow t length remaining (p.next h))
      (t.heights p.total (remaining + 1)) room

theorem tuplesAt_append (ps qs : List Place) :
    tuplesAt t length (ps ++ qs) = tuplesAt t length ps ++ tuplesAt t length qs := by
  unfold tuplesAt
  rw [List.filter_append, List.map_append]

theorem tuplesAt_visitEach {below : Int → Nat → List Place}
    {list : Int → Nat → List (List Int)}
    (h : ∀ k room, tuplesAt t length (below k room) = list k room) (hs : List Int) (room : Nat) :
    tuplesAt t length (visitEach t length below hs room) = gather list hs room := by
  induction hs generalizing room with
  | nil => rfl
  | cons k hs ih =>
      unfold visitEach gather
      split
      case isTrue => rfl
      case isFalse =>
        dsimp only
        rw [tuplesAt_append, ih, h]

/-- What is listed are the tuples at the places that the listing comes to. -/
theorem tuplesAt_visitBelow {room : Nat} (hlen : p.before.length + n = length) :
    tuplesAt t length (visitBelow t length n p room) = listBelow t n p.before p.total room := by
  induction n generalizing p room with
  | zero =>
      unfold visitBelow tuplesAt listBelow
      by_cases htotal : p.total = t.target
      · rw [List.filter_cons_of_pos (by simpa using ⟨hlen, htotal⟩), if_pos htotal]
        rfl
      · rw [List.filter_cons_of_neg (by simp [htotal]), if_neg htotal]
        rfl
  | succ n ih =>
      have hmissing : p.before.length ≠ length := by omega
      have hbelow : ∀ k room, tuplesAt t length (visitBelow t length n (p.next k) room)
          = listBelow t n (k :: p.before) (p.total + k) room := by
        intro k room
        refine ih ?_
        show (k :: p.before).length + n = length
        rw [List.length_cons]
        omega
      unfold visitBelow listBelow
      rw [← tuplesAt_visitEach hbelow]
      unfold tuplesAt
      rw [List.filter_cons_of_neg (by simp [hmissing])]

theorem mem_visitEach {below : Int → Nat → List Place} {hs : List Int} {room : Nat}
    (hq : q ∈ visitEach t length below hs room) : ∃ h ∈ hs, ∃ room', q ∈ below h room' := by
  induction hs generalizing room with
  | nil => cases hq
  | cons h hs ih =>
      unfold visitEach at hq
      split at hq
      case isTrue => cases hq
      case isFalse =>
        rcases List.mem_append.mp hq with hq | hq
        · exact ⟨h, List.mem_cons_self, room, hq⟩
        · obtain ⟨k, hk, room', hq⟩ := ih hq
          exact ⟨k, List.mem_cons_of_mem h hk, room', hq⟩

/-- Below a tracked place a listing comes to tracked places. -/
theorem tracked_of_mem_visitBelow {room : Nat} (hp : p.Tracked t length)
    (hlen : p.before.length + n = length) (hq : q ∈ visitBelow t length n p room) :
    q.Tracked t length := by
  induction n generalizing p room with
  | zero =>
      rw [List.mem_singleton.mp hq]
      exact hp
  | succ n ih =>
      rcases List.mem_cons.mp hq with rfl | hq
      · exact hp
      · obtain ⟨h, hh, room', hq⟩ := mem_visitEach hq
        have hremaining : n + 1 = length - p.before.length := by omega
        rw [hremaining] at hh
        have hlen' : (p.next h).before.length + n = length := by
          show (h :: p.before).length + n = length
          rw [List.length_cons]
          omega
        exact ih (hp.next (by omega) hh) hlen' hq

-- ================================================================ both runs

/-- Bounds are exact: within them are the heights that are allowed and behind
which the others can have the sum that lacks. Hence there is no dead end among
the places of any stack that an attempt comes to, for any order of trying and
any number of steps, nor among those that a listing comes to. -/
theorem bounds_exact :
    (∀ target total h remaining lowest highest : Int, 1 ≤ remaining →
      (((heightBounds target total remaining lowest highest).1 ≤ h
          ∧ h ≤ (heightBounds target total remaining lowest highest).2)
        ↔ (lowest ≤ h ∧ h ≤ highest)
          ∧ ∃ rest : List Int, rest.length = remaining - 1
            ∧ (∀ k ∈ rest, lowest ≤ k ∧ k ≤ highest) ∧ rest.sum = target - total - h))
    ∧ (∀ (σ : Type) (sh : Shuffler σ) (t : Task) (length maxSteps : Nat) (source : σ)
        (stack : List Place) (r : Reserve σ), Reached sh t length maxSteps source stack r →
        attemptOnStack sh t length maxSteps source
            = ((workOff sh t length stack r).1, (workOff sh t length stack r).2.source)
          ∧ workOff sh t length stack r
              = (look sh t length stack r).finish (workOff sh t length)
          ∧ ∀ p ∈ stack, p.LeadsOn t length)
    ∧ ∀ (t : Task) (length : Nat),
        combinations t length
            = tuplesAt t length (visitBelow t length length .root maxCombinations)
          ∧ ∀ p ∈ visitBelow t length length .root maxCombinations, p.LeadsOn t length := by
  refine ⟨?_, ?_, ?_⟩
  · intro target total h remaining lowest highest hr
    exact mem_bounds_iff target total h hr
  · intro σ sh t length maxSteps source stack r hreached
    exact ⟨hreached.attemptOnStack_eq, workOff_eq_look,
      fun p hp => (hreached.tracked p hp).leadsOn⟩
  · intro t length
    have hlen : Place.root.before.length + length = length := Nat.zero_add length
    refine ⟨(tuplesAt_visitBelow hlen).symm, fun p hp => ?_⟩
    exact (tracked_of_mem_visitBelow Place.tracked_root hlen hp).leadsOn

/-- Two objects in two beats without gaps: the first throw is three at most,
for a four would leave nothing for the other. After two looks the leaf `13`
is on top of the stack, and a listing comes to it as well. -/
theorem oneThree_leadsOn :
    let t := Task.ofConstraints 2 2 (.usual 2)
    let p : Place := ⟨[3, 1], 4⟩
    ((1 : Int) ≤ 2 ∧ heightBounds 4 0 2 1 4 = (1, 3)
      ∧ (∃ rest : List Int, rest.length = (2 : Int) - 1 ∧ (∀ k ∈ rest, 1 ≤ k ∧ k ≤ 4)
          ∧ rest.sum = 4 - 0 - 3)
      ∧ ¬ ∃ rest : List Int, rest.length = (2 : Int) - 1 ∧ (∀ k ∈ rest, 1 ≤ k ∧ k ≤ 4)
          ∧ rest.sum = 4 - 0 - 4)
    ∧ (∃ stack r, Reached .inOrder t 2 20 () (p :: stack) r ∧ stack.length = 2 ∧ r.steps = 18
        ∧ (attemptOnStack .inOrder t 2 20 ()).1 = (workOff .inOrder t 2 (p :: stack) r).1
        ∧ p.LeadsOn t 2)
    ∧ p ∈ visitBelow t 2 2 .root maxCombinations ∧ p.LeadsOn t 2 := by
  intro t p
  obtain ⟨hbounds, hstacks, hlistings⟩ := bounds_exact
  have hgreatest := hbounds 4 0 3 2 1 4 (by decide)
  have hmore := hbounds 4 0 4 2 1 4 (by decide)
  refine ⟨⟨by decide, by decide, (hgreatest.mp (by decide)).2, fun hrest => ?_⟩, ?_, ?_⟩
  · have hin := hmore.mpr ⟨by decide, hrest⟩
    revert hin
    decide
  · have hreached : Reached .inOrder t 2 20 () [p, ⟨[2], 2⟩, ⟨[3], 3⟩] ⟨18, ()⟩ := by
      have hfirst : look .inOrder t 2 [.root] ⟨20, ()⟩
          = .goesOn [⟨[1], 1⟩, ⟨[2], 2⟩, ⟨[3], 3⟩] ⟨19, ()⟩ := by rfl
      have hsecond : look .inOrder t 2 [⟨[1], 1⟩, ⟨[2], 2⟩, ⟨[3], 3⟩] ⟨19, ()⟩
          = .goesOn [p, ⟨[2], 2⟩, ⟨[3], 3⟩] ⟨18, ()⟩ := by rfl
      exact .next (.next .start hfirst) hsecond
    obtain ⟨hends, -, hplaces⟩ := hstacks _ _ _ _ _ _ _ _ hreached
    exact ⟨_, _, hreached, rfl, rfl, congrArg Prod.fst hends, hplaces p List.mem_cons_self⟩
  · have hmem : p ∈ visitBelow t 2 2 .root maxCombinations := List.mem_of_getElem? (i := 2) rfl
    exact ⟨hmem, (hlistings t 2).2 p hmem⟩

end Siteswap.Search
