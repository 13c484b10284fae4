/-
What is kept is what would be made anew.

A catalog that keeps its lists answers like one that does not: whatever it
is asked, in whatever order, however little it can keep and for however
short a time, and whatever its clock shows (`answers_eq_plain`). Failures
are the same too, for they are not kept.

# The invariant

A shelf is `Sound` when every list on it is the one that its key asks for,
and every date on it goes with what the clock will show. Only a list that
was just made is put on the shelf, under the request it was made for and
dated by the clock itself (`Sound.keep`); all else that happens to a shelf
takes entries away or turns the clock on (`Sound.mono`).
-/
import Siteswap.Catalog.Browse
import Siteswap.Proofs.Memo.Answers

namespace Siteswap.Catalog

variable {maxSteps : Int} {r : Request} {s : Shelf} {l : List Listing}

-- ================================================================= shelves

namespace Shelf

/-- Every kept list is the one that its key asks for, and no reading to
come is at odds with its date. -/
structure Sound (maxSteps : Int) (s : Shelf) : Prop where
  made : ∀ e ∈ s.memo.entries, ∃ l, e.value = some l ∧ compute maxSteps e.key = .ok l
  dated : ∀ e ∈ s.memo.entries, ∀ i, ∃ age, (s.clock.readings i).minus e.since = .ok age

namespace Sound

theorem of_empty (h : s.memo.entries = []) : Sound maxSteps s := by
  constructor
  · intro e he
    rw [h] at he
    cases he
  · intro e he
    rw [h] at he
    cases he

/-- A shelf stays sound as entries go and the clock goes on. -/
theorem mono (hs : Sound maxSteps s) {memo : Memo Request (List Listing)} {clock : Clock}
    (hmemo : memo.entries.Sublist s.memo.entries)
    (hclock : clock = s.clock ∨ clock = s.clock.next) : Sound maxSteps ⟨memo, clock⟩ := by
  refine ⟨fun e he => hs.made e (hmemo.subset he), fun e he i => ?_⟩
  rcases hclock with rfl | rfl
  · exact hs.dated e (hmemo.subset he) i
  · exact hs.dated e (hmemo.subset he) (i + 1)

theorem take (hs : Sound maxSteps s) (r : Request) :
    ∃ kept s', s.take r = (.ok kept, s') ∧ Sound maxSteps s'
      ∧ ∀ l, kept = some l → compute maxSteps r = .ok l := by
  obtain ⟨kept, memo, hget, hsub⟩ :=
    Memo.exists_get_eq_ok r fun e he => hs.dated e he 0
  have hclock : (if s.memo.isTimed r then s.clock.next else s.clock) = s.clock
      ∨ (if s.memo.isTimed r then s.clock.next else s.clock) = s.clock.next := by
    split
    · exact .inr rfl
    · exact .inl rfl
  refine ⟨kept, _, ?_, hs.mono hsub hclock, ?_⟩
  · simp only [Shelf.take, Clock.read, hget]
  · rintro l rfl
    obtain ⟨e, hfind, hvalue, -⟩ := Memo.get_eq_some_iff.mp hget
    have hkey : e.key = r := by simpa using List.find?_some hfind
    obtain ⟨l', hl', hcompute⟩ := hs.made e (List.mem_of_find?_eq_some hfind)
    rw [hvalue, Option.some_inj] at hl'
    rw [hl', ← hkey, hcompute]

theorem keep (hs : Sound maxSteps s) (h : compute maxSteps r = .ok l) :
    Sound maxSteps (s.keep r l) := by
  have hmem : ∀ e ∈ (s.keep r l).memo.entries,
      e ∈ s.memo.entries ∨ e = ⟨r, s.clock.readings 0, some l⟩ := by
    intro e he
    rcases List.mem_append.mp (List.mem_of_mem_drop he) with he | he
    · exact .inl (List.mem_filter.mp he).1
    · exact .inr (List.mem_singleton.mp he)
  constructor
  · intro e he
    rcases hmem e he with he | rfl
    · exact hs.made e he
    · exact ⟨l, rfl, h⟩
  · intro e he i
    rcases hmem e he with he | rfl
    · exact hs.dated e he (i + 1)
    · exact s.clock.differ (i + 1) 0

end Sound

end Shelf

-- ================================================================= answers

/-- Without a check there is no list. -/
theorem list_eq (maxSteps : Int) (r : Request) :
    list maxSteps r
      = match r.check with
        | .error e => .error e
        | .ok () => compute maxSteps r.resolved := by
  unfold list
  cases r.check <;> rfl

/-- A shelf gives the list that would be made without it. -/
theorem Shelf.Sound.list (hs : s.Sound maxSteps) (r : Request) :
    (s.list maxSteps r).1 = Catalog.list maxSteps r ∧ (s.list maxSteps r).2.Sound maxSteps := by
  obtain ⟨kept, s', htake, hs', hkept⟩ := hs.take r.resolved
  unfold Shelf.list
  rw [list_eq]
  cases hcheck : r.check with
  | error e => exact ⟨rfl, hs⟩
  | ok _ =>
      simp only [htake]
      cases kept with
      | some l => exact ⟨(hkept l rfl).symm, hs'⟩
      | none =>
          cases hcompute : compute maxSteps r.resolved with
          | ok l => exact ⟨rfl, hs'.keep hcompute⟩
          | error e => exact ⟨rfl, hs'⟩

/-- Who looks lists up one after the other finds what would be made, if
every lookup does and leaves the others able to. -/
theorem gradedCategories_eq {σ : Type} {lookUp : Request → σ → Except Error (List Listing) × σ}
    {plain : Request → Except Error (List Listing)} {Inv : σ → Prop}
    (h : ∀ r s, Inv s → (lookUp r s).1 = plain r ∧ Inv (lookUp r s).2)
    (named : List (String × String × Request)) {s : σ} (hs : Inv s) :
    (gradedCategories lookUp named s).1
        = (gradedCategories (fun r () => (plain r, ())) named ()).1
      ∧ Inv (gradedCategories lookUp named s).2 := by
  induction named generalizing s with
  | nil => exact ⟨rfl, hs⟩
  | cons c named ih =>
      obtain ⟨name, description, r⟩ := c
      obtain ⟨hr, hs'⟩ := h r s hs
      unfold gradedCategories
      rw [← hr]
      rcases hlookUp : lookUp r s with ⟨_ | l, s'⟩
      · rw [hlookUp] at hs'
        exact ⟨rfl, hs'⟩
      · rw [hlookUp] at hs'
        obtain ⟨hrest, hinv⟩ := ih hs'
        exact ⟨by simp only [hrest], hinv⟩

theorem Shelf.Sound.categories (hs : s.Sound maxSteps) :
    (s.categories maxSteps).1 = Catalog.categories maxSteps
      ∧ (s.categories maxSteps).2.Sound maxSteps := by
  have hlist : ∀ r (s : Shelf), s.Sound maxSteps →
      (s.list maxSteps r).1 = Catalog.list maxSteps r ∧ (s.list maxSteps r).2.Sound maxSteps :=
    fun r _ hs => hs.list r
  obtain ⟨heq, hs'⟩ := gradedCategories_eq hlist graded hs
  exact ⟨congrArg (Except.map (· ++ families)) heq, hs'⟩

-- ================================================================= any run

/-- What may be asked of a catalog that keeps lists. -/
inductive Call where
  | list (r : Request)
  | categories

/-- What a call gives. -/
inductive Answer where
  | list (result : Except Error (List Listing))
  | categories (result : Except Error (List Category))

/-- The answer where nothing is kept. -/
def Call.plain (maxSteps : Int) : Call → Answer
  | .list r => .list (Catalog.list maxSteps r)
  | .categories => .categories (Catalog.categories maxSteps)

namespace Shelf

/-- The answer where lists are kept, and the shelf after it. -/
def answer (maxSteps : Int) (s : Shelf) : Call → Answer × Shelf
  | .list r =>
    let (result, s) := s.list maxSteps r
    (.list result, s)
  | .categories =>
    let (result, s) := s.categories maxSteps
    (.categories result, s)

/-- The answers to some calls in turn. -/
def answers (maxSteps : Int) : Shelf → List Call → List Answer
  | _, [] => []
  | s, c :: calls =>
    let (a, s) := s.answer maxSteps c
    a :: answers maxSteps s calls

theorem Sound.answer (hs : s.Sound maxSteps) (c : Call) :
    (s.answer maxSteps c).1 = c.plain maxSteps ∧ (s.answer maxSteps c).2.Sound maxSteps := by
  cases c with
  | list r =>
      obtain ⟨heq, hs'⟩ := hs.list r
      exact ⟨congrArg Answer.list heq, hs'⟩
  | categories =>
      obtain ⟨heq, hs'⟩ := hs.categories
      exact ⟨congrArg Answer.categories heq, hs'⟩

theorem Sound.answers (hs : s.Sound maxSteps) (calls : List Call) :
    s.answers maxSteps calls = calls.map (·.plain maxSteps) := by
  induction calls generalizing s with
  | nil => rfl
  | cons c calls ih =>
      obtain ⟨heq, hs'⟩ := hs.answer c
      unfold Shelf.answers
      rw [List.map_cons, ← heq, ← ih hs']

end Shelf

end Siteswap.Catalog
