/-
What a list is.

A request names a number of objects, lengths, limits and options. Its list
is settled by these and its candidates, which are the classics and what is
found for each length (`Drawn`): of the candidates that are valid, those
that meet the options (`Meets`), each once, the easier first, of equally
easy ones the shorter, and of equally short ones the earlier candidate
(`Listing.Before`). So it is with every list that is given
(`listed_of_answer`), and no other list is so, for `Before` is a strict order
(`Listed.unique`).

# The order

Repetitions are dropped before anything else is done, so the listings that
are sorted stand in the order of the first places of their texts
(`pairwise_listings`). Sorting is stable: among listings of one rank it
leaves this order as it is (`filter_mergeSort`, `pairwise_mergeSort`).

# What is no classic

Whatever was found for a length is sound for that length and the limits.
So each listing that is not of a classic has a canonical text, the objects
asked for, a period within the lengths, and heights within the limits
(`Found`).
-/
import Mathlib.Algebra.Order.Ring.Rat
import Mathlib.Data.Prod.Lex
import Siteswap.Proofs.Catalog.Objects
import Siteswap.Proofs.Distinct

namespace Siteswap

-- ========================================================= stable sorting

section Sorting

variable {α : Type} {le : α → α → Bool} {l : List α}
  (htrans : ∀ a b c, le a b = true → le b c = true → le a c = true)
  (htotal : ∀ a b, (le a b || le b a) = true)
include htrans htotal

/-- Sorting leaves elements that are in order already as they stand. -/
theorem filter_mergeSort {p : α → Bool} (hp : (l.filter p).Pairwise fun a b => le a b = true) :
    (l.mergeSort le).filter p = l.filter p := by
  have hsub := (List.sublist_mergeSort htrans htotal hp List.filter_sublist).filter p
  simp only [List.filter_filter, Bool.and_self] at hsub
  exact (hsub.eq_of_length ((List.mergeSort_perm l le).filter p).length_eq.symm).symm

/-- A sorted list is in order, and elements of one rank are related as they
were before. -/
theorem pairwise_mergeSort {R : α → α → Prop} (h : l.Pairwise R) :
    (l.mergeSort le).Pairwise fun a b => le a b = true ∧ (le b a = true → R a b) := by
  rw [List.pairwise_iff_forall_sublist]
  intro a b hab
  have hle := List.pairwise_iff_forall_sublist.mp (List.pairwise_mergeSort htrans htotal l) hab
  refine ⟨hle, fun hba => ?_⟩
  -- those of the rank of `a`
  let p : α → Bool := fun x => le a x && le x a
  have hrank : (l.filter p).Pairwise fun x y => le x y = true := by
    refine List.pairwise_of_forall_mem_list fun x hx y hy => ?_
    obtain ⟨-, hxa⟩ := Bool.and_eq_true_iff.mp (List.mem_filter.mp hx).2
    obtain ⟨hay, -⟩ := Bool.and_eq_true_iff.mp (List.mem_filter.mp hy).2
    exact htrans x a y hxa hay
  have hpa : p a = true := by
    have haa := htotal a a
    rw [Bool.or_self] at haa
    exact Bool.and_eq_true_iff.mpr ⟨haa, haa⟩
  have hpb : p b = true := Bool.and_eq_true_iff.mpr ⟨hle, hba⟩
  have hsub := hab.filter p
  rw [List.filter_cons_of_pos hpa, List.filter_cons_of_pos hpb, List.filter_nil,
    filter_mergeSort htrans htotal hrank] at hsub
  exact List.pairwise_iff_forall_sublist.mp h (hsub.trans List.filter_sublist)

end Sorting

namespace Catalog

open Search (Constraints Sound)

variable {maxSteps : Int} {r : Request} {c : Constraints} {texts : List String} {l : Listing}
  {ls : List Listing}

-- ============================================================= the order

namespace Listing

/-- Difficulty counts first, then the period. -/
def rank (l : Listing) : Rat ×ₗ Nat :=
  toLex (l.difficulty, l.period)

theorem precedes_iff {a b : Listing} : a.precedes b = true ↔ a.rank ≤ b.rank := by
  unfold precedes rank
  rw [decide_eq_true_iff, Prod.Lex.toLex_le_toLex]

theorem precedes_trans (a b c : Listing) (hab : a.precedes b = true)
    (hbc : b.precedes c = true) : a.precedes c = true :=
  precedes_iff.mpr (le_trans (precedes_iff.mp hab) (precedes_iff.mp hbc))

theorem precedes_total (a b : Listing) : (a.precedes b || b.precedes a) = true := by
  rw [Bool.or_eq_true, precedes_iff, precedes_iff]
  exact le_total a.rank b.rank

/-- The order of a list: by rank, and within a rank as the candidates
stand. -/
def Before (texts : List String) (a b : Listing) : Prop :=
  a.rank < b.rank ∨ a.rank = b.rank ∧ texts.idxOf a.pattern < texts.idxOf b.pattern

theorem Before.asymm {a b : Listing} (hab : Before texts a b) : ¬ Before texts b a := by
  rcases hab with hab | ⟨hrank, hab⟩
  · rintro (hba | ⟨hrank, -⟩)
    · exact lt_asymm hab hba
    · exact ne_of_gt hab hrank
  · rintro (hba | ⟨-, hba⟩)
    · exact ne_of_gt hba hrank
    · exact Nat.lt_asymm hab hba

end Listing

/-- What is selected is first listed in the order of the candidates. -/
theorem pairwise_listings (r : Request) (texts : List String) :
    ((texts.eraseDups.filterMap Listing.ofText?).filter r.selects).Pairwise
      fun a b => texts.idxOf a.pattern < texts.idxOf b.pattern := by
  refine ((pairwise_eraseDups texts).filterMap Listing.ofText? ?_).filter _
  intro text text' hlt a ha b hb
  rw [(outcome_of_ofText? ha).1, (outcome_of_ofText? hb).1]
  exact hlt

theorem pairwise_select (r : Request) (texts : List String) :
    (select r texts).Pairwise (Listing.Before texts) := by
  refine (pairwise_mergeSort Listing.precedes_trans Listing.precedes_total
    (pairwise_listings r texts)).imp ?_
  rintro a b ⟨hab, hplace⟩
  rw [Listing.precedes_iff] at hab hplace
  rcases lt_or_eq_of_le hab with hlt | heq
  · exact .inl hlt
  · exact .inr ⟨heq, hplace (le_of_eq heq.symm)⟩

/-- No text is listed twice. -/
theorem nodup_select (r : Request) (texts : List String) :
    ((select r texts).map Listing.pattern).Nodup := by
  unfold select
  rw [((List.mergeSort_perm _ _).map _).nodup_iff]
  refine List.pairwise_map.mpr ((pairwise_listings r texts).imp fun hlt heq => ?_)
  rw [heq] at hlt
  exact Nat.lt_irrefl _ hlt

-- =========================================================== the options

/-- The bands of difficulty. -/
def InBand (name : String) (difficulty : Rat) : Prop :=
  name = "easy" ∧ 0 ≤ difficulty ∧ difficulty < 3
    ∨ name = "medium" ∧ 3 ≤ difficulty ∧ difficulty < 6
    ∨ name = "hard" ∧ 6 ≤ difficulty ∧ difficulty ≤ 10

/-- Whether a listing is as the options of a request want it. -/
structure Meets (r : Request) (l : Listing) : Prop where
  dialect : r.dialect = "any" ∨ l.dialect.name = r.dialect
  difficulty : r.difficulty = "any" ∨ InBand r.difficulty l.difficulty
  zeros : r.includeZeros = true ∨ '0' ∉ l.pattern.toList

theorem holds_iff {name : String} {difficulty : Rat} :
    (Band.ofName? name).any (·.holds difficulty) = true ↔ InBand name difficulty := by
  unfold Band.ofName? InBand
  split
  case isTrue heasy => simp [heasy, Band.holds]
  split
  case isTrue hmedium => simp [hmedium, Band.holds]
  split
  case isTrue hhard =>
    -- the top band includes its upper end
    have htop : difficulty < 10 ∨ difficulty ≤ 10 ↔ difficulty ≤ 10 :=
      or_iff_right_of_imp le_of_lt
    simp [hhard, Band.holds, htop]
  case isFalse heasy hmedium hhard => simp [heasy, hmedium, hhard]

theorem selects_iff : r.selects l = true ↔ Meets r l := by
  unfold Request.selects
  rw [decide_eq_true_iff, holds_iff, List.contains_iff_mem]
  exact ⟨fun ⟨hdialect, hdifficulty, hzeros⟩ => ⟨hdialect, hdifficulty, hzeros⟩,
    fun h => ⟨h.dialect, h.difficulty, h.zeros⟩⟩

-- ================================================================= lists

/-- The candidates of a request: the classics, then what is found for each
length, within the limits asked for. -/
structure Drawn (maxSteps : Int) (r : Request) (c : Constraints) (texts : List String) :
    Prop where
  limits : Constraints.ofLimitsFor r.objects r.minHeight r.maxHeight r.includeZeros
    attemptsPerDraw = .ok c
  lengths : ∃ lists,
    (Search.span 1 r.maxLength).mapM (fun length => patternsOfLength maxSteps r.objects length c)
        = .ok lists
      ∧ texts = classics r.objects ++ lists.flatten.map Sequence.text

/-- What is found for a request within the limits `c`. -/
structure Found (r : Request) (c : Constraints) (l : Listing) : Prop where
  canonical : ∃ f, Canonical.ofTyped (some l.pattern) = .ok f ∧ f.form = l.pattern
  objects : l.objects = r.objects
  period : (l.period : Int) ≤ r.maxLength
  bounds : ∃ q, Pattern.read (some l.pattern) = .ok q
    ∧ ∀ h ∈ q.throws.heights, c.lowest ≤ h ∧ h ≤ c.maxHeight

/-- The list for a request with the candidates `texts`. -/
structure Listed (r : Request) (c : Constraints) (texts : List String) (ls : List Listing) :
    Prop where
  distinct : (ls.map Listing.pattern).Nodup
  ordered : ls.Pairwise (Listing.Before texts)
  mem_iff : ∀ l, l ∈ ls ↔ l.pattern ∈ texts ∧ Listing.ofText? l.pattern = some l ∧ Meets r l
  found : ∀ l ∈ ls, l.pattern ∉ classics r.objects → Found r c l

/-- There is one list for a request with its candidates. -/
theorem Listed.unique {ls' : List Listing} (h : Listed r c texts ls)
    (h' : Listed r c texts ls') : ls = ls' := by
  have : Std.Irrefl (Listing.Before texts) := ⟨fun _ hab => hab.asymm hab⟩
  have : Std.Antisymm (Listing.Before texts) := ⟨fun _ _ hab hba => absurd hba hab.asymm⟩
  exact h.ordered.eq_of_mem_iff h'.ordered fun l => (h.mem_iff l).trans (h'.mem_iff l).symm

/-- The listing of a pattern that is sound for a length is found for it. -/
theorem found_of_sound {length : Int} {s : Sequence} (hs : Sound r.objects length c s)
    (hlength : 1 ≤ length ∧ length ≤ r.maxLength) (hl : Listing.ofText? s.text = some l) :
    Found r c l := by
  obtain ⟨hpattern, f, hf, -, hperiod⟩ := outcome_of_ofText? hl
  obtain ⟨q, hread, -, hthrows⟩ := hs.reads
  refine ⟨hpattern ▸ hs.canonical, objects_of_sound hs hl, ?_, q, hpattern ▸ hread,
    hthrows ▸ hs.bounds⟩
  have hvalid := (Search.accept_eq_some_iff.mp hs.again).2.2.2
  rw [Verdict.outcome_text hvalid, Except.ok.injEq] at hf
  have hle := Int.le_of_dvd (by omega) hs.divides
  rw [Sequence.length_text] at hle
  rw [hperiod, ← hf]
  exact Int.le_trans hle hlength.2

/-- What a list gives is the list for its request. -/
theorem listed_of_list (h : list maxSteps r = .ok ls) :
    ∃ c texts, Drawn maxSteps r c texts ∧ Listed r c texts ls := by
  obtain ⟨c, texts, hlimits, hcandidates, rfl⟩ := candidates_of_list h
  refine ⟨c, texts, ⟨hlimits, ?_⟩, nodup_select _ _, pairwise_select _ _, fun l => ?_, ?_⟩
  · obtain ⟨lists, hlists, hcandidates⟩ := bind_eq_ok hcandidates
    cases hcandidates
    exact ⟨lists, hlists, rfl⟩
  · rw [mem_select, ← selects_iff, ← and_assoc]
    refine and_congr_left fun _ => ⟨?_, fun ⟨hmem, hl⟩ => ⟨l.pattern, hmem, hl⟩⟩
    rintro ⟨text, hmem, htext⟩
    rw [(outcome_of_ofText? htext).1]
    exact ⟨hmem, htext⟩
  · intro l hl hclassic
    obtain ⟨⟨text, hmem, htext⟩, -⟩ := mem_select.mp hl
    rw [(outcome_of_ofText? htext).1] at hclassic
    rcases classic_or_sound hcandidates hmem with hclassic' | ⟨length, s, hlength, hs, rfl⟩
    · exact absurd hclassic' hclassic
    · exact found_of_sound hs hlength htext

/-- Whatever is asked for, a list that is given, made anew or by a catalog
that has kept lists since it was empty, is the one list that its request and
its candidates settle. -/
theorem listed_of_answer (maxSteps : Int) (r : Request) (ls : List Listing) :
    (list maxSteps r = .ok ls → ∃ c texts, Drawn maxSteps r c texts ∧ Listed r c texts ls)
    ∧ ∀ (s : Shelf) calls, s.memo.entries = [] →
        ((s.after maxSteps calls).list maxSteps r).1 = .ok ls →
        ∃ c texts, Drawn maxSteps r c texts ∧ Listed r c texts ls := by
  refine ⟨listed_of_list, fun s calls hs h => ?_⟩
  rw [Shelf.list_after hs] at h
  exact listed_of_list h

/-- The request for two objects in up to three beats. -/
def twoObjects : Request :=
  { Request.plain 2 with maxLength := 3 }

/-- Two objects have no classics: their list, made anew and kept, has `411`,
which is found for three beats. -/
theorem twoObjects_listed :
    ∃ ls c texts, list 0 twoObjects = .ok ls
      ∧ Drawn 0 twoObjects c texts ∧ Listed twoObjects c texts ls
      ∧ shelfForOne.memo.entries = []
      ∧ ((shelfForOne.after 0 [.list twoObjects]).list 0 twoObjects).1 = .ok ls
      ∧ (∃ c texts, Drawn 0 twoObjects c texts ∧ Listed twoObjects c texts ls)
      ∧ ∃ l ∈ ls, l.pattern = "411" ∧ Found twoObjects c l := by
  have hempty : shelfForOne.memo.entries = [] := rfl
  obtain ⟨ls, hls⟩ : ∃ ls, list 0 twoObjects = .ok ls := ⟨_, rfl⟩
  have hagain :
      ((shelfForOne.after 0 [.list twoObjects]).list 0 twoObjects).1 = .ok ls := by
    rw [Shelf.list_after hempty, hls]
  obtain ⟨hmade, hkept⟩ := listed_of_answer 0 twoObjects ls
  obtain ⟨c, texts, hdrawn, hlisted⟩ := hmade hls
  have htext : "411" ∈ texts := by
    obtain ⟨lists, hlists, rfl⟩ := hdrawn.lengths
    cases hdrawn.limits
    obtain ⟨lists', hlists', hmem⟩ : ∃ lists,
        (Search.span 1 3).mapM (fun length => patternsOfLength 0 2 length
          ⟨0, 4, false, 10, by decide, by decide, by decide, by decide⟩) = .ok lists
        ∧ "411" ∈ lists.flatten.map Sequence.text := ⟨_, rfl, by decide +kernel⟩
    cases hlists.symm.trans hlists'
    exact List.mem_append_right _ hmem
  obtain ⟨l, hl, hselects⟩ : ∃ l, Listing.ofText? "411" = some l
      ∧ twoObjects.selects l = true := ⟨_, rfl, by decide +kernel⟩
  have hpattern := (outcome_of_ofText? hl).1
  have hmem : l ∈ ls := by
    rw [hlisted.mem_iff, hpattern]
    exact ⟨htext, hl, selects_iff.mp hselects⟩
  exact ⟨ls, c, texts, hls, hdrawn, hlisted, hempty, hagain, hkept _ _ hempty hagain, l, hmem,
    hpattern, hlisted.found l hmem (List.not_mem_nil (a := l.pattern))⟩

end Catalog

end Siteswap
