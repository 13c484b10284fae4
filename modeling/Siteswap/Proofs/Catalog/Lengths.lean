/-
The patterns of one length.

Two sources supply them. What searches draw is collected, whatever it is:
each pattern once, and no more when there are enough
(`collected_drawPatterns`). Where that leaves only a few of a length that can
be enumerated, the enumerated patterns that are new are added (`fillUp_eq`),
and none of them is lost (`length_le_fillUp`).

So a list repeats no text and is no longer than the two sources allow. And a
length that can be enumerated is never starved: its list has five patterns,
or else one for each text under which its tuples are accepted, even if
nothing is drawn (`supplied`).
-/
import Siteswap.Catalog.Candidates
import Siteswap.Proofs.Search.Acceptance
import Siteswap.Proofs.Search.Enumeration

namespace Siteswap

-- ============================================================== enumerated

namespace Search

variable {t : Task} {n : Nat}

/-- The texts under which tuples of `n` heights are accepted. -/
def Task.acceptedTexts (t : Task) (n : Nat) : Set String :=
  {p | ∃ hs ∈ t.tuples n, ∃ s, accept hs = .ok (some s) ∧ s.text = p}

/-- Where all tuples have room, as many patterns are discovered as there
are such texts. -/
theorem ncard_acceptedTexts (hfew : (t.tuples n).ncard ≤ maxCombinations) :
    (t.acceptedTexts n).ncard = (discovered t n).length := by
  have hnodup : ((discovered t n).map Sequence.text).Nodup :=
    (nodup_eraseDups _).map fun _ _ h => Sequence.text_injective h
  have hset : t.acceptedTexts n = ↑((discovered t n).map Sequence.text).toFinset := by
    ext p
    unfold Task.acceptedTexts discovered
    simp only [Set.mem_ofPred_eq, List.coe_toFinset, List.mem_map, List.mem_eraseDups,
      List.mem_filterMap, combinations_eq_completions hfew, mem_completions, mem_tuples_iff,
      accepted?_eq_some_iff]
    constructor
    · rintro ⟨hs, hc, s, hacc, hp⟩
      exact ⟨s, ⟨hs, hc, hacc⟩, hp⟩
    · rintro ⟨s, ⟨hs, hc, hacc⟩, hp⟩
      exact ⟨hs, hc, s, hacc, hp⟩
  rw [hset, Set.ncard_coe_finset, List.toFinset_card_of_nodup hnodup, List.length_map]

end Search

namespace Catalog

open Search (Constraints Task maxCombinations maxEnumerated)

variable {σ : Type} {draw : σ → Option Sequence × σ} {source : σ} {found more : List Sequence}
  {objects length : Int} {c : Constraints}

-- =================================================================== drawn

/-- What drawing keeps of the patterns found: each is there once, and there
are no more than are collected. -/
structure Collected (found : List Sequence) : Prop where
  nodup : found.Nodup
  length_le : found.length ≤ maxFound

theorem Collected.concat {s : Sequence} (h : Collected found) (hroom : found.length < maxFound)
    (hnew : s ∉ found) : Collected (found ++ [s]) := by
  refine ⟨?_, ?_⟩
  · rw [← List.concat_eq_append]
    exact h.nodup.concat hnew
  · rw [List.length_append, List.length_singleton]
    exact hroom

/-- One draw after the other keeps it, whatever is drawn. -/
theorem collected_drawPatterns {n stale : Nat} (h : Collected found) :
    Collected (drawPatterns draw n stale found source) := by
  induction n generalizing stale found source with
  | zero => exact h
  | succ n ih =>
      unfold drawPatterns
      split
      case isTrue => exact h
      case isFalse hgo =>
        split
        case h_1 => exact h
        case h_2 s source' _ =>
          split
          case isTrue => exact ih h
          case isFalse hnew =>
            rw [List.contains_iff_mem] at hnew
            exact ih (h.concat (by omega) hnew)

-- =============================================================== filled up

/-- Filling up adds the new ones behind what is found, each once. -/
theorem fillUp_eq (found more : List Sequence) :
    fillUp found more = found ++ (more.filter (!found.contains ·)).eraseDups := by
  induction more generalizing found with
  | nil =>
      rw [List.filter_nil, List.eraseDups_nil, List.append_nil]
      rfl
  | cons s more ih =>
      show fillUp (if found.contains s then found else found ++ [s]) more = _
      split
      case isTrue hknown =>
        rw [ih, List.filter_cons_of_neg (by rw [hknown]; decide)]
      case isFalse hnew =>
        rw [Bool.not_eq_true] at hnew
        have hothers : (more.filter (!found.contains ·)).filter (fun x => !x == s)
            = more.filter (!(found ++ [s]).contains ·) := by
          rw [List.filter_filter]
          refine List.filter_congr fun x _ => ?_
          rw [List.contains_append, List.contains_cons, List.contains_nil, Bool.or_false,
            Bool.not_or, Bool.and_comm]
        rw [ih, List.filter_cons_of_pos (by rw [hnew]; rfl), List.eraseDups_cons, hothers,
          List.append_assoc, List.singleton_append]

theorem mem_fillUp {s : Sequence} : s ∈ fillUp found more ↔ s ∈ found ∨ s ∈ more := by
  rw [fillUp_eq, List.mem_append, List.mem_eraseDups, List.mem_filter]
  by_cases hknown : s ∈ found
  · exact iff_of_true (.inl hknown) (.inl hknown)
  · simp [hknown]

theorem nodup_fillUp (h : found.Nodup) : (fillUp found more).Nodup := by
  rw [fillUp_eq]
  refine List.nodup_append.mpr ⟨h, nodup_eraseDups _, ?_⟩
  rintro s hs _ hnew rfl
  rw [List.mem_eraseDups, List.mem_filter] at hnew
  simp [hs] at hnew

theorem length_fillUp_le (h : found.Nodup) (more : List Sequence) :
    (fillUp found more).length ≤ found.length + more.length := by
  rw [← List.length_append]
  refine (nodup_fillUp h).length_le_of_subset fun s hs => ?_
  exact List.mem_append.mpr (mem_fillUp.mp hs)

/-- None of the patterns to fill up with is lost. -/
theorem length_le_fillUp (found : List Sequence) (hmore : more.Nodup) :
    more.length ≤ (fillUp found more).length :=
  hmore.length_le_of_subset fun _ hs => mem_fillUp.mpr (.inr hs)

-- ============================================================== one length

/-- What a few patterns of a length are filled up with. -/
def enumerated (objects length : Int) (c : Constraints) : List Sequence :=
  (Search.discovered (.ofConstraints objects length c) length.toNat).take maxFound

theorem nodup_enumerated (objects length : Int) (c : Constraints) :
    (enumerated objects length c).Nodup :=
  (nodup_eraseDups _).sublist (List.take_sublist _ _)

theorem length_enumerated (hroom :
      ((Task.ofConstraints objects length c).tuples length.toNat).ncard ≤ maxCombinations) :
    (enumerated objects length c).length
      = min maxFound ((Task.ofConstraints objects length c).acceptedTexts length.toNat).ncard := by
  unfold enumerated
  rw [List.length_take, Search.ncard_acceptedTexts hroom]

/-- The patterns of a length are those drawn, filled up where they are few
and can be enumerated. -/
theorem patternsDrawn_eq (draw : σ → Option Sequence × σ) (source : σ) (c : Constraints)
    (ho : 0 ≤ objects) (hl : 1 ≤ length) :
    patternsDrawn draw source objects length c
      = .ok (
          let drawn := drawPatterns draw maxDraws 0 [] source
          if drawn.length < fewFound ∧ length ≤ maxEnumerated then
            fillUp drawn (enumerated objects length c)
          else drawn) := by
  unfold patternsDrawn
  rw [Search.checkArguments_eq_ok ho hl]
  simp only [bind, Except.bind]
  split
  case isTrue hfew =>
    rw [Search.enumerate_eq (some c) Search.defaultResults ho hl hfew.2]
    rfl
  case isFalse => rfl

/-- What is promised of the patterns of one length. No text is there twice.
There are at most twenty, or four more if the length can be enumerated. And
then, where all tuples have room, there are at least five, or as many as
there are texts under which the tuples are accepted. -/
structure Supply (objects length : Int) (c : Constraints) (found : List Sequence) : Prop where
  distinct : (found.map Sequence.text).Nodup
  long : maxEnumerated < length → found.length ≤ 20
  short : length ≤ maxEnumerated → found.length ≤ 24
  enough : length ≤ maxEnumerated →
    ((Task.ofConstraints objects length c).tuples length.toNat).ncard ≤ maxCombinations →
    min 5 ((Task.ofConstraints objects length c).acceptedTexts length.toNat).ncard ≤ found.length

/-- What is drawn will do, unless it is little for a length that can be
enumerated. -/
theorem Collected.supply (h : Collected found)
    (henough : ¬ (found.length < fewFound ∧ length ≤ maxEnumerated)) :
    Supply objects length c found := by
  have hle : found.length ≤ 20 := h.length_le
  have hfew : fewFound = 5 := rfl
  exact {
    distinct := h.nodup.map fun _ _ heq => Sequence.text_injective heq
    long := fun _ => hle
    short := fun _ => by omega
    enough := fun hshort _ => by omega }

/-- A few drawn will do when they are filled up. -/
theorem Collected.supply_fillUp (h : Collected found) (hfew : found.length < fewFound)
    (hshort : length ≤ maxEnumerated) :
    Supply objects length c (fillUp found (enumerated objects length c)) := by
  have hfive : fewFound = 5 := rfl
  have hmax : maxFound = 20 := rfl
  have hmost : (enumerated objects length c).length ≤ maxFound := List.length_take_le _ _
  have hle := length_fillUp_le h.nodup (enumerated objects length c)
  have hge := length_le_fillUp found (nodup_enumerated objects length c)
  exact {
    distinct := (nodup_fillUp h.nodup).map fun _ _ heq => Sequence.text_injective heq
    long := fun hlong => by omega
    short := fun _ => by omega
    enough := fun _ hroom => by
      rw [length_enumerated hroom] at hge
      omega }

/-- Whatever is drawn, every length has a list of patterns, and one that
keeps the promise; so has it with the searches that are made. -/
theorem supplied (objects length : Int) (c : Constraints) (ho : 0 ≤ objects)
    (hl : 1 ≤ length) :
    (∀ (σ : Type) (draw : σ → Option Sequence × σ) (source : σ),
      ∃ found, patternsDrawn draw source objects length c = .ok found
        ∧ Supply objects length c found)
    ∧ ∀ maxSteps, ∃ found, patternsOfLength maxSteps objects length c = .ok found
        ∧ Supply objects length c found := by
  have hdraws : ∀ (σ : Type) (draw : σ → Option Sequence × σ) (source : σ),
      ∃ found, patternsDrawn draw source objects length c = .ok found
        ∧ Supply objects length c found := by
    intro σ draw source
    have hdrawn : Collected (drawPatterns draw maxDraws 0 [] source) :=
      collected_drawPatterns ⟨List.nodup_nil, Nat.zero_le _⟩
    refine ⟨_, patternsDrawn_eq draw source c ho hl, ?_⟩
    dsimp only
    split
    case isTrue hfew => exact hdrawn.supply_fillUp hfew.1 hfew.2
    case isFalse henough => exact hdrawn.supply henough
  exact ⟨hdraws, fun maxSteps => hdraws _ (drawFrom Twister.shuffler maxSteps objects length c) _⟩

/-- Draws some patterns, one after another. -/
def inTurn (source : List Sequence) : Option Sequence × List Sequence :=
  (source.head?, source.tail)

/-- A throw of each height, on its own. -/
def singles : List Sequence :=
  Alphabet.standard.letters.map fun x => .ofLetters [x]

/-- Three objects in three beats, no steps to search with: all five texts
that are accepted. Six objects, and four patterns drawn that are none of
theirs: twenty more. Three objects in four beats, and a throw of each height
drawn: the first twenty. -/
theorem threeObjects_supplied :
    ((0 : Int) ≤ 3 ∧ (1 : Int) ≤ 3 ∧ (3 : Int) ≤ maxEnumerated
      ∧ ((Task.ofConstraints 3 3 (.usual 3)).tuples 3).ncard ≤ maxCombinations
      ∧ ((Task.ofConstraints 3 3 (.usual 3)).acceptedTexts 3).ncard = 5
      ∧ ∃ found, patternsOfLength 0 3 3 (.usual 3) = .ok found
          ∧ Supply 3 3 (.usual 3) found ∧ found.length = 5)
    ∧ ((0 : Int) ≤ 6 ∧ (1 : Int) ≤ 3
      ∧ ∃ found, patternsDrawn inTurn (singles.take 4) 6 3 (.usual 6) = .ok found
          ∧ Supply 6 3 (.usual 6) found ∧ found.length = 24)
    ∧ (0 : Int) ≤ 3 ∧ (1 : Int) ≤ 4 ∧ maxEnumerated < 4
      ∧ ∃ found, patternsDrawn inTurn singles 3 4 (.usual 3) = .ok found
          ∧ Supply 3 4 (.usual 3) found ∧ found.length = 20 := by
  have hroom : ((Task.ofConstraints 3 3 (.usual 3)).tuples 3).ncard ≤ maxCombinations :=
    Search.ncard_tuples_le (by decide +kernel)
  refine ⟨⟨by decide, by decide, by decide, hroom, ?_, ?_⟩, ⟨by decide, by decide, ?_⟩,
    by decide, by decide, by decide, ?_⟩
  · rw [Search.ncard_acceptedTexts hroom]
    decide +kernel
  · obtain ⟨found, hfound, hsupply⟩ := (supplied 3 3 (.usual 3) (by decide) (by decide)).2 0
    refine ⟨found, hfound, hsupply, ?_⟩
    rw [patternsOfLength, patternsDrawn_eq _ _ _ (by decide) (by decide), Except.ok.injEq] at hfound
    rw [← hfound]
    decide +kernel
  · obtain ⟨found, hfound, hsupply⟩ :=
      (supplied 6 3 (.usual 6) (by decide) (by decide)).1 _ inTurn (singles.take 4)
    refine ⟨found, hfound, hsupply, ?_⟩
    rw [patternsDrawn_eq _ _ _ (by decide) (by decide), Except.ok.injEq] at hfound
    rw [← hfound]
    decide +kernel
  · obtain ⟨found, hfound, hsupply⟩ :=
      (supplied 3 4 (.usual 3) (by decide) (by decide)).1 _ inTurn singles
    refine ⟨found, hfound, hsupply, ?_⟩
    rw [patternsDrawn_eq _ _ _ (by decide) (by decide), Except.ok.injEq] at hfound
    rw [← hfound]
    decide +kernel

end Catalog

end Siteswap
