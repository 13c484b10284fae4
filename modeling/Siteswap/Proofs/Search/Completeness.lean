/-
Enumeration misses nothing.

What is wanted of an enumeration is said of texts, without a search: a text
that is its own canonical form, is valid with the number of objects asked
for, keeps to the bounds, and has a length that divides the one asked for
(`Wanted`). Among async texts these are the texts of the sequences that are
sound (`wanted_iff_sound`). A sound sequence is what some candidate is
accepted as: a single throw as the candidate that makes it at every beat,
and any other sequence as itself, since no number up to three has a divisor
between one and itself (`Sound.exists_completes`). Longer periods would need
more, for two copies of a pattern may fail where one passes.

So where all tuples have room, the patterns that are discovered are the
sound ones (`mem_discovered_iff`), and their texts are those that are wanted
(`enumerated_iff_wanted`).

# What is wanted in another dialect

Texts of pairs and of groups are their own canonical forms, too, and
enumeration makes none of them. Pairs take at least five characters, so what
it leaves out is one text: for three beats, the number of objects in square
brackets (`bracketed_not_enumerated`).
-/
import Siteswap.Proofs.Canonical.Stability
import Siteswap.Proofs.Search.Feasibility

namespace Siteswap.Search

variable {objects length : Int} {c : Constraints} {p : String} {s : Sequence}

-- ================================================================= wanted

/-- The texts of the dialect `d` that are wanted of an enumeration. -/
structure Wanted (objects length : Int) (c : Constraints) (d : Dialect) (p : String) :
    Prop where
  reads : ∃ q, Pattern.read (some p) = .ok q ∧ q.dialect = d
    ∧ ∀ h ∈ q.throws.heights, c.lowest ≤ h ∧ h ≤ c.maxHeight
  canonical : ∃ f, Canonical.ofTyped (some p) = .ok f ∧ f.form = p
  valid : ∃ f, (Verdict.ofTyped (some p)).outcome = .ok f ∧ f.objects = objects
  divides : (p.length : Int) ∣ length

/-- The async texts that are wanted are those of the sequences that are
sound. -/
theorem wanted_iff_sound :
    Wanted objects length c .async p ↔ ∃ s, p = s.text ∧ Sound objects length c s := by
  constructor
  · intro h
    obtain ⟨q, hread, hd, hbounds⟩ := h.reads
    have hne := Pattern.heights_ne_nil_of_async hread hd
    have hform : q.throws.canonical.text = p := by
      obtain ⟨f, hf, hform⟩ := h.canonical
      rw [Canonical.ofTyped_of_read hread, Except.ok.injEq] at hf
      rw [← Canonical.form_of_async hread hd, hf, hform]
    -- the text reads as its canonical sequence, too
    have hcanonical : q.throws.canonical = q.throws := by
      have hagain := Pattern.read_text (s := q.throws.canonical) (Rotation.canonical_ne_nil hne)
      rw [hform, hread, Except.ok.injEq] at hagain
      exact (congrArg Pattern.throws hagain).symm
    rw [hcanonical] at hform
    obtain ⟨hvalid, hsum⟩ := Verdict.valid_of_read hread h.valid
    refine ⟨q.throws, hform.symm, sound_of_again ?_ (Verdict.objects_of_average hne hsum) ?_
      hbounds⟩
    · refine accept_eq_some_iff.mpr ⟨hne, ((Verdict.isValid_iff _ _).mp hvalid).2, ?_, hvalid⟩
      rw [Sequence.canonicalOf_heights, hcanonical]
    · rw [← Sequence.length_text, hform]
      exact h.divides
  · rintro ⟨s, rfl, h⟩
    obtain ⟨q, hread, hd, hthrows⟩ := h.reads
    exact ⟨⟨q, hread, hd, by rw [hthrows]; exact h.bounds⟩, h.canonical, h.valid, h.divides⟩

/-- What is sound has the number of objects as its average. -/
theorem Sound.sum (h : Sound objects length c s) :
    s.heights.sum = objects * s.heights.length := by
  obtain ⟨q, hread, -, rfl⟩ := h.reads
  exact (Verdict.valid_of_read hread h.valid).2

-- ============================================================ candidates

/-- A single throw is its own average. -/
theorem eq_singleton_of_average {hs : List Int} {average : Int} (hone : hs.length = 1)
    (h : hs.sum = average * hs.length) : hs = [average] := by
  obtain ⟨a, rfl⟩ := List.length_eq_one_iff.mp hone
  rw [List.sum_singleton, List.length_singleton, Nat.cast_one, Int.mul_one] at h
  rw [h]

/-- What is sound for a short length is what some candidate of that length
is accepted as. -/
theorem Sound.exists_completes (h : Sound objects length c s) (hl : 1 ≤ length)
    (hshort : length ≤ maxEnumerated) :
    ∃ hs, Completes (.ofConstraints objects length c) length.toNat 0 hs
      ∧ accepted? hs = some s := by
  have hpos := List.length_pos_iff.mpr (heights_ne_nil_of_accept h.again)
  have hdvd := h.divides
  rw [Sequence.length_text] at hdvd
  by_cases hone : s.heights.length = 1
  · have hsingle := eq_singleton_of_average hone h.sum
    have hin : objects ∈ s.heights := by
      rw [hsingle]
      exact List.mem_singleton_self objects
    obtain ⟨n, hn⟩ : ∃ n, length.toNat = n + 1 := ⟨length.toNat - 1, by omega⟩
    obtain ⟨s', hs', hacc⟩ := accept_replicate n (s.inRange objects hin)
    obtain rfl := Sequence.eq_of_heights (hs'.trans hsingle.symm)
    rw [← hn] at hacc
    exact ⟨_, completes_replicate hl (h.bounds objects hin), accepted?_eq_some_iff.mpr hacc⟩
  · have hlen : (s.heights.length : Int) = length := by
      have hle := Int.le_of_dvd (by omega) hdvd
      have hmax : maxEnumerated = 3 := rfl
      by_contra hlt
      have htwo : (s.heights.length : Int) = 2 := by omega
      have hthree : length = 3 := by omega
      rw [htwo, hthree] at hdvd
      omega
    refine ⟨s.heights, ⟨by omega, h.bounds, ?_⟩, accepted?_eq_some_iff.mpr h.again⟩
    rw [Int.zero_add, h.sum, hlen]
    rfl

/-- Where all tuples have room, the patterns discovered are those that are
sound. -/
theorem mem_discovered_iff (hl : 1 ≤ length) (hshort : length ≤ maxEnumerated)
    (hfew : ((Task.ofConstraints objects length c).tuples length.toNat).ncard
      ≤ maxCombinations) :
    s ∈ discovered (.ofConstraints objects length c) length.toNat
      ↔ Sound objects length c s := by
  unfold discovered
  rw [List.mem_eraseDups, List.mem_filterMap]
  constructor
  · rintro ⟨hs, hmem, hacc⟩
    exact sound_of_accepted hl (completes_of_mem_combinations hmem) hacc
  · intro h
    obtain ⟨hs, hc, hacc⟩ := h.exists_completes hl hshort
    rw [combinations_eq_completions hfew]
    exact ⟨hs, mem_completions.mpr hc, hacc⟩

-- ========================================================= other dialects

/-- In a dialect with brackets, only the number of objects in square
brackets is wanted for a short length. -/
theorem bracketed_of_wanted {d : Dialect} (h : Wanted objects length c d p)
    (hd : d ≠ .async) (hl : 1 ≤ length) (hshort : length ≤ maxEnumerated) :
    d = .multiplex ∧ length = 3
      ∧ p = String.ofList ['[', Sequence.letter objects, ']'] := by
  obtain ⟨q, hread, rfl, -⟩ := h.reads
  have htext : String.ofList q.text = p := by
    obtain ⟨f, hf, hform⟩ := h.canonical
    rw [Canonical.ofTyped_of_read hread, Except.ok.injEq,
      Canonical.ofPattern_of_ne_async hd] at hf
    rw [← hform, ← hf]
    rfl
  have hmax : maxEnumerated = 3 := rfl
  have hdvd := h.divides
  rw [← htext, String.length_ofList] at hdvd
  have hle := Int.le_of_dvd (by omega) hdvd
  obtain ⟨hne, -, hnormal⟩ := Pattern.ofNormal_text hread
  obtain ⟨d, ls, hw, hq⟩ := (Pattern.ofNormal_eq_ok_iff hne).mp hnormal
  have hdialect : q.dialect = d := by rw [hq]
  have hthrows : q.throws = .ofLetters ls := by rw [hq]
  rw [hdialect] at hd ⊢
  cases hw with
  | async => exact absurd rfl hd
  | sync _ hpairs =>
      have hlong := hpairs.long hne
      omega
  | multiplex hgroup hgroups =>
      obtain ⟨x, hx, hs, rfl⟩ := hgroups.bracketed hgroup (by omega)
      have hletters : q.throws.heights.map Sequence.letter = [x] := by
        rw [hthrows]
        refine Sequence.map_letter_ofLetters fun y hy => ?_
        rw [List.mem_singleton.mp hy]
        exact (Alphabet.isLetter_iff_isThrow x).mpr hx
      have hone : q.throws.heights.length = 1 := by
        rw [← List.length_map Sequence.letter, hletters, List.length_singleton]
      have hsingle := eq_singleton_of_average hone (Verdict.valid_of_read hread h.valid).2
      rw [hsingle, List.map_singleton, List.cons.injEq] at hletters
      rw [hs, List.length_cons, List.length_cons, List.length_singleton] at hdvd hle
      refine ⟨rfl, by omega, ?_⟩
      rw [← htext, hs, hletters.1]

-- ============================================================ enumeration

/-- Where patterns of a length can be enumerated and all tuples have room,
an enumeration lists, each once, the async texts that are wanted, and lists
as many of the first of them as it may, in one order. What is wanted in
another dialect is a single throw in square brackets, for three beats. -/
theorem enumerated_iff_wanted (objects length : Int) (c : Option Constraints)
    (ho : 0 ≤ objects) (hl : 1 ≤ length) (hshort : length ≤ maxEnumerated)
    (hfew : ((Task.ofConstraints objects length (c.getD (.usual objects))).tuples
      length.toNat).ncard ≤ maxCombinations) :
    let k := c.getD (.usual objects)
    (∃ all : List Sequence,
      (all.map Sequence.text).Nodup
      ∧ (∀ p, p ∈ all.map Sequence.text ↔ Wanted objects length k .async p)
      ∧ ∀ maxResults : Int, 1 ≤ maxResults →
          enumerate objects length c maxResults = .ok (all.take maxResults.toNat))
    ∧ ∀ d p, d ≠ .async → Wanted objects length k d p →
        d = .multiplex ∧ length = 3
          ∧ p = String.ofList ['[', Sequence.letter objects, ']'] := by
  intro k
  refine ⟨⟨discovered (.ofConstraints objects length k) length.toNat, ?_, fun p => ?_, ?_⟩, ?_⟩
  · exact (nodup_eraseDups _).map fun a b hab => Sequence.text_injective hab
  · rw [wanted_iff_sound, List.mem_map]
    refine exists_congr fun s => ?_
    rw [mem_discovered_iff hl hshort hfew, and_comm, eq_comm]
  · intro maxResults hmax
    rw [enumerate_eq c maxResults ho hl hshort, Int.max_eq_right hmax]
  · intro d p hd h
    exact bracketed_of_wanted h hd hl hshort

/-- Three objects in three beats: five texts are wanted, one of a single
throw, and two are the first two of them. -/
theorem threeObjects_enumerated :
    let t := Task.ofConstraints 3 3 (.usual 3)
    ((0 : Int) ≤ 3 ∧ (1 : Int) ≤ 3 ∧ (3 : Int) ≤ maxEnumerated
      ∧ (t.tuples 3).ncard ≤ maxCombinations)
    ∧ (∀ p, p ∈ ["441", "531", "522", "3", "423"] ↔ Wanted 3 3 (.usual 3) .async p)
    ∧ (∃ found, enumerate 3 3 none 20 = .ok found
        ∧ found.map Sequence.text = ["441", "531", "522", "3", "423"])
    ∧ ∃ found, enumerate 3 3 none 2 = .ok found
        ∧ found.map Sequence.text = ["441", "531"] := by
  intro t
  have hfew : (t.tuples 3).ncard ≤ maxCombinations := ncard_tuples_le (by decide +kernel)
  obtain ⟨⟨all, -, hmem, henum⟩, -⟩ :=
    enumerated_iff_wanted 3 3 none (by decide) (by decide) (by decide) hfew
  obtain ⟨found, hfound, htexts⟩ : ∃ found, enumerate 3 3 none 20 = .ok found
      ∧ found.map Sequence.text = ["441", "531", "522", "3", "423"] :=
    ⟨_, rfl, by decide +kernel⟩
  have hall : all = found := by
    have htake := henum 20 (by decide)
    rw [hfound, Except.ok.injEq] at htake
    have hlen := congrArg List.length htexts
    rw [htake, List.length_map, List.length_take] at hlen
    rw [htake, List.take_of_length_le]
    change min 20 _ = 5 at hlen
    omega
  rw [hall] at hmem henum
  refine ⟨⟨by decide, by decide, by decide, hfew⟩, ?_, ⟨found, hfound, htexts⟩, _,
    henum 2 (by decide), ?_⟩
  · rw [← htexts]
    exact hmem
  · rw [List.map_take, htexts]
    rfl

/-- One object in three beats: `[1]` is its own canonical form, valid with
one object and within the bounds, has three characters, and is not
enumerated, however many are wanted. -/
theorem bracketed_not_enumerated :
    ((Task.ofConstraints 1 3 (.usual 1)).tuples 3).ncard ≤ maxCombinations
      ∧ Wanted 1 3 (.usual 1) .multiplex "[1]"
      ∧ ∀ maxResults, ∃ found, enumerate 1 3 none maxResults = .ok found
          ∧ "[1]" ∉ found.map Sequence.text := by
  have hread : Pattern.read (some "[1]")
      = .ok ⟨.multiplex, ⟨[1], by decide⟩, "[1]".toList⟩ := by decide +kernel
  refine ⟨ncard_tuples_le (by decide +kernel),
    ⟨⟨_, hread, rfl, by decide⟩, ⟨_, Canonical.ofTyped_of_read hread, by decide +kernel⟩, ?_,
      by decide⟩, ?_⟩
  · unfold Verdict.ofTyped
    rw [hread]
    exact ⟨_, Verdict.outcome_of_isValid (by decide), by decide⟩
  · intro maxResults
    obtain ⟨found, hfound⟩ :=
      exists_enumerate (c := none) maxResults (by decide : (0 : Int) ≤ 1) (by decide)
        (by decide : (3 : Int) ≤ maxEnumerated)
    refine ⟨found, hfound, fun hmem => ?_⟩
    obtain ⟨s, -, hs⟩ := List.mem_map.mp hmem
    have hletter : Alphabet.isLetter '[' = true := by
      refine Sequence.isLetter_of_mem_text (s := s) ?_
      rw [hs]
      decide
    revert hletter
    decide

end Siteswap.Search
