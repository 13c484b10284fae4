/-
What is found is what was asked for.

Searching checks a candidate and reports another word, the canonical one.
`generated_sound` says that the word reported is good in its own right,
for every order of trying and every number of steps and attempts: it reads
as an async pattern, is valid with the number of objects asked for, is
canonical, has a length that divides the one asked for, keeps to the
bounds, and would be reported again (`Sound`).

Whatever is found, by walking or by enumeration, is what some candidate is
accepted as; `sound_of_accepted` takes it from there.
-/
import Siteswap.Proofs.Canonical.Texts
import Siteswap.Proofs.Search.Acceptance
import Siteswap.Proofs.Search.Enumeration
import Siteswap.Proofs.Search.Walk

namespace Siteswap

namespace Search

-- ============================================================= soundness

/-- What a search for `objects` objects in `length` beats promises of the
pattern it reports. -/
structure Sound (objects length : Int) (c : Constraints) (s : Sequence) :
    Prop where
  nonempty : s.text ≠ ""
  letters : ∀ x ∈ s.text.toList, x ∈ Alphabet.standard.letters
  reads : ∃ p, Pattern.read (some s.text) = .ok p ∧ p.dialect = .async
    ∧ p.throws = s
  valid : ∃ f, (Verdict.ofTyped (some s.text)).outcome = .ok f
    ∧ f.objects = objects
  canonical : ∃ f, Canonical.ofTyped (some s.text) = .ok f
    ∧ f.form = s.text
  divides : (s.text.length : Int) ∣ length
  bounds : ∀ h ∈ s.heights, c.lowest ≤ h ∧ h ≤ c.maxHeight
  gaps : c.includeZeros = false → ∀ h ∈ s.heights, h ≠ 0
  again : accept s.heights = .ok (some s)

/-- A pattern that is reported for itself is sound wherever it has the
objects, the length and the bounds. -/
theorem sound_of_again {objects length : Int} {c : Constraints} {s : Sequence}
    (hagain : accept s.heights = .ok (some s))
    (hobjects : (Verdict.figures s).objects = objects)
    (hdvd : (s.heights.length : Int) ∣ length)
    (hbounds : ∀ h ∈ s.heights, c.lowest ≤ h ∧ h ≤ c.maxHeight) :
    Sound objects length c s := by
  obtain ⟨hne, -, -, hvalid⟩ := accept_eq_some_iff.mp hagain
  have htext := s.length_text
  exact {
    nonempty := by
      intro h
      rw [h, String.length_empty] at htext
      exact hne (List.length_eq_zero_iff.mp htext.symm)
    letters := fun x hx =>
      (Alphabet.isLetter_iff_mem x).mp (Sequence.isLetter_of_mem_text hx)
    reads := ⟨_, Pattern.read_text hne, rfl, rfl⟩
    valid := ⟨_, Verdict.outcome_text hvalid, hobjects⟩
    canonical := Canonical.ofTyped_text hne (canonical_of_accept hagain)
    divides := by
      rw [htext]
      exact hdvd
    bounds := hbounds
    gaps := by
      intro hz h hh h0
      have hpos := c.lowest_pos hz
      have hlow := (hbounds h hh).1
      omega
    again := hagain }

/-- What a candidate is accepted as is sound. -/
theorem sound_of_accepted {objects length : Int} {c : Constraints}
    {hs : List Int} {s : Sequence} (hl : 1 ≤ length)
    (hc : Completes (.ofConstraints objects length c) length.toNat 0 hs)
    (hacc : accepted? hs = some s) : Sound objects length c s := by
  have haccept := accepted?_eq_some_iff.mp hacc
  have hlen : (hs.length : Int) = length := by
    rw [hc.length]
    exact Int.toNat_of_nonneg (by omega)
  have hsum : hs.sum = objects * hs.length := by
    have := hc.sum
    rw [Int.zero_add] at this
    rw [this, hlen]
    rfl
  refine sound_of_again (accept_heights haccept) (objects_of_accept haccept hsum) ?_ ?_
  · rw [← hlen]
    exact Int.natCast_dvd_natCast.mpr (length_dvd_of_accept haccept)
  · intro h hh
    rw [heights_of_accept haccept] at hh
    exact hc.inBounds h (Rotation.mem_of_mem_canonical hh)

/-- What an attempt finds for a search is sound. -/
theorem sound_of_generate {σ : Type} {sh : Shuffler σ} {mode : Mode}
    {objects length : Int} {c : Option Constraints} {source source' : σ}
    {s : Sequence}
    (h : generate sh mode objects length c source = .ok (some s, source')) :
    Sound objects length (c.getD (.usual objects)) s := by
  obtain ⟨ho, hl⟩ := arguments_of_generate h
  obtain ⟨source₁, heq⟩ := generate_eq sh mode c source ho hl
  rw [heq] at h
  injection h with h
  injection h with h
  obtain ⟨sh', source₂, hfound⟩ :=
    attempt_of_mem_outcomes (mem_of_answer h)
  obtain ⟨hs, hc, hacc⟩ := attempt_found hfound
  exact sound_of_accepted hl hc hacc

/-- Whatever the order of trying, the steps, the attempts and the
constraints: the pattern that a search reports is sound, and so are all
that an enumeration lists. -/
theorem generated_sound (objects length : Int) (c : Option Constraints) :
    (∀ (σ : Type) (sh : Shuffler σ) (mode : Mode) (source source' : σ)
        (s : Sequence),
      generate sh mode objects length c source = .ok (some s, source') →
      Sound objects length (c.getD (.usual objects)) s)
    ∧ ∀ (maxResults : Int) (found : List Sequence),
        enumerate objects length c maxResults = .ok found →
        ∀ s ∈ found, Sound objects length (c.getD (.usual objects)) s := by
  constructor
  · intro σ sh mode source source' s h
    exact sound_of_generate h
  · intro maxResults found h s hs
    obtain ⟨hl, ks, hc, hacc⟩ := accepted_of_mem_enumerate h hs
    exact sound_of_accepted hl hc hacc

/-- Tries the greatest height first, and counts how often it is asked. -/
def descending : Shuffler Nat where
  shuffle n hs := (hs.reverse, n + 1)
  perm _ hs := hs.reverse_perm

/-- A four and two ones. -/
def fourOneOne : Sequence := ⟨[4, 1, 1], by decide⟩

/-- Two objects in six beats, from above: what is found repeats, and a
pattern of three beats is reported. Three objects in three beats: the
patterns are listed. -/
theorem fourOneOne_sound :
    (generate descending ⟨20000, false⟩ 2 6 none 0
        = .ok (some fourOneOne, 59)
      ∧ Sound 2 6 (.usual 2) fourOneOne)
    ∧ ∃ found, enumerate 3 3 none 20 = .ok found ∧ found.length = 5
        ∧ ∀ s ∈ found, Sound 3 3 (.usual 3) s := by
  constructor
  · have hfound : generate descending ⟨20000, false⟩ 2 6 none 0
        = .ok (some fourOneOne, 59) := by decide +kernel
    exact ⟨hfound, (generated_sound 2 6 none).1 Nat descending _ 0 59
      fourOneOne hfound⟩
  · obtain ⟨found, hfound, hlen⟩ :
        ∃ found, enumerate 3 3 none 20 = .ok found ∧ found.length = 5 :=
      ⟨_, rfl, by decide +kernel⟩
    exact ⟨found, hfound, hlen,
      (generated_sound 3 3 none).2 20 found hfound⟩

end Search

end Siteswap
