/-
The catalog answers for the number of objects that is asked for.

A list draws on three sources: the curated table of classics, random
searches, and enumeration. What a search or an enumeration reports is sound
for the number of objects it was asked for, and selection, sorting and
keeping take nothing from elsewhere. So a listing has the objects asked
for unless the table has it under another number: `counts_of_answer` says
so of every list, made anew or kept, and of every random pattern.

# What is misplaced

Five classics stand under a number that is not theirs (`misplaced`): `97`,
`88` and `79` have eight objects, not six, `b97531` has six and `99` nine,
not seven. The catalog lists them, and draws them, under the number they
stand under (`misplaced_answered`). All others are where they belong or are
no valid patterns at all (`objects_of_classic`).
-/
import Siteswap.Proofs.Catalog.Lengths
import Siteswap.Proofs.Catalog.Shelf
import Siteswap.Proofs.Pattern.Reading
import Siteswap.Proofs.Results
import Siteswap.Proofs.Search.Soundness

namespace Siteswap

/-- What has an analysis can be read and is valid, and the analysis has its
figures. -/
theorem Analysis.ofTyped?_eq_some_iff {x : Typed} {a : Analysis} :
    ofTyped? x = some a
      ↔ ∃ p, Pattern.read x = .ok p ∧ (Verdict.ofPattern p).isValid = true
        ∧ a = ofFigures p (Verdict.figures p.throws) := by
  unfold ofTyped?
  cases Pattern.read x with
  | error e => exact iff_of_false nofun nofun
  | ok p =>
      simp only [ofPattern?, Except.ok.injEq, exists_eq_left']
      by_cases hvalid : (Verdict.ofPattern p).isValid = true
      · have houtcome : (Verdict.ofPattern p).outcome = .ok (Verdict.figures p.throws) :=
          Verdict.outcome_of_isValid hvalid
        simp only [houtcome, hvalid, true_and, Option.some.injEq]
        exact eq_comm
      · refine iff_of_false (fun h => ?_) fun h => hvalid h.1
        unfold Verdict.isValid at hvalid
        split at h
        case h_1 f houtcome =>
          rw [houtcome] at hvalid
          exact hvalid rfl
        case h_2 => cases h

namespace Catalog

open Search (Constraints Sound)

variable {objects length : Int} {l : Listing}

-- ================================================================ listings

theorem ofText?_eq_some_iff {text : String} :
    Listing.ofText? text = some l
      ↔ ∃ p, Pattern.read (some text) = .ok p ∧ (Verdict.ofPattern p).isValid = true
        ∧ l = .ofAnalysis text (.ofFigures p (Verdict.figures p.throws)) := by
  unfold Listing.ofText?
  rw [Option.map_eq_some_iff]
  constructor
  · rintro ⟨a, ha, rfl⟩
    obtain ⟨p, hread, hvalid, rfl⟩ := Analysis.ofTyped?_eq_some_iff.mp ha
    exact ⟨p, hread, hvalid, rfl⟩
  · rintro ⟨p, hread, hvalid, rfl⟩
    exact ⟨_, Analysis.ofTyped?_eq_some_iff.mpr ⟨p, hread, hvalid, rfl⟩, rfl⟩

/-- A listing is of a valid pattern, with its number of objects and its
period. -/
theorem outcome_of_ofText? {text : String} (h : Listing.ofText? text = some l) :
    l.pattern = text
      ∧ ∃ f, (Verdict.ofTyped (some text)).outcome = .ok f
        ∧ l.objects = f.objects ∧ l.period = f.period := by
  obtain ⟨p, hread, hvalid, rfl⟩ := ofText?_eq_some_iff.mp h
  refine ⟨rfl, _, ?_, rfl, rfl⟩
  unfold Verdict.ofTyped
  rw [hread]
  exact Verdict.outcome_of_isValid hvalid

/-- What is sound for a search has the objects the search was for. -/
theorem objects_of_sound {c : Constraints} {s : Sequence} (hs : Sound objects length c s)
    (h : Listing.ofText? s.text = some l) : l.objects = objects := by
  obtain ⟨-, f, hf, hl, -⟩ := outcome_of_ofText? h
  obtain ⟨f', hf', hobjects⟩ := hs.valid
  rw [hf] at hf'
  cases hf'
  rw [hl, hobjects]

-- ================================================================ classics

/-- The classics that stand under a number of objects which is not theirs:
the number, the pattern, and the objects it has. -/
def misplaced : List (Int × String × Int) := [
  (6, "97", 8), (6, "88", 8), (6, "79", 8), (7, "b97531", 6), (7, "99", 9)]

/-- Whether a listing may be given for so many objects: it has as many, or
it is misplaced under them. -/
def Counts (objects : Int) (l : Listing) : Prop :=
  l.objects = objects ∨ (objects, l.pattern, l.objects) ∈ misplaced

/-- The numbers of objects that have classics. -/
def curated : List Int := [3, 4, 5, 6, 7]

theorem mem_curated {text : String} (h : text ∈ classics objects) : objects ∈ curated := by
  by_contra hout
  simp only [curated, List.mem_cons, List.not_mem_nil, or_false, not_or] at hout
  obtain ⟨h₃, h₄, h₅, h₆, h₇⟩ := hout
  unfold classics at h
  rw [if_neg h₃, if_neg h₄, if_neg h₅, if_neg h₆, if_neg h₇] at h
  cases h

/-- A classic stands under another number than its own exactly if it is
among the misplaced. -/
theorem objects_of_classic {text : String} (h : text ∈ classics objects)
    (hl : Listing.ofText? text = some l) :
    l.objects ≠ objects ↔ (objects, text, l.objects) ∈ misplaced := by
  have hall : ∀ n ∈ curated, ∀ text ∈ classics n, ∀ l ∈ Listing.ofText? text,
      l.objects ≠ n ↔ (n, text, l.objects) ∈ misplaced := by decide +kernel
  exact hall objects (mem_curated h) text h l hl

theorem counts_of_classic {text : String} (h : text ∈ classics objects)
    (hl : Listing.ofText? text = some l) : Counts objects l := by
  by_cases hobjects : l.objects = objects
  · exact .inl hobjects
  · have hmem := (objects_of_classic h hl).mp hobjects
    rw [← (outcome_of_ofText? hl).1] at hmem
    exact .inr hmem

-- ============================================================== candidates

/-- What is collected was there before, or was drawn. -/
theorem drawn_of_mem_drawPatterns {σ : Type} {draw : σ → Option Sequence × σ} {n stale : Nat}
    {found : List Sequence} {source : σ} {s : Sequence}
    (h : s ∈ drawPatterns draw n stale found source) :
    s ∈ found ∨ ∃ source, (draw source).1 = some s := by
  induction n generalizing stale found source with
  | zero => exact .inl h
  | succ n ih =>
      unfold drawPatterns at h
      split at h
      case isTrue => exact .inl h
      case isFalse =>
        split at h
        case h_1 => exact .inl h
        case h_2 s' source' hdraw =>
          split at h
          case isTrue => exact ih h
          case isFalse =>
            rcases ih h with hmem | hdrawn
            · rcases List.mem_append.mp hmem with hmem | hnew
              · exact .inl hmem
              · cases List.mem_singleton.mp hnew
                exact .inr ⟨source, congrArg Prod.fst hdraw⟩
            · exact .inr hdrawn

/-- What one search draws is sound. -/
theorem sound_of_drawFrom {σ : Type} {sh : Shuffler σ} {maxSteps : Int} {c : Constraints}
    {source : σ} {s : Sequence}
    (h : (drawFrom sh maxSteps objects length c source).1 = some s) :
    Sound objects length c s := by
  unfold drawFrom at h
  split at h
  case h_1 drawn hgenerate =>
    obtain ⟨found, source'⟩ := drawn
    cases h
    exact Search.sound_of_generate hgenerate
  case h_2 => cases h

/-- All patterns of one length are sound, the drawn and the enumerated. -/
theorem sound_of_mem_patternsOfLength {maxSteps : Int} {c : Constraints}
    {found : List Sequence} {s : Sequence}
    (h : patternsOfLength maxSteps objects length c = .ok found) (hs : s ∈ found) :
    Sound objects length c s := by
  obtain ⟨-, -, h⟩ := bind_eq_ok h
  have hdrawn : ∀ s ∈ drawPatterns (drawFrom Twister.shuffler maxSteps objects length c)
      maxDraws 0 [] (Twister.ofSeed (objects * 1000 + length)), Sound objects length c s := by
    intro s hs
    rcases drawn_of_mem_drawPatterns hs with hnil | ⟨source, hdraw⟩
    · cases hnil
    · exact sound_of_drawFrom hdraw
  dsimp only at h
  split at h
  case isTrue =>
    obtain ⟨more, hmore, h⟩ := bind_eq_ok h
    cases h
    rcases mem_fillUp.mp hs with hs | hs
    · exact hdrawn s hs
    · obtain ⟨hl, hs', hc, hacc⟩ := Search.accepted_of_mem_enumerate hmore hs
      exact Search.sound_of_accepted hl hc hacc
  case isFalse =>
    cases h
    exact hdrawn s hs

/-- A candidate is a classic, or the text of a pattern that is sound for
one of the lengths. -/
theorem classic_or_sound {maxSteps maxLength : Int} {c : Constraints} {texts : List String}
    {text : String} (h : candidates maxSteps objects maxLength c = .ok texts)
    (htext : text ∈ texts) :
    text ∈ classics objects
      ∨ ∃ length s, (1 ≤ length ∧ length ≤ maxLength) ∧ Sound objects length c s
          ∧ text = s.text := by
  obtain ⟨lists, hlists, h⟩ := bind_eq_ok h
  cases h
  rcases List.mem_append.mp htext with hclassic | hfound
  · exact .inl hclassic
  · obtain ⟨s, hs, rfl⟩ := List.mem_map.mp hfound
    obtain ⟨found, hfound, hs⟩ := List.mem_flatten.mp hs
    obtain ⟨length, hmem, hlength⟩ := mem_of_mem_mapM hlists hfound
    exact .inr ⟨length, s, Search.mem_span.mp hmem, sound_of_mem_patternsOfLength hlength hs,
      rfl⟩

-- =================================================================== lists

/-- What is selected is the listing of a candidate, and every candidate
that is valid and meets the request is. -/
theorem mem_select {r : Request} {texts : List String} :
    l ∈ select r texts ↔ (∃ text ∈ texts, Listing.ofText? text = some l) ∧ r.selects l = true := by
  unfold select
  rw [List.mem_mergeSort, List.mem_filter, List.mem_filterMap]
  simp only [List.mem_eraseDups]

theorem searching_eq_ok {α : Type} {result : Except Search.Error α} {a : α}
    (h : searching result = .ok a) : result = .ok a := by
  unfold searching at h
  split at h
  case h_1 =>
    cases h
    rfl
  case h_2 => cases h

/-- What a list gives is the selection from the candidates for it. -/
theorem candidates_of_list {maxSteps : Int} {r : Request} {ls : List Listing}
    (h : list maxSteps r = .ok ls) :
    ∃ c texts,
      Constraints.ofLimitsFor r.objects r.minHeight r.maxHeight r.includeZeros attemptsPerDraw
          = .ok c
        ∧ candidates maxSteps r.objects r.maxLength c = .ok texts
        ∧ ls = select r.resolved texts := by
  obtain ⟨-, -, h⟩ := bind_eq_ok h
  obtain ⟨c, hc, h⟩ := bind_eq_ok h
  obtain ⟨texts, htexts, h⟩ := bind_eq_ok h
  cases h
  exact ⟨c, texts, searching_eq_ok hc, searching_eq_ok htexts, rfl⟩

theorem counts_of_mem_list {maxSteps : Int} {r : Request} {ls : List Listing}
    (h : list maxSteps r = .ok ls) (hl : l ∈ ls) : Counts r.objects l := by
  obtain ⟨c, texts, -, hcandidates, rfl⟩ := candidates_of_list h
  obtain ⟨⟨text, hmem, htext⟩, -⟩ := mem_select.mp hl
  rcases classic_or_sound hcandidates hmem with hclassic | ⟨length, s, -, hs, rfl⟩
  · exact counts_of_classic hclassic htext
  · exact .inl (objects_of_sound hs htext)

/-- Every list under the number of a valid classic has it, if the request
selects it, whatever its own number. -/
theorem mem_list_of_classic {maxSteps : Int} {r : Request} {ls : List Listing} {text : String}
    (h : list maxSteps r = .ok ls) (htext : text ∈ classics r.objects)
    (hl : Listing.ofText? text = some l) : l ∈ ls ↔ r.selects l = true := by
  obtain ⟨c, texts, -, hcandidates, rfl⟩ := candidates_of_list h
  obtain ⟨lists, -, hcandidates⟩ := bind_eq_ok hcandidates
  cases hcandidates
  rw [mem_select]
  constructor
  · exact And.right
  · intro hselects
    exact ⟨⟨text, List.mem_append_left _ htext, hl⟩, hselects⟩

/-- The shelf after some calls. -/
def Shelf.after (maxSteps : Int) (s : Shelf) (calls : List Call) : Shelf :=
  calls.foldl (fun s c => (s.answer maxSteps c).2) s

theorem Shelf.Sound.after {maxSteps : Int} {s : Shelf} (hs : s.Sound maxSteps)
    (calls : List Call) : (s.after maxSteps calls).Sound maxSteps := by
  induction calls generalizing s with
  | nil => exact hs
  | cons c calls ih => exact ih (hs.answer c).2

/-- A catalog that was empty once gives the list that would be made anew. -/
theorem Shelf.list_after {maxSteps : Int} {s : Shelf} (hs : s.memo.entries = [])
    (calls : List Call) (r : Request) :
    ((s.after maxSteps calls).list maxSteps r).1 = Catalog.list maxSteps r :=
  (((Sound.of_empty hs).after calls).list r).1

-- ========================================================= random patterns

variable {σ : Type}

theorem counts_of_randomClassic {ch : Chance σ} {source : σ}
    (h : (randomClassic ch objects source).1 = some l) : Counts objects l := by
  unfold randomClassic at h
  split at h
  case h_1 => cases h
  case h_2 first rest hclassics =>
    refine counts_of_classic ?_ h
    have hlt : (ch.upTo rest.length source).1.val < (first :: rest).length :=
      (ch.upTo rest.length source).1.isLt
    rw [hclassics, List.getD_eq_getElem?_getD, List.getElem?_eq_getElem hlt]
    exact List.getElem_mem hlt

theorem counts_of_random {ch : Chance σ} {maxSteps maxLength : Int} {source : σ}
    (h : (random ch maxSteps objects maxLength source).1 = .ok (some l)) : Counts objects l := by
  unfold random at h
  split at h
  case isTrue => cases h
  case isFalse =>
    dsimp only at h
    split at h
    case h_1 => cases h
    case h_2 s source' hfound =>
      obtain ⟨c, -, hgenerate⟩ := bind_eq_ok hfound
      injection h with h
      exact .inl (objects_of_sound (Search.sound_of_generate hgenerate) h)
    case h_3 source' hfound =>
      injection h with h
      exact counts_of_randomClassic h

-- ================================================================= answers

/-- Every pattern that the catalog gives for a number of objects has that
number of objects or is misplaced under it: in a list for any request, made
anew or by a catalog that has kept lists since it was empty, whatever it was
asked before, and at random from any source. -/
theorem counts_of_answer (maxSteps : Int) :
    (∀ r ls, list maxSteps r = .ok ls → ∀ l ∈ ls, Counts r.objects l)
    ∧ (∀ (s : Shelf) calls r ls, s.memo.entries = [] →
        ((s.after maxSteps calls).list maxSteps r).1 = .ok ls → ∀ l ∈ ls, Counts r.objects l)
    ∧ ∀ (σ : Type) (ch : Chance σ) objects maxLength source l,
        (random ch maxSteps objects maxLength source).1 = .ok (some l) → Counts objects l := by
  refine ⟨fun r ls h l hl => counts_of_mem_list h hl, ?_, ?_⟩
  · intro s calls r ls hs h l hl
    have hsound := (Shelf.Sound.of_empty hs : s.Sound maxSteps).after calls
    rw [(hsound.list r).1] at h
    exact counts_of_mem_list h hl
  · intro σ ch objects maxLength source l h
    exact counts_of_random h

/-- Draws a number each time, or the greatest there is if it is less. -/
def draws (number : Nat) : Chance Unit where
  toShuffler := .inOrder
  upTo n _ := (⟨min number n, by omega⟩, ())

/-- A shelf with room for one list, which is never too old. -/
def shelfForOne : Shelf where
  memo := { maxEntries := 1, maxAge := none, entries := [], one_le_max := by decide }
  clock := .still (.whole 0)

/-- The request for classics alone. -/
def classicsAlone (objects : Int) : Request :=
  { Request.plain objects with maxLength := 0 }

/-- Three objects: the list of classics, made anew and kept, has `531`, and
`423` is drawn. -/
theorem threeObjects_counted :
    (∃ ls, (list 0 (classicsAlone 3) = .ok ls ∧ ∀ l ∈ ls, Counts 3 l)
      ∧ shelfForOne.memo.entries = []
      ∧ (((shelfForOne.after 0 [.list (classicsAlone 3)]).list 0 (classicsAlone 3)).1 = .ok ls
        ∧ ∀ l ∈ ls, Counts 3 l)
      ∧ ∃ l ∈ ls, l.pattern = "531")
    ∧ ∃ l, (random (draws 1) 0 3 1 ()).1 = .ok (some l) ∧ l.pattern = "423" ∧ Counts 3 l := by
  obtain ⟨hmade, hkept, hdrawn⟩ := counts_of_answer 0
  have hempty : shelfForOne.memo.entries = [] := rfl
  obtain ⟨ls, hls⟩ : ∃ ls, list 0 (classicsAlone 3) = .ok ls := ⟨_, rfl⟩
  have hagain :
      ((shelfForOne.after 0 [.list (classicsAlone 3)]).list 0 (classicsAlone 3)).1 = .ok ls := by
    rw [(((Shelf.Sound.of_empty hempty).after _).list _).1, hls]
  obtain ⟨l, hl, hselects⟩ : ∃ l, Listing.ofText? "531" = some l
      ∧ (classicsAlone 3).selects l = true := ⟨_, rfl, by decide +kernel⟩
  obtain ⟨l', hl', hpattern⟩ : ∃ l, (random (draws 1) 0 3 1 ()).1 = .ok (some l)
      ∧ l.pattern = "423" := ⟨_, rfl, by decide +kernel⟩
  refine ⟨⟨ls, ⟨hls, hmade _ ls hls⟩, hempty, ⟨hagain, hkept _ _ _ ls hempty hagain⟩, l, ?_, ?_⟩,
    l', hl', hpattern, hdrawn _ _ _ _ _ l' hl'⟩
  · exact (mem_list_of_classic hls (by decide) hl).mpr hselects
  · exact (outcome_of_ofText? hl).1

/-- A list of the classics for seven objects has `99`, and chance may draw
it, with nine objects. -/
theorem misplaced_answered :
    (¬ ∀ r ls, list 0 r = .ok ls → ∀ l ∈ ls, l.objects = r.objects)
    ∧ ¬ ∀ l, (random (draws 6) 0 7 1 ()).1 = .ok (some l) → l.objects = 7 := by
  constructor
  · intro hall
    obtain ⟨ls, hls⟩ : ∃ ls, list 0 (classicsAlone 7) = .ok ls := ⟨_, rfl⟩
    obtain ⟨l, hl, hselects, hobjects⟩ : ∃ l, Listing.ofText? "99" = some l
        ∧ (classicsAlone 7).selects l = true ∧ l.objects = 9 := ⟨_, rfl, by decide +kernel⟩
    have hmem := (mem_list_of_classic hls (by decide) hl).mpr hselects
    have hseven : l.objects = 7 := hall _ ls hls l hmem
    omega
  · intro hall
    obtain ⟨l, hl, hobjects⟩ : ∃ l, (random (draws 6) 0 7 1 ()).1 = .ok (some l)
        ∧ l.objects = 9 := ⟨_, rfl, by decide +kernel⟩
    have hseven := hall l hl
    omega

end Catalog

end Siteswap
