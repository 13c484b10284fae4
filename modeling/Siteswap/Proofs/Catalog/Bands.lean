/-
The bands of difficulty cut every list into three.

Whatever else is asked for, the list of a band is the list of all
difficulties without what is of another level, in the same order
(`list_of_level`). So a pattern of the whole list is in the list of one
level and of no other.

# Two ways to tell a level

A label goes by two thresholds (`Difficulty.level`), a request by the ends of
a band (`InBand`). They agree on all grades (`inBand_name_iff`), for a grade
is clamped: it is not below the lowest band, and no greater than what the
highest includes.

# One order

What is listed stands in an order that the candidates settle
(`Listing.Before`), and the candidates do not depend on the difficulty. Two
lists in that order are equal as soon as they have the same members, so it
makes no difference whether one selects a level before sorting or after
(`select_level`).
-/
import Mathlib.Tactic.NormNum
import Siteswap.Proofs.Catalog.Selection

namespace Siteswap

namespace Difficulty

-- ================================================================ grades

/-- A grade is never below 1 and never above 10. -/
theorem clamp_bounds (q : Rat) : 1 ≤ clamp q ∧ clamp q ≤ 10 := by
  unfold clamp
  split
  case isTrue => norm_num
  case isFalse hlow =>
    split
    case isTrue => norm_num
    case isFalse hhigh => exact ⟨not_lt.mp hlow, not_lt.mp hhigh⟩

theorem level_eq_iff {q : Rat} {d : Level} :
    level q = d ↔ d = .easy ∧ q < 3 ∨ d = .medium ∧ 3 ≤ q ∧ q < 6 ∨ d = .hard ∧ 6 ≤ q := by
  unfold level
  split
  case isTrue heasy =>
    have hsix : q < 6 := heasy.trans (by norm_num)
    simp [heasy, not_le.mpr heasy, not_le.mpr hsix, eq_comm]
  case isFalse heasy =>
    split
    case isTrue hmedium => simp [heasy, not_lt.mp heasy, hmedium, not_le.mpr hmedium, eq_comm]
    case isFalse hmedium => simp [heasy, hmedium, not_lt.mp hmedium, eq_comm]

end Difficulty

namespace Catalog

open Difficulty (Level level)

variable {maxSteps : Int} {r : Request} {d : Level} {l : Listing}

-- ================================================================= bands

/-- The band of a level holds the grades of that level. -/
theorem inBand_name_iff {q : Rat} (hlow : 1 ≤ q) (hhigh : q ≤ 10) :
    InBand d.name q ↔ level q = d := by
  have hzero : 0 ≤ q := le_trans (by norm_num) hlow
  rw [Difficulty.level_eq_iff]
  unfold InBand
  cases d with
  | easy => simp [Level.name, hzero]
  | medium => simp [Level.name]
  | hard => simp [Level.name, hhigh]

theorem difficulty_bounds {text : String} (h : Listing.ofText? text = some l) :
    1 ≤ l.difficulty ∧ l.difficulty ≤ 10 := by
  obtain ⟨p, -, -, rfl⟩ := ofText?_eq_some_iff.mp h
  exact Difficulty.clamp_bounds _

-- ============================================================== requests

namespace Request

/-- The request for patterns of the level `d`, otherwise as before. -/
def ofLevel (r : Request) (d : Level) : Request :=
  { r with difficulty := d.name }

/-- The request for patterns of all levels, otherwise as before. -/
def ofAllLevels (r : Request) : Request :=
  { r with difficulty := unspecified }

theorem check_ofLevel (r : Request) (d : Level) : (r.ofLevel d).check = .ok () := by
  cases d <;> rfl

theorem check_ofAllLevels (r : Request) : r.ofAllLevels.check = .ok () := rfl

end Request

/-- A listing meets a request for a level if it meets the request for all
levels and is of that level. -/
theorem selects_ofLevel {text : String} (h : Listing.ofText? text = some l) :
    (r.ofLevel d).selects l = true
      ↔ r.ofAllLevels.selects l = true ∧ level l.difficulty = d := by
  obtain ⟨hlow, hhigh⟩ := difficulty_bounds h
  have hname : d.name ≠ "any" := by cases d <;> decide
  rw [selects_iff, selects_iff, ← inBand_name_iff hlow hhigh]
  constructor
  · intro hmeets
    exact ⟨⟨hmeets.dialect, .inl rfl, hmeets.zeros⟩, hmeets.difficulty.resolve_left hname⟩
  · rintro ⟨hmeets, hband⟩
    exact ⟨hmeets.dialect, .inr hband, hmeets.zeros⟩

-- ================================================================= lists

/-- The listings of one level. -/
def ofLevel (d : Level) (ls : List Listing) : List Listing :=
  ls.filter fun l => level l.difficulty = d

theorem mem_ofLevel {ls : List Listing} : l ∈ ofLevel d ls ↔ l ∈ ls ∧ level l.difficulty = d := by
  unfold ofLevel
  rw [List.mem_filter, decide_eq_true_iff]

/-- Selecting a level among candidates leaves what is of that level among all
that is selected. -/
theorem select_level (r : Request) (d : Level) (texts : List String) :
    select (r.ofLevel d) texts = ofLevel d (select r.ofAllLevels texts) := by
  have : Std.Irrefl (Listing.Before texts) := ⟨fun _ hab => hab.asymm hab⟩
  have : Std.Antisymm (Listing.Before texts) := ⟨fun _ _ hab hba => absurd hba hab.asymm⟩
  refine (pairwise_select _ texts).eq_of_mem_iff ((pairwise_select _ texts).filter _) fun l => ?_
  rw [mem_ofLevel, mem_select, mem_select, and_assoc]
  exact and_congr_right fun ⟨_, _, htext⟩ => selects_ofLevel htext

/-- The candidates do not depend on the level, so neither does what fails. -/
theorem list_level (maxSteps : Int) (r : Request) (d : Level) :
    list maxSteps (r.ofLevel d) = (list maxSteps r.ofAllLevels).map (ofLevel d) := by
  rw [list_eq, list_eq, Request.check_ofLevel, Request.check_ofAllLevels]
  dsimp only [compute, Request.ofLevel, Request.ofAllLevels, Request.resolved]
  cases searching (Search.Constraints.ofLimitsFor r.objects r.minHeight
    (some (r.maxHeight.getD (Search.defaultMaxHeight r.objects r.minHeight))) r.includeZeros
    attemptsPerDraw) with
  | error e => rfl
  | ok c =>
      dsimp only [bind, Except.bind]
      cases searching (candidates maxSteps r.objects r.maxLength c) with
      | error e => rfl
      | ok texts => exact congrArg Except.ok (select_level r.resolved d texts)

/-- What is listed for all levels is listed for its own level and for no
other. -/
theorem exists_unique_level {ls : List Listing} (h : list maxSteps r.ofAllLevels = .ok ls)
    (hl : l ∈ ls) : ∃! d, ∃ ls', list maxSteps (r.ofLevel d) = .ok ls' ∧ l ∈ ls' := by
  have hlevel : ∀ d, (∃ ls', list maxSteps (r.ofLevel d) = .ok ls' ∧ l ∈ ls')
      ↔ level l.difficulty = d := by
    intro d
    rw [list_level, h]
    constructor
    · rintro ⟨ls', hls', hl'⟩
      cases hls'
      exact (mem_ofLevel.mp hl').2
    · intro hd
      exact ⟨_, rfl, mem_ofLevel.mpr ⟨hl, hd⟩⟩
  refine ⟨level l.difficulty, (hlevel _).mpr rfl, fun d hd => ?_⟩
  exact ((hlevel d).mp hd).symm

theorem difficulty_of_mem_list {ls : List Listing} (h : list maxSteps r = .ok ls) (hl : l ∈ ls) :
    1 ≤ l.difficulty ∧ l.difficulty ≤ 10 := by
  obtain ⟨c, texts, -, -, rfl⟩ := candidates_of_list h
  obtain ⟨⟨text, -, htext⟩, -⟩ := mem_select.mp hl
  exact difficulty_bounds htext

/-- Whatever else is asked for, the list of a level is the list of all levels
without what is of another level, made anew or by catalogs that have kept
lists since they were empty. What the whole list has is of a grade from 1 to
10, and in the list of one level alone. -/
theorem list_of_level (maxSteps : Int) (r : Request) :
    (∀ d, list maxSteps (r.ofLevel d) = (list maxSteps r.ofAllLevels).map (ofLevel d))
    ∧ (∀ (s s' : Shelf) calls calls' d, s.memo.entries = [] → s'.memo.entries = [] →
        ((s.after maxSteps calls).list maxSteps (r.ofLevel d)).1
          = ((s'.after maxSteps calls').list maxSteps r.ofAllLevels).1.map (ofLevel d))
    ∧ ∀ ls, list maxSteps r.ofAllLevels = .ok ls → ∀ l ∈ ls,
        (1 ≤ l.difficulty ∧ l.difficulty ≤ 10)
        ∧ ∃! d, ∃ ls', list maxSteps (r.ofLevel d) = .ok ls' ∧ l ∈ ls' := by
  refine ⟨list_level maxSteps r, fun s s' calls calls' d hs hs' => ?_, fun ls h l hl => ?_⟩
  · rw [Shelf.list_after hs, Shelf.list_after hs', list_level]
  · exact ⟨difficulty_of_mem_list h hl, exists_unique_level h hl⟩

/-- The classics of three objects have `531`, which is in the list of one
level. A catalog that has listed all of them before gives for each level what
is of that level. -/
theorem threeObjects_of_level :
    ∃ ls l, list 0 (classicsAlone 3).ofAllLevels = .ok ls ∧ l ∈ ls ∧ l.pattern = "531"
      ∧ ((1 ≤ l.difficulty ∧ l.difficulty ≤ 10)
        ∧ ∃! d, ∃ ls', list 0 ((classicsAlone 3).ofLevel d) = .ok ls' ∧ l ∈ ls')
      ∧ shelfForOne.memo.entries = []
      ∧ ∀ d, ((shelfForOne.after 0 [.list (classicsAlone 3)]).list 0
            ((classicsAlone 3).ofLevel d)).1
          = ((shelfForOne.after 0 []).list 0 (classicsAlone 3).ofAllLevels).1.map
              (ofLevel d) := by
  have hempty : shelfForOne.memo.entries = [] := rfl
  obtain ⟨ls, hls⟩ : ∃ ls, list 0 (classicsAlone 3).ofAllLevels = .ok ls := ⟨_, rfl⟩
  obtain ⟨l, hl, hselects⟩ : ∃ l, Listing.ofText? "531" = some l
      ∧ (classicsAlone 3).ofAllLevels.selects l = true := ⟨_, rfl, by decide +kernel⟩
  have hmem : l ∈ ls := (mem_list_of_classic hls (by decide) hl).mpr hselects
  obtain ⟨-, hkept, hwhole⟩ := list_of_level 0 (classicsAlone 3)
  exact ⟨ls, l, hls, hmem, (outcome_of_ofText? hl).1, hwhole ls hls l hmem, hempty,
    fun d => hkept _ _ _ _ d hempty hempty⟩

end Catalog

end Siteswap
