/-
Labels of what was typed and of its normal form.

A typed pattern and its normal form are one pattern, so the catalog gives
them the same figures. Their labels may differ, for a description and tags
look at the text that is shown. `labels_of_normal` says when they do. The
description is another exactly for a single throw that was not typed in
normal form. Of the tags of the normal form some may be missing, and none is
added.

# What a label looks for

The one-throw spelling of a cascade or fountain, a `1` at the end, a `4`
before a `2`: whatever is found in the typed text is found in its normal
form too, which keeps every character of the notation and loses what stands
between. The spelling is found in a text of one throw alone, and only if
that text is its own normal form (`eq_solo_iff`).

# Case alone

Only the digit itself has a digit as its lower case (`eq_of_mem_lowerChar`).
So where nothing was dropped, digits stand where they stood, and longer
patterns have the labels of their normal form.
-/
import Siteswap.Proofs.Catalog.Objects

namespace Siteswap

namespace Label

-- ================================================================ labels

variable {shown shown' : String} {a : Analysis}

theorem describe_eq_iff : describe shown a = describe shown' a ↔ kind shown a = kind shown' a := by
  unfold describe
  rw [String.append_left_inj, String.append_left_inj, String.append_left_inj,
    String.append_right_inj]

/-- An async pattern is called otherwise if it is shown as a single throw. -/
theorem kind_eq_iff : kind shown a = kind shown' a
    ↔ (a.dialect = .async → (some shown = solo? a.objects ↔ some shown' = solo? a.objects)) := by
  unfold kind
  cases a.dialect with
  | sync => exact iff_of_true rfl nofun
  | multiplex => exact iff_of_true rfl nofun
  | invalid => exact iff_of_true rfl nofun
  | async =>
      have hne : (if a.objects.fmod 2 = 0 then "fountain" else "cascade")
          ≠ if a.maxHeight > a.objects + 2 then "high throw pattern" else "cascade variation" := by
        split
        all_goals
          split
          all_goals decide
      rw [forall_prop_of_true rfl]
      by_cases hs : some shown = solo? a.objects
      · by_cases hs' : some shown' = solo? a.objects
        · exact iff_of_true (by rw [if_pos hs, if_pos hs']) (iff_of_true hs hs')
        · refine iff_of_false ?_ fun h => hs' (h.mp hs)
          rw [if_pos hs, if_neg hs']
          exact hne
      · by_cases hs' : some shown' = solo? a.objects
        · refine iff_of_false ?_ fun h => hs (h.mpr hs')
          rw [if_neg hs, if_pos hs']
          exact hne.symm
        · exact iff_of_true (by rw [if_neg hs, if_neg hs']) (iff_of_false hs hs')

/-- The tags that figures alone decide. -/
def figureTags (a : Analysis) : List String :=
  [toString a.objects ++ "-ball", a.dialect.name, (Difficulty.level a.difficulty).audience]
    ++ (if a.hasSynchronous then ["synchronous"] else [])
    ++ (if a.maxHeight > a.objects + 3 then ["high-throws"] else [])
    ++ (if a.throws.contains 0 then ["gaps"] else [])

/-- The tags for what is found in the text. -/
def marks (solo one fourTwo : Bool) : List String :=
  (if solo then ["cascade"] else [])
    ++ ((if one then ["shower"] else []) ++ (if fourTwo then ["columns"] else []))

theorem marks_eq_iff : ∀ {f g h f' g' h' : Bool},
    marks f g h = marks f' g' h' ↔ f = f' ∧ g = g' ∧ h = h' := by
  decide

theorem marks_sublist : ∀ {f g h f' g' h' : Bool}, (f → f') → (g → g') → (h → h') →
    (marks f g h).Sublist (marks f' g' h') := by
  decide

theorem tags_eq (shown : String) (a : Analysis) :
    tags shown a = figureTags a ++ marks (some shown = solo? a.objects)
      (a.dialect = .async ∧ shown.toList.getLast? = some '1')
      (holdsFourTwo shown.toList) := by
  unfold tags figureTags marks
  simp only [List.append_assoc, decide_eq_true_iff]

theorem getLast?_eq_some_iff_suffix {s : List Char} {c : Char} :
    s.getLast? = some c ↔ [c] <:+ s := by
  rw [List.getLast?_eq_some_iff]
  exact exists_congr fun _ => eq_comm

theorem holdsFourTwo_iff {s : List Char} : holdsFourTwo s = true ↔ ['4', '2'] <:+: s := by
  fun_induction holdsFourTwo s with
  | case1 rest => exact iff_of_true rfl ⟨[], rest, rfl⟩
  | case2 c rest hother ih =>
      rw [ih, List.infix_cons_iff, or_iff_right]
      rintro ⟨rest', heq⟩
      cases heq
      exact hother _ rfl rfl
  | case3 => exact iff_of_false nofun fun h => nomatch List.eq_nil_of_infix_nil h

/-- Texts of one pattern have the same tags iff the same is found in both. -/
theorem tags_eq_iff : tags shown a = tags shown' a
    ↔ (some shown = solo? a.objects ↔ some shown' = solo? a.objects)
      ∧ (a.dialect = .async → (['1'] <:+ shown.toList ↔ ['1'] <:+ shown'.toList))
      ∧ (['4', '2'] <:+: shown.toList ↔ ['4', '2'] <:+: shown'.toList) := by
  rw [tags_eq, tags_eq, List.append_cancel_left_eq, marks_eq_iff, decide_eq_decide,
    decide_eq_decide, ← holdsFourTwo_iff, ← holdsFourTwo_iff, ← Bool.eq_iff_iff,
    getLast?_eq_some_iff_suffix, getLast?_eq_some_iff_suffix]
  simp only [and_congr_right_iff]

theorem tags_sublist (hsolo : some shown = solo? a.objects → some shown' = solo? a.objects)
    (hone : ['1'] <:+ shown.toList → ['1'] <:+ shown'.toList)
    (hfourTwo : ['4', '2'] <:+: shown.toList → ['4', '2'] <:+: shown'.toList) :
    (tags shown a).Sublist (tags shown' a) := by
  rw [tags_eq, tags_eq]
  refine (List.Sublist.refl _).append (marks_sublist ?_ ?_ ?_)
  · simpa only [decide_eq_true_iff] using hsolo
  · simpa only [decide_eq_true_iff, getLast?_eq_some_iff_suffix] using And.imp_right hone
  · simpa only [holdsFourTwo_iff] using hfourTwo

end Label

namespace Text

-- ================================================================== case

theorem toNat_of_isDigit {c : Char} (h : c.isDigit = true) : 48 ≤ c.toNat ∧ c.toNat ≤ 57 := by
  unfold Char.isDigit at h
  rw [Bool.and_eq_true, decide_eq_true_iff, decide_eq_true_iff] at h
  exact h

/-- No run of capitals lowers to digits. -/
theorem digits_lt_of_covers {r : CaseRun} (hr : r ∈ caseRuns) {n : Nat}
    (h : r.covers n = true) : 57 < n + r.shift := by
  have hall : ∀ r ∈ caseRuns, 57 < r.first + r.shift := by decide +kernel
  have hfirst := hall r hr
  unfold CaseRun.covers at h
  rw [Bool.and_eq_true, Bool.and_eq_true, decide_eq_true_iff] at h
  omega

theorem not_isDigit_ofNat {n : Nat} (h : 57 < n) : ¬ (Char.ofNat n).isDigit = true := by
  intro hdigit
  have hrange := toNat_of_isDigit hdigit
  by_cases hvalid : n.isValidChar
  · have hn : (Char.ofNat n).toNat = n := by
      rw [Char.ofNat, dif_pos hvalid]
      rfl
    omega
  · rw [Char.ofNat, dif_neg hvalid] at hrange
    exact absurd hrange.1 (by decide)

/-- A digit is the lower case of itself alone. -/
theorem eq_of_mem_lowerChar {c d : Char} (h : d ∈ lowerChar c) (hd : d.isDigit = true) :
    d = c := by
  unfold lowerChar at h
  dsimp only at h
  split at h
  case isTrue =>
    rw [List.mem_singleton] at h
    split at h
    case isTrue hupper =>
      rw [h] at hd
      exact absurd hd (not_isDigit_ofNat (by omega))
    case isFalse => exact h
  case isFalse =>
    split at h
    case isTrue =>
      rcases List.mem_cons.mp h with rfl | h
      · exact absurd hd (by decide)
      · rw [List.mem_singleton.mp h] at hd
        exact absurd hd (by decide)
    case isFalse =>
      split at h
      case h_1 r hr =>
        rw [List.mem_singleton] at h
        have hcovers := List.find?_some hr
        have hlt := digits_lt_of_covers (List.mem_of_find?_eq_some hr) hcovers
        rw [h] at hd
        exact absurd hd (not_isDigit_ofNat (by omega))
      case h_2 => exact List.mem_singleton.mp h

/-- The character that a character lowers to, the first where there are
two. -/
def small (c : Char) : Char :=
  (lowerChar c).headD c

/-- Where no character becomes two, the second of which is a mark, each
lowers to one. -/
theorem lower_eq_map {s : List Char} (h : '\u0307' ∉ lower s) : lower s = s.map small := by
  unfold lower at h ⊢
  rw [List.map_eq_flatMap]
  refine List.flatMap_congr fun c hc => ?_
  have hmark : '\u0307' ∉ lowerChar c := fun hmem => h (List.mem_flatMap.mpr ⟨c, hc, hmem⟩)
  unfold small
  unfold lowerChar at hmark ⊢
  dsimp only at hmark ⊢
  split
  case isTrue => rfl
  case isFalse hbig =>
    rw [if_neg hbig] at hmark
    split
    case isTrue htwo =>
      rw [if_pos htwo] at hmark
      exact absurd (by decide) hmark
    case isFalse => split <;> rfl

theorem map_small_eq {w : List Char} (h : ∀ d ∈ w.map small, d.isDigit = true) :
    w.map small = w := by
  refine (List.map_congr_left fun c hc => ?_).trans (List.map_id w)
  have hdigit := h (small c) (List.mem_map_of_mem hc)
  unfold small at hdigit ⊢
  cases hlower : lowerChar c with
  | nil => rfl
  | cons d ds =>
      rw [hlower] at hdigit
      have hmem : d ∈ lowerChar c := by
        rw [hlower]
        exact List.mem_cons_self
      exact eq_of_mem_lowerChar hmem hdigit

variable {w s : List Char}

/-- Digits of the lowered text are digits of the text. -/
theorem infix_of_lower (hmark : '\u0307' ∉ lower s) (hw : ∀ d ∈ w, d.isDigit = true)
    (h : w <:+: lower s) : w <:+: s := by
  rw [lower_eq_map hmark] at h
  obtain ⟨v, hv, rfl⟩ := List.infix_map_iff.mp h
  rwa [map_small_eq hw]

theorem suffix_of_lower (hmark : '\u0307' ∉ lower s) (hw : ∀ d ∈ w, d.isDigit = true)
    (h : w <:+ lower s) : w <:+ s := by
  rw [lower_eq_map hmark] at h
  obtain ⟨v, hv, rfl⟩ := List.suffix_map_iff.mp h
  rwa [map_small_eq hw]

end Text

namespace Pattern

-- =========================================================== normal forms

variable {w s : List Char}

theorem normalize_append (s t : List Char) :
    normalize (s ++ t) = normalize s ++ normalize t := by
  unfold normalize Text.lower
  rw [List.flatMap_append, List.filter_append]

/-- What stands together in the notation stays together. -/
theorem infix_normalize (hw : ∀ c ∈ w, isNotation c = true) (h : w <:+: s) :
    w <:+: normalize s := by
  obtain ⟨before, after, rfl⟩ := h
  rw [normalize_append, normalize_append, normalize_eq_self hw]
  exact ⟨_, _, rfl⟩

theorem suffix_normalize (hw : ∀ c ∈ w, isNotation c = true) (h : w <:+ s) :
    w <:+ normalize s := by
  obtain ⟨before, rfl⟩ := h
  rw [normalize_append, normalize_eq_self hw]
  exact List.suffix_append _ _

/-- In one character there is room for an async pattern alone. -/
theorem async_of_length_one {x : Typed} {p : Pattern} (h : read x = .ok p)
    (hone : p.text.length = 1) : p.dialect = .async := by
  obtain ⟨hne, -, hnormal⟩ := ofNormal_text h
  obtain ⟨d, ls, hw, hp⟩ := (ofNormal_eq_ok_iff hne).mp hnormal
  rw [hp]
  cases hw with
  | async => rfl
  | sync hne hpairs =>
      have hlong := hpairs.long hne
      omega
  | multiplex hgroup hgroups =>
      obtain ⟨c, -, htext, -⟩ := hgroups.bracketed hgroup (by omega)
      rw [htext] at hone
      cases hone

end Pattern

namespace Label

-- ======================================================== single throws

/-- The one-throw spelling is shown where it is the normal form. -/
theorem eq_solo_iff {shown : String} {p : Pattern} (h : Pattern.read (some shown) = .ok p) :
    some shown = solo? (Verdict.figures p.throws).objects
      ↔ p.normalText.length = 1 ∧ shown = p.normalText := by
  constructor
  · intro hsolo
    unfold solo? at hsolo
    split at hsolo
    case isFalse => cases hsolo
    case isTrue hin =>
      obtain rfl := Option.some.inj hsolo
      have hletters : ∀ c ∈ [Sequence.letter (Verdict.figures p.throws).objects],
          Pattern.isNotation c = true := by
        rintro c hc
        rw [List.mem_singleton.mp hc]
        exact Pattern.isNotation_of_isLetter (Sequence.isLetter_letter hin.1 hin.2)
      have htext := Pattern.text_eq_normalize h
      rw [Option.getD_some, Sequence.spell, String.toList_ofList, List.map_singleton,
        Pattern.normalize_eq_self hletters] at htext
      unfold Pattern.normalText
      rw [htext]
      exact ⟨String.length_ofList, rfl⟩
  · rintro ⟨hone, hshown⟩
    have htext : p.text.length = 1 := by
      rw [← hone, Pattern.normalText, String.length_ofList]
    have hasync := Pattern.async_of_length_one h htext
    rw [← Pattern.length_of_async h hasync] at htext
    obtain ⟨n, hn⟩ := List.length_eq_one_iff.mp htext
    have hin := p.throws.inRange n (hn ▸ List.mem_singleton_self n)
    have hobjects : (Verdict.figures p.throws).objects = n := by
      unfold Verdict.figures Sequence.total Sequence.period
      rw [hn]
      exact (Int.fdiv_one _).trans (Int.add_zero n)
    rw [hobjects, solo?, if_pos hin, hshown, Pattern.normalText_of_async h hasync,
      Sequence.text, hn]

variable {shown : String} {p : Pattern}

/-- Text and normal form are alike in this, unless the normal form is a single
throw and was not typed. -/
theorem solo_iff_solo (h : Pattern.read (some shown) = .ok p) :
    (some shown = solo? (Verdict.figures p.throws).objects
        ↔ some p.normalText = solo? (Verdict.figures p.throws).objects)
      ↔ (p.normalText.length = 1 → shown = p.normalText) := by
  rw [eq_solo_iff h, eq_solo_iff (Pattern.read_normalText h)]
  constructor
  · exact fun hiff hone => (hiff.mpr ⟨hone, rfl⟩).2
  · exact fun hshown => ⟨fun hone => ⟨hone.1, rfl⟩, fun hone => ⟨hone.1, hshown hone.1⟩⟩

-- ================================================= text and normal form

theorem toList_normalText (h : Pattern.read (some shown) = .ok p) :
    p.normalText.toList = Pattern.normalize shown.toList := by
  rw [Pattern.normalText, String.toList_ofList, Pattern.text_eq_normalize h, Option.getD_some]

theorem one_of_shown (h : Pattern.read (some shown) = .ok p) (hone : ['1'] <:+ shown.toList) :
    ['1'] <:+ p.normalText.toList := by
  rw [toList_normalText h]
  exact Pattern.suffix_normalize (List.all_eq_true.mp (by decide)) hone

theorem fourTwo_of_shown (h : Pattern.read (some shown) = .ok p)
    (hfourTwo : ['4', '2'] <:+: shown.toList) : ['4', '2'] <:+: p.normalText.toList := by
  rw [toList_normalText h]
  exact Pattern.infix_normalize (List.all_eq_true.mp (by decide)) hfourTwo

theorem describe_eq_normal_iff (h : Pattern.read (some shown) = .ok p) :
    describe shown (.ofFigures p (Verdict.figures p.throws))
        = describe p.normalText (.ofFigures p (Verdict.figures p.throws))
      ↔ (p.normalText.length = 1 → shown = p.normalText) := by
  rw [describe_eq_iff, kind_eq_iff]
  constructor
  · intro hkind hlength
    have htext : p.text.length = 1 := by
      rw [← hlength, Pattern.normalText, String.length_ofList]
    exact (solo_iff_solo h).mp (hkind (Pattern.async_of_length_one h htext)) hlength
  · exact fun hshown _ => (solo_iff_solo h).mpr hshown

theorem tags_eq_normal_iff (h : Pattern.read (some shown) = .ok p) :
    tags shown (.ofFigures p (Verdict.figures p.throws))
        = tags p.normalText (.ofFigures p (Verdict.figures p.throws))
      ↔ (p.normalText.length = 1 → shown = p.normalText)
        ∧ (p.dialect = .async → ['1'] <:+ p.normalText.toList → ['1'] <:+ shown.toList)
        ∧ (['4', '2'] <:+: p.normalText.toList → ['4', '2'] <:+: shown.toList) := by
  rw [tags_eq_iff]
  refine and_congr (solo_iff_solo h) (and_congr (forall_congr' fun _ => ?_) ?_)
  · exact ⟨Iff.mpr, fun hback => ⟨one_of_shown h, hback⟩⟩
  · exact ⟨Iff.mpr, fun hback => ⟨fourTwo_of_shown h, hback⟩⟩

theorem tags_sublist_normal (h : Pattern.read (some shown) = .ok p) :
    (tags shown (.ofFigures p (Verdict.figures p.throws))).Sublist
      (tags p.normalText (.ofFigures p (Verdict.figures p.throws))) := by
  refine tags_sublist (fun hshown => ?_) (one_of_shown h) (fourTwo_of_shown h)
  rw [(eq_solo_iff h).mp hshown |>.2] at hshown
  exact hshown

/-- Where nothing was dropped, digits stand where they stood. -/
theorem digits_of_lower (h : Pattern.read (some shown) = .ok p)
    (hlower : Text.lower shown.toList = p.normalText.toList) :
    (['1'] <:+ p.normalText.toList → ['1'] <:+ shown.toList)
      ∧ (['4', '2'] <:+: p.normalText.toList → ['4', '2'] <:+: shown.toList) := by
  have hmark : '\u0307' ∉ Text.lower shown.toList := by
    rw [hlower, toList_normalText h]
    intro hmem
    exact absurd (Pattern.isNotation_of_mem_normalize hmem) (by decide)
  rw [← hlower]
  exact ⟨Text.suffix_of_lower hmark (List.all_eq_true.mp (by decide)),
    Text.infix_of_lower hmark (List.all_eq_true.mp (by decide))⟩

end Label

namespace Catalog

-- ================================================================ listings

/-- Whatever text is listed, its normal form is listed too, with the same
figures. The description is the same iff a single throw was typed in normal
form. The tags are the same iff moreover, where the normal form of an async
pattern ends in `1`, so does the text, and where the normal form has a `42`,
so does the text; tags may be missing but are never added. Longer patterns
that differ from their normal form in case alone have the same labels. -/
theorem labels_of_normal {shown : String} {l : Listing} (h : Listing.ofText? shown = some l) :
    ∃ normal l', normal.toList = Pattern.normalize shown.toList
      ∧ Listing.ofText? normal = some l'
      ∧ l.objects = l'.objects ∧ l.period = l'.period ∧ l.difficulty = l'.difficulty
      ∧ l.dialect = l'.dialect
      ∧ (l.description = l'.description ↔ (normal.length = 1 → shown = normal))
      ∧ (l.tags = l'.tags ↔ (normal.length = 1 → shown = normal)
        ∧ (l.dialect = .async → ['1'] <:+ normal.toList → ['1'] <:+ shown.toList)
        ∧ (['4', '2'] <:+: normal.toList → ['4', '2'] <:+: shown.toList))
      ∧ l.tags.Sublist l'.tags
      ∧ (Text.lower shown.toList = normal.toList → normal.length ≠ 1 →
        l.description = l'.description ∧ l.tags = l'.tags) := by
  obtain ⟨p, hread, hvalid, rfl⟩ := ofText?_eq_some_iff.mp h
  have hlisted := ofText?_eq_some_iff.mpr ⟨p, Pattern.read_normalText hread, hvalid, rfl⟩
  refine ⟨p.normalText, _, Label.toList_normalText hread, hlisted, rfl, rfl, rfl, rfl,
    Label.describe_eq_normal_iff hread, Label.tags_eq_normal_iff hread,
    Label.tags_sublist_normal hread, fun hlower hlong => ?_⟩
  have hshort : p.normalText.length = 1 → shown = p.normalText := fun hone => absurd hone hlong
  obtain ⟨hone, hfourTwo⟩ := Label.digits_of_lower hread hlower
  exact ⟨(Label.describe_eq_normal_iff hread).mpr hshort,
    (Label.tags_eq_normal_iff hread).mpr ⟨hshort, fun _ => hone, hfourTwo⟩⟩

/-- Typed with a space in it, `423` has the same description and lacks a tag. -/
theorem spaced_labelled :
    ∃ l l', Listing.ofText? "4 23" = some l ∧ Listing.ofText? "423" = some l'
      ∧ l.description = l'.description ∧ l.tags ≠ l'.tags := by
  obtain ⟨l, hl⟩ : ∃ l, Listing.ofText? "4 23" = some l := ⟨_, rfl⟩
  obtain ⟨normal, l', hnormal, hl', -, -, -, -, hdescription, htags, -, -⟩ := labels_of_normal hl
  obtain rfl : normal = "423" := String.toList_inj.mp (hnormal.trans (by decide))
  refine ⟨l, l', hl, hl', hdescription.mpr fun hone => absurd hone (by decide), fun heq => ?_⟩
  have hfourTwo : ['4', '2'] <:+: "4 23".toList := (htags.mp heq).2.2 (by decide)
  exact absurd hfourTwo (by decide)

/-- The cascade of eleven objects. -/
def eleven : Pattern where
  dialect := .async
  throws := ⟨[11], by decide⟩
  text := ['b']

/-- `B` is read as `b`, but only `b` is called a cascade. -/
theorem capital_mislabelled :
    ¬ ∀ (shown normal : String) (l l' : Listing),
        normal.toList = Pattern.normalize shown.toList → Listing.ofText? shown = some l →
        Listing.ofText? normal = some l' → l.description = l'.description ∧ l.tags = l'.tags := by
  intro hall
  have hread : Pattern.read (some "B") = .ok eleven := by decide +kernel
  have hvalid : (Verdict.ofPattern eleven).isValid = true := by decide +kernel
  have hcapital := ofText?_eq_some_iff.mpr ⟨eleven, hread, hvalid, rfl⟩
  have hsmall := ofText?_eq_some_iff.mpr ⟨eleven, Pattern.read_normalText hread, hvalid, rfl⟩
  have hsame := hall "B" eleven.normalText _ _ (Label.toList_normalText hread) hcapital hsmall
  have hspelled := (Label.describe_eq_normal_iff hread).mp hsame.1 (by decide)
  exact absurd hspelled (by decide)

end Catalog

end Siteswap
