/-
What is read of the notation.

Reading goes through a text several times: brackets are matched, the
dialect is told by the characters, and the throws are taken by the rules of
that dialect. `read_of_grammar` says that all of it together accepts what
the grammar derives and nothing else.

# The two directions

What is read is derived: each reader takes its text apart as the rules put
it together (`pairs_of_pairLetters?`, `continues_of_groupLetters`). What is
derived is read: along the derivation the brackets match
(`matchBrackets_of_writes`), the dialect is told (`classify_of_writes`) and
the throws are found (`letters_of_writes`).

# Errors

Where nothing is derived there is an error, which blames the notation and
not the absence of a text. That a group has an end is sure once brackets
match (`error_of_groupLetters`): what takes the throws can find fault with
what stands in a group or between groups, never with an open one.
-/
import Siteswap.Proofs.Pattern.Grammar
import Siteswap.Proofs.Results

namespace Siteswap.Pattern

-- ============================================== what is read is derived

theorem pair_eq_some {a b : Char} {rest : Option (List Char)} {ls : List Char}
    (h : pairLetters?.pair a b rest = some ls) :
    IsThrow a ∧ IsThrow b ∧ ∃ ls', rest = some ls' ∧ ls = a :: b :: ls' := by
  unfold pairLetters?.pair at h
  split at h
  case isTrue hab =>
    rw [Bool.and_eq_true, Alphabet.isLetter_iff_isThrow,
      Alphabet.isLetter_iff_isThrow] at hab
    obtain ⟨ls', hls', rfl⟩ := Option.map_eq_some_iff.mp h
    exact ⟨hab.1, hab.2, ls', hls', rfl⟩
  case isFalse => cases h

theorem pairs_of_pairLetters? {s ls : List Char} (h : pairLetters? s = some ls) :
    Pairs s ls := by
  fun_induction pairLetters? s generalizing ls with
  | case1 =>
      injection h with h
      subst h
      exact .nil
  | case2 a b rest ih =>
      obtain ⟨ha, hb, ls', hls', rfl⟩ := pair_eq_some h
      exact .cons (.straight ha) (.straight hb) (ih hls')
  | case3 a b rest ih =>
      obtain ⟨ha, hb, ls', hls', rfl⟩ := pair_eq_some h
      exact .cons (.crossing ha) (.straight hb) (ih hls')
  | case4 a b rest ih =>
      obtain ⟨ha, hb, ls', hls', rfl⟩ := pair_eq_some h
      exact .cons (.straight ha) (.crossing hb) (ih hls')
  | case5 a b rest ih =>
      obtain ⟨ha, hb, ls', hls', rfl⟩ := pair_eq_some h
      exact .cons (.crossing ha) (.crossing hb) (ih hls')
  | case6 => cases h

/-- What the rest of a text is when a group may be open: throws and groups,
behind the end of the open group if there is one. -/
def Continues (group : Option (Nat × List Char)) (s ls : List Char) : Prop :=
  match group with
  | none => Groups s ls
  | some (_, letters) => ∃ g rest ls', s = g ++ ']' :: rest ∧ Groups rest ls'
      ∧ letters.reverse ++ g ≠ [] ∧ (∀ c ∈ letters.reverse ++ g, IsThrow c)
      ∧ ls = letters.reverse ++ g ++ ls'

theorem continues_of_groupLetters {whole s ls : List Char} {position : Nat}
    {group : Option (Nat × List Char)}
    (h : groupLetters whole position group s = .ok ls) : Continues group s ls := by
  induction s generalizing position group ls with
  | nil =>
      cases group with
      | none =>
          injection h with h
          subst h
          exact .nil
      | some open_ => cases h
  | cons c rest ih =>
      unfold groupLetters at h
      cases group with
      | none =>
          simp only at h
          split at h
          case isTrue hc =>
            obtain ⟨g, rest', ls', rfl, hrest', hne, hg, rfl⟩ := ih h
            rw [hc]
            exact .group hne hg hrest'
          case isFalse =>
            split at h
            case isTrue hc =>
              obtain ⟨ls', hls', rfl⟩ := map_eq_ok h
              exact .throw ((Alphabet.isLetter_iff_isThrow c).mp hc) (ih hls')
            case isFalse => cases h
      | some begun =>
          obtain ⟨start, letters⟩ := begun
          simp only at h
          split at h
          case isTrue hc =>
            split at h
            case isTrue hletters =>
              obtain ⟨hne, hall⟩ := hletters
              obtain ⟨ls', hls', rfl⟩ := map_eq_ok h
              refine ⟨[], rest, ls', by rw [hc]; rfl, ih hls', ?_, ?_, ?_⟩
              · simpa using hne
              · intro d hd
                rw [List.append_nil, List.mem_reverse] at hd
                exact (Alphabet.isLetter_iff_isThrow d).mp
                  (List.all_eq_true.mp hall d hd)
              · rw [List.append_nil]
            case isFalse => cases h
          case isFalse =>
            obtain ⟨g, rest', ls', rfl, hrest', hne, hg, rfl⟩ := ih h
            have hcons : (c :: letters).reverse ++ g = letters.reverse ++ (c :: g) := by
              rw [List.reverse_cons, List.append_assoc]
              rfl
            rw [hcons] at hne hg ⊢
            exact ⟨c :: g, rest', ls', rfl, hrest', hne, hg, rfl⟩

-- ============================================== what is derived is read

theorem pairLetters?_of_pairs {s ls : List Char} (h : Pairs s ls) :
    pairLetters? s = some ls := by
  have hpair : ∀ {a b : Char} (rest : Option (List Char)), IsThrow a → IsThrow b →
      pairLetters?.pair a b rest = rest.map (a :: b :: ·) := by
    intro a b rest ha hb
    unfold pairLetters?.pair
    rw [if_pos]
    rw [(Alphabet.isLetter_iff_isThrow a).mpr ha,
      (Alphabet.isLetter_iff_isThrow b).mpr hb]
    rfl
  induction h with
  | nil => rfl
  | @cons left right rest ls a b hleft hright hrest ih =>
      have hstep : pairLetters? ('(' :: left ++ ',' :: right ++ ')' :: rest)
          = pairLetters?.pair a b (pairLetters? rest) := by
        cases hleft <;> cases hright <;> rfl
      rw [hstep, hpair _ hleft.throw.1 hright.throw.1, ih, Option.map_some]

/-- A group is taken whole. -/
theorem groupLetters_group {whole g rest : List Char} (hg : ∀ c ∈ g, IsThrow c)
    {letters : List Char} (hletters : ∀ c ∈ letters, IsThrow c)
    (hne : letters.reverse ++ g ≠ []) (position start : Nat) :
    groupLetters whole position (some (start, letters)) (g ++ ']' :: rest)
      = (groupLetters whole (position + g.length + 1) none rest).map
          (letters.reverse ++ g ++ ·) := by
  induction g generalizing letters position with
  | nil =>
      rw [List.append_nil] at hne ⊢
      have hall : letters.all Alphabet.isLetter = true :=
        List.all_eq_true.mpr fun c hc =>
          (Alphabet.isLetter_iff_isThrow c).mpr (hletters c hc)
      rw [List.nil_append, groupLetters, if_pos rfl,
        if_pos ⟨by simpa using hne, hall⟩]
      rfl
  | cons c g ih =>
      have hc := hg c List.mem_cons_self
      have hclose : c ≠ ']' := fun h =>
        not_isBracket_of_isThrow hc (.inr (.inr (.inr h)))
      have hletters' : ∀ d ∈ c :: letters, IsThrow d :=
        List.forall_mem_cons.mpr ⟨hc, hletters⟩
      have hcons : (c :: letters).reverse ++ g = letters.reverse ++ (c :: g) := by
        rw [List.reverse_cons, List.append_assoc]
        rfl
      rw [List.cons_append, groupLetters, if_neg hclose,
        ih (fun d hd => hg d (List.mem_cons_of_mem c hd)) hletters'
          (by rw [hcons]; exact hne) (position + 1),
        hcons, List.length_cons, Nat.add_right_comm position 1]
      rfl

theorem groupLetters_of_groups {whole s ls : List Char} (h : Groups s ls)
    (position : Nat) : groupLetters whole position none s = .ok ls := by
  induction h generalizing position with
  | nil => rfl
  | throw hc _ ih =>
      rw [groupLetters,
        if_neg fun h => not_isBracket_of_isThrow hc (.inr (.inr (.inl h))),
        if_pos ((Alphabet.isLetter_iff_isThrow _).mpr hc), ih]
      rfl
  | group hne hg _ ih =>
      rw [List.cons_append, groupLetters, if_pos rfl,
        groupLetters_group hg (fun _ hd => absurd hd List.not_mem_nil) hne, ih]
      rfl

-- --------------------------------------------------------------- brackets

/-- What is no bracket is passed over. -/
theorem matchBrackets_plain {g : List Char} (hg : ∀ c ∈ g, ¬ IsBracket c)
    (position : Nat) (within : Option Char) (rest : List Char) :
    matchBrackets position within (g ++ rest)
      = matchBrackets (position + g.length) within rest := by
  induction g generalizing position with
  | nil => rfl
  | cons c g ih =>
      have hc := hg c List.mem_cons_self
      unfold IsBracket at hc
      rw [List.cons_append, matchBrackets, if_neg (by tauto), if_neg (by tauto),
        ih fun d hd => hg d (List.mem_cons_of_mem c hd), List.length_cons,
        Nat.add_right_comm, Nat.add_assoc]

/-- A pair of brackets without another inside is passed over. -/
theorem matchBrackets_bracketed {g : List Char} (hg : ∀ c ∈ g, ¬ IsBracket c)
    {o c : Char} (hpair : (o = '(' ∧ c = ')') ∨ (o = '[' ∧ c = ']'))
    (position : Nat) (rest : List Char) :
    matchBrackets position none (o :: g ++ c :: rest)
      = matchBrackets (position + 1 + g.length + 1) none rest := by
  rw [List.cons_append, matchBrackets]
  rcases hpair with ⟨rfl, rfl⟩ | ⟨rfl, rfl⟩
  · rw [if_pos (.inl rfl), if_neg (by decide), matchBrackets_plain hg]
    rfl
  · rw [if_pos (.inr rfl), if_neg (by decide), matchBrackets_plain hg]
    rfl

theorem matchBrackets_of_pairs {s ls : List Char} (h : Pairs s ls)
    (position : Nat) : matchBrackets position none s = .ok () := by
  induction h generalizing position with
  | nil => rfl
  | @cons left right rest ls a b hleft hright _ ih =>
      have hplain : ∀ c ∈ left ++ ',' :: right, ¬ IsBracket c := by
        intro c hc
        rcases List.mem_append.mp hc with hc | hc
        · exact not_isBracket_of_isThrow (hleft.throw.2 c hc)
        rcases List.mem_cons.mp hc with rfl | hc
        · unfold IsBracket
          decide
        · exact not_isBracket_of_isThrow (hright.throw.2 c hc)
      rw [List.cons_append, matchBrackets_bracketed hplain (.inl ⟨rfl, rfl⟩)]
      exact ih _

theorem matchBrackets_of_groups {s ls : List Char} (h : Groups s ls)
    (position : Nat) : matchBrackets position none s = .ok () := by
  induction h generalizing position with
  | nil => rfl
  | @throw c rest ls hc _ ih =>
      have hplain : ∀ d ∈ [c], ¬ IsBracket d := by
        intro d hd
        rw [List.mem_singleton.mp hd]
        exact not_isBracket_of_isThrow hc
      exact (matchBrackets_plain hplain position none rest).trans (ih _)
  | group _ hg _ ih =>
      rw [matchBrackets_bracketed
        (fun c hc => not_isBracket_of_isThrow (hg c hc)) (.inr ⟨rfl, rfl⟩)]
      exact ih _

/-- The brackets of a pattern match. -/
theorem matchBrackets_of_writes {d : Dialect} {s ls : List Char}
    (h : Writes d s ls) : matchBrackets 0 none s = .ok () := by
  cases h with
  | async _ hs =>
      exact matchBrackets_letters
        (fun c hc => (Alphabet.isLetter_iff_isThrow c).mpr (hs c hc)) 0
  | sync _ hs => exact matchBrackets_of_pairs hs 0
  | multiplex _ hs => exact matchBrackets_of_groups hs 0

theorem error_of_matchBrackets {s : List Char} {position : Nat}
    {within : Option Char} {e : SyntaxError}
    (h : matchBrackets position within s = .error e) :
    (∃ b i, e = .nested b i) ∨ (∃ b i, e = .unmatched b i)
      ∨ ∃ b, e = .unclosed b := by
  fun_induction matchBrackets position within s with
  | case1 position b =>
      injection h with h
      exact .inr (.inr ⟨b, h.symm⟩)
  | case2 => cases h
  | case3 position _ c _ _ _ =>
      injection h with h
      exact .inl ⟨c, position, h.symm⟩
  | case4 _ _ _ _ _ _ ih => exact ih h
  | case5 _ _ _ _ _ ih => exact ih h
  | case6 position _ c _ _ _ _ =>
      injection h with h
      exact .inr (.inl ⟨c, position, h.symm⟩)
  | case7 _ _ _ _ _ _ ih => exact ih h

/-- Where brackets match, an open group is closed; only what stands in a
group or between groups can be wrong. -/
theorem error_of_groupLetters {whole s : List Char} {position position' : Nat}
    {group : Option (Nat × List Char)} {e : SyntaxError}
    (hmatch : matchBrackets position (group.map fun _ => '[') s = .ok ())
    (h : groupLetters whole position' group s = .error e) :
    (∃ g start, e = .badGroup g start) ∨ ∃ c i, e = .unexpected c i whole := by
  induction s generalizing position position' group with
  | nil =>
      cases group with
      | none => cases h
      | some begun => cases hmatch
  | cons c rest ih =>
      rw [matchBrackets] at hmatch
      rw [groupLetters.eq_def] at h
      cases group with
      | none =>
          simp only at h
          split at h
          case isTrue hc =>
            rw [if_pos (.inr hc), if_neg (by decide), hc] at hmatch
            exact ih hmatch h
          case isFalse =>
            split at h
            case isTrue hc =>
              have hb := not_isBracket_of_isThrow
                ((Alphabet.isLetter_iff_isThrow c).mp hc)
              unfold IsBracket at hb
              rw [if_neg (by tauto), if_neg (by tauto)] at hmatch
              exact ih hmatch (map_eq_error_iff.mp h)
            case isFalse =>
              injection h with h
              exact .inr ⟨c, position', h.symm⟩
      | some begun =>
          obtain ⟨start, letters⟩ := begun
          simp only at h
          rw [Option.map_some] at hmatch
          split at h
          case isTrue hc =>
            rw [hc, if_neg (by decide), if_pos (.inr rfl),
              if_pos (by decide)] at hmatch
            split at h
            case isTrue => exact ih hmatch (map_eq_error_iff.mp h)
            case isFalse =>
              injection h with h
              exact .inl ⟨_, start, h.symm⟩
          case isFalse hc =>
            -- another bracket would be nested or match none
            by_cases hopen : c = '(' ∨ c = '['
            · rw [if_pos hopen, if_pos (by decide)] at hmatch
              cases hmatch
            rw [if_neg hopen] at hmatch
            by_cases hclose : c = ')' ∨ c = ']'
            · have hround : c = ')' := hclose.resolve_right hc
              subst hround
              cases hmatch
            rw [if_neg hclose] at hmatch
            exact @ih (position + 1) _ (some (start, c :: letters)) hmatch h

-- ---------------------------------------------------------------- dialects

theorem classify_of_writes {d : Dialect} {s ls : List Char} (h : Writes d s ls) :
    classify s = d := by
  obtain ⟨hround, hsquare, hclose⟩ := h.brackets
  cases h with
  | async hne hs =>
      exact (classify_eq_async_iff s).mpr
        ⟨hne, fun c hc => (Alphabet.isLetter_iff_isThrow c).mpr (hs c hc)⟩
  | sync hne hs =>
      unfold classify
      rw [if_pos]
      exact List.any_eq_true.mpr ⟨'(', hround.mpr rfl, rfl⟩
  | multiplex hgroup hs =>
      unfold classify
      rw [if_neg, if_pos]
      · exact List.any_eq_true.mpr ⟨'[', hgroup, rfl⟩
      · rw [List.any_eq_true]
        rintro ⟨c, hc, hb⟩
        rw [Bool.or_eq_true, decide_eq_true_iff, decide_eq_true_iff] at hb
        rcases hb with rfl | rfl
        · exact nomatch hround.mp hc
        · exact nomatch hclose hc

theorem letters_of_writes {d : Dialect} {s ls : List Char} (h : Writes d s ls) :
    letters d s = .ok ls := by
  cases h with
  | async => rfl
  | sync _ hs => rw [letters, pairLetters?_of_pairs hs]
  | multiplex _ hs => exact groupLetters_of_groups hs 0

/-- What the readers of the dialects accept is derived. -/
theorem writes_of_letters {s ls : List Char} (hne : s ≠ [])
    (h : letters (classify s) s = .ok ls) : Writes (classify s) s ls := by
  cases hd : classify s with
  | async =>
      rw [hd] at h
      injection h with h
      subst h
      obtain ⟨-, hs⟩ := (classify_eq_async_iff s).mp hd
      exact .async hne fun c hc => (Alphabet.isLetter_iff_isThrow c).mp (hs c hc)
  | sync =>
      rw [hd, letters] at h
      cases hp : pairLetters? s with
      | none => rw [hp] at h; cases h
      | some ls' =>
          rw [hp] at h
          injection h with h
          subst h
          exact .sync hne (pairs_of_pairLetters? hp)
  | multiplex =>
      rw [hd, letters] at h
      have hs : Groups s ls := continues_of_groupLetters h
      refine .multiplex ?_ hs
      unfold classify at hd
      split at hd
      case isTrue => cases hd
      split at hd
      case isTrue hsquare =>
        obtain ⟨c, hc, hb⟩ := List.any_eq_true.mp hsquare
        rw [Bool.or_eq_true, decide_eq_true_iff, decide_eq_true_iff] at hb
        rcases hb with rfl | rfl
        · exact hc
        · exact hs.opened hc
      case isFalse => split at hd <;> cases hd
  | invalid => rw [hd] at h; cases h

-- ================================================================ reading

/-- A text in normal form is read iff it is derived. -/
theorem ofNormal_eq_ok_iff {s : List Char} (hne : s ≠ []) {p : Pattern} :
    ofNormal s = .ok p
      ↔ ∃ d ls, Writes d s ls ∧ p = ⟨d, .ofLetters ls, s⟩ := by
  unfold ofNormal
  constructor
  · intro h
    cases hm : matchBrackets 0 none s with
    | error e => rw [hm] at h; cases h
    | ok u =>
        rw [hm] at h
        cases hl : letters (classify s) s with
        | error e => rw [hl] at h; cases h
        | ok ls =>
            rw [hl] at h
            injection h with h
            exact ⟨_, ls, writes_of_letters hne hl, h.symm⟩
  · rintro ⟨d, ls, hw, rfl⟩
    rw [matchBrackets_of_writes hw, classify_of_writes hw, letters_of_writes hw]
    rfl

/-- An error of a text in normal form is one of its brackets, or, if these
match, one of its dialect. -/
theorem error_of_ofNormal {s : List Char} {e : SyntaxError}
    (h : ofNormal s = .error e) :
    e ≠ .empty ∧ ∀ b, e = .unclosed b → matchBrackets 0 none s = .error e := by
  unfold ofNormal at h
  cases hm : matchBrackets 0 none s with
  | error e' =>
      rw [hm] at h
      injection h with h
      subst h
      refine ⟨?_, fun _ _ => rfl⟩
      rintro rfl
      simpa using error_of_matchBrackets hm
  | ok u =>
      rw [hm] at h
      cases hl : letters (classify s) s with
      | ok ls => rw [hl] at h; cases h
      | error e' =>
          rw [hl] at h
          injection h with h
          subst h
          unfold letters at hl
          split at hl
          case h_1 => cases hl
          case h_2 =>
            split at hl
            case h_1 => cases hl
            case h_2 =>
              injection hl with hl
              subst hl
              exact ⟨nofun, nofun⟩
          case h_3 =>
            rcases error_of_groupLetters hm hl with ⟨_, _, rfl⟩ | ⟨_, _, rfl⟩
            · exact ⟨nofun, nofun⟩
            · exact ⟨nofun, nofun⟩
          case h_4 =>
            injection hl with hl
            subst hl
            exact ⟨nofun, nofun⟩

/-- A text that is not blank is read by its normal form. -/
theorem read_of_not_blank {s : String} (h : Typed.isBlank (some s) = false) :
    read (some s) = if normalize s.toList = [] then .error (.noNotation s.toList)
      else ofNormal (normalize s.toList) := by
  unfold read
  rw [if_neg (by rw [h]; exact Bool.false_ne_true)]
  rfl

theorem text_eq_normalize {x : Typed} {p : Pattern} (h : read x = .ok p) :
    p.text = normalize (x.getD "").toList := by
  obtain ⟨hne, hnormal⟩ := ofNormal_normalize h
  obtain ⟨d, ls, -, hp⟩ := (ofNormal_eq_ok_iff hne).mp hnormal
  rw [hp]

/-- The text of a pattern is a text of the notation, and the pattern is
read off it. -/
theorem ofNormal_text {x : Typed} {p : Pattern} (h : read x = .ok p) :
    p.text ≠ [] ∧ (∀ c ∈ p.text, isNotation c = true) ∧ ofNormal p.text = .ok p := by
  obtain ⟨hne, hnormal⟩ := ofNormal_normalize h
  rw [text_eq_normalize h]
  exact ⟨hne, fun c hc => isNotation_of_mem_normalize hc, hnormal⟩

/-- The normal form of a pattern reads as that pattern. -/
theorem read_normalText {x : Typed} {p : Pattern} (h : read x = .ok p) :
    read (some p.normalText) = .ok p := by
  obtain ⟨hne, hs, hnormal⟩ := ofNormal_text h
  unfold normalText
  rw [read_of_isNotation hne hs, hnormal]

/-- What is read has a throw. -/
theorem heights_ne_nil {x : Typed} {p : Pattern} (h : read x = .ok p) :
    p.throws.heights ≠ [] := by
  obtain ⟨hne, -, hnormal⟩ := ofNormal_text h
  obtain ⟨d, ls, hw, hp⟩ := (ofNormal_eq_ok_iff hne).mp hnormal
  rw [hp, Alphabet.heights_throws hw.throws, ne_eq, List.map_eq_nil_iff]
  exact hw.ne_nil

theorem hasMultiplex_iff {p : Pattern} {ls : List Char}
    (h : Writes p.dialect p.text ls) :
    p.hasMultiplex = true ↔ p.dialect = .multiplex := by
  unfold hasMultiplex
  rw [Bool.or_eq_true, decide_eq_true_iff, List.contains_iff_mem, h.brackets.2.1,
    or_self]

theorem hasSynchronous_iff {p : Pattern} {ls : List Char}
    (h : Writes p.dialect p.text ls) :
    p.hasSynchronous = true ↔ p.dialect = .sync := by
  unfold hasSynchronous
  rw [Bool.or_eq_true, decide_eq_true_iff, List.contains_iff_mem, h.brackets.1,
    or_self]

theorem error_of_read {s : String} (h : Typed.isBlank (some s) = false)
    {e : SyntaxError} (he : read (some s) = .error e) :
    e ≠ .empty ∧ ∀ b, e = .unclosed b →
      matchBrackets 0 none (normalize s.toList) = .error e := by
  rw [read_of_not_blank h] at he
  split at he
  case isTrue =>
    injection he with he
    subst he
    exact ⟨nofun, nofun⟩
  case isFalse => exact error_of_ofNormal he

/-- Reading accepts what the grammar derives and nothing else. Nothing but
white space is an error of its own. All other texts are read by their
normal form: what the grammar derives is a pattern, whose throws are the
heights of the throws derived; what it does not derive is an error of the
notation, and a bracket that stays open is found by matching brackets and
never later. -/
theorem read_of_grammar :
    (∀ typed, read typed = .error .empty ↔ typed.isBlank = true)
    ∧ ∀ s : String, Typed.isBlank (some s) = false →
      (∀ d ls, Writes d (normalize s.toList) ls →
        ∃ p, read (some s) = .ok p ∧ p.dialect = d ∧ p.text = normalize s.toList
          ∧ Alphabet.standard.encode ls = .ok p.throws.heights
          ∧ p.throws.heights = ls.map (fun c => (throwHeight c : Int))
          ∧ (p.hasMultiplex = true ↔ d = .multiplex)
          ∧ (p.hasSynchronous = true ↔ d = .sync))
      ∧ ((∀ d ls, ¬ Writes d (normalize s.toList) ls) →
        ∃ e, read (some s) = .error e ∧ e ≠ .empty
          ∧ ∀ b, e = .unclosed b →
            matchBrackets 0 none (normalize s.toList) = .error e) := by
  refine ⟨fun typed => ⟨fun h => ?_, fun h => ?_⟩, fun s hs => ⟨?_, fun hnone => ?_⟩⟩
  · by_contra hblank
    cases typed with
    | none => exact hblank rfl
    | some s => exact (error_of_read (Bool.eq_false_iff.mpr hblank) h).1 rfl
  · unfold read
    exact if_pos h
  · intro d ls hw
    have hne : normalize s.toList ≠ [] := by
      intro hnil
      rw [hnil] at hw
      cases hw with
      | async hne => exact hne rfl
      | sync hne => exact hne rfl
      | multiplex hgroup => cases hgroup
    have hread : read (some s) = .ok ⟨d, .ofLetters ls, normalize s.toList⟩ := by
      rw [read_of_not_blank hs, if_neg hne, ofNormal_eq_ok_iff hne]
      exact ⟨d, ls, hw, rfl⟩
    have hheights := Alphabet.heights_throws hw.throws
    refine ⟨_, hread, rfl, rfl, ?_, hheights, hasMultiplex_iff hw,
      hasSynchronous_iff hw⟩
    rw [hheights]
    exact Alphabet.encodeFrom_throws hw.throws 0
  · cases hread : read (some s) with
    | error e =>
        obtain ⟨hne, hopen⟩ := error_of_read hs hread
        exact ⟨e, rfl, hne, hopen⟩
    | ok p =>
        exfalso
        rw [read_of_not_blank hs] at hread
        split at hread
        case isTrue => cases hread
        case isFalse hne =>
          obtain ⟨d, ls, hw, -⟩ := (ofNormal_eq_ok_iff hne).mp hread
          exact hnone d ls hw

/-- The first `x` of a side is a throw and the second a mark, in either
case. -/
theorem crossing_read :
    ∃ p, read (some " (Xx, 4)") = .ok p ∧ p.dialect = .sync
      ∧ p.text = "(xx,4)".toList ∧ p.throws.heights = [33, 4] := by
  have hnormal : normalize " (Xx, 4)".toList = "(xx,4)".toList := by decide +kernel
  have hw : Writes .sync (normalize " (Xx, 4)".toList) ['x', '4'] := by
    rw [hnormal]
    exact .sync (by decide)
      (.cons (.crossing (by decide)) (.straight (by decide)) .nil)
  obtain ⟨p, hp, hd, htext, -, hheights, -⟩ :=
    (read_of_grammar.2 " (Xx, 4)" (by decide +kernel)).1 _ _ hw
  exact ⟨p, hp, hd, htext.trans hnormal, hheights.trans (by decide)⟩

end Siteswap.Pattern
