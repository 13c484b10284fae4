/-
The forms that share a canonical form: the orbit of the root.

An async pattern is written without repetition by its root, begun at any
throw, so its forms are the texts of the rotations of the root. They are
listed in the order of code points, each of them once, and the last one is
the canonical form (`equivalent_isOrbit`).

# Why once

A root is primitive, so its rotations are different words
(`Rotation.nodup_rotations`), and different words in range have different
texts.

# Why last

Letters stand in the order of their heights, so texts stand in the order
of their words (`spell_lt_spell_iff`), and the greatest text is that of the
greatest rotation. The canonical form was chosen in another way, as the
greatest of those rotations only that begin with the highest throw. It is
the same one: no other rotation is as great (`Stepwise.leading_eq`).

A single throw is passed through without any of this, and a root of one
throw is its only rotation. Both are orbits too (`equivalent_of_async`).
-/
import Mathlib.Data.List.Sort
import Mathlib.Data.String.Basic
import Siteswap.Proofs.Rotation.Primitive
import Siteswap.Proofs.Stepwise

namespace Siteswap

open Alphabet (maxHeight)
open Rotation (root rotations)

namespace Sequence

-- ======================================================= order of texts

/-- Texts stand in the order of their heights. -/
theorem spell_lt_spell_iff {v w : List Int} (hv : ∀ h ∈ v, 0 ≤ h ∧ h ≤ maxHeight)
    (hw : ∀ h ∈ w, 0 ≤ h ∧ h ≤ maxHeight) : spell v < spell w ↔ v < w := by
  have hmap : v.map letter < w.map letter ↔ v < w := by
    induction v generalizing w with
    | nil => cases w <;> simp
    | cons h v ih =>
        cases w with
        | nil => simp
        | cons k w =>
            obtain ⟨hh, hv⟩ := List.forall_mem_cons.mp hv
            obtain ⟨hk, hw⟩ := List.forall_mem_cons.mp hw
            have heq : letter h = letter k ↔ h = k :=
              ⟨eq_of_letter_eq hh hk, congrArg letter⟩
            rw [List.map_cons, List.map_cons, List.cons_lt_cons_iff, List.cons_lt_cons_iff,
              letter_lt_letter_iff hh hk, heq, ih hv hw]
  unfold spell
  rw [String.lt_iff_toList_lt, String.toList_ofList, String.toList_ofList]
  exact hmap

/-- Different heights in range have different texts. -/
theorem eq_of_spell_eq {v w : List Int} (hv : ∀ h ∈ v, 0 ≤ h ∧ h ≤ maxHeight)
    (hw : ∀ h ∈ w, 0 ≤ h ∧ h ≤ maxHeight) (h : spell v = spell w) : v = w := by
  refine Rotation.eq_of_not_lt ?_ ?_
  · rw [← spell_lt_spell_iff hv hw, h]
    exact lt_irrefl _
  · rw [← spell_lt_spell_iff hw hv, h]
    exact lt_irrefl _

end Sequence

namespace Canonical

-- ============================================================ the orbit

/-- What the forms of a pattern with root `r` are, and the canonical one
among them. -/
structure IsOrbit (r : List Int) (c : Canonical) : Prop where
  sorted : c.equivalent.Pairwise (· < ·)
  mem_iff : ∀ form, form ∈ c.equivalent ↔ ∃ w, r ~r w ∧ form = Sequence.spell w
  distinct : (rotations r).Nodup
  length : c.equivalent.length = r.length
  last : c.equivalent.getLast? = some c.form
  leads : ∃ w, Stepwise.leading r = .ok w ∧ c.form = Sequence.spell w

section Spellings

variable {s : Sequence}

/-- The rotations of the root have heights of the sequence. -/
theorem inRange_of_isRotated {w : List Int} (hw : root s.heights ~r w) :
    ∀ h ∈ w, 0 ≤ h ∧ h ≤ maxHeight :=
  fun h hh => s.inRange h (Rotation.mem_of_mem_root (hw.mem_iff.mpr hh))

theorem length_spellings (r : List Int) : (spellings r).length = r.length := by
  unfold spellings rotations
  rw [List.length_mergeSort, List.length_map, List.length_map, List.length_range]

theorem mem_spellings_iff (hne : s.heights ≠ []) {form : String} :
    form ∈ spellings (root s.heights)
      ↔ ∃ w, root s.heights ~r w ∧ form = Sequence.spell w := by
  unfold spellings
  rw [List.mem_mergeSort, List.mem_map]
  simp only [Rotation.mem_rotations (Rotation.root_ne_nil hne), eq_comm]

theorem nodup_spellings (hne : s.heights ≠ []) :
    (spellings (root s.heights)).Nodup := by
  unfold spellings
  rw [(List.mergeSort_perm _ _).nodup_iff]
  refine List.Nodup.map_on (fun v hv w hw h => ?_) (Rotation.nodup_rotations hne)
  rw [Rotation.mem_rotations (Rotation.root_ne_nil hne)] at hv hw
  exact Sequence.eq_of_spell_eq (inRange_of_isRotated hv) (inRange_of_isRotated hw) h

/-- Spellings stand in the order of code points, each once. -/
theorem pairwise_spellings (hne : s.heights ≠ []) :
    (spellings (root s.heights)).Pairwise (· < ·) := by
  have hle : (spellings (root s.heights)).Pairwise (· ≤ ·) :=
    List.pairwise_mergeSort' (· ≤ ·) _
  exact (hle.and (nodup_spellings hne)).imp fun h => lt_of_le_of_ne h.1 h.2

/-- The last spelling is the one of the greatest rotation. -/
theorem getLast?_spellings (hne : s.heights ≠ []) :
    (spellings (root s.heights)).getLast? = some s.canonical.text := by
  obtain ⟨hrot, hgreatest⟩ := Rotation.leading_spec (Rotation.root_ne_nil hne)
  have hmem : s.canonical.text ∈ spellings (root s.heights) :=
    (mem_spellings_iff hne).mpr ⟨_, hrot, rfl⟩
  have hsorted := (pairwise_spellings hne).imp fun h => le_of_lt h
  have hlist := List.ne_nil_of_mem hmem
  obtain ⟨w, hw, hlast⟩ := (mem_spellings_iff hne).mp (List.getLast_mem hlist)
  have hle : (spellings (root s.heights)).getLast hlist ≤ s.canonical.text := by
    rw [hlast, ← not_lt]
    show ¬ Sequence.spell (Rotation.leading (root s.heights)) < _
    rw [Sequence.spell_lt_spell_iff (inRange_of_isRotated hrot) (inRange_of_isRotated hw)]
    exact hgreatest w hw
  rw [List.getLast?_eq_some_getLast hlist, Option.some.injEq]
  exact le_antisymm hle (hsorted.rel_getLast hmem)

end Spellings

-- ======================================================= forms of texts

/-- The forms of an async pattern are the spellings of its root, also where
a single throw is passed through. -/
theorem equivalent_of_async {x : Typed} {p : Pattern} (h : Pattern.read x = .ok p)
    (hd : p.dialect = .async) :
    (ofPattern p).equivalent = spellings (root p.throws.heights) := by
  unfold ofPattern
  split
  case isTrue hone =>
    have hlen : p.text.length = 1 := hone.resolve_left (not_not.mpr hd)
    rw [← Pattern.length_of_async h hd] at hlen
    obtain ⟨height, hheight⟩ := List.length_eq_one_iff.mp hlen
    have hroot : root [height] = [height] := by simp [root]
    show [p.normalText] = _
    rw [Pattern.normalText_of_async h hd, hheight, hroot, Stepwise.spellings_singleton, ← hheight]
    rfl
  case isFalse => rfl

theorem isOrbit_ofPattern {x : Typed} {p : Pattern} (h : Pattern.read x = .ok p)
    (hd : p.dialect = .async) : IsOrbit (root p.throws.heights) (ofPattern p) := by
  have hne := Pattern.heights_ne_nil_of_async h hd
  have hforms := equivalent_of_async h hd
  have hform := form_of_async h hd
  exact {
    sorted := by
      rw [hforms]
      exact pairwise_spellings hne
    mem_iff := by
      rw [hforms]
      exact fun form => mem_spellings_iff hne
    distinct := Rotation.nodup_rotations hne
    length := by rw [hforms, length_spellings]
    last := by rw [hforms, hform, getLast?_spellings hne]
    leads := ⟨_, Stepwise.leading_eq _, hform⟩ }

/-- The forms of a typed async pattern are the orbit of its root. -/
theorem equivalent_isOrbit {x : Typed} {p : Pattern} (h : Pattern.read x = .ok p)
    (hd : p.dialect = .async) :
    ∃ c, ofTyped x = .ok c ∧ IsOrbit (root p.throws.heights) c :=
  ⟨_, ofTyped_of_read h, isOrbit_ofPattern h hd⟩

/-- Two copies of `441`, typed with blanks, have three forms. -/
theorem fours_isOrbit :
    ∃ p, Pattern.read (some " 4 41441") = .ok p ∧ p.dialect = .async
      ∧ ∃ c, ofTyped (some " 4 41441") = .ok c ∧ IsOrbit [4, 4, 1] c
        ∧ c.equivalent.length = 3 ∧ c.equivalent.getLast? = some "441" := by
  have hread : Pattern.read (some " 4 41441")
      = .ok ⟨.async, ⟨[4, 4, 1, 4, 4, 1], by decide⟩, "441441".toList⟩ := by decide +kernel
  have hroot : root ([4, 4, 1, 4, 4, 1] : List Int) = [4, 4, 1] := by decide
  obtain ⟨c, hc, horbit⟩ := equivalent_isOrbit hread rfl
  have hof := ofTyped_of_read hread
  rw [hc, Except.ok.injEq] at hof
  have hform : c.form = "441" := by
    rw [hof]
    decide +kernel
  simp only [hroot] at horbit
  refine ⟨_, hread, rfl, c, hc, horbit, horbit.length, ?_⟩
  rw [horbit.last, hform]

end Canonical

end Siteswap
