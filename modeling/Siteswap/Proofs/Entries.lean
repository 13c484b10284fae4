/-
Maps that remember their order: what storing and dropping do.

Lookups come first (`get?_put`, `get?_erase`): a stored value is found, a
dropped key is not, and other keys are as before. Then the order: a new
key goes to the end (`put_of_not_mem`), so that pairs with different keys
are already the map that they make (`ofPairs_of_nodup`). No map lists a key
twice, and a lookup finds what is listed (`get?_eq_some_iff_mem`).

# Tables

A map is often known by a list of keys and a value for each of them
(`tabulate`). Storing under a key changes the value of that key alone, and
lists the key if it was not listed (`put_tabulate`).
-/
import Mathlib.Data.List.Basic
import Mathlib.Data.List.Induction
import Siteswap.Entries

namespace Siteswap.Entries

-- ============================================================== lookups

section Lookups

variable {κ β : Type} [BEq κ] [LawfulBEq κ]

/-- What is stored is found, and all else is found as before. -/
theorem get?_put (k k' : κ) (v : β) (es : Entries κ β) :
    (es.put k v).get? k' = if k == k' then some v else es.get? k' := by
  induction es with
  | nil =>
      unfold put get?
      rfl
  | cons e es ih =>
      obtain ⟨l, w⟩ := e
      unfold put
      by_cases hl : l = k
      · subst hl
        rw [if_pos (beq_self_eq_true l)]
        unfold get?
        by_cases hk : (l == k') = true
        · rw [if_pos hk, if_pos hk]
        · rw [if_neg hk, if_neg hk, if_neg hk]
      · rw [if_neg (mt beq_iff_eq.mp hl)]
        unfold get?
        rw [ih]
        by_cases hlk : (l == k') = true
        · have hkk : ¬ (k == k') = true := by
            rw [beq_iff_eq, ← beq_iff_eq.mp hlk]
            exact Ne.symm hl
          rw [if_pos hlk, if_neg hkk, if_pos hlk]
        · rw [if_neg hlk, if_neg hlk]

theorem get?_put_eq_none_iff {k k' : κ} {v : β} {es : Entries κ β} :
    (es.put k v).get? k' = none ↔ k' ≠ k ∧ es.get? k' = none := by
  rw [get?_put]
  by_cases hk : k = k'
  · rw [if_pos (beq_iff_eq.mpr hk)]
    refine ⟨fun hnone => ?_, fun hne => absurd hk.symm hne.1⟩
    cases hnone
  · rw [if_neg (mt beq_iff_eq.mp hk)]
    exact ⟨fun hnone => ⟨Ne.symm hk, hnone⟩, fun hne => hne.2⟩

/-- What is dropped is not found, and all else is found as before. -/
theorem get?_erase (k k' : κ) (es : Entries κ β) :
    (es.erase k).get? k' = if k == k' then none else es.get? k' := by
  induction es with
  | nil => simp [erase, get?]
  | cons e es ih =>
      obtain ⟨l, w⟩ := e
      unfold erase at ih ⊢
      by_cases hl : l = k
      · subst hl
        rw [List.filter_cons_of_neg (by simp), ih, get?]
        by_cases hk : l = k'
        · simp [hk]
        · simp [hk]
      · rw [List.filter_cons_of_pos (by simpa using hl), get?, get?, ih]
        by_cases hlk : l = k'
        · subst hlk
          simp [Ne.symm hl]
        · simp [hlk]

/-- Storing under a key leaves all other entries as and where they are. -/
theorem erase_put (k : κ) (v : β) (es : Entries κ β) : (es.put k v).erase k = es.erase k := by
  induction es with
  | nil => simp [put, erase]
  | cons e es ih =>
      obtain ⟨l, w⟩ := e
      unfold erase at ih ⊢
      by_cases hl : l = k
      · subst hl
        rw [put, if_pos (beq_self_eq_true l), List.filter_cons_of_neg (by simp),
          List.filter_cons_of_neg (by simp)]
      · rw [put, if_neg (mt beq_iff_eq.mp hl), List.filter_cons_of_pos (by simpa using hl),
          List.filter_cons_of_pos (by simpa using hl), ih]

/-- What is stored in turn is found under its key, if keys stay apart. -/
theorem get?_foldl_put {α : Type} {name : α → κ} {l : List α} {a : α} (v : α → β)
    (ha : a ∈ l) (hname : ∀ b ∈ l, name b = name a → b = a) (es : Entries κ β) :
    get? (name a) (l.foldl (fun es b => es.put (name b) (v b)) es) = some (v a) := by
  induction l using List.reverseRecOn with
  | nil => cases ha
  | append_singleton l b ih =>
      rw [List.foldl_append, List.foldl_cons, List.foldl_nil, get?_put]
      by_cases hb : name b = name a
      · rw [if_pos (beq_iff_eq.mpr hb), hname b (List.mem_append_right _ List.mem_cons_self) hb]
      · rw [if_neg (mt beq_iff_eq.mp hb)]
        have ha : a ∈ l := by
          rcases List.mem_append.mp ha with ha | ha
          · exact ha
          · exact absurd (congrArg name (List.mem_singleton.mp ha).symm) hb
        exact ih ha fun b hb => hname b (List.mem_append_left _ hb)

end Lookups

-- ================================================================ order

section Order

variable {κ κ' β β' : Type} [BEq κ]

theorem erase_erase (k : κ) (es : Entries κ β) : (es.erase k).erase k = es.erase k := by
  simp [erase]

/-- What is found is there. -/
theorem exists_mem_of_get? {k : κ} {v : β} {es : Entries κ β} (h : es.get? k = some v) :
    ∃ e ∈ es, e.2 = v := by
  induction es with
  | nil => cases h
  | cons e es ih =>
      obtain ⟨l, w⟩ := e
      rw [get?] at h
      split at h
      · cases h
        exact ⟨(l, v), List.mem_cons_self, rfl⟩
      · obtain ⟨e, he, hv⟩ := ih h
        exact ⟨e, List.mem_cons_of_mem _ he, hv⟩

/-- What is there after storing was there before, or has the stored
value. -/
theorem mem_or_eq_of_mem_put {k : κ} {v : β} {es : Entries κ β} {e : κ × β}
    (h : e ∈ es.put k v) : e ∈ es ∨ e.2 = v := by
  induction es with
  | nil =>
      cases List.mem_singleton.mp h
      exact .inr rfl
  | cons e' es ih =>
      obtain ⟨l, w⟩ := e'
      rw [put] at h
      split at h
      · rcases List.mem_cons.mp h with rfl | h
        · exact .inr rfl
        · exact .inl (List.mem_cons_of_mem _ h)
      · rcases List.mem_cons.mp h with rfl | h
        · exact .inl List.mem_cons_self
        · exact (ih h).imp_left (List.mem_cons_of_mem _)

theorem get?_map [BEq κ'] {g : κ → κ'} (hg : ∀ a b, (g a == g b) = (a == b))
    (f : β → β') (k : κ) (es : Entries κ β) :
    get? (g k) (es.map fun e => (g e.1, f e.2)) = (es.get? k).map f := by
  induction es with
  | nil => rfl
  | cons e es ih =>
      obtain ⟨l, w⟩ := e
      rw [List.map_cons, get?, get?, hg]
      split
      · rfl
      · exact ih

/-- Keys and values may be exchanged for others before or after storing,
if keys stay apart. -/
theorem map_put [BEq κ'] {g : κ → κ'} (hg : ∀ a b, (g a == g b) = (a == b))
    (f : β → β') (k : κ) (v : β) (es : Entries κ β) :
    (es.put k v).map (fun e => (g e.1, f e.2))
      = put (g k) (f v) (es.map fun e => (g e.1, f e.2)) := by
  induction es with
  | nil => rfl
  | cons e es ih =>
      rw [List.map_cons, put, put, hg]
      split
      · rfl
      · rw [List.map_cons, ih]

theorem ofPairs_concat (ps : List (κ × β)) (p : κ × β) :
    ofPairs (ps ++ [p]) = (ofPairs ps).put p.1 p.2 := by
  simp [ofPairs]

/-- The values of the map that pairs make are among theirs. -/
theorem mem_of_mem_ofPairs {ps : List (κ × β)} {e : κ × β} (h : e ∈ ofPairs ps) :
    e.2 ∈ ps.map (·.2) := by
  induction ps using List.reverseRecOn with
  | nil => cases h
  | append_singleton ps p ih =>
      rw [ofPairs_concat] at h
      rw [List.map_append, List.mem_append]
      rcases mem_or_eq_of_mem_put h with h | h
      · exact .inl (ih h)
      · exact .inr (List.mem_singleton.mpr h)

theorem map_ofPairs (f : β → β') (ps : List (κ × β)) :
    (ofPairs ps).map (fun e => (e.1, f e.2))
      = ofPairs (ps.map fun p => (p.1, f p.2)) := by
  induction ps using List.reverseRecOn with
  | nil => rfl
  | append_singleton ps p ih =>
      rw [List.map_append, List.map_singleton, ofPairs_concat, ofPairs_concat,
        ← ih]
      exact map_put (g := id) (fun _ _ => rfl) f p.1 p.2 (ofPairs ps)

variable [LawfulBEq κ]

/-- A new key goes to the end. -/
theorem put_of_not_mem {k : κ} {es : Entries κ β} (h : k ∉ es.map (·.1))
    (v : β) : es.put k v = es ++ [(k, v)] := by
  induction es with
  | nil => rfl
  | cons e es ih =>
      rw [List.map_cons, List.mem_cons, not_or] at h
      rw [put, if_neg (by simpa using Ne.symm h.1), ih h.2, List.cons_append]

/-- Pairs with different keys are the map that they make. -/
theorem ofPairs_of_nodup {ps : List (κ × β)} (h : (ps.map (·.1)).Nodup) :
    ofPairs ps = ps := by
  induction ps using List.reverseRecOn with
  | nil => rfl
  | append_singleton ps p ih =>
      rw [List.map_append, List.map_singleton, List.nodup_append] at h
      obtain ⟨hps, -, hne⟩ := h
      have hp : p.1 ∉ ps.map (·.1) := fun hmem =>
        hne _ hmem _ (List.mem_singleton_self _) rfl
      rw [ofPairs_concat, ih hps, put_of_not_mem hp]

/-- Storing lists the key if it was not listed. -/
theorem keys_put (k : κ) (v : β) (es : Entries κ β) :
    (es.put k v).map (·.1)
      = if k ∈ es.map (·.1) then es.map (·.1) else es.map (·.1) ++ [k] := by
  by_cases hk : k ∈ es.map (·.1)
  · rw [if_pos hk]
    induction es with
    | nil => cases hk
    | cons e es ih =>
        rw [put]
        split
        case isTrue => rfl
        case isFalse hne =>
          have hmem : k ∈ es.map (·.1) :=
            (List.mem_cons.mp hk).resolve_left fun heq => hne (beq_iff_eq.mpr heq.symm)
          rw [List.map_cons, List.map_cons, ih hmem]
  · rw [if_neg hk, put_of_not_mem hk, List.map_append, List.map_singleton]

/-- No key is listed twice. -/
theorem nodup_keys_ofPairs (ps : List (κ × β)) : ((ofPairs ps).map (·.1)).Nodup := by
  induction ps using List.reverseRecOn with
  | nil => exact List.nodup_nil
  | append_singleton ps p ih =>
      rw [ofPairs_concat, keys_put]
      split
      case isTrue => exact ih
      case isFalse hp =>
        refine List.nodup_append.mpr ⟨ih, List.pairwise_singleton _ _, fun k hk k' hk' => ?_⟩
        rintro rfl
        exact hp (List.mem_singleton.mp hk' ▸ hk)

/-- If no key is listed twice, what is found is what is listed. -/
theorem get?_eq_some_iff_mem {es : Entries κ β} (h : (es.map (·.1)).Nodup) {k : κ} {v : β} :
    es.get? k = some v ↔ (k, v) ∈ es := by
  induction es with
  | nil => exact iff_of_false nofun nofun
  | cons e es ih =>
      obtain ⟨l, w⟩ := e
      obtain ⟨hl, hes⟩ := List.nodup_cons.mp h
      rw [get?, List.mem_cons, Prod.mk.injEq, ← ih hes]
      split
      case isTrue heq =>
        obtain rfl := beq_iff_eq.mp heq
        have hnone : ¬ get? l es = some v := fun hget =>
          hl (List.mem_map.mpr ⟨(l, v), (ih hes).mp hget, rfl⟩)
        rw [Option.some.injEq, or_iff_left hnone]
        exact ⟨fun hw => ⟨rfl, hw.symm⟩, fun hw => hw.2.symm⟩
      case isFalse hne =>
        have hkl : k ≠ l := fun heq => hne (beq_iff_eq.mpr heq.symm)
        rw [or_iff_right fun heq => hkl heq.1]

end Order

-- =============================================================== tables

section Tables

variable {κ β : Type}

/-- The map of the listed keys that have a value, in the order of the
list. -/
def tabulate (keys : List κ) (f : κ → Option β) : Entries κ β :=
  keys.filterMap fun k => (f k).map (k, ·)

theorem keys_tabulate_sublist (keys : List κ) (f : κ → Option β) :
    ((tabulate keys f).map (·.1)).Sublist keys := by
  unfold tabulate
  induction keys with
  | nil => exact List.Sublist.refl _
  | cons k keys ih =>
      cases hk : f k with
      | none =>
          rw [List.filterMap_cons_none (by rw [hk]; rfl)]
          exact ih.cons k
      | some v =>
          rw [List.filterMap_cons_some (by rw [hk]; rfl)]
          exact ih.cons_cons k

theorem tabulate_congr {keys : List κ} {f g : κ → Option β}
    (h : ∀ k ∈ keys, f k = g k) : tabulate keys f = tabulate keys g :=
  List.filterMap_congr fun k hk => by rw [h k hk]

theorem mem_tabulate {keys : List κ} {f : κ → Option β} {e : κ × β} :
    e ∈ tabulate keys f ↔ e.1 ∈ keys ∧ f e.1 = some e.2 := by
  unfold tabulate
  rw [List.mem_filterMap]
  constructor
  · rintro ⟨k, hk, he⟩
    obtain ⟨v, hv, rfl⟩ := Option.map_eq_some_iff.mp he
    exact ⟨hk, hv⟩
  · rintro ⟨hk, hv⟩
    exact ⟨e.1, hk, by rw [hv]; rfl⟩

variable [DecidableEq κ]

theorem get?_tabulate (keys : List κ) (f : κ → Option β) (k : κ) :
    (tabulate keys f).get? k = if k ∈ keys then f k else none := by
  induction keys with
  | nil => rfl
  | cons k' keys ih =>
      unfold tabulate at ih ⊢
      by_cases hk : k' = k
      · subst hk
        rw [if_pos List.mem_cons_self]
        cases hf : f k' with
        | none =>
            rw [List.filterMap_cons_none (by rw [hf]; rfl), ih, hf, ite_self]
        | some v =>
            rw [List.filterMap_cons_some (by rw [hf]; rfl), get?]
            exact if_pos (beq_self_eq_true k')
      · have hmem : k ∈ k' :: keys ↔ k ∈ keys := by
          simp [Ne.symm hk]
        simp only [hmem]
        rw [← ih]
        cases hf : f k' with
        | none => rw [List.filterMap_cons_none (by rw [hf]; rfl)]
        | some v =>
            rw [List.filterMap_cons_some (by rw [hf]; rfl), get?]
            exact if_neg (by simpa using hk)

/-- Storing under a key changes its value alone, and lists it at the end if
it was not listed. -/
theorem put_tabulate {keys : List κ} {f g : κ → Option β} {k : κ} {v : β}
    (hkeys : keys.Nodup) (hf : ∀ k' ∈ keys, (f k').isSome = true)
    (hg : ∀ k', k' ≠ k → g k' = f k') (hk : g k = some v) :
    (tabulate keys f).put k v
      = tabulate (if k ∈ keys then keys else keys ++ [k]) g := by
  induction keys with
  | nil => simp [tabulate, put, hk]
  | cons k' keys ih =>
      obtain ⟨hk', hkeys⟩ := List.nodup_cons.mp hkeys
      obtain ⟨w, hw⟩ := Option.isSome_iff_exists.mp (hf k' List.mem_cons_self)
      have hcons : tabulate (k' :: keys) f = (k', w) :: tabulate keys f :=
        List.filterMap_cons_some (by rw [hw]; rfl)
      rw [hcons, put]
      by_cases heq : k' = k
      · subst heq
        have hrest : tabulate keys f = tabulate keys g :=
          tabulate_congr fun l hl => (hg l (by rintro rfl; exact hk' hl)).symm
        rw [if_pos (beq_self_eq_true k'), if_pos List.mem_cons_self, hrest]
        exact (List.filterMap_cons_some (by rw [hk]; rfl)).symm
      · have hmem : k ∈ k' :: keys ↔ k ∈ keys := by
          simp [Ne.symm heq]
        have hrest := ih hkeys fun l hl => hf l (List.mem_cons_of_mem _ hl)
        rw [if_neg (by simpa using heq), hrest]
        simp only [hmem]
        have hhead : ∀ keys, tabulate (k' :: keys) g = (k', w) :: tabulate keys g :=
          fun keys => List.filterMap_cons_some (by rw [hg k' heq, hw]; rfl)
        split
        · rw [hhead]
        · rw [List.cons_append, hhead]

end Tables

end Siteswap.Entries
