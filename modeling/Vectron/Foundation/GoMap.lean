import Mathlib.Data.List.AList

/-! # Finite maps with an unspecified iteration order

A map is a duplicate-free association list. Reads and writes never look at the
stored order; a `for range` loop sees the entries in an order chosen by its
environment, which may differ from one loop to the next.
-/

namespace Foundation

/-- A finite map from `K` to `V`. -/
abbrev GoMap (K V : Type) := AList (fun _ : K => V)

namespace GoMap

variable {K V W : Type} [DecidableEq K]

/-- Rewrite the value of an entry and keep its key. -/
def mapEntry (f : V → W) (entry : Σ _ : K, V) : Σ _ : K, W :=
  ⟨entry.1, f entry.2⟩

omit [DecidableEq K] in
theorem keys_map_mapEntry (f : V → W) (entries : List (Σ _ : K, V)) :
    (entries.map (mapEntry f)).keys = entries.keys := by
  rw [List.keys, List.keys, List.map_map]
  rfl

/-- Rewrite every value and keep the keys. -/
def mapValues (f : V → W) (m : GoMap K V) : GoMap K W where
  entries := m.entries.map (mapEntry f)
  nodupKeys := by
    rw [List.NodupKeys, keys_map_mapEntry]
    exact m.nodupKeys

omit [DecidableEq K] in
theorem keys_mapValues (f : V → W) (m : GoMap K V) : (mapValues f m).keys = m.keys :=
  keys_map_mapEntry f m.entries

private theorem dlookup_map_mapEntry (f : V → W) (k : K) (entries : List (Σ _ : K, V)) :
    (entries.map (mapEntry f)).dlookup k = (entries.dlookup k).map f := by
  induction entries with
  | nil => rfl
  | cons head rest ih =>
      rcases head with ⟨key, value⟩
      by_cases hkey : k = key
      · subst hkey
        simp [mapEntry]
      · rw [List.map_cons, List.dlookup_cons_ne _ _ hkey, List.dlookup_cons_ne _ _ hkey, ih]

@[simp] theorem lookup_mapValues (f : V → W) (m : GoMap K V) (k : K) :
    (mapValues f m).lookup k = (m.lookup k).map f :=
  dlookup_map_mapEntry f k m.entries

private theorem map_kerase (f : V → W) (k : K) (entries : List (Σ _ : K, V)) :
    (List.kerase k entries).map (mapEntry f) = List.kerase k (entries.map (mapEntry f)) := by
  induction entries with
  | nil => rfl
  | cons head rest ih =>
      by_cases hkey : k = head.1
      · rw [List.kerase_cons_eq hkey, List.map_cons, List.kerase_cons_eq (by exact hkey)]
      · rw [List.kerase_cons_ne hkey, List.map_cons, List.map_cons,
          List.kerase_cons_ne (by exact hkey), ih]

theorem mapValues_erase (f : V → W) (k : K) (m : GoMap K V) :
    mapValues f (m.erase k) = (mapValues f m).erase k :=
  AList.ext (map_kerase f k m.entries)

theorem mapValues_insert (f : V → W) (k : K) (v : V) (m : GoMap K V) :
    mapValues f (m.insert k v) = (mapValues f m).insert k (f v) := by
  apply AList.ext
  simp [mapValues, map_kerase, mapEntry]

theorem lookup_insert_if (m : GoMap K V) (k k' : K) (v : V) :
    (m.insert k v).lookup k' = if k' = k then some v else m.lookup k' := by
  by_cases hkey : k' = k
  · subst hkey
    simp
  · rw [AList.lookup_insert_ne hkey, if_neg hkey]

theorem lookup_erase_if (m : GoMap K V) (k k' : K) :
    (m.erase k).lookup k' = if k' = k then none else m.lookup k' := by
  by_cases hkey : k' = k
  · subst hkey
    simp
  · rw [AList.lookup_erase_ne hkey, if_neg hkey]

/-- A map filled by a loop over elements with distinct keys holds what they wrote. -/
theorem lookup_foldl_insert {α : Type} {key : α → K} {value : α → V} {elements : List α}
    (hnodup : (elements.map key).Nodup) (m : GoMap K V) (k : K) (v : V) :
    (elements.foldl (fun m e => m.insert (key e) (value e)) m).lookup k = some v ↔
      (∃ e ∈ elements, key e = k ∧ value e = v) ∨ k ∉ elements.map key ∧ m.lookup k = some v := by
  induction elements generalizing m with
  | nil => simp
  | cons first rest ih =>
      rw [List.map_cons, List.nodup_cons] at hnodup
      rw [List.foldl_cons, ih hnodup.2, lookup_insert_if, List.map_cons]
      by_cases hk : k = key first
      · subst hk
        have hnone : ∀ e ∈ rest, key e ≠ key first := fun e he heq =>
          hnodup.1 (heq ▸ List.mem_map_of_mem he)
        simp only [if_true, List.mem_cons, true_or, not_true_eq_false, false_and, or_false]
        constructor
        · rintro (⟨e, he, heq, _⟩ | ⟨_, hsome⟩)
          · exact absurd heq (hnone e he)
          · exact ⟨first, Or.inl rfl, rfl, Option.some.inj hsome⟩
        · rintro ⟨e, rfl | he, heq, hv⟩
          · exact Or.inr ⟨hnodup.1, by rw [hv]⟩
          · exact absurd heq (hnone e he)
      · simp only [List.mem_cons, hk, false_or]
        constructor
        · rintro (⟨e, he, heq⟩ | hrest)
          · exact Or.inl ⟨e, Or.inr he, heq⟩
          · exact Or.inr hrest
        · rintro (⟨e, rfl | he, heq⟩ | hrest)
          · exact absurd heq.1.symm hk
          · exact Or.inl ⟨e, he, heq⟩
          · exact Or.inr hrest

theorem mem_of_lookup_eq_some {m : GoMap K V} {k : K} {v : V} (h : m.lookup k = some v) :
    k ∈ m :=
  AList.lookup_isSome.mp (by rw [h]; rfl)

/-! ## Maps that differ in parts of their values -/

/-- The same keys, with values that agree in what `f` keeps of them. -/
def Alike (f : V → W) (first second : GoMap K V) : Prop :=
  mapValues f first = mapValues f second

namespace Alike

variable {f : V → W} {first second : GoMap K V}

section

variable (halike : Alike f first second)

include halike

omit [DecidableEq K] in
theorem keys : first.keys = second.keys := by
  rw [← keys_mapValues f first, halike, keys_mapValues]

theorem lookup (k : K) :
    (first.lookup k = none ∧ second.lookup k = none) ∨
      ∃ v v', first.lookup k = some v ∧ second.lookup k = some v' ∧ f v = f v' := by
  have hmap : (first.lookup k).map f = (second.lookup k).map f := by
    rw [← lookup_mapValues, halike, lookup_mapValues]
  cases hfirst : first.lookup k with
  | none =>
      rw [hfirst] at hmap
      exact Or.inl ⟨rfl, Option.map_eq_none_iff.mp hmap.symm⟩
  | some v =>
      rw [hfirst] at hmap
      obtain ⟨v', hsecond, heq⟩ := Option.map_eq_some_iff.mp hmap.symm
      exact Or.inr ⟨v, v', rfl, hsecond, heq.symm⟩

theorem insert (k : K) {v v' : V} (hv : f v = f v') :
    Alike f (first.insert k v) (second.insert k v') := by
  rw [Alike, mapValues_insert, mapValues_insert, halike, hv]

theorem erase (k : K) :
    Alike f (first.erase k) (second.erase k) := by
  rw [Alike, mapValues_erase, mapValues_erase, halike]

end

end Alike

end GoMap

/-- The order in which one loop visits the entries of a map. -/
structure RangeOrder where
  visit : ∀ {α : Type}, List α → List α
  perm : ∀ {α : Type} (entries : List α), (visit entries).Perm entries

namespace RangeOrder

variable {K V : Type} [DecidableEq K]

/-- The order in which the entries happen to be stored. -/
def stored : RangeOrder where
  visit entries := entries
  perm _ := List.Perm.refl _

/-- The stored order from its end. -/
def reversed : RangeOrder where
  visit entries := entries.reverse
  perm entries := entries.reverse_perm

/-- The key-value pairs of a map as one `for range` loop sees them. -/
def range (order : RangeOrder) (m : GoMap K V) : List (K × V) :=
  order.visit (m.entries.map fun entry => (entry.1, entry.2))

theorem mem_range {order : RangeOrder} {m : GoMap K V} {k : K} {v : V} :
    (k, v) ∈ order.range m ↔ m.lookup k = some v := by
  rw [range, (order.perm _).mem_iff, List.mem_map]
  constructor
  · rintro ⟨⟨key, value⟩, hentry, heq⟩
    obtain ⟨rfl, rfl⟩ := Prod.mk.inj heq
    exact AList.mem_lookup_iff.mpr hentry
  · intro hlookup
    exact ⟨⟨k, v⟩, AList.mem_lookup_iff.mp hlookup, rfl⟩

omit [DecidableEq K] in
theorem range_keys_nodup (order : RangeOrder) (m : GoMap K V) :
    ((order.range m).map Prod.fst).Nodup := by
  have hperm := (order.perm (m.entries.map fun entry => (entry.1, entry.2))).map Prod.fst
  refine hperm.nodup_iff.mpr ?_
  rw [List.map_map]
  exact m.keys_nodup

/-- Two loops over maps that are alike find the same key if only one key can be found. -/
theorem find?_range_of_alike {f : V → V} {first second : GoMap K V}
    (halike : GoMap.Alike f first second) (order order' : RangeOrder) {p : V → Bool}
    (hp : ∀ v, p (f v) = p v)
    (hone : ∀ left ∈ first.entries, ∀ right ∈ first.entries,
      p left.2 = true → p right.2 = true → left.1 = right.1) :
    ((order.range first).find? (fun entry => p entry.2) = none ∧
        (order'.range second).find? (fun entry => p entry.2) = none) ∨
      ∃ k v v', (order.range first).find? (fun entry => p entry.2) = some (k, v) ∧
        (order'.range second).find? (fun entry => p entry.2) = some (k, v') ∧ f v = f v' := by
  -- an entry that the second loop may find stands under the same key in the first map
  have hback : ∀ k v', second.lookup k = some v' → p v' = true →
      ∃ v, first.lookup k = some v ∧ p v = true ∧ f v = f v' := by
    intro k v' hlookup' hfound
    rcases halike.lookup k with ⟨_, hnone⟩ | ⟨v, w, hlookup, hw, heq⟩
    · rw [hlookup'] at hnone
      contradiction
    · obtain rfl := Option.some.inj (hlookup'.symm.trans hw)
      refine ⟨v, hlookup, ?_, heq⟩
      rw [← hp, heq, hp]
      exact hfound
  cases hfirst : (order.range first).find? (fun entry => p entry.2) with
  | none =>
      refine Or.inl ⟨rfl, ?_⟩
      rw [List.find?_eq_none] at hfirst ⊢
      rintro ⟨k, v'⟩ hmem hfound
      obtain ⟨v, hlookup, hv, _⟩ := hback k v' (mem_range.mp hmem) hfound
      exact hfirst (k, v) (mem_range.mpr hlookup) hv
  | some entry =>
      rcases entry with ⟨k, v⟩
      have hv := List.find?_some hfirst
      have hlookup := mem_range.mp (List.mem_of_find?_eq_some hfirst)
      rcases halike.lookup k with ⟨hnone, _⟩ | ⟨_, v', hsame, hlookup', heq⟩
      · rw [hlookup] at hnone
        contradiction
      · obtain rfl := Option.some.inj (hlookup.symm.trans hsame)
        refine Or.inr ⟨k, v, v', rfl, ?_, heq⟩
        cases hsecond : (order'.range second).find? (fun entry => p entry.2) with
        | none =>
            have hnot := List.find?_eq_none.mp hsecond (k, v') (mem_range.mpr hlookup')
            rw [← hp, ← heq, hp] at hnot
            exact absurd hv hnot
        | some found =>
            rcases found with ⟨key, w⟩
            have hw := List.find?_some hsecond
            have hfound := mem_range.mp (List.mem_of_find?_eq_some hsecond)
            obtain ⟨u, hu, hpu, _⟩ := hback key w hfound hw
            obtain rfl := hone ⟨k, v⟩ (AList.mem_lookup_iff.mp hlookup) ⟨key, u⟩
              (AList.mem_lookup_iff.mp hu) hv hpu
            rw [Option.some.inj (hfound.symm.trans hlookup')]

end RangeOrder

end Foundation
