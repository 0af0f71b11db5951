import Mathlib
import Vectron.Foundation.GoMap

/-! # Sizes, sums and contents of maps, and deleting many entries -/

namespace Foundation.GoMap

variable {K V : Type} [DecidableEq K]

/-- Delete every entry whose key has a property, in a loop over the map. -/
def eraseWhere (property : K → Bool) (m : GoMap K V) : GoMap K V where
  entries := m.entries.filter fun entry => !property entry.1
  nodupKeys := m.nodupKeys.sublist List.filter_sublist

theorem lookup_eraseWhere (property : K → Bool) (m : GoMap K V) (k : K) :
    (m.eraseWhere property).lookup k = if property k then none else m.lookup k := by
  have hfilter : ∀ entries : List (Σ _ : K, V),
      (entries.filter fun entry => !property entry.1).dlookup k =
        if property k then none else entries.dlookup k := by
    intro entries
    induction entries with
    | nil => simp
    | cons entry entries ih =>
        obtain ⟨key, value⟩ := entry
        by_cases hkey : k = key
        · subst hkey
          cases hproperty : property k <;> simp [hproperty, ih]
        · cases hproperty : property key <;> simp [hproperty, hkey, ih]
  exact hfilter m.entries

/-- `len` of a map. -/
def size (m : GoMap K V) : Nat := m.keys.length

theorem size_insert_of_notMem {m : GoMap K V} {k : K} (hk : k ∉ m) (v : V) :
    size (m.insert k v) = m.size + 1 := by
  rw [size, AList.keys_insert, List.length_cons, List.erase_of_not_mem hk, size]

theorem size_insert_of_mem {m : GoMap K V} {k : K} (hk : k ∈ m) (v : V) :
    size (m.insert k v) = m.size := by
  rw [size, AList.keys_insert, List.length_cons, List.length_erase_of_mem hk, size]
  have hpos := List.length_pos_of_mem hk
  omega

theorem size_erase_of_mem {m : GoMap K V} {k : K} (hk : k ∈ m) :
    size (m.erase k) + 1 = m.size := by
  rw [size, AList.keys_erase, List.length_erase_of_mem hk, size]
  have hpos := List.length_pos_of_mem hk
  omega

theorem size_erase_le (m : GoMap K V) (k : K) : size (m.erase k) ≤ m.size := by
  rw [size, AList.keys_erase]
  exact List.erase_sublist.length_le

/-- The sum of the weights of all values. -/
def total (weight : V → Int) (m : GoMap K V) : Int := (m.entries.map fun entry => weight entry.2).sum

theorem total_insert (weight : V → Int) (m : GoMap K V) (k : K) (v : V) :
    total weight (m.insert k v) = total weight m + weight v - ((m.lookup k).map weight).getD 0 := by
  have hkerase : ∀ entries : List (Σ _ : K, V),
      ((List.kerase k entries).map fun entry => weight entry.2).sum =
        (entries.map fun entry => weight entry.2).sum - ((entries.dlookup k).map weight).getD 0 := by
    intro entries
    induction entries with
    | nil => simp
    | cons entry entries ih =>
        obtain ⟨key, value⟩ := entry
        by_cases hkey : k = key
        · subst hkey
          simp
        · rw [List.kerase_cons_ne (by exact hkey), List.map_cons, List.sum_cons, List.map_cons,
            List.sum_cons, ih, List.dlookup_cons_ne _ _ hkey]
          omega
  rw [total, AList.entries_insert, List.map_cons, List.sum_cons, hkerase]
  change weight v + _ = total weight m + weight v - ((m.entries.dlookup k).map weight).getD 0
  rw [total]
  omega

/-! ## Contents of the values -/

variable {α : Type}

/-- The contents of all values, in the stored order. -/
def gathered (contents : V → List α) (m : GoMap K V) : List α :=
  m.entries.flatMap fun entry => contents entry.2

/-- A new value under a key adds its contents and takes those of the old one away. -/
theorem gathered_insert (contents : V → List α) (m : GoMap K V) (k : K)
    (v : V) :
    (gathered contents (m.insert k v) ++ ((m.lookup k).map contents).getD []).Perm
      (m.gathered contents ++ contents v) := by
  have hkerase : ∀ entries : List (Σ _ : K, V),
      (((List.kerase k entries).flatMap fun entry => contents entry.2) ++
        ((entries.dlookup k).map contents).getD []).Perm
        (entries.flatMap fun entry => contents entry.2) := by
    intro entries
    induction entries with
    | nil => simp
    | cons entry entries ih =>
        obtain ⟨key, value⟩ := entry
        by_cases hkey : k = key
        · subst hkey
          simpa using List.perm_append_comm
        · rw [List.kerase_cons_ne (by exact hkey), List.dlookup_cons_ne _ _ hkey,
            List.flatMap_cons, List.flatMap_cons, List.append_assoc]
          exact ih.append_left _
  rw [gathered, AList.entries_insert, List.flatMap_cons, List.append_assoc]
  exact (List.perm_append_comm).trans ((hkerase m.entries).append_right _)

end Foundation.GoMap
