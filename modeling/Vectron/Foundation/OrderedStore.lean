import Mathlib

/-! # Key-value stores with ordered iteration

A store holds one value for each of finitely many keys of a linear order. Writes may
come in batches, which take effect in the order they were filled. An iterator
enumerates the entries between two bounds in key order.
-/

namespace Foundation

/-- The entries of a store in strictly increasing key order. -/
structure OrderedStore (K V : Type) [LinearOrder K] where
  entries : List (K × V)
  sorted : entries.Pairwise fun first second => first.1 < second.1

/-- One operation of a batch. -/
inductive StoreOp (K V : Type) where
  | set (key : K) (value : V)
  | delete (key : K)
  deriving Repr, DecidableEq

namespace OrderedStore

variable {K V : Type} [LinearOrder K]

def empty : OrderedStore K V where
  entries := []
  sorted := List.Pairwise.nil

/-- The value under a key. -/
def get (store : OrderedStore K V) (key : K) : Option V :=
  (store.entries.find? fun entry => entry.1 = key).map Prod.snd

def set (store : OrderedStore K V) (key : K) (value : V) : OrderedStore K V where
  entries := store.entries.filter (fun entry => entry.1 < key) ++
    (key, value) :: store.entries.filter (fun entry => key < entry.1)
  sorted := by
    refine List.pairwise_append.mpr ⟨store.sorted.filter _, ?_, ?_⟩
    · refine List.pairwise_cons.mpr ⟨?_, store.sorted.filter _⟩
      intro entry hentry
      simpa using (List.mem_filter.mp hentry).2
    · intro before hbefore after hafter
      have hlt : before.1 < key := by simpa using (List.mem_filter.mp hbefore).2
      rcases List.mem_cons.mp hafter with rfl | hafter
      · exact hlt
      · have hgt : key < after.1 := by simpa using (List.mem_filter.mp hafter).2
        exact hlt.trans hgt

def delete (store : OrderedStore K V) (key : K) : OrderedStore K V where
  entries := store.entries.filter fun entry => entry.1 ≠ key
  sorted := store.sorted.filter _

/-- Delete all keys with a property. -/
def deleteUnder (store : OrderedStore K V) (property : K → Bool) : OrderedStore K V where
  entries := store.entries.filter fun entry => !property entry.1
  sorted := store.sorted.filter _

/-- The entries whose key has a property. -/
def under (store : OrderedStore K V) (property : K → Bool) : List (K × V) :=
  store.entries.filter fun entry => property entry.1

/-- Whether a key lies between the bounds of an iterator; a missing upper bound
leaves the range open. -/
def within (lower : K) (upper : Option K) (key : K) : Bool :=
  decide (lower ≤ key) && upper.all fun upper => decide (key < upper)

/-- The entries an iterator with these bounds enumerates. -/
def scan (store : OrderedStore K V) (lower : K) (upper : Option K) : List (K × V) :=
  store.entries.filter fun entry => within lower upper entry.1

def apply (store : OrderedStore K V) : StoreOp K V → OrderedStore K V
  | .set key value => store.set key value
  | .delete key => store.delete key

/-- Commit a batch: its operations take effect in order, all at once. -/
def commit (store : OrderedStore K V) (batch : List (StoreOp K V)) : OrderedStore K V :=
  batch.foldl apply store

/-! ## Reading back -/

theorem keys_ne {store : OrderedStore K V} {first second : K × V}
    (hfirst : first ∈ store.entries) (hsecond : second ∈ store.entries)
    (hkey : first.1 = second.1) : first = second := by
  by_contra hne
  have hsymm : Std.Symm fun left right : K × V => left.1 ≠ right.1 := ⟨fun _ _ h => h.symm⟩
  have hkeys := store.sorted.imp fun {left right} hlt =>
    (ne_of_lt hlt : (left : K × V).1 ≠ right.1)
  exact hkeys.forall hfirst hsecond hne hkey

theorem get_eq_some {store : OrderedStore K V} {key : K} {value : V} :
    store.get key = some value ↔ (key, value) ∈ store.entries := by
  rw [get, Option.map_eq_some_iff]
  constructor
  · rintro ⟨entry, hfind, rfl⟩
    have hkey : entry.1 = key := by simpa using List.find?_some hfind
    rw [← hkey]
    exact List.mem_of_find?_eq_some hfind
  · intro hmem
    cases hfind : store.entries.find? (fun entry => entry.1 = key) with
    | none =>
        have hnot := List.find?_eq_none.mp hfind (key, value) hmem
        simp at hnot
    | some entry =>
        have hkey : entry.1 = key := by simpa using List.find?_some hfind
        rw [keys_ne (List.mem_of_find?_eq_some hfind) hmem hkey]
        exact ⟨(key, value), rfl, rfl⟩

@[simp] theorem get_empty (key : K) : (empty : OrderedStore K V).get key = none := rfl

theorem get_set (store : OrderedStore K V) (key key' : K) (value : V) :
    (store.set key value).get key' = if key' = key then some value else store.get key' := by
  ext value'
  rw [get_eq_some]
  simp only [set, List.mem_append, List.mem_cons, List.mem_filter, Prod.mk.injEq]
  by_cases hkey : key' = key
  · subst hkey
    simp [eq_comm]
  · rw [if_neg hkey, get_eq_some]
    rcases lt_or_gt_of_ne hkey with hlt | hgt
    · simp [hkey, hlt, hlt.not_gt]
    · simp [hkey, hgt, hgt.not_gt]

theorem get_delete (store : OrderedStore K V) (key key' : K) :
    (store.delete key).get key' = if key' = key then none else store.get key' := by
  ext value'
  rw [get_eq_some]
  simp only [delete, List.mem_filter]
  by_cases hkey : key' = key
  · simp [hkey]
  · rw [if_neg hkey, get_eq_some]
    simp [hkey]

theorem get_deleteUnder (store : OrderedStore K V) (property : K → Bool) (key : K) :
    (store.deleteUnder property).get key = if property key then none else store.get key := by
  ext value
  rw [get_eq_some]
  simp only [deleteUnder, List.mem_filter]
  by_cases hkey : property key = true
  · simp [hkey]
  · rw [if_neg hkey, get_eq_some]
    simp [hkey]

theorem mem_under {store : OrderedStore K V} {property : K → Bool} {key : K} {value : V} :
    (key, value) ∈ store.under property ↔ store.get key = some value ∧ property key = true := by
  rw [under, List.mem_filter, get_eq_some]

/-! ## Iterators -/

theorem mem_scan {store : OrderedStore K V} {lower : K} {upper : Option K} {key : K}
    {value : V} :
    (key, value) ∈ store.scan lower upper ↔
      store.get key = some value ∧ within lower upper key = true := by
  rw [scan, List.mem_filter, get_eq_some]

theorem scan_sorted (store : OrderedStore K V) (lower : K) (upper : Option K) :
    (store.scan lower upper).Pairwise fun first second => first.1 < second.1 :=
  store.sorted.filter _

theorem within_iff {lower key : K} {upper : Option K} :
    within lower upper key = true ↔ lower ≤ key ∧ ∀ bound, upper = some bound → key < bound := by
  cases upper with
  | none => simp [within]
  | some bound => simp [within]

/-! ## Batches -/

@[simp] theorem commit_nil (store : OrderedStore K V) : store.commit [] = store := rfl

@[simp] theorem commit_cons (store : OrderedStore K V) (op : StoreOp K V)
    (batch : List (StoreOp K V)) :
    store.commit (op :: batch) = (store.apply op).commit batch := rfl

theorem commit_append (store : OrderedStore K V) (first second : List (StoreOp K V)) :
    store.commit (first ++ second) = (store.commit first).commit second :=
  List.foldl_append

/-- The key an operation writes. -/
def opKey : StoreOp K V → K
  | .set key _ => key
  | .delete key => key

section

variable {store : OrderedStore K V} {batch : List (StoreOp K V)} {key : K}

/-- A batch leaves the keys it does not write alone. -/
theorem get_commit_of_forall_ne (hne : ∀ op ∈ batch, opKey op ≠ key) :
    (store.commit batch).get key = store.get key := by
  induction batch generalizing store with
  | nil => rfl
  | cons op batch ih =>
      rw [commit_cons, ih fun op hop => hne op (List.mem_cons_of_mem _ hop)]
      have hop := hne op List.mem_cons_self
      cases op with
      | set written value =>
          have hkey : key ≠ written := Ne.symm hop
          rw [apply, get_set, if_neg hkey]
      | delete written =>
          have hkey : key ≠ written := Ne.symm hop
          rw [apply, get_delete, if_neg hkey]

/-- What a key holds after a batch was there before it or is set by it. -/
theorem get_commit_cases {value : V} (hget : (store.commit batch).get key = some value) :
    (store.get key = some value ∧ ∀ op ∈ batch, opKey op ≠ key) ∨ .set key value ∈ batch := by
  induction batch generalizing store with
  | nil => exact Or.inl ⟨hget, nofun⟩
  | cons op batch ih =>
      rcases ih hget with ⟨hbefore, huntouched⟩ | hset
      · cases op with
        | set written value' =>
            rw [apply, get_set] at hbefore
            split at hbefore
            next hkey =>
              cases hbefore
              rw [hkey]
              exact Or.inr List.mem_cons_self
            next hkey =>
              left
              refine ⟨hbefore, List.forall_mem_cons.mpr ⟨Ne.symm hkey, huntouched⟩⟩
        | delete written =>
            rw [apply, get_delete] at hbefore
            split at hbefore
            next _ => cases hbefore
            next hkey =>
              left
              exact ⟨hbefore, List.forall_mem_cons.mpr ⟨Ne.symm hkey, huntouched⟩⟩
      · exact Or.inr (List.mem_cons_of_mem _ hset)

/-- A key that a batch writes in one way only holds that value after it. -/
theorem get_commit_of_set {value : V} (hset : .set key value ∈ batch)
    (honly : ∀ op ∈ batch, opKey op = key → op = .set key value) :
    (store.commit batch).get key = some value := by
  induction batch generalizing store with
  | nil => cases hset
  | cons op batch ih =>
      have honly' : ∀ op ∈ batch, opKey op = key → op = .set key value :=
        fun op hop => honly op (List.mem_cons_of_mem _ hop)
      by_cases hlater : (.set key value : StoreOp K V) ∈ batch
      · exact ih hlater honly'
      · rcases List.mem_cons.mp hset with rfl | hset
        · rw [commit_cons, get_commit_of_forall_ne, apply, get_set, if_pos rfl]
          intro op hop hkey
          exact hlater (honly' op hop hkey ▸ hop)
        · exact absurd hset hlater

end

/-- Deleting a list of keys. -/
theorem get_commit_deletes (store : OrderedStore K V) (keys : List K) (key : K) :
    (store.commit (keys.map .delete)).get key = if key ∈ keys then none else store.get key := by
  induction keys generalizing store with
  | nil => rfl
  | cons head keys ih =>
      rw [List.map_cons, commit_cons, apply, ih, get_delete]
      by_cases hhead : key = head
      · simp [hhead]
      · simp [hhead]

/-- Setting entries with distinct keys. -/
theorem get_commit_sets_of_mem {store : OrderedStore K V} {entries : List (K × V)}
    (hnodup : (entries.map Prod.fst).Nodup) {key : K} {value : V}
    (hmem : (key, value) ∈ entries) :
    (store.commit (entries.map fun entry => .set entry.1 entry.2)).get key = some value := by
  induction entries generalizing store with
  | nil => cases hmem
  | cons head entries ih =>
      obtain ⟨hhead, hnodup⟩ := List.nodup_cons.mp hnodup
      rw [List.map_cons, commit_cons]
      rcases List.mem_cons.mp hmem with rfl | hmem
      · rw [get_commit_of_forall_ne, apply, get_set, if_pos rfl]
        intro op hop heq
        obtain ⟨entry, hentry, rfl⟩ := List.mem_map.mp hop
        exact hhead (List.mem_map.mpr ⟨entry, hentry, heq⟩)
      · exact ih hnodup hmem

end OrderedStore

end Foundation
