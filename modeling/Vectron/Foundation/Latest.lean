import Vectron.Foundation.OrderedStore

/-! # The last write of a key

In a list of writes the last one of a key decides what the key holds. A batch of a store
is such a list.
-/

namespace Foundation

section Latest

variable {α K : Type} [DecidableEq K] (key : α → K)

/-- The last write of a key. -/
def latest (writes : List α) (k : K) : Option α := writes.reverse.find? fun write => key write = k

variable {key}

@[simp] theorem latest_nil (k : K) : latest key [] k = none := rfl

theorem latest_append (first second : List α) (k : K) :
    latest key (first ++ second) k = (latest key second k).or (latest key first k) := by
  rw [latest, List.reverse_append, List.find?_append]
  rfl

theorem latest_concat (writes : List α) (write : α) (k : K) :
    latest key (writes ++ [write]) k = if key write = k then some write else latest key writes k := by
  rw [latest_append, latest, List.reverse_singleton, List.find?_singleton]
  by_cases hkey : key write = k
  · simp [hkey]
  · simp [hkey]

theorem latest_cons (write : α) (writes : List α) (k : K) :
    latest key (write :: writes) k =
      (latest key writes k).or (if key write = k then some write else none) := by
  rw [← List.singleton_append, latest_append, latest, latest, List.reverse_singleton,
    List.find?_singleton]
  simp

section

variable {writes : List α} {k : K}

theorem latest_eq_none :
    latest key writes k = none ↔ ∀ write ∈ writes, key write ≠ k := by
  simp [latest]

theorem mem_of_latest {write : α} (h : latest key writes k = some write) :
    write ∈ writes ∧ key write = k :=
  ⟨List.mem_reverse.mp (List.mem_of_find?_eq_some h), by simpa using List.find?_some h⟩

/-- No write behind the last one of a key is of that key. -/
theorem exists_append_of_latest {write : α} (h : latest key writes k = some write) :
    ∃ before after, writes = before ++ write :: after ∧ ∀ later ∈ after, key later ≠ k := by
  obtain ⟨-, front, back, hsplit, hfront⟩ := List.find?_eq_some_iff_append.mp h
  refine ⟨back.reverse, front.reverse, ?_, ?_⟩
  · rw [← List.reverse_reverse writes, hsplit]
    simp
  · intro later hlater
    simpa using hfront later (List.mem_reverse.mp hlater)

theorem exists_latest (h : k ∈ writes.map key) :
    ∃ write, latest key writes k = some write := by
  cases hlatest : latest key writes k with
  | none =>
      obtain ⟨write, hwrite, hkey⟩ := List.mem_map.mp h
      exact absurd hkey (latest_eq_none.mp hlatest write hwrite)
  | some write => exact ⟨write, rfl⟩

end

theorem latest_map {β : Type} (f : β → α) (writes : List β) (k : K) :
    latest key (writes.map f) k = (latest (key ∘ f) writes k).map f := by
  rw [latest, ← List.map_reverse, List.find?_map]
  rfl

/-- Keys may be renamed. -/
theorem latest_comp {L : Type} [DecidableEq L] {rename : K → L} (hrename : Function.Injective rename)
    (writes : List α) (k : K) : latest (rename ∘ key) writes (rename k) = latest key writes k := by
  unfold latest
  congr 1
  funext write
  simp [hrename.eq_iff]

/-- Earlier writes do not matter to a key that is written again. -/
theorem latest_cons_of_some {write last : α} {writes : List α} {k : K}
    (h : latest key writes k = some last) : latest key (write :: writes) k = some last := by
  rw [latest_cons, h]
  rfl

end Latest

namespace OrderedStore

variable {K V : Type} [LinearOrder K]

/-- Setting a list of values, with other operations in between. -/
theorem get_commit_sets {α : Type} {target : α → K} {value : α → V}
    {between : α → List (StoreOp K V)} (store : OrderedStore K V) (writes : List α) {key : K}
    (hbetween : ∀ write ∈ writes, ∀ op ∈ between write, opKey op ≠ key) :
    (store.commit (writes.flatMap fun write =>
        .set (target write) (value write) :: between write)).get key =
      ((latest target writes key).map value).or (store.get key) := by
  induction writes using List.reverseRecOn with
  | nil => rfl
  | append_singleton writes write ih =>
      have hlast := hbetween write (List.mem_append_right _ (List.mem_singleton_self _))
      rw [List.flatMap_append, commit_append, List.flatMap_singleton, commit_cons,
        get_commit_of_forall_ne hlast, apply, get_set, latest_concat,
        ih fun write hwrite => hbetween write (List.mem_append_left _ hwrite)]
      by_cases hkey : key = target write
      · rw [if_pos hkey, if_pos hkey.symm]
        rfl
      · rw [if_neg hkey, if_neg (Ne.symm hkey)]

end OrderedStore

end Foundation
