import Vectron.Foundation.Exchange

/-! # Heaps

What a slice kept by heap operations promises: the root is an element that no other comes
before. Which of several such elements it is, and how the rest is laid out, is left to the
implementation. The binary heap is one.
-/

namespace Foundation

variable {α : Type}

/-- Neither of two elements need come first, but coming first is consistent. -/
structure WeakOrder (lt : α → α → Bool) : Prop where
  asymm {x y} : lt x y = true → lt y x = false
  negTrans {x y z} : lt x y = false → lt y z = false → lt x z = false

namespace WeakOrder

variable {lt : α → α → Bool}

theorem irrefl (hlt : WeakOrder lt) (x : α) : lt x x = false := by
  cases h : lt x x with
  | false => rfl
  | true => exact h.symm.trans (hlt.asymm h)

theorem of_key {β : Type} [LinearOrder β] (key : α → β) :
    WeakOrder fun x y => decide (key x < key y) where
  asymm h := by
    simp only [decide_eq_true_eq, decide_eq_false_iff_not, not_lt] at h ⊢
    exact h.le
  negTrans hxy hyz := by
    simp only [decide_eq_false_iff_not, not_lt] at hxy hyz ⊢
    exact hyz.trans hxy

/-- Ties broken by a key, a larger one first. -/
theorem tieBreak (hlt : WeakOrder lt) (key : α → Nat) :
    WeakOrder fun x y => lt x y || (!lt y x && decide (key y < key x)) where
  asymm {x y} h := by
    cases hxy : lt x y with
    | true => simp [hlt.asymm hxy]
    | false =>
        simp only [hxy, Bool.false_or, Bool.and_eq_true, Bool.not_eq_true', decide_eq_true_eq] at h
        simp [h.1, h.2.le]
  negTrans {x y z} hxy hyz := by
    simp only [Bool.or_eq_false_iff, Bool.and_eq_false_iff, Bool.not_eq_false',
      decide_eq_false_iff_not, not_lt] at hxy hyz ⊢
    refine ⟨hlt.negTrans hxy.1 hyz.1, ?_⟩
    by_contra hnot
    simp only [not_or, Bool.not_eq_true, not_le] at hnot
    -- no element comes strictly between, so neither pair is strict
    have hyx : lt y x = false := hlt.negTrans hyz.1 hnot.1
    have hzy : lt z y = false := hlt.negTrans hnot.1 hxy.1
    have hkey := hxy.2.resolve_left (by simp [hyx])
    have hkey' := hyz.2.resolve_left (by simp [hzy])
    omega

end WeakOrder

/-- An implementation of a heap on slices. `fix` restores the order after the root was
overwritten. -/
structure Heap (lt : α → α → Bool) where
  Ordered : List α → Prop
  push : List α → α → List α
  pop : List α → Option (α × List α)
  fix : List α → List α
  ordered_nil : Ordered []
  ordered_push {heap x} : Ordered heap → Ordered (push heap x)
  ordered_pop {root rest popped} : Ordered (root :: rest) →
    pop (root :: rest) = some popped → popped.1 = root ∧ Ordered popped.2
  ordered_fix {root rest x} : Ordered (root :: rest) → Ordered (fix (x :: rest))
  root_least {root rest y} : Ordered (root :: rest) → y ∈ rest → lt y root = false
  push_perm (heap x) : (push heap x).Perm (x :: heap)
  pop_perm {heap popped} : pop heap = some popped → (popped.1 :: popped.2).Perm heap
  pop_isSome {heap} : heap ≠ [] → (pop heap).isSome
  fix_perm (heap) : (fix heap).Perm heap

/-- A heap for a finer order. -/
def Heap.coarsen {lt finer : α → α → Bool} (heap : Heap finer)
    (hfiner : ∀ x y, lt x y = true → finer x y = true) : Heap lt :=
  { heap with
    root_least := by
      intro root rest y hordered hy
      have hleast := heap.root_least hordered hy
      by_contra hless
      rw [hfiner y root (Bool.not_eq_false _ ▸ hless)] at hleast
      contradiction }

/-! ## The binary heap -/

section Binary

variable {lt : α → α → Bool}

/-- No element is before its parent. -/
def HeapOrdered (lt : α → α → Bool) (heap : List α) (n : Nat) : Prop :=
  ∀ c x y, 0 < c → c < n → heap[c]? = some x → heap[(c - 1) / 2]? = some y → lt x y = false

theorem exchange_getElem?_of_ne {slice : List α} {i j k : Nat} (hi : k ≠ i) (hj : k ≠ j) :
    (exchange slice i j)[k]? = slice[k]? := by
  unfold exchange
  split
  next => rw [List.getElem?_set_ne hj.symm, List.getElem?_set_ne hi.symm]
  next => rfl

/-- The order except between `j` and its parent. -/
structure UpOrdered (lt : α → α → Bool) (heap : List α) (j : Nat) : Prop where
  except {c x y} : 0 < c → c ≠ j → heap[c]? = some x → heap[(c - 1) / 2]? = some y →
    lt x y = false
  grand {c x y} : 0 < c → (c - 1) / 2 = j → 0 < j → heap[c]? = some x →
    heap[(j - 1) / 2]? = some y → lt x y = false

theorem UpOrdered.exchange (hlt : WeakOrder lt) {heap : List α} {j : Nat} {x y : α}
    (hordered : UpOrdered lt heap j) (hpos : 0 < j) (hx : heap[j]? = some x)
    (hy : heap[(j - 1) / 2]? = some y) (hless : lt x y = true) :
    UpOrdered lt (exchange heap ((j - 1) / 2) j) ((j - 1) / 2) := by
  obtain ⟨hi', hj'⟩ := exchange_getElem? hy hx
  have hother : ∀ k, k ≠ (j - 1) / 2 → k ≠ j →
      (Foundation.exchange heap ((j - 1) / 2) j)[k]? = heap[k]? :=
    fun k hi hj => exchange_getElem?_of_ne hi hj
  constructor
  · intro c u v hc hne hu hv
    by_cases hcj : c = j
    · subst hcj
      rw [hj'] at hu
      rw [hi'] at hv
      obtain rfl := Option.some.inj hu
      obtain rfl := Option.some.inj hv
      exact hlt.asymm hless
    · rw [hother c hne hcj] at hu
      by_cases hparent : (c - 1) / 2 = (j - 1) / 2
      · rw [hparent, hi'] at hv
        obtain rfl := Option.some.inj hv
        exact hlt.negTrans (hordered.except hc hcj hu (hparent ▸ hy)) (hlt.asymm hless)
      · by_cases hparent' : (c - 1) / 2 = j
        · rw [hparent', hj'] at hv
          obtain rfl := Option.some.inj hv
          exact hordered.grand hc hparent' hpos hu hy
        · rw [hother _ hparent hparent'] at hv
          exact hordered.except hc hcj hu hv
  · intro c u v hc hparent hi hu hv
    rw [hother _ (by omega) (by omega)] at hv
    have habove := hordered.except hi (by omega) hy hv
    by_cases hcj : c = j
    · subst hcj
      rw [hj'] at hu
      obtain rfl := Option.some.inj hu
      exact habove
    · rw [hother c (by omega) hcj] at hu
      exact hlt.negTrans (hordered.except hc hcj hu (hparent ▸ hy)) habove

theorem siftUp_ordered (hlt : WeakOrder lt) {heap : List α} {j : Nat}
    (hordered : UpOrdered lt heap j) : HeapOrdered lt (siftUp lt heap j) heap.length := by
  fun_induction siftUp lt heap j with
  | case1 heap j i x y hy hx hstop =>
      intro c u v hc _ hu hv
      by_cases hcj : c = j
      · subst hcj
        have hless := hstop.resolve_left (by omega)
        rw [hx] at hu
        rw [hy] at hv
        rwa [← Option.some.inj hu, ← Option.some.inj hv]
      · exact hordered.except hc hcj hu hv
  | case2 heap j i x y hy hx hstop ih =>
      simp only [not_or, Bool.not_eq_false] at hstop
      rw [← exchange_length heap i j]
      exact ih (hordered.exchange hlt (by omega) hx hy hstop.2)
  | case3 heap j i hnone =>
      intro c u v hc hcn hu hv
      apply hordered.except hc _ hu hv
      rintro rfl
      exact hnone u v hu hv

theorem childOf_lt (lt : α → α → Bool) (heap : List α) {i n : Nat}
    (hi : 2 * i + 1 < n) : childOf lt heap i n < n := by
  unfold childOf
  split
  next => split <;> omega
  next => exact hi

theorem childOf_parent (lt : α → α → Bool) (heap : List α) (i n : Nat) :
    (childOf lt heap i n - 1) / 2 = i := by
  unfold childOf
  split
  next => split <;> omega
  next => omega

section

variable (hlt : WeakOrder lt) {heap : List α}

include hlt

/-- No child is before the chosen one. -/
theorem childOf_least {i n c : Nat} {u v : α} (hc : 0 < c) (hcn : c < n) (hparent : (c - 1) / 2 = i)
    (hu : heap[c]? = some u) (hv : heap[childOf lt heap i n]? = some v) : lt u v = false := by
  have hchild : c = 2 * i + 1 ∨ c = 2 * i + 2 := by omega
  unfold childOf at hv
  split at hv
  next right left hright hleft =>
    split at hv
    next hless =>
      obtain rfl := Option.some.inj (hright.symm.trans hv)
      rcases hchild with rfl | rfl
      · obtain rfl := Option.some.inj (hleft.symm.trans hu)
        exact hlt.asymm hless.2
      · obtain rfl := Option.some.inj (hright.symm.trans hu)
        exact hlt.irrefl _
    next hnot =>
      obtain rfl := Option.some.inj (hleft.symm.trans hv)
      rcases hchild with rfl | rfl
      · obtain rfl := Option.some.inj (hleft.symm.trans hu)
        exact hlt.irrefl _
      · obtain rfl := Option.some.inj (hright.symm.trans hu)
        simpa using fun h => hnot ⟨hcn, h⟩
  next hnone =>
    rcases hchild with rfl | rfl
    · obtain rfl := Option.some.inj (hv.symm.trans hu)
      exact hlt.irrefl _
    · exact absurd hv (hnone u v hu)

/-- The order of the first `n` elements except between `i` and its children. -/
structure DownOrdered (lt : α → α → Bool) (heap : List α) (i n : Nat) : Prop where
  except {c x y} : 0 < c → c < n → (c - 1) / 2 ≠ i → heap[c]? = some x →
    heap[(c - 1) / 2]? = some y → lt x y = false
  grand {c x y} : 0 < c → c < n → (c - 1) / 2 = i → 0 < i → heap[c]? = some x →
    heap[(i - 1) / 2]? = some y → lt x y = false

theorem DownOrdered.exchange {i n : Nat} {child x : α} (hordered : DownOrdered lt heap i n)
    (hi : 2 * i + 1 < n) (hchild : heap[childOf lt heap i n]? = some child) (hx : heap[i]? = some x)
    (hless : lt child x = true) :
    DownOrdered lt (exchange heap i (childOf lt heap i n)) (childOf lt heap i n) n := by
  have hlast := childOf_lt lt heap hi
  have hafter := lt_childOf lt heap i n
  have hparent := childOf_parent lt heap i n
  have hleast := fun {c u} (hc : 0 < c) (hcn : c < n) (hp : (c - 1) / 2 = i)
    (hu : heap[c]? = some u) => childOf_least hlt hc hcn hp hu hchild
  generalize childOf lt heap i n = j at *
  obtain ⟨hi', hj'⟩ := exchange_getElem? hx hchild
  have hother : ∀ k, k ≠ i → k ≠ j → (Foundation.exchange heap i j)[k]? = heap[k]? :=
    fun k hi hj => exchange_getElem?_of_ne hi hj
  constructor
  · intro c u v hc hcn hne hu hv
    by_cases hcj : c = j
    · subst hcj
      rw [hparent, hi'] at hv
      rw [hj'] at hu
      rw [← Option.some.inj hu, ← Option.some.inj hv]
      exact hlt.asymm hless
    · by_cases hci : c = i
      · subst hci
        rw [hi'] at hu
        rw [hother _ (by omega) (by omega)] at hv
        rw [← Option.some.inj hu]
        exact hordered.grand (by omega) hlast hparent hc hchild hv
      · rw [hother c hci hcj] at hu
        by_cases hp : (c - 1) / 2 = i
        · rw [hp, hi'] at hv
          rw [← Option.some.inj hv]
          exact hleast hc hcn hp hu
        · rw [hother _ hp hne] at hv
          exact hordered.except hc hcn hp hu hv
  · intro c u v hc hcn hp hpos hu hv
    rw [hother c (by omega) (by omega)] at hu
    rw [hparent, hi'] at hv
    rw [← Option.some.inj hv]
    exact hordered.except hc hcn (by omega) hu (hp ▸ hchild)

theorem siftDown_ordered {i n : Nat} (hn : n ≤ heap.length) (hordered : DownOrdered lt heap i n) :
    HeapOrdered lt (siftDown lt heap i n) n := by
  fun_induction siftDown lt heap i n with
  | case1 heap i hleaf =>
      intro c u v hc hcn hu hv
      exact hordered.except hc hcn (by omega) hu hv
  | case2 heap i hleaf child x hx hchild hless ih =>
      apply ih
      · rwa [exchange_length]
      · exact hordered.exchange hlt (by omega) hchild hx hless
  | case3 heap i hleaf child x hx hchild hless =>
      intro c u v hc hcn hu hv
      by_cases hp : (c - 1) / 2 = i
      · rw [hp, hx] at hv
        rw [← Option.some.inj hv]
        exact hlt.negTrans (childOf_least hlt hc hcn hp hu hchild) (by simpa using hless)
      · exact hordered.except hc hcn hp hu hv
  | case4 heap i hleaf hnone =>
      have hchild := childOf_lt lt heap (not_le.mp hleaf)
      have hlt' : childOf lt heap i n < heap.length := by omega
      have hi : i < heap.length := by omega
      exact absurd (List.getElem?_eq_getElem hi)
        (hnone _ _ (List.getElem?_eq_getElem hlt'))

end

/-- Nothing behind the first `n` elements moves. -/
theorem siftDown_getElem?_of_le (lt : α → α → Bool) (heap : List α) (i : Nat) {n k : Nat}
    (hk : n ≤ k) :
    (siftDown lt heap i n)[k]? = heap[k]? := by
  fun_induction siftDown lt heap i n with
  | case1 => rfl
  | case2 heap i hleaf child x hchild hx hless ih =>
      have hlast := childOf_lt lt heap (not_le.mp hleaf)
      rw [ih, exchange_getElem?_of_ne (by omega) (by omega)]
  | case3 => rfl
  | case4 => rfl

section

variable (hlt : WeakOrder lt)

include hlt

theorem HeapOrdered.root_least {heap : List α} {root : α}
    (hordered : HeapOrdered lt heap heap.length) (hroot : heap[0]? = some root) {k : Nat} {x : α}
    (hx : heap[k]? = some x) : lt x root = false := by
  induction k using Nat.strong_induction_on generalizing x with
  | _ k ih =>
      by_cases hk : k = 0
      · subst hk
        rw [← Option.some.inj (hx.symm.trans hroot)]
        exact hlt.irrefl x
      · have hlast := (List.getElem?_eq_some_iff.mp hx).1
        have hparent : (k - 1) / 2 < heap.length := by omega
        have hy := List.getElem?_eq_getElem hparent
        exact hlt.negTrans (hordered k x _ (by omega) hlast hx hy) (ih _ (by omega) hy)

theorem HeapOrdered.push {heap : List α} {x : α} (hordered : HeapOrdered lt heap heap.length) :
    HeapOrdered lt (heapPush lt heap x) (heapPush lt heap x).length := by
  have hup : UpOrdered lt (heap ++ [x]) heap.length := by
    constructor
    · intro c u v hc hne hu hv
      have hlast := (List.getElem?_eq_some_iff.mp hu).1
      simp only [List.length_append, List.length_singleton] at hlast
      rw [List.getElem?_append_left (by omega)] at hu hv
      exact hordered c u v hc (by omega) hu hv
    · intro c u v hc hp _ hu
      have hlast := (List.getElem?_eq_some_iff.mp hu).1
      simp only [List.length_append, List.length_singleton] at hlast
      omega
  have h := siftUp_ordered hlt hup
  rwa [(heapPush_perm heap x).length_eq, heapPush, List.length_cons, ← List.length_singleton
    (a := x), ← List.length_append]

theorem HeapOrdered.pop {root : α} {rest : List α} {popped : α × List α}
    (hordered : HeapOrdered lt (root :: rest) (root :: rest).length)
    (hpop : heapPop lt (root :: rest) = some popped) :
    popped.1 = root ∧ HeapOrdered lt popped.2 popped.2.length := by
  set heap := root :: rest with hheap
  have hlength : heap.length = rest.length + 1 := rfl
  have hlast : heap[rest.length]? = some (heap.get ⟨rest.length, by omega⟩) :=
    List.getElem?_eq_getElem _
  have hroot : heap[0]? = some root := rfl
  obtain ⟨hfront, hback⟩ := exchange_getElem? hroot hlast
  have hdown : DownOrdered lt (exchange heap 0 rest.length) 0 rest.length := by
    constructor
    · intro c u v hc hcn hp hu hv
      rw [exchange_getElem?_of_ne (by omega) (by omega)] at hu hv
      exact hordered c u v hc (by omega) hu hv
    · intro c u v _ _ _ hpos
      omega
  have hsifted := siftDown_ordered hlt (by rw [exchange_length]; omega) hdown
  have hsame := (siftDown_getElem?_of_le lt (exchange heap 0 rest.length) 0
    (le_refl rest.length)).trans hback
  have hsize : (siftDown lt (exchange heap 0 rest.length) 0 rest.length).length =
      rest.length + 1 := by
    rw [(siftDown_perm _ _ _).length_eq, exchange_length, hlength]
  simp only [heapPop, hlength, Nat.add_sub_cancel, List.getLast?_eq_getElem?, hsize, hsame,
    Option.some.injEq] at hpop
  subst hpop
  refine ⟨rfl, ?_⟩
  intro c u v hc hcn hu hv
  rw [List.length_dropLast, hsize, Nat.add_sub_cancel] at hcn
  rw [List.getElem?_dropLast, hsize] at hu hv
  split at hu
  · split at hv
    · exact hsifted c u v hc hcn hu hv
    · cases hv
  · cases hu

theorem HeapOrdered.fix {root : α} {rest : List α} {x : α}
    (hordered : HeapOrdered lt (root :: rest) (root :: rest).length) :
    HeapOrdered lt (siftDown lt (x :: rest) 0 (x :: rest).length)
      (siftDown lt (x :: rest) 0 (x :: rest).length).length := by
  have hdown : DownOrdered lt (x :: rest) 0 (x :: rest).length := by
    constructor
    · intro c u v hc hcn hp hu hv
      obtain ⟨c, rfl⟩ := Nat.exists_eq_succ_of_ne_zero hc.ne'
      obtain ⟨p, hp'⟩ := Nat.exists_eq_succ_of_ne_zero hp
      rw [hp'] at hv
      have hv' : (root :: rest)[(c.succ - 1) / 2]? = some v := by rwa [hp']
      exact hordered c.succ u v hc hcn hu hv'
    · intro c u v _ _ _ hpos
      omega
  have h := siftDown_ordered hlt le_rfl hdown
  rwa [(siftDown_perm _ _ _).length_eq]
theorem HeapOrdered.root_le {root y : α} {rest : List α}
    (hordered : HeapOrdered lt (root :: rest) (root :: rest).length) (hy : y ∈ rest) :
    lt y root = false := by
  obtain ⟨k, hk⟩ := List.mem_iff_getElem?.mp hy
  exact hordered.root_least hlt rfl (k := k + 1) hk

end

theorem heapOrdered_nil : HeapOrdered lt [] ([] : List α).length :=
  fun _ _ _ _ hc => absurd hc (Nat.not_lt_zero _)

/-- `container/heap`. -/
def binaryHeap (hlt : WeakOrder lt) : Heap lt where
  Ordered heap := HeapOrdered lt heap heap.length
  push := heapPush lt
  pop := heapPop lt
  fix heap := siftDown lt heap 0 heap.length
  ordered_nil := heapOrdered_nil
  ordered_push hordered := hordered.push hlt
  ordered_pop hordered hpop := hordered.pop hlt hpop
  ordered_fix hordered := hordered.fix hlt
  root_least hordered hy := hordered.root_le hlt hy
  push_perm := heapPush_perm
  pop_perm hpop := heapPop_perm hpop
  pop_isSome := heapPop_isSome
  fix_perm heap := siftDown_perm heap 0 heap.length

end Binary

end Foundation
