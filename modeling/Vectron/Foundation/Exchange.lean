import Mathlib

/-! # Binary heaps and selection by exchanges

Loops that rearrange a slice only by exchanging two of its elements. Whatever the
comparison answers, the elements stay the same up to order. Indexes outside the slice are
left to the callers of the heap loops, which never produce them; the selection loop reports
them as `none`, and does not produce them when no element is before itself.
-/

namespace Foundation

variable {α : Type}

/-- Exchange the elements at two positions. -/
def exchange (slice : List α) (i j : Nat) : List α :=
  match slice[i]?, slice[j]? with
  | some x, some y => (slice.set i y).set j x
  | _, _ => slice

theorem exchange_perm (slice : List α) (i j : Nat) : (exchange slice i j).Perm slice := by
  unfold exchange
  split
  next x y hx hy =>
    obtain ⟨hi, rfl⟩ := List.getElem?_eq_some_iff.mp hx
    obtain ⟨hj, rfl⟩ := List.getElem?_eq_some_iff.mp hy
    have hswap := @Array.swap_perm _ slice.toArray i j hi hj
    simpa [Array.perm_iff_toList_perm, Array.swap] using hswap
  next => exact List.Perm.refl _

@[simp] theorem exchange_length (slice : List α) (i j : Nat) :
    (exchange slice i j).length = slice.length :=
  (exchange_perm slice i j).length_eq

/-- Overwriting an element adds one and drops one. -/
theorem set_subperm_cons (slice : List α) (i : Nat) (x : α) :
    (slice.set i x).Subperm (x :: slice) := by
  induction slice generalizing i with
  | nil => exact (List.nil_sublist _).subperm
  | cons head rest ih =>
      cases i with
      | zero => exact ((List.sublist_cons_self head rest).cons_cons x).subperm
      | succ i =>
          rw [List.set_cons_succ]
          exact ((List.subperm_cons head).mpr (ih i)).trans (List.Perm.swap _ _ _).subperm

section Heap

variable (lt : α → α → Bool)

/-- Move the element at `j` up while it is before its parent. -/
def siftUp (heap : List α) (j : Nat) : List α :=
  let i := (j - 1) / 2
  match heap[j]?, heap[i]? with
  | some x, some y =>
      if _hstop : i = j ∨ lt x y = false then heap else siftUp (exchange heap i j) i
  | _, _ => heap
termination_by j
decreasing_by omega

/-- The child of `i` to compare with: the left one unless the right one is before it. -/
def childOf (heap : List α) (i n : Nat) : Nat :=
  match heap[2 * i + 2]?, heap[2 * i + 1]? with
  | some right, some left => if 2 * i + 2 < n ∧ lt right left = true then 2 * i + 2 else 2 * i + 1
  | _, _ => 2 * i + 1

theorem lt_childOf (heap : List α) (i n : Nat) : i < childOf lt heap i n := by
  unfold childOf
  split
  next => split <;> omega
  next => omega

/-- Move the element at `i` down, within the first `n`, while a child is before it. -/
def siftDown (heap : List α) (i n : Nat) : List α :=
  if _hleaf : n ≤ 2 * i + 1 then heap
  else
    match heap[childOf lt heap i n]?, heap[i]? with
    | some child, some x =>
        if lt child x then
          siftDown (exchange heap i (childOf lt heap i n)) (childOf lt heap i n) n
        else heap
    | _, _ => heap
termination_by n - i
decreasing_by
  have := lt_childOf lt heap i n
  omega

/-- Append and move up. -/
def heapPush (heap : List α) (x : α) : List α := siftUp lt (heap ++ [x]) heap.length

/-- Take the root. -/
def heapPop (heap : List α) : Option (α × List α) :=
  let n := heap.length
  let sifted := siftDown lt (exchange heap 0 (n - 1)) 0 (n - 1)
  match sifted.getLast? with
  | some x => some (x, sifted.dropLast)
  | none => none

variable {lt}

theorem siftUp_perm (heap : List α) (j : Nat) : (siftUp lt heap j).Perm heap := by
  fun_induction siftUp lt heap j with
  | case1 => exact List.Perm.refl _
  | case2 heap j i x y hx hy hstop ih => exact ih.trans (exchange_perm _ _ _)
  | case3 => exact List.Perm.refl _

theorem siftDown_perm (heap : List α) (i n : Nat) : (siftDown lt heap i n).Perm heap := by
  fun_induction siftDown lt heap i n with
  | case1 => exact List.Perm.refl _
  | case2 heap i hleaf child x hchild hx hlt ih => exact ih.trans (exchange_perm _ _ _)
  | case3 => exact List.Perm.refl _
  | case4 => exact List.Perm.refl _

theorem heapPush_perm (heap : List α) (x : α) : (heapPush lt heap x).Perm (x :: heap) :=
  (siftUp_perm _ _).trans (List.perm_append_singleton x heap)

theorem heapPop_perm {heap rest : List α} {x : α} (hpop : heapPop lt heap = some (x, rest)) :
    (x :: rest).Perm heap := by
  simp only [heapPop] at hpop
  split at hpop
  next last hlast =>
    obtain ⟨rfl, rfl⟩ := Prod.mk.inj (Option.some.inj hpop)
    have happend := List.dropLast_append_getLast? last hlast
    refine (List.perm_append_singleton last _).symm.trans ?_
    rw [happend]
    exact (siftDown_perm _ _ _).trans (exchange_perm _ _ _)
  next => cases hpop

theorem heapPop_isSome {heap : List α} (hne : heap ≠ []) : (heapPop lt heap).isSome := by
  simp only [heapPop]
  split
  next => rfl
  next hnone =>
    have hnil := List.getLast?_eq_none_iff.mp hnone
    have hlength := (@siftDown_perm _ lt (exchange heap 0 (heap.length - 1)) 0
      (heap.length - 1)).length_eq
    rw [hnil, exchange_length] at hlength
    exact absurd (List.length_eq_zero_iff.mp hlength.symm) hne

end Heap

section Select

variable (lt : α → α → Bool)

/-- Step right over the elements before the pivot. `none` at the end of the slice. -/
def scanRight (slice : List α) (pivot : α) (i : Nat) : Option Nat :=
  if hi : i < slice.length then
    if lt slice[i] pivot then scanRight slice pivot (i + 1) else some i
  else none
termination_by slice.length - i

/-- Step left over the elements the pivot is before; the position is the one after the
element looked at. -/
def scanLeft (slice : List α) (pivot : α) : Nat → Option Nat
  | 0 => none
  | j + 1 =>
      match slice[j]? with
      | none => none
      | some x => if lt pivot x then scanLeft slice pivot j else some (j + 1)

/-- Exchange elements on the wrong side of the pivot until the two positions meet. -/
def partitionLoop : Nat → List α → α → Nat → Nat → Option (List α × Nat × Nat)
  | 0, _, _, _, _ => none
  | fuel + 1, slice, pivot, i, j =>
      if j ≤ i then some (slice, i, j)
      else do
        let i ← scanRight lt slice pivot i
        let j ← scanLeft lt slice pivot j
        if i < j then partitionLoop fuel (exchange slice i (j - 1)) pivot (i + 1) (j - 1)
        else partitionLoop fuel slice pivot i j

/-- Exchange two elements that stand in the wrong order. -/
def orderPair (slice : List α) (i j : Nat) : List α :=
  match slice[i]?, slice[j]? with
  | some x, some y => if lt y x then exchange slice i j else slice
  | _, _ => slice

/-- Narrow the part `lo` to `hi` (exclusive) down to the one that holds position `k`. -/
def selectLoop (k : Nat) : Nat → List α → Nat → Nat → Option (List α)
  | 0, _, _, _ => none
  | fuel + 1, slice, lo, hi =>
      if hi ≤ lo then some slice
      else do
        let mid := (lo + (hi - 1)) / 2
        -- the median of three becomes the pivot
        let slice := orderPair lt slice lo mid
        let slice := orderPair lt slice lo (hi - 1)
        let slice := orderPair lt slice mid (hi - 1)
        let pivot ← slice[mid]?
        let (slice, i, j) ← partitionLoop lt (slice.length + 1) slice pivot lo hi
        if k < j then selectLoop k fuel slice lo j
        else if i ≤ k then selectLoop k fuel slice i hi
        else some slice

variable {lt}

theorem orderPair_perm (slice : List α) (i j : Nat) : (orderPair lt slice i j).Perm slice := by
  unfold orderPair
  split
  next =>
    split
    next => exact exchange_perm _ _ _
    next => exact List.Perm.refl _
  next => exact List.Perm.refl _

theorem partitionLoop_perm {fuel : Nat} {slice out : List α} {pivot : α} {i j i' j' : Nat}
    (hout : partitionLoop lt fuel slice pivot i j = some (out, i', j')) : out.Perm slice := by
  induction fuel generalizing slice i j with
  | zero => cases hout
  | succ fuel ih =>
      rw [partitionLoop] at hout
      split at hout
      next =>
        obtain ⟨rfl, _⟩ := Prod.mk.inj (Option.some.inj hout)
        exact List.Perm.refl _
      next =>
        obtain ⟨right, -, hout⟩ := Option.bind_eq_some_iff.mp hout
        obtain ⟨left, -, hout⟩ := Option.bind_eq_some_iff.mp hout
        split at hout
        next => exact (ih hout).trans (exchange_perm _ _ _)
        next => exact ih hout

theorem selectLoop_perm {k fuel : Nat} {slice out : List α} {lo hi : Nat}
    (hout : selectLoop lt k fuel slice lo hi = some out) : out.Perm slice := by
  induction fuel generalizing slice lo hi with
  | zero => cases hout
  | succ fuel ih =>
      rw [selectLoop] at hout
      split at hout
      next =>
        cases hout
        exact List.Perm.refl _
      next =>
        obtain ⟨pivot, -, hout⟩ := Option.bind_eq_some_iff.mp hout
        obtain ⟨⟨parts, i, j⟩, hparts, hout⟩ := Option.bind_eq_some_iff.mp hout
        have hperm : parts.Perm slice :=
          (partitionLoop_perm hparts).trans
            ((orderPair_perm _ _ _).trans ((orderPair_perm _ _ _).trans (orderPair_perm _ _ _)))
        simp only at hout
        split at hout
        next => exact (ih hout).trans hperm
        next =>
          split at hout
          next => exact (ih hout).trans hperm
          next =>
            cases hout
            exact hperm

/-! ### The selection ends within the slice -/

/-- An element at or after `i` that the scan to the right does not step over. -/
def StopsRight (lt : α → α → Bool) (slice : List α) (pivot : α) (i : Nat) : Prop :=
  ∃ stop x, i ≤ stop ∧ slice[stop]? = some x ∧ lt x pivot = false

/-- An element before `j` that the scan to the left does not step over. -/
def StopsLeft (lt : α → α → Bool) (slice : List α) (pivot : α) (j : Nat) : Prop :=
  ∃ stop x, stop < j ∧ slice[stop]? = some x ∧ lt pivot x = false

theorem scanRight_eq_some {slice : List α} {pivot : α} {i stop : Nat} {x : α} (hle : i ≤ stop)
    (hstop : slice[stop]? = some x) (hx : lt x pivot = false) :
    ∃ i' x', scanRight lt slice pivot i = some i' ∧ i ≤ i' ∧ i' ≤ stop ∧
      slice[i']? = some x' ∧ lt x' pivot = false := by
  fun_induction scanRight lt slice pivot i with
  | case1 i hi hlt ih =>
      -- the element at `stop` is not stepped over, so `i` is before it
      have hne : i ≠ stop := by
        rintro rfl
        rw [List.getElem?_eq_getElem hi] at hstop
        rw [Option.some.inj hstop, hx] at hlt
        cases hlt
      obtain ⟨i', x', hscan, hfrom, hrest⟩ := ih (by omega)
      exact ⟨i', x', hscan, by omega, hrest⟩
  | case2 i hi hlt =>
      exact ⟨i, slice[i], rfl, le_rfl, hle, List.getElem?_eq_getElem hi, by simpa using hlt⟩
  | case3 i hi =>
      obtain ⟨hlength, _⟩ := List.getElem?_eq_some_iff.mp hstop
      omega

theorem scanLeft_eq_some {slice : List α} {pivot : α} {j stop : Nat} {x : α} (hlt : stop < j)
    (hstop : slice[stop]? = some x) (hx : lt pivot x = false) (hj : j ≤ slice.length) :
    ∃ j' x', scanLeft lt slice pivot j = some (j' + 1) ∧ stop ≤ j' ∧ j' < j ∧
      slice[j']? = some x' ∧ lt pivot x' = false := by
  induction j with
  | zero => omega
  | succ j ih =>
      have hget : slice[j]? = some slice[j] := List.getElem?_eq_getElem (by omega)
      rw [scanLeft, hget]
      by_cases hover : lt pivot slice[j] = true
      · have hne : j ≠ stop := by
          rintro rfl
          rw [hget] at hstop
          rw [Option.some.inj hstop, hx] at hover
          cases hover
        obtain ⟨j', x', hscan, hfrom, hto, hrest⟩ := ih (by omega) (by omega)
        refine ⟨j', x', ?_, hfrom, by omega, hrest⟩
        simp only [hover, if_true, hscan]
      · exact ⟨j, slice[j], by simp [hover], by omega, by omega, hget, by simpa using hover⟩

theorem exchange_getElem? {slice : List α} {i j : Nat} {x y : α} (hx : slice[i]? = some x)
    (hy : slice[j]? = some y) :
    (exchange slice i j)[i]? = some y ∧ (exchange slice i j)[j]? = some x := by
  obtain ⟨hi, rfl⟩ := List.getElem?_eq_some_iff.mp hx
  obtain ⟨hj, rfl⟩ := List.getElem?_eq_some_iff.mp hy
  simp only [exchange, List.getElem?_eq_getElem, hi, hj, List.length_set]
  grind

/-- The partition ends, and not before the two positions have passed both stops. -/
theorem partitionLoop_ends {fuel : Nat} {slice : List α} {pivot : α} {i j : Nat}
    (hfuel : j - i < fuel) (hj : j ≤ slice.length)
    (hright : i < j → StopsRight lt slice pivot i)
    (hleft : i < j → StopsLeft lt slice pivot j) :
    ∃ out i' j', partitionLoop lt fuel slice pivot i j = some (out, i', j') ∧
      i ≤ i' ∧ j' ≤ j := by
  induction fuel generalizing slice i j with
  | zero => omega
  | succ fuel ih =>
      rw [partitionLoop]
      by_cases hdone : j ≤ i
      · exact ⟨slice, i, j, by rw [if_pos hdone], le_rfl, le_rfl⟩
      · obtain ⟨stop, x, hle, hstop, hx⟩ := hright (by omega)
        obtain ⟨i', x', hscan, hfrom, -, hget, hx'⟩ := scanRight_eq_some hle hstop hx
        obtain ⟨stop', y, hlt, hstop', hy⟩ := hleft (by omega)
        obtain ⟨j', y', hscan', -, hto, hget', hy'⟩ := scanLeft_eq_some hlt hstop' hy hj
        rw [if_neg hdone, hscan, hscan']
        simp only [Option.bind_eq_bind, Option.bind_some, Nat.add_sub_cancel]
        obtain ⟨hleftOut, hrightOut⟩ := exchange_getElem? hget hget'
        by_cases hcross : i' < j' + 1
        · rw [if_pos hcross]
          obtain ⟨out, i'', j'', hout, hi'', hj''⟩ :=
            @ih (exchange slice i' j') (i' + 1) j' (by omega) (by rw [exchange_length]; omega)
              (fun hlt => ⟨j', x', by omega, hrightOut, hx'⟩)
              (fun hlt => ⟨i', y', by omega, hleftOut, hy'⟩)
          exact ⟨out, i'', j'', hout, by omega, by omega⟩
        · rw [if_neg hcross]
          obtain ⟨out, i'', j'', hout, hi'', hj''⟩ :=
            @ih slice i' (j' + 1) (by omega) (by omega) (fun hlt => absurd hlt hcross)
              (fun hlt => absurd hlt hcross)
          exact ⟨out, i'', j'', hout, by omega, by omega⟩

/-- With the pivot between them, both positions move. -/
theorem partitionLoop_moves {fuel : Nat} {slice : List α} {pivot : α} {lo mid hi : Nat}
    (hirrefl : ∀ x, lt x x = false) (hfuel : hi - lo < fuel) (hhi : hi ≤ slice.length)
    (hlo : lo ≤ mid) (hmid : mid < hi) (hpivot : slice[mid]? = some pivot) :
    ∃ out i j, partitionLoop lt fuel slice pivot lo hi = some (out, i, j) ∧ lo < i ∧ j < hi := by
  obtain ⟨fuel, rfl⟩ : ∃ rest, fuel = rest + 1 := ⟨fuel - 1, by omega⟩
  obtain ⟨i, x, hscan, hfrom, hle, hget, hx⟩ := scanRight_eq_some hlo hpivot (hirrefl pivot)
  obtain ⟨j, y, hscan', hle', hto, hget', hy⟩ := scanLeft_eq_some hmid hpivot (hirrefl pivot) hhi
  obtain ⟨hleftOut, hrightOut⟩ := exchange_getElem? hget hget'
  rw [partitionLoop, if_neg (by omega), hscan, hscan']
  simp only [Option.bind_eq_bind, Option.bind_some, Nat.add_sub_cancel]
  rw [if_pos (by omega)]
  obtain ⟨out, i', j', hout, hi', hj'⟩ :=
    @partitionLoop_ends _ lt fuel (exchange slice i j) pivot (i + 1) j (by omega)
      (by rw [exchange_length]; omega) (fun hlt => ⟨j, x, by omega, hrightOut, hx⟩)
      (fun hlt => ⟨i, y, by omega, hleftOut, hy⟩)
  exact ⟨out, i', j', hout, by omega, by omega⟩

theorem selectLoop_isSome (hirrefl : ∀ x, lt x x = false) {k fuel : Nat} {slice : List α}
    {lo hi : Nat} (hfuel : hi - lo < fuel) (hhi : hi ≤ slice.length) :
    (selectLoop lt k fuel slice lo hi).isSome := by
  induction fuel generalizing slice lo hi with
  | zero => omega
  | succ fuel ih =>
      rw [selectLoop]
      by_cases hdone : hi ≤ lo
      · rw [if_pos hdone]
        rfl
      · rw [if_neg hdone]
        let paired := orderPair lt (orderPair lt (orderPair lt slice lo ((lo + (hi - 1)) / 2)) lo
          (hi - 1)) ((lo + (hi - 1)) / 2) (hi - 1)
        have hperm : paired.Perm slice :=
          (orderPair_perm _ _ _).trans ((orderPair_perm _ _ _).trans (orderPair_perm _ _ _))
        have hlength : paired.length = slice.length := hperm.length_eq
        have hmid : (lo + (hi - 1)) / 2 < paired.length := by omega
        have hpivot : paired[(lo + (hi - 1)) / 2]? = some paired[(lo + (hi - 1)) / 2] :=
          List.getElem?_eq_getElem hmid
        obtain ⟨out, i, j, hout, hi', hj'⟩ :=
          @partitionLoop_moves _ lt (paired.length + 1) paired _ lo _ hi hirrefl (by omega)
            (by omega) (by omega) (by omega) hpivot
        have hsame : out.length = slice.length :=
          ((partitionLoop_perm hout).trans hperm).length_eq
        change ((paired[(lo + (hi - 1)) / 2]?).bind fun pivot =>
          (partitionLoop lt (paired.length + 1) paired pivot lo hi).bind _).isSome
        rw [hpivot, Option.bind_some, hout, Option.bind_some]
        simp only
        split
        next => exact ih (by omega) (by omega)
        next =>
          split
          next => exact ih (by omega) (by omega)
          next => rfl

end Select

end Foundation
