import Vectron.Foundation.Moves
import Vectron.Foundation.Selection
import Vectron.Hnsw.Traversal

/-! # Heaps and selection in place

The loops of `search.go` on slices, with `int` indices: an index outside the slice has no result,
and neither has a loop that uses up its rounds. They do what the library's loops do, so every
index is in range and every loop ends.
-/

namespace Vectron.Hnsw.InPlace

open Foundation

variable {α D : Type}

/-! ## The code -/

/-- `slice[i]`. -/
def read (slice : List α) (i : Int) : Option α := if 0 ≤ i then slice[i.toNat]? else none

/-- `slice[i], slice[j] = slice[j], slice[i]`. -/
def swap (slice : List α) (i j : Int) : Option (List α) := do
  let x ← read slice i
  let y ← read slice j
  pure ((slice.set i.toNat y).set j.toNat x)

section Heap

variable (less : α → α → Bool)

/-- `candHeapUp` and `resHeapUp`. Division cuts off towards zero, so the parent of the root is
the root. -/
def heapUp : Nat → List α → Int → Option (List α)
  | 0, _, _ => none
  | rounds + 1, h, j => do
      let i := (j - 1).tdiv 2
      if i = j then pure h
      else
        let x ← read h j
        let y ← read h i
        if !less x y then pure h
        else
          let h ← swap h i j
          heapUp rounds h i

/-- The child to go down to: `j2` if there is one before `j1`. -/
def heapChild (h : List α) (j1 n : Int) : Option Int := do
  let j2 := j1 + 1
  if j2 < n then
    let right ← read h j2
    let left ← read h j1
    pure (if less right left then j2 else j1)
  else pure j1

/-- `candHeapDown` and `resHeapDown`. -/
def heapDown : Nat → List α → Int → Int → Option (List α)
  | 0, _, _, _ => none
  | rounds + 1, h, i, n => do
      let j1 := 2 * i + 1
      if n ≤ j1 ∨ j1 < 0 then pure h
      else
        let j ← heapChild less h j1 n
        let x ← read h j
        let y ← read h i
        if !less x y then pure h
        else
          let h ← swap h i j
          heapDown rounds h j n

/-- `candHeapPush` and `resHeapPush`. -/
def push (h : List α) (c : α) : Option (List α) :=
  let h := h ++ [c]
  heapUp less h.length h (h.length - 1)

/-- `candHeapPop` and `resHeapPop`: the element and the slice that is left. -/
def pop (old : List α) : Option (α × List α) := do
  let n : Int := old.length
  let old ← swap old 0 (n - 1)
  let old ← heapDown less old.length old 0 (n - 1)
  let item ← read old (n - 1)
  pure (item, old.take (n - 1).toNat)

end Heap

section Select

variable (less : α → α → Bool)

/-- The scan for the first candidate that is before the best so far. -/
def minLoop (cands : List α) : Nat → Int → Int → α → Option Int
  | 0, _, _, _ => none
  | rounds + 1, i, minIdx, min =>
      if i < cands.length then do
        let x ← read cands i
        if less x min then minLoop cands rounds (i + 1) i x
        else minLoop cands rounds (i + 1) minIdx min
      else some minIdx

/-- Exchange two candidates if the second is before the first. -/
def orderAt (cands : List α) (i j : Int) : Option (List α) := do
  let x ← read cands i
  let y ← read cands j
  if less y x then swap cands i j else pure cands

/-- `for cands[i].dist < pivot { i++ }`. -/
def scanUp (cands : List α) (pivot : α) : Nat → Int → Option Int
  | 0, _ => none
  | rounds + 1, i => do
      let x ← read cands i
      if less x pivot then scanUp cands pivot rounds (i + 1) else pure i

/-- `for cands[j].dist > pivot { j-- }`. -/
def scanDown (cands : List α) (pivot : α) : Nat → Int → Option Int
  | 0, _ => none
  | rounds + 1, j => do
      let x ← read cands j
      if less pivot x then scanDown cands pivot rounds (j - 1) else pure j

/-- The loop around one pivot. -/
def partitionAt (pivot : α) : Nat → List α → Int → Int → Option (List α × Int × Int)
  | 0, _, _, _ => none
  | rounds + 1, cands, i, j =>
      if i ≤ j then do
        let i ← scanUp less cands pivot (cands.length + 1) i
        let j ← scanDown less cands pivot (cands.length + 1) j
        if i ≤ j then
          let cands ← swap cands i j
          partitionAt pivot rounds cands (i + 1) (j - 1)
        else partitionAt pivot rounds cands i j
      else some (cands, i, j)

/-- The loop that narrows the part with position `k - 1`. -/
def narrow (k : Int) : Nat → List α → Int → Int → Option (List α)
  | 0, _, _, _ => none
  | rounds + 1, cands, lo, hi =>
      if lo ≤ hi then do
        let mid := (lo + hi).tdiv 2
        let cands ← orderAt less cands lo mid
        let cands ← orderAt less cands lo hi
        let cands ← orderAt less cands mid hi
        let pivot ← read cands mid
        let (cands, i, j) ← partitionAt less pivot (cands.length + 1) cands lo hi
        if k - 1 ≤ j then narrow k rounds cands lo j
        else if i ≤ k - 1 then narrow k rounds cands i hi
        else pure cands
      else some cands

/-- `selectTopKByDist`: what is returned, and what the slice holds then. -/
def selectTopK (cands : List α) (k : Int) : Option (List α × List α) :=
  if (cands.length : Int) ≤ k ∨ k ≤ 0 then some (cands, cands)
  else if k = 1 then do
    let first ← read cands 0
    let minIdx ← minLoop less cands cands.length 1 0 first
    let cands ← swap cands 0 minIdx
    pure (cands.take 1, cands)
  else do
    let cands ← narrow less k (cands.length + 1) cands 0 (cands.length - 1)
    pure (cands.take k.toNat, cands)

end Select

section Distances

variable [LinearOrder D] (dist : α → D)

/-- The comparison of the candidate queue. -/
def candLess (x y : α) : Bool := decide (dist x < dist y)

/-- The comparison of the results queue. -/
def resLess (x y : α) : Bool := decide (dist y < dist x)

def candHeapPush : List α → α → Option (List α) := push (candLess dist)

def candHeapPop : List α → Option (α × List α) := pop (candLess dist)

def resHeapPush : List α → α → Option (List α) := push (resLess dist)

def resHeapPop : List α → Option (α × List α) := pop (resLess dist)

def selectTopKByDist : List α → Int → Option (List α × List α) := selectTopK (candLess dist)

end Distances

/-! ## Indices -/

@[simp] theorem read_natCast (slice : List α) (i : Nat) : read slice i = slice[i]? := by
  simp [read]

theorem swap_natCast {slice : List α} {i j : Nat} (hi : i < slice.length) (hj : j < slice.length) :
    swap slice i j = some (exchange slice i j) := by
  simp [swap, exchange, hi, hj]

theorem parent_natCast (j : Nat) : ((j : Int) - 1).tdiv 2 = ((j - 1) / 2 : Nat) := by
  cases j with
  | zero => rfl
  | succ j =>
      have hpred : ((j + 1 : Nat) : Int) - 1 = (j : Int) := by push_cast; ring
      rw [hpred, Nat.add_sub_cancel]
      rfl

/-! ## The heap loops -/

section Heap

variable {less : α → α → Bool}

theorem heapUp_eq {rounds : Nat} {h : List α} {j : Nat} (hj : j < h.length) (hrounds : j < rounds) :
    heapUp less rounds h j = some (siftUp less h j) := by
  induction rounds generalizing h j with
  | zero => omega
  | succ rounds ih =>
      have hi : (j - 1) / 2 < h.length := by omega
      rw [heapUp, siftUp]
      simp only [parent_natCast, Nat.cast_inj, read_natCast, List.getElem?_eq_getElem hj,
        List.getElem?_eq_getElem hi, Option.bind_eq_bind, Option.bind_some, Bool.not_eq_true']
      by_cases hroot : (j - 1) / 2 = j
      · rw [if_pos hroot, dif_pos (Or.inl hroot)]
        rfl
      · rw [if_neg hroot]
        by_cases hless : less h[j] h[(j - 1) / 2] = false
        · rw [if_pos hless, dif_pos (Or.inr hless)]
          rfl
        · rw [if_neg hless, dif_neg (not_or.mpr ⟨hroot, hless⟩), swap_natCast hi hj,
            Option.bind_some]
          exact ih (by rw [exchange_length]; exact hi) (by omega)

theorem heapChild_eq {h : List α} {i n : Nat} (hn : n ≤ h.length) (hi : 2 * i + 1 < n) :
    heapChild less h (2 * i + 1 : Nat) n = some ((childOf less h i n : Nat) : Int) := by
  have hleft : 2 * i + 1 < h.length := by omega
  unfold heapChild childOf
  have hsucc : ((2 * i + 1 : Nat) : Int) + 1 = (2 * i + 2 : Nat) := by push_cast; ring
  simp only [hsucc, Nat.cast_lt, read_natCast, List.getElem?_eq_getElem hleft, Option.bind_eq_bind,
    Option.bind_some]
  by_cases hmore : 2 * i + 2 < n
  · have hright : 2 * i + 2 < h.length := by omega
    simp only [hmore, if_true, List.getElem?_eq_getElem hright, Option.bind_some, true_and]
    split
    next => rfl
    next => rfl
  · rw [if_neg hmore]
    cases hright : h[2 * i + 2]? with
    | none => rfl
    | some right => simp [hmore]

theorem heapDown_eq {rounds : Nat} {h : List α} {i n : Nat} (hn : n ≤ h.length)
    (hpos : 0 < rounds) (hrounds : n ≤ i + rounds) :
    heapDown less rounds h i n = some (siftDown less h i n) := by
  induction rounds generalizing h i with
  | zero => omega
  | succ rounds ih =>
      have hj1 : 2 * (i : Int) + 1 = (2 * i + 1 : Nat) := by push_cast; ring
      rw [heapDown, siftDown]
      simp only [hj1, Nat.cast_le]
      by_cases hleaf : n ≤ 2 * i + 1
      · rw [if_pos (Or.inl hleaf), dif_pos hleaf]
        rfl
      · have hchild := childOf_lt less h (not_le.mp hleaf)
        have hafter := lt_childOf less h i n
        have hx : childOf less h i n < h.length := by omega
        have hy : i < h.length := by omega
        rw [if_neg (not_or.mpr ⟨hleaf, by omega⟩), dif_neg hleaf,
          heapChild_eq hn (not_le.mp hleaf)]
        simp only [read_natCast, List.getElem?_eq_getElem hx, List.getElem?_eq_getElem hy,
          Option.bind_eq_bind, Option.bind_some, Bool.not_eq_true']
        by_cases hless : less h[childOf less h i n] h[i] = true
        · rw [if_neg (by simp [hless]), if_pos hless, swap_natCast hy hx, Option.bind_some]
          exact ih (by rw [exchange_length]; exact hn) (by omega) (by omega)
        · rw [if_pos (by simpa using hless), if_neg hless]
          rfl

/-- A push ends within the slice. -/
theorem push_eq (h : List α) (c : α) : push less h c = some (heapPush less h c) := by
  have hlast : (((h ++ [c]).length : Int) - 1) = (h.length : Nat) := by simp
  simp only [push, hlast]
  exact heapUp_eq (by simp) (by simp)

/-- So does a pop of a heap that is not empty. -/
theorem pop_eq {old : List α} (hne : old ≠ []) : pop less old = heapPop less old := by
  have hpos := List.length_pos_iff.mpr hne
  have hlast : ((old.length : Int) - 1) = (old.length - 1 : Nat) := by omega
  have hzero : (0 : Int) = (0 : Nat) := rfl
  have hsifted : (siftDown less (exchange old 0 (old.length - 1)) 0 (old.length - 1)).length =
      old.length := by rw [(siftDown_perm _ _ _).length_eq, exchange_length]
  simp only [pop, hlast, hzero, Option.bind_eq_bind]
  rw [swap_natCast hpos (by omega), Option.bind_some,
    heapDown_eq (by rw [exchange_length]; omega) (by rw [exchange_length]; exact hpos)
      (by rw [exchange_length]; omega), Option.bind_some, read_natCast, heapPop]
  simp only [List.getLast?_eq_getElem?, List.dropLast_eq_take, hsifted, Int.toNat_natCast]
  cases hitem : (siftDown less (exchange old 0 (old.length - 1)) 0 (old.length - 1))[old.length - 1]?
  · rfl
  · rfl

end Heap

/-! ## The selection loops -/

section Select

variable {less : α → α → Bool} {cands out : List α} {pivot : α} {i j : Nat}

theorem orderAt_eq (hi : i < cands.length) (hj : j < cands.length) :
    orderAt less cands i j = some (orderPair less cands i j) := by
  simp only [orderAt, orderPair, read_natCast, List.getElem?_eq_getElem hi,
    List.getElem?_eq_getElem hj, Option.bind_eq_bind, Option.bind_some]
  split
  next => exact swap_natCast hi hj
  next => rfl

theorem scanUp_eq {rounds : Nat} (hrounds : cands.length - i < rounds)
    (hscan : scanRight less cands pivot i = some j) :
    scanUp less cands pivot rounds i = some (j : Int) := by
  induction rounds generalizing i with
  | zero => omega
  | succ rounds ih =>
      rw [scanRight] at hscan
      split at hscan
      next hi =>
        rw [scanUp, read_natCast, List.getElem?_eq_getElem hi]
        simp only [Option.bind_eq_bind, Option.bind_some]
        split at hscan
        next hless =>
          have hsucc : (i : Int) + 1 = (i + 1 : Nat) := rfl
          rw [if_pos hless, hsucc]
          exact ih (by omega) hscan
        next hstop =>
          obtain rfl := Option.some.inj hscan
          rw [if_neg hstop]
          rfl
      next => cases hscan

/-- Positions of the scan to the left are one after the element looked at. -/
theorem scanDown_eq {rounds : Nat} (hrounds : j ≤ rounds)
    (hscan : scanLeft less cands pivot j = some i) :
    scanDown less cands pivot rounds (j - 1) = some ((i : Int) - 1) := by
  induction j generalizing rounds with
  | zero => cases hscan
  | succ j ih =>
      obtain ⟨rounds, rfl⟩ : ∃ rest, rounds = rest + 1 := ⟨rounds - 1, by omega⟩
      have hpred : ((j + 1 : Nat) : Int) - 1 = (j : Nat) := by push_cast; ring
      rw [scanLeft] at hscan
      rw [scanDown, hpred, read_natCast]
      cases hx : cands[j]? with
      | none => simp [hx] at hscan
      | some x =>
          simp only [hx] at hscan
          simp only [Option.bind_eq_bind, Option.bind_some]
          split at hscan
          next hless =>
            rw [if_pos hless]
            exact ih (by omega) hscan
          next hstop =>
            obtain rfl := Option.some.inj hscan
            rw [if_neg hstop, hpred]
            rfl

theorem partitionAt_eq {rounds i' j' : Nat} (hj : j ≤ cands.length)
    (hout : partitionLoop less rounds cands pivot i j = some (out, i', j')) :
    partitionAt less pivot rounds cands i (j - 1) = some (out, (i' : Int), (j' : Int) - 1) ∧
      j' ≤ j := by
  induction rounds generalizing cands i j with
  | zero => cases hout
  | succ rounds ih =>
      rw [partitionLoop] at hout
      rw [partitionAt]
      split at hout
      next hmet =>
        obtain ⟨rfl, hpair⟩ := Prod.mk.inj (Option.some.inj hout)
        obtain ⟨rfl, rfl⟩ := Prod.mk.inj hpair
        exact ⟨by rw [if_neg (by omega)], le_rfl⟩
      next hapart =>
        obtain ⟨right, hright, hout⟩ := Option.bind_eq_some_iff.mp hout
        obtain ⟨left, hleft, hout⟩ := Option.bind_eq_some_iff.mp hout
        obtain ⟨hir, _, x, hx, _⟩ := scanRight_spec hright
        obtain ⟨hpos, hlj, _, y, hy, _⟩ := scanLeft_spec hleft
        have hrightBound := (List.getElem?_eq_some_iff.mp hx).1
        have hleftBound := (List.getElem?_eq_some_iff.mp hy).1
        have hpred : (left : Int) - 1 = (left - 1 : Nat) := by omega
        rw [if_pos (by omega), scanUp_eq (by omega) hright]
        simp only [Option.bind_eq_bind, Option.bind_some]
        rw [scanDown_eq (by omega) hleft]
        simp only [Option.bind_some]
        split at hout
        next hcross =>
          have hsucc : (right : Int) + 1 = (right + 1 : Nat) := rfl
          rw [if_pos (by omega), hpred, swap_natCast hrightBound hleftBound, Option.bind_some, hsucc]
          obtain ⟨hrest, hle⟩ := ih (by rw [exchange_length]; omega) hout
          exact ⟨hrest, by omega⟩
        next hcross =>
          obtain ⟨hrest, hle⟩ := ih (by omega) hout
          rw [if_neg (by omega)]
          exact ⟨hrest, by omega⟩

theorem narrow_eq {k rounds lo hi : Nat} (hhi : hi ≤ cands.length)
    (hout : selectLoop less k rounds cands lo hi = some out) :
    narrow less (k + 1) rounds cands lo (hi - 1) = some out := by
  induction rounds generalizing cands lo hi with
  | zero => cases hout
  | succ rounds ih =>
      rw [selectLoop] at hout
      rw [narrow]
      split at hout
      next hdone =>
        rw [if_neg (by omega)]
        exact hout
      next hdone =>
        have hpred : (hi : Int) - 1 = (hi - 1 : Nat) := by omega
        have hmid : ((lo : Int) + (hi - 1 : Nat)).tdiv 2 = ((lo + (hi - 1)) / 2 : Nat) := rfl
        rw [if_pos (by omega), hpred]
        simp only [hmid]
        obtain ⟨pivot, hpivot, hout⟩ := Option.bind_eq_some_iff.mp hout
        obtain ⟨⟨parts, i, j⟩, hparts, hout⟩ := Option.bind_eq_some_iff.mp hout
        have hfirst := (@orderPair_perm _ less cands lo ((lo + (hi - 1)) / 2)).length_eq
        have hsecond := (@orderPair_perm _ less (orderPair less cands lo ((lo + (hi - 1)) / 2)) lo
          (hi - 1)).length_eq
        have hthird := (@orderPair_perm _ less (orderPair less (orderPair less cands lo
          ((lo + (hi - 1)) / 2)) lo (hi - 1)) ((lo + (hi - 1)) / 2) (hi - 1)).length_eq
        have hlength := (partitionLoop_perm hparts).length_eq
        obtain ⟨hpartition, hjhi⟩ := partitionAt_eq (by omega) hparts
        rw [orderAt_eq (by omega) (by omega)]
        simp only [Option.bind_eq_bind, Option.bind_some]
        rw [orderAt_eq (by omega) (by omega), Option.bind_some, orderAt_eq (by omega) (by omega),
          Option.bind_some, read_natCast, hpivot, Option.bind_some, ← hpred, hpartition,
          Option.bind_some]
        simp only at hout ⊢
        split at hout
        next hkj =>
          rw [if_pos (by omega)]
          exact ih (by omega) hout
        next hkj =>
          rw [if_neg (by omega)]
          split at hout
          next hik =>
            rw [if_pos (by omega)]
            exact ih (by omega) hout
          next hik =>
            rw [if_neg (by omega)]
            exact hout

/-- The scan for the least candidate, from a place on. -/
theorem minLoop_spec (hlt : WeakOrder less) {rounds m : Nat} {min : α} (hi : i ≤ cands.length)
    (hrounds : cands.length < i + rounds) (hmin : cands[m]? = some min)
    (hleast : ∀ q x, q < i → cands[q]? = some x → less x min = false) :
    ∃ best x, minLoop less cands rounds i m min = some ((best : Nat) : Int) ∧
      cands[best]? = some x ∧ ∀ y ∈ cands, less y x = false := by
  induction rounds generalizing i m min with
  | zero => omega
  | succ rounds ih =>
      rw [minLoop]
      have hsucc : (i : Int) + 1 = (i + 1 : Nat) := rfl
      by_cases hmore : i < cands.length
      · have hx := List.getElem?_eq_getElem hmore
        rw [if_pos (by omega), read_natCast, hx, hsucc]
        simp only [Option.bind_eq_bind, Option.bind_some]
        split
        next hless =>
          refine ih (by omega) (by omega) hx fun q y hq hy => ?_
          rcases Nat.lt_succ_iff_lt_or_eq.mp hq with hq | rfl
          · exact hlt.negTrans (hleast q y hq hy) (hlt.asymm hless)
          · rw [hx] at hy
            rw [Option.some.inj hy]
            exact hlt.irrefl y
        next hless =>
          refine ih (by omega) (by omega) hmin fun q y hq hy => ?_
          rcases Nat.lt_succ_iff_lt_or_eq.mp hq with hq | rfl
          · exact hleast q y hq hy
          · rw [hx] at hy
            rw [← Option.some.inj hy]
            simpa using hless
      · rw [if_neg (by omega)]
        refine ⟨m, min, rfl, hmin, fun y hy => ?_⟩
        obtain ⟨q, hq⟩ := List.mem_iff_getElem?.mp hy
        exact hleast q y (by have := (List.getElem?_eq_some_iff.mp hq).1; omega) hq

/-- What a selection leaves: the candidates it was given, and the first ones in front if there are
more than it may keep. -/
structure Selected (less : α → α → Bool) (cands : List α) (k : Int) (kept slice : List α) : Prop where
  perm : slice.Perm cands
  all : (cands.length : Int) ≤ k ∨ k ≤ 0 → kept = slice
  front : 0 < k → k < cands.length → kept = slice.take k.toNat ∧
    ∀ x ∈ slice.take k.toNat, ∀ y ∈ slice.drop k.toNat, less y x = false

theorem selectTopK_selects (hlt : WeakOrder less) (cands : List α) (k : Int) :
    ∃ kept slice, selectTopK less cands k = some (kept, slice) ∧
      Selected less cands k kept slice := by
  unfold selectTopK
  by_cases hall : (cands.length : Int) ≤ k ∨ k ≤ 0
  · rw [if_pos hall]
    exact ⟨cands, cands, rfl, List.Perm.refl _, fun _ => rfl, fun hpos hless => by omega⟩
  · rw [if_neg hall]
    by_cases hone : k = 1
    · have hpos : 0 < cands.length := by omega
      have hzero : (0 : Int) = (0 : Nat) := rfl
      have hfirst := List.getElem?_eq_getElem hpos
      obtain ⟨best, x, hloop, hbest, hleast⟩ := @minLoop_spec _ less cands 1 hlt cands.length 0
        cands[0] (by omega) (by omega) hfirst fun q y hq hy => by
          have hq : q = 0 := by omega
          rw [hq, hfirst] at hy
          rw [Option.some.inj hy]
          exact hlt.irrefl y
      have hbound := (List.getElem?_eq_some_iff.mp hbest).1
      obtain ⟨hfront, _⟩ := exchange_getElem? hfirst hbest
      have hperm := exchange_perm cands 0 best
      rw [if_pos hone, hzero, read_natCast, hfirst]
      simp only [Option.bind_eq_bind, Option.bind_some]
      have hloop' : minLoop less cands cands.length 1 ((0 : Nat) : Int) cands[0] = some (best : Int) :=
        hloop
      rw [hloop', Option.bind_some, swap_natCast hpos hbound, Option.bind_some]
      refine ⟨_, exchange cands 0 best, rfl, hperm, fun hor => absurd hor hall, fun _ _ => ?_⟩
      subst hone
      refine ⟨rfl, fun y hy z hz => ?_⟩
      have hy : y = x := by
        cases hslice : exchange cands 0 best with
        | nil => simp [hslice] at hfront
        | cons first rest =>
            rw [hslice] at hfront hy
            rw [List.mem_singleton.mp hy]
            exact Option.some.inj hfront
      rw [hy]
      exact hleast z (hperm.mem_iff.mp (List.mem_of_mem_drop hz))
    · obtain ⟨k, rfl⟩ : ∃ n : Nat, k = (n : Int) + 1 := ⟨(k - 1).toNat, by omega⟩
      have htotal := @selectLoop_isSome _ less hlt.irrefl k (cands.length + 1) cands 0 cands.length
        (by omega) le_rfl
      obtain ⟨slice, hslice⟩ := Option.isSome_iff_exists.mp htotal
      have hnarrow := narrow_eq le_rfl hslice
      have hzero : (0 : Int) = (0 : Nat) := rfl
      have htoNat : ((k : Int) + 1).toNat = k + 1 := by omega
      rw [if_neg hone, hzero, hnarrow]
      refine ⟨_, slice, rfl, selectLoop_perm hslice, fun hor => absurd hor hall, fun _ hless => ?_⟩
      rw [htoNat]
      exact ⟨rfl, selectLoop_sides hlt (by omega) hslice⟩

end Select

theorem weakOrder_candLess [LinearOrder D] (dist : α → D) : WeakOrder (candLess dist) :=
  WeakOrder.of_key dist

theorem weakOrder_resLess [LinearOrder D] (dist : α → D) : WeakOrder (resLess dist) :=
  WeakOrder.of_key fun x => OrderDual.toDual (dist x)

/-- Every selection returns, without an index out of range. The slice keeps its candidates, and
if there are more than `k` of them the `k` that are returned are at most as far as the rest. -/
theorem selectTopKByDist_selects [LinearOrder D] (dist : α → D) (cands : List α) (k : Int) :
    ∃ kept slice, selectTopKByDist dist cands k = some (kept, slice) ∧ slice.Perm cands ∧
      ((cands.length : Int) ≤ k ∨ k ≤ 0 → kept = cands) ∧
      (0 < k → k < cands.length → kept = slice.take k.toNat ∧ (kept.length : Int) = k ∧
        ∀ x ∈ kept, ∀ y ∈ slice.drop k.toNat, dist x ≤ dist y) := by
  obtain ⟨kept, slice, heq, hselected⟩ := selectTopK_selects (weakOrder_candLess dist) cands k
  refine ⟨kept, slice, heq, hselected.perm, fun hall => ?_, fun hpos hless => ?_⟩
  · have hwhole : selectTopKByDist dist cands k = some (cands, cands) := if_pos hall
    have hsame := hwhole.symm.trans heq
    exact (congrArg Prod.fst (Option.some.inj hsame)).symm
  · obtain ⟨rfl, hfront⟩ := hselected.front hpos hless
    refine ⟨rfl, ?_, fun x hx y hy => ?_⟩
    · rw [List.length_take, hselected.perm.length_eq]
      omega
    · have hle := hfront x hx y hy
      simpa [candLess] using hle

/-! ## Queues -/

/-- One operation on a queue. -/
inductive QueueOp (α : Type) where
  | push (c : α)
  | pop

/-- A queue, with everything pushed and popped so far. -/
structure Queue (α : Type) where
  heap : List α
  pushed : List α
  popped : List α

/-- An operation on a queue; popping an empty one is out of range. -/
def Queue.step (less : α → α → Bool) (queue : Queue α) : QueueOp α → Option (Queue α)
  | .push c => (push less queue.heap c).map fun heap =>
      { queue with heap := heap, pushed := c :: queue.pushed }
  | .pop => (pop less queue.heap).map fun popped =>
      { queue with heap := popped.2, popped := popped.1 :: queue.popped }

/-- In every prefix there are at least as many pushes as pops, counting from `size` elements. -/
def Poppable : Nat → List (QueueOp α) → Prop
  | _, [] => True
  | size, .push _ :: rest => Poppable (size + 1) rest
  | size, .pop :: rest => 0 < size ∧ Poppable (size - 1) rest

section Queue

variable {less : α → α → Bool} {queue : Queue α}

/-- The slice is in heap order and holds what was pushed and not popped. -/
structure Queue.Sound (less : α → α → Bool) (queue : Queue α) : Prop where
  ordered : HeapOrdered less queue.heap queue.heap.length
  content : (queue.popped ++ queue.heap).Perm queue.pushed

theorem Queue.Sound.push (hsound : queue.Sound less) (hlt : WeakOrder less) (c : α) :
    ∃ next, queue.step less (.push c) = some next ∧ next.Sound less ∧
      next.heap.length = queue.heap.length + 1 := by
  have hperm := @heapPush_perm _ less queue.heap c
  refine ⟨_, by rw [step, push_eq]; rfl, ⟨hsound.ordered.push hlt, ?_⟩, ?_⟩
  · refine (List.Perm.append_left queue.popped hperm).trans ?_
    exact List.perm_middle.trans (hsound.content.cons c)
  · rw [hperm.length_eq, List.length_cons]

theorem Queue.Sound.pop (hsound : queue.Sound less) (hlt : WeakOrder less) (hne : queue.heap ≠ []) :
    ∃ item heap, InPlace.pop less queue.heap = some (item, heap) ∧
      (item :: heap).Perm queue.heap ∧ (∀ y ∈ queue.heap, less y item = false) ∧
      Queue.Sound less { queue with heap := heap, popped := item :: queue.popped } := by
  obtain ⟨⟨item, heap⟩, hpop⟩ := Option.isSome_iff_exists.mp (@heapPop_isSome _ less _ hne)
  have hperm := heapPop_perm hpop
  have hordered := hsound.ordered
  refine ⟨item, heap, by rw [pop_eq hne, hpop], hperm, ?_, ?_, ?_⟩
  · intro y hy
    cases hheap : queue.heap with
    | nil => exact absurd hheap hne
    | cons root rest =>
        rw [hheap] at hpop hordered hy
        obtain ⟨hroot, _⟩ := hordered.pop hlt hpop
        have hroot : item = root := hroot
        rw [hroot]
        rcases List.mem_cons.mp hy with rfl | hy
        · exact hlt.irrefl y
        · exact hordered.root_le hlt hy
  · cases hheap : queue.heap with
    | nil => exact absurd hheap hne
    | cons root rest =>
        rw [hheap] at hpop hordered
        exact (hordered.pop hlt hpop).2
  · refine List.Perm.trans ?_ hsound.content
    have hmiddle : (item :: queue.popped ++ heap).Perm (queue.popped ++ item :: heap) :=
      List.perm_middle.symm
    exact hmiddle.trans (List.Perm.append_left queue.popped hperm)

/-- No operation of such a sequence is out of range, and the queue stays sound. -/
theorem Queue.Sound.run (hlt : WeakOrder less) {ops : List (QueueOp α)}
    (hsound : queue.Sound less) (hops : Poppable queue.heap.length ops) :
    ∃ last, Moves.run (Queue.step less) queue ops = some last ∧ last.Sound less := by
  induction ops generalizing queue with
  | nil => exact ⟨queue, rfl, hsound⟩
  | cons op rest ih =>
      cases op with
      | push c =>
          obtain ⟨next, hstep, hnext, hlength⟩ := hsound.push hlt c
          obtain ⟨last, hrest, hlast⟩ := ih hnext (by rw [hlength]; exact hops)
          exact ⟨last, by rw [Moves.run_cons, hstep]; exact hrest, hlast⟩
      | pop =>
          obtain ⟨item, heap, hpop, hperm, _, hnext⟩ :=
            hsound.pop hlt (List.length_pos_iff.mp hops.1)
          have hstep : queue.step less .pop =
              some { queue with heap := heap, popped := item :: queue.popped } := by
            rw [step, hpop]
            rfl
          have hlength : heap.length = queue.heap.length - 1 := by
            rw [← hperm.length_eq, List.length_cons, Nat.add_sub_cancel]
          obtain ⟨last, hrest, hlast⟩ := ih hnext (by
            change Poppable heap.length rest
            rw [hlength]
            exact hops.2)
          exact ⟨last, by rw [Moves.run_cons, hstep]; exact hrest, hlast⟩

end Queue

/-- No candidate is nearer than its parent. -/
def MinHeap [LinearOrder D] (dist : α → D) (heap : List α) : Prop :=
  ∀ c x y, 0 < c → heap[c]? = some x → heap[(c - 1) / 2]? = some y → dist y ≤ dist x

/-- No candidate is farther than its parent. -/
def MaxHeap [LinearOrder D] (dist : α → D) (heap : List α) : Prop :=
  ∀ c x y, 0 < c → heap[c]? = some x → heap[(c - 1) / 2]? = some y → dist x ≤ dist y

theorem sound_empty (less : α → α → Bool) : Queue.Sound less ⟨[], [], []⟩ :=
  ⟨heapOrdered_nil, List.Perm.refl _⟩

/-- Whatever is pushed and popped, without popping an empty queue: no index is out of range, the
two queues stay heaps of what was pushed and not popped, and the next pop takes a nearest
candidate of the one and a farthest of the other. -/
theorem queues_of_run [LinearOrder D] (dist : α → D) {ops : List (QueueOp α)}
    (hops : Poppable 0 ops) :
    (∃ queue, Moves.run (Queue.step (candLess dist)) ⟨[], [], []⟩ ops = some queue ∧
      MinHeap dist queue.heap ∧ (queue.popped ++ queue.heap).Perm queue.pushed ∧
      (queue.heap ≠ [] → ∃ item heap, candHeapPop dist queue.heap = some (item, heap) ∧
        (item :: heap).Perm queue.heap ∧ ∀ y ∈ queue.heap, dist item ≤ dist y)) ∧
      ∃ queue, Moves.run (Queue.step (resLess dist)) ⟨[], [], []⟩ ops = some queue ∧
        MaxHeap dist queue.heap ∧ (queue.popped ++ queue.heap).Perm queue.pushed ∧
        (queue.heap ≠ [] → ∃ item heap, resHeapPop dist queue.heap = some (item, heap) ∧
          (item :: heap).Perm queue.heap ∧ ∀ y ∈ queue.heap, dist y ≤ dist item) := by
  constructor
  · have hlt := weakOrder_candLess dist
    obtain ⟨queue, hrun, hsound⟩ := (sound_empty (candLess dist)).run hlt hops
    refine ⟨queue, hrun, fun c x y hc hx hy => ?_, hsound.content, fun hne => ?_⟩
    · have hbound := (List.getElem?_eq_some_iff.mp hx).1
      simpa [candLess] using hsound.ordered c x y hc hbound hx hy
    · obtain ⟨item, heap, hpop, hperm, hleast, _⟩ := hsound.pop hlt hne
      exact ⟨item, heap, hpop, hperm, fun y hy => by simpa [candLess] using hleast y hy⟩
  · have hlt := weakOrder_resLess dist
    obtain ⟨queue, hrun, hsound⟩ := (sound_empty (resLess dist)).run hlt hops
    refine ⟨queue, hrun, fun c x y hc hx hy => ?_, hsound.content, fun hne => ?_⟩
    · have hbound := (List.getElem?_eq_some_iff.mp hx).1
      simpa [resLess] using hsound.ordered c x y hc hbound hx hy
    · obtain ⟨item, heap, hpop, hperm, hleast, _⟩ := hsound.pop hlt hne
      exact ⟨item, heap, hpop, hperm, fun y hy => by simpa [resLess] using hleast y hy⟩

theorem queues_of_run_four :
    Poppable 0 [.push 3, .push 1, .push 2, .pop, .push 1] ∧
      ∃ queue, Moves.run (Queue.step (candLess (id : Nat → Nat))) ⟨[], [], []⟩
          [.push 3, .push 1, .push 2, .pop, .push 1] = some queue ∧ MinHeap id queue.heap := by
  have hops : Poppable 0 [QueueOp.push 3, .push 1, .push 2, .pop, .push 1] := by simp [Poppable]
  obtain ⟨⟨queue, hrun, hheap, _⟩, _⟩ := queues_of_run (id : Nat → Nat) hops
  exact ⟨hops, queue, hrun, hheap⟩

/-! ## What searches use -/

/-- The queues of a search are these, for the comparison of `float32` distances. -/
theorem queues_eq (heap : List Candidate) (c : Candidate) :
    push nearer heap c = some (Hnsw.candHeapPush heap c) ∧
      push farther heap c = some (Hnsw.resHeapPush heap c) ∧
      (heap ≠ [] → pop nearer heap = Hnsw.candHeapPop heap ∧
        pop farther heap = Hnsw.resHeapPop heap) :=
  ⟨push_eq heap c, push_eq heap c, fun hne => ⟨pop_eq hne, pop_eq hne⟩⟩

theorem minLoop_bestIndex {scanned rest : List Candidate} {rounds m : Nat} {min : Candidate}
    (hrounds : rest.length < rounds) :
    minLoop nearer (scanned ++ rest) rounds scanned.length m min =
      some ((rest.foldl (fun (best : Candidate × Nat × Nat) c =>
        if nearer c best.1 then (c, best.2.2, best.2.2 + 1)
        else (best.1, best.2.1, best.2.2 + 1)) (min, m, scanned.length)).2.1 : Int) := by
  induction rest generalizing scanned rounds m min with
  | nil =>
      obtain ⟨rounds, rfl⟩ : ∃ n, rounds = n + 1 := ⟨rounds - 1, by omega⟩
      simp [minLoop]
  | cons c rest ih =>
      obtain ⟨rounds, rfl⟩ : ∃ n, rounds = n + 1 := ⟨rounds - 1, by omega⟩
      have hnext : (scanned.length : Int) + 1 = ((scanned ++ [c]).length : Nat) := by simp
      have hlength : scanned.length + 1 = (scanned ++ [c]).length := by simp
      have hget : (scanned ++ c :: rest)[scanned.length]? = some c := by simp
      rw [minLoop, if_pos (by simp), read_natCast, hget, hnext, List.append_cons]
      simp only [Option.bind_eq_bind, Option.bind_some, List.foldl_cons, hlength]
      have hless : rest.length < rounds := by simpa using hrounds
      split
      next => exact ih hless
      next => exact ih hless

theorem foldl_best_lt (rest : List Candidate) (min : Candidate) {m count : Nat} (hm : m < count) :
    (rest.foldl (fun (best : Candidate × Nat × Nat) c =>
      if nearer c best.1 then (c, best.2.2, best.2.2 + 1)
      else (best.1, best.2.1, best.2.2 + 1)) (min, m, count)).2.1 < count + rest.length := by
  induction rest generalizing min m count with
  | nil => simpa using hm
  | cons c rest ih =>
      have hlength : count + (c :: rest).length = count + 1 + rest.length := by simp; omega
      rw [List.foldl_cons, hlength]
      split
      next => exact ih c (Nat.lt_succ_self count)
      next => exact ih min (Nat.lt_succ_of_lt hm)

/-- The selection of a search is this one. -/
theorem selectTopK_eq (cands : List Candidate) (k : Int) :
    ∃ slice, selectTopK nearer cands k = some slice ∧
      (Hnsw.selectTopKByDist cands k).outcome = .ok slice.1 := by
  unfold selectTopK Hnsw.selectTopKByDist
  by_cases hall : (cands.length : Int) ≤ k ∨ k ≤ 0
  · rw [if_pos hall, if_pos hall]
    exact ⟨(cands, cands), rfl, rfl⟩
  · rw [if_neg hall, if_neg hall]
    by_cases hone : k = 1
    · rw [if_pos hone, if_pos hone]
      cases cands with
      | nil =>
          simp at hall
          omega
      | cons first rest =>
          have hzero : (0 : Int) = (0 : Nat) := rfl
          have hscan : minLoop nearer (first :: rest) (first :: rest).length 1 ((0 : Nat) : Int) first =
              some (bestIndex nearer (first :: rest) : Int) :=
            @minLoop_bestIndex [first] rest (first :: rest).length 0 first (by simp)
          have hbound : bestIndex nearer (first :: rest) < (first :: rest).length := by
            rw [List.length_cons, Nat.add_comm]
            exact foldl_best_lt rest first Nat.one_pos
          rw [hzero, read_natCast, List.getElem?_cons_zero]
          simp only [Option.bind_eq_bind, Option.bind_some]
          rw [hscan, Option.bind_some, swap_natCast (by simp) hbound, Option.bind_some]
          exact ⟨_, rfl, rfl⟩
    · obtain ⟨k, rfl⟩ : ∃ n : Nat, k = (n : Int) + 1 := ⟨(k - 1).toNat, by omega⟩
      have htotal := @selectLoop_isSome _ nearer Index.nearer_irrefl k (cands.length + 1) cands 0
        cands.length (by omega) le_rfl
      obtain ⟨slice, hslice⟩ := Option.isSome_iff_exists.mp htotal
      have hzero : (0 : Int) = (0 : Nat) := rfl
      have hpred : ((k : Int) + 1).toNat - 1 = k := by omega
      rw [if_neg hone, if_neg hone, hzero, narrow_eq le_rfl hslice, hpred, hslice]
      exact ⟨_, rfl, rfl⟩

end Vectron.Hnsw.InPlace
