import Vectron.Foundation.Best

/-! # Selections

The selection loop leaves the first elements of a slice in front. Loops that only compare and
exchange elements depend on the comparison of the elements they were given: where two comparisons
agree on these, the loops do the same.
-/

namespace Foundation

variable {α : Type} {lt other : α → α → Bool}

/-! ## Comparisons that agree -/

/-- Two comparisons that answer alike for the elements of a list. -/
def AgreeOn (lt other : α → α → Bool) (elements : List α) : Prop :=
  ∀ x ∈ elements, ∀ y ∈ elements, lt x y = other x y

section Agree

variable {elements heap slice : List α}

theorem AgreeOn.subset (hagree : AgreeOn lt other elements) {some : List α}
    (hsub : some ⊆ elements) : AgreeOn lt other some :=
  fun x hx y hy => hagree x (hsub hx) y (hsub hy)

theorem AgreeOn.exchange (hagree : AgreeOn lt other slice) (i j : Nat) :
    AgreeOn lt other (exchange slice i j) :=
  hagree.subset (exchange_perm slice i j).subset

section

variable (hagree : AgreeOn lt other heap)

include hagree

theorem siftUp_congr (j : Nat) :
    siftUp lt heap j = siftUp other heap j := by
  fun_induction siftUp lt heap j with
  | case1 heap j i x y hy hx hstop =>
      have hsame := hagree x (List.mem_of_getElem? hx) y (List.mem_of_getElem? hy)
      have hparent : heap[(j - 1) / 2]? = some y := hy
      rw [siftUp.eq_def other]
      simp only [hx, hparent]
      rw [dif_pos (hsame ▸ hstop)]
  | case2 heap j i x y hy hx hstop ih =>
      have hsame := hagree x (List.mem_of_getElem? hx) y (List.mem_of_getElem? hy)
      have hparent : heap[(j - 1) / 2]? = some y := hy
      rw [ih (hagree.exchange i j), siftUp.eq_def other heap]
      simp only [hx, hparent]
      rw [dif_neg (hsame ▸ hstop)]
  | case3 heap j i hnone =>
      rw [siftUp.eq_def other]
      simp only
      split
      next x y hx hy => exact absurd hy (hnone x y hx)
      next => rfl

theorem childOf_congr (i n : Nat) :
    childOf lt heap i n = childOf other heap i n := by
  unfold childOf
  split
  next right left hright hleft =>
    rw [hagree right (List.mem_of_getElem? hright) left (List.mem_of_getElem? hleft)]
  next => rfl

theorem siftDown_congr (i n : Nat) :
    siftDown lt heap i n = siftDown other heap i n := by
  fun_induction siftDown lt heap i n with
  | case1 heap i hleaf => rw [siftDown.eq_def other, dif_pos hleaf]
  | case2 heap i hleaf child x hx hchild hless ih =>
      have hsame := hagree child (List.mem_of_getElem? hchild) x (List.mem_of_getElem? hx)
      rw [ih (hagree.exchange _ _), siftDown.eq_def other heap, dif_neg hleaf,
        ← childOf_congr hagree i n]
      simp only [hx, hchild, ← hsame, hless, if_true]
  | case3 heap i hleaf child x hx hchild hless =>
      have hsame := hagree child (List.mem_of_getElem? hchild) x (List.mem_of_getElem? hx)
      rw [siftDown.eq_def other, dif_neg hleaf, ← childOf_congr hagree i n]
      simp only [hx, hchild, ← hsame, hless, Bool.false_eq_true, if_false]
  | case4 heap i hleaf hnone =>
      rw [siftDown.eq_def other, dif_neg hleaf, ← childOf_congr hagree i n]
      split
      next child x hchild hx => exact absurd hx (hnone child x hchild)
      next => rfl

end

theorem heapPush_congr {x : α} (hagree : AgreeOn lt other (x :: heap)) :
    heapPush lt heap x = heapPush other heap x :=
  siftUp_congr (hagree.subset (List.perm_append_singleton x heap).subset) heap.length

theorem heapPop_congr (hagree : AgreeOn lt other heap) : heapPop lt heap = heapPop other heap := by
  simp only [heapPop, siftDown_congr (hagree.exchange _ _)]

theorem scanRight_congr {pivot : α} (hagree : ∀ x ∈ slice, lt x pivot = other x pivot) (i : Nat) :
    scanRight lt slice pivot i = scanRight other slice pivot i := by
  fun_induction scanRight lt slice pivot i with
  | case1 i hi hless ih =>
      rw [ih, scanRight.eq_def other slice pivot i, dif_pos hi, ← hagree _ (List.getElem_mem hi),
        if_pos hless]
  | case2 i hi hless =>
      rw [scanRight.eq_def other, dif_pos hi, ← hagree _ (List.getElem_mem hi), if_neg hless]
  | case3 i hi => rw [scanRight.eq_def other, dif_neg hi]

theorem scanLeft_congr {pivot : α} (hagree : ∀ x ∈ slice, lt pivot x = other pivot x) (j : Nat) :
    scanLeft lt slice pivot j = scanLeft other slice pivot j := by
  induction j with
  | zero => rfl
  | succ j ih =>
      rw [scanLeft, scanLeft]
      cases hx : slice[j]? with
      | none => rfl
      | some x => simp only [hagree x (List.mem_of_getElem? hx), ih]

theorem partitionLoop_congr {pivot : α} (hagree : AgreeOn lt other slice) (hpivot : pivot ∈ slice)
    (fuel i j : Nat) :
    partitionLoop lt fuel slice pivot i j = partitionLoop other fuel slice pivot i j := by
  induction fuel generalizing slice i j with
  | zero => rfl
  | succ fuel ih =>
      have hright := scanRight_congr (fun x hx => hagree x hx pivot hpivot) i
      have hleft := scanLeft_congr (fun x hx => hagree pivot hpivot x hx) j
      have hmoved : ∀ i j, pivot ∈ exchange slice i j := fun i j =>
        (exchange_perm slice i j).mem_iff.mpr hpivot
      simp only [partitionLoop, hright, hleft, ih (hagree.exchange _ _) (hmoved _ _),
        ih hagree hpivot]

section

variable (hagree : AgreeOn lt other slice)

include hagree

theorem orderPair_congr (i j : Nat) :
    orderPair lt slice i j = orderPair other slice i j := by
  unfold orderPair
  split
  next x y hx hy => rw [hagree y (List.mem_of_getElem? hy) x (List.mem_of_getElem? hx)]
  next => rfl

theorem AgreeOn.orderPair (i j : Nat) :
    AgreeOn lt other (orderPair other slice i j) :=
  hagree.subset (orderPair_perm slice i j).subset

theorem selectLoop_congr (k fuel lo hi : Nat) :
    selectLoop lt k fuel slice lo hi = selectLoop other k fuel slice lo hi := by
  induction fuel generalizing slice lo hi with
  | zero => rfl
  | succ fuel ih =>
      rw [selectLoop, selectLoop]
      split
      next => rfl
      next =>
        have hfirst := hagree.orderPair lo ((lo + (hi - 1)) / 2)
        have hsecond := hfirst.orderPair lo (hi - 1)
        have hthird := hsecond.orderPair ((lo + (hi - 1)) / 2) (hi - 1)
        simp only [orderPair_congr hagree, orderPair_congr hfirst, orderPair_congr hsecond]
        refine Option.bind_congr fun pivot hpivot => ?_
        rw [partitionLoop_congr hthird (List.mem_of_getElem? hpivot)]
        refine Option.bind_congr fun parts hparts => ?_
        have hagree' := hthird.subset (partitionLoop_perm hparts).subset
        simp only [ih hagree']

end

end Agree

/-! ## What the selection leaves in front -/

/-- Only elements between two positions were exchanged. -/
structure Within (lo hi : Nat) (slice out : List α) : Prop where
  outside : ∀ q, q < lo ∨ hi ≤ q → out[q]? = slice[q]?
  inside : ∀ q x, lo ≤ q → q < hi → out[q]? = some x →
    ∃ q', lo ≤ q' ∧ q' < hi ∧ slice[q']? = some x

/-- On the way through a partition: what lies before `i` is not after the pivot, and what lies
from `j` on is not before it. -/
structure Sides (lt : α → α → Bool) (pivot : α) (lo hi : Nat) (slice : List α) (i j : Nat) :
    Prop where
  before : ∀ q x, lo ≤ q → q < i → slice[q]? = some x → lt pivot x = false
  after : ∀ q x, j ≤ q → q < hi → slice[q]? = some x → lt x pivot = false

/-- No element is before one on the other side of the two positions. -/
structure Narrowed (lt : α → α → Bool) (slice : List α) (lo hi : Nat) : Prop where
  low : ∀ q r x y, q < lo → lo ≤ r → slice[q]? = some x → slice[r]? = some y → lt y x = false
  high : ∀ q r x y, q < hi → hi ≤ r → slice[q]? = some x → slice[r]? = some y → lt y x = false

section Select

variable {slice out : List α} {pivot : α} {lo hi i j k : Nat}

theorem Within.refl (lo hi : Nat) (slice : List α) : Within lo hi slice slice where
  outside _ _ := rfl
  inside q _ hlo hhi hx := ⟨q, hlo, hhi, hx⟩

theorem Within.trans {middle : List α} (hfirst : Within lo hi slice middle)
    (hsecond : Within lo hi middle out) : Within lo hi slice out where
  outside q hq := (hsecond.outside q hq).trans (hfirst.outside q hq)
  inside q x hlo hhi hx := by
    obtain ⟨q', hlo', hhi', hx'⟩ := hsecond.inside q x hlo hhi hx
    exact hfirst.inside q' x hlo' hhi' hx'

section

variable (hi' : lo ≤ i) (hi'' : i < hi) (hj' : lo ≤ j) (hj'' : j < hi) (slice : List α)

include hi' hi'' hj' hj''

theorem Within.exchange : Within lo hi slice (exchange slice i j) := by
  unfold Foundation.exchange
  split
  next x y hx hy =>
    have hlength := (List.getElem?_eq_some_iff.mp hx).1
    have hlength' := (List.getElem?_eq_some_iff.mp hy).1
    constructor
    case outside =>
      intro q hq
      rw [List.getElem?_set_ne (by omega), List.getElem?_set_ne (by omega)]
    case inside =>
      intro q z hlo hhi hz
      by_cases hqj : q = j
      · subst hqj
        rw [List.getElem?_set_self (by rw [List.length_set]; omega)] at hz
        exact ⟨i, hi', hi'', Option.some.inj hz ▸ hx⟩
      · rw [List.getElem?_set_ne (Ne.symm hqj)] at hz
        by_cases hqi : q = i
        · subst hqi
          rw [List.getElem?_set_self hlength] at hz
          exact ⟨j, hj', hj'', Option.some.inj hz ▸ hy⟩
        · rw [List.getElem?_set_ne (Ne.symm hqi)] at hz
          exact ⟨q, hlo, hhi, hz⟩
  next => exact Within.refl lo hi slice

theorem Within.orderPair : Within lo hi slice (orderPair lt slice i j) := by
  unfold Foundation.orderPair
  split
  next =>
    split
    next => exact Within.exchange hi' hi'' hj' hj'' slice
    next => exact Within.refl lo hi slice
  next => exact Within.refl lo hi slice

end

/-- The scan to the right steps over elements before the pivot. -/
theorem scanRight_spec (hscan : scanRight lt slice pivot i = some j) :
    i ≤ j ∧ (∀ q x, i ≤ q → q < j → slice[q]? = some x → lt x pivot = true) ∧
      ∃ x, slice[j]? = some x ∧ lt x pivot = false := by
  fun_induction scanRight lt slice pivot i with
  | case1 i hi hless ih =>
      obtain ⟨hle, hover, hstop⟩ := ih hscan
      refine ⟨by omega, fun q x hiq hqj hx => ?_, hstop⟩
      by_cases heq : q = i
      · subst heq
        rw [List.getElem?_eq_getElem hi] at hx
        exact Option.some.inj hx ▸ hless
      · exact hover q x (by omega) hqj hx
  | case2 i hi hless =>
      obtain rfl := Option.some.inj hscan
      refine ⟨le_rfl, fun q x hiq hqj => by omega, slice[i], List.getElem?_eq_getElem hi, ?_⟩
      simpa using hless
  | case3 i hi => cases hscan

/-- The scan to the left steps over elements the pivot is before. -/
theorem scanLeft_spec (hscan : scanLeft lt slice pivot j = some i) :
    0 < i ∧ i ≤ j ∧ (∀ q x, i ≤ q → q < j → slice[q]? = some x → lt pivot x = true) ∧
      ∃ x, slice[i - 1]? = some x ∧ lt pivot x = false := by
  induction j with
  | zero => cases hscan
  | succ j ih =>
      rw [scanLeft] at hscan
      cases hx : slice[j]? with
      | none => simp [hx] at hscan
      | some x =>
          simp only [hx] at hscan
          split at hscan
          next hless =>
            obtain ⟨hpos, hle, hover, hstop⟩ := ih hscan
            refine ⟨hpos, by omega, fun q y hiq hqj hy => ?_, hstop⟩
            by_cases heq : q = j
            · subst heq
              rw [hx] at hy
              exact Option.some.inj hy ▸ hless
            · exact hover q y hiq (by omega) hy
          next hless =>
            obtain rfl := Option.some.inj hscan
            refine ⟨by omega, le_rfl, fun q y hiq hqj => by omega, x, by simpa using hx, ?_⟩
            simpa using hless

/-- The partition leaves elements on their sides of the pivot. -/
theorem partitionLoop_sides (hlt : WeakOrder lt) {fuel i' j' : Nat} (hlo : lo ≤ i) (hhi : j ≤ hi)
    (hsides : Sides lt pivot lo hi slice i j)
    (hout : partitionLoop lt fuel slice pivot i j = some (out, i', j')) :
    Within lo hi slice out ∧ Sides lt pivot lo hi out i' j' ∧ i ≤ i' ∧ j' ≤ j ∧ j' ≤ i' := by
  induction fuel generalizing slice i j with
  | zero => cases hout
  | succ fuel ih =>
      rw [partitionLoop] at hout
      split at hout
      next hmet =>
        obtain ⟨rfl, hpair⟩ := Prod.mk.inj (Option.some.inj hout)
        obtain ⟨rfl, rfl⟩ := Prod.mk.inj hpair
        exact ⟨Within.refl lo hi slice, hsides, le_rfl, le_rfl, hmet⟩
      next hapart =>
        obtain ⟨right, hright, hout⟩ := Option.bind_eq_some_iff.mp hout
        obtain ⟨left, hleft, hout⟩ := Option.bind_eq_some_iff.mp hout
        obtain ⟨hir, hover, x, hx, hxpivot⟩ := scanRight_spec hright
        obtain ⟨hpos, hlj, hover', y, hy, hpivoty⟩ := scanLeft_spec hleft
        -- both scans step over elements on their side
        have hscanned : Sides lt pivot lo hi slice right left := by
          refine ⟨fun q z hloq hqr hz => ?_, fun q z hlq hqhi hz => ?_⟩
          · by_cases hqi : q < i
            · exact hsides.before q z hloq hqi hz
            · exact hlt.asymm (hover q z (by omega) hqr hz)
          · by_cases hqj : j ≤ q
            · exact hsides.after q z hqj hqhi hz
            · exact hlt.asymm (hover' q z hlq (by omega) hz)
        split at hout
        next hcross =>
          obtain ⟨hback, hfront⟩ := exchange_getElem? hx hy
          have hexchanged : Sides lt pivot lo hi (exchange slice right (left - 1)) (right + 1)
              (left - 1) := by
            refine ⟨fun q z hloq hqr hz => ?_, fun q z hlq hqhi hz => ?_⟩
            · by_cases hq : q = right
              · rw [hq, hback] at hz
                exact Option.some.inj hz ▸ hpivoty
              · rw [exchange_getElem?_of_ne hq (by omega)] at hz
                exact hscanned.before q z hloq (by omega) hz
            · by_cases hq : q = left - 1
              · rw [hq, hfront] at hz
                exact Option.some.inj hz ▸ hxpivot
              · rw [exchange_getElem?_of_ne (by omega) hq] at hz
                exact hscanned.after q z (by omega) hqhi hz
          obtain ⟨hwithin, hafter, hi', hj', hmet⟩ :=
            ih (by omega) (by omega) hexchanged hout
          have hfirst : Within lo hi slice (exchange slice right (left - 1)) :=
            Within.exchange (by omega) (by omega) (by omega) (by omega) slice
          exact ⟨hfirst.trans hwithin, hafter, by omega, by omega, hmet⟩
        next hcross =>
          obtain ⟨hwithin, hafter, hi', hj', hmet⟩ := ih (by omega) (by omega) hscanned hout
          exact ⟨hwithin, hafter, by omega, by omega, hmet⟩

theorem Narrowed.within (hnarrowed : Narrowed lt slice lo hi)
    (hwithin : Within lo hi slice out) : Narrowed lt out lo hi where
  low q r x y hq hr hx hy := by
    rw [hwithin.outside q (Or.inl hq)] at hx
    by_cases hrhi : hi ≤ r
    · rw [hwithin.outside r (Or.inr hrhi)] at hy
      exact hnarrowed.low q r x y hq hr hx hy
    · obtain ⟨r', hr', _, hy'⟩ := hwithin.inside r y hr (by omega) hy
      exact hnarrowed.low q r' x y hq hr' hx hy'
  high q r x y hq hr hx hy := by
    rw [hwithin.outside r (Or.inr hr)] at hy
    by_cases hqlo : q < lo
    · rw [hwithin.outside q (Or.inl hqlo)] at hx
      exact hnarrowed.high q r x y hq hr hx hy
    · obtain ⟨q', _, hq', hx'⟩ := hwithin.inside q x (by omega) hq hx
      exact hnarrowed.high q' r x y hq' hr hx' hy

/-- With the pivot between them, elements are in order across each of the positions where the
partition ended. -/
theorem Narrowed.cut (hlt : WeakOrder lt) (hnarrowed : Narrowed lt slice lo hi)
    (hsides : Sides lt pivot lo hi slice i j) {cut : Nat} (hlo : lo ≤ cut) (hhi : cut ≤ hi)
    (hj : j ≤ cut) (hi' : cut ≤ i) {q r : Nat} {x y : α} (hq : q < cut) (hr : cut ≤ r)
    (hx : slice[q]? = some x) (hy : slice[r]? = some y) : lt y x = false := by
  by_cases hqlo : q < lo
  · exact hnarrowed.low q r x y hqlo (by omega) hx hy
  · by_cases hrhi : hi ≤ r
    · exact hnarrowed.high q r x y (by omega) hrhi hx hy
    · exact hlt.negTrans (hsides.after r y (by omega) (by omega) hy)
        (hsides.before q x (by omega) (by omega) hx)

/-- When the selection ends, no element behind position `k` is before one up to it. -/
theorem selectLoop_narrowed (hlt : WeakOrder lt) {fuel : Nat} (hlo : lo ≤ k) (hhi : k < hi)
    (hnarrowed : Narrowed lt slice lo hi) (hout : selectLoop lt k fuel slice lo hi = some out)
    {q r : Nat} {x y : α} (hq : q ≤ k) (hr : k < r) (hx : out[q]? = some x)
    (hy : out[r]? = some y) : lt y x = false := by
  induction fuel generalizing slice lo hi with
  | zero => cases hout
  | succ fuel ih =>
      rw [selectLoop, if_neg (by omega)] at hout
      obtain ⟨pivot, hpivot, hout⟩ := Option.bind_eq_some_iff.mp hout
      obtain ⟨⟨parts, i, j⟩, hparts, hout⟩ := Option.bind_eq_some_iff.mp hout
      have hpaired : Within lo hi slice (orderPair lt (orderPair lt (orderPair lt slice lo
          ((lo + (hi - 1)) / 2)) lo (hi - 1)) ((lo + (hi - 1)) / 2) (hi - 1)) :=
        ((Within.orderPair le_rfl (by omega) (by omega) (by omega) _).trans
          (Within.orderPair le_rfl (by omega) (by omega) (by omega) _)).trans
            (Within.orderPair (by omega) (by omega) (by omega) (by omega) _)
      obtain ⟨hwithin, hsides, hi', hj', hmet⟩ := partitionLoop_sides hlt le_rfl le_rfl
        ⟨fun q _ hloq hq => by omega, fun q _ hhiq hq => by omega⟩ hparts
      have hparted := hnarrowed.within (hpaired.trans hwithin)
      simp only at hout
      split at hout
      next hkj =>
        refine ih hlo hkj ⟨hparted.low, fun q r x y hq hr hx hy => ?_⟩ hout
        exact hparted.cut hlt hsides (by omega) hj' le_rfl hmet hq hr hx hy
      next hkj =>
        split at hout
        next hik =>
          refine ih hik hhi ⟨fun q r x y hq hr hx hy => ?_, hparted.high⟩ hout
          exact hparted.cut hlt hsides (by omega) (by omega) hmet le_rfl hq hr hx hy
        next hik =>
          obtain rfl := Option.some.inj hout
          exact hparted.cut hlt hsides (by omega) (by omega) (by omega) (by omega)
            (Nat.lt_succ_of_le hq) hr hx hy

/-- The selection puts nothing behind that is before an element in front. -/
theorem selectLoop_sides (hlt : WeakOrder lt) {fuel : Nat} (hk : k < slice.length)
    (hout : selectLoop lt k fuel slice 0 slice.length = some out) :
    ∀ x ∈ out.take (k + 1), ∀ y ∈ out.drop (k + 1), lt y x = false := by
  intro x hx y hy
  have hlength := (selectLoop_perm hout).length_eq
  have hwhole : Narrowed lt slice 0 slice.length := by
    refine ⟨fun q r x y hq => by omega, fun q r x y hq hr hx hy => ?_⟩
    rw [List.getElem?_eq_none hr] at hy
    cases hy
  obtain ⟨q, hq⟩ := List.mem_iff_getElem?.mp hx
  obtain ⟨r, hr⟩ := List.mem_iff_getElem?.mp hy
  have hqk : q < k + 1 := by
    have hbound := (List.getElem?_eq_some_iff.mp hq).1
    rw [List.length_take] at hbound
    omega
  rw [List.getElem?_take_of_lt hqk] at hq
  rw [List.getElem?_drop] at hr
  exact selectLoop_narrowed hlt (Nat.zero_le k) hk hwhole hout (by omega) (by omega) hq hr

/-- The selection puts the first elements in front. -/
theorem selectLoop_best (hlt : WeakOrder lt) {fuel : Nat} (hk : k < slice.length)
    (hout : selectLoop lt k fuel slice 0 slice.length = some out) :
    Best lt (k + 1) slice (out.take (k + 1)) := by
  have hperm := selectLoop_perm hout
  refine ⟨?_, out.drop (k + 1), ?_, selectLoop_sides hlt hk hout⟩
  · rw [List.length_take, hperm.length_eq]
  · rw [List.take_append_drop]
    exact hperm.symm

end Select

end Foundation
