import Mathlib.Data.List.Nodup
import Mathlib.Data.List.Pairwise
import Mathlib.Data.List.Sublists
import Mathlib.Order.Lattice

/-! # What an unstable sort may return

A sort permutes its elements. When the comparison is a strict weak order, no element comes
before a smaller one, and elements that compare equal come in any order; for any other
comparison every permutation is possible.
-/

namespace Foundation

variable {α : Type}

/-- The comparison is a strict weak order on the elements. -/
abbrev WeakOn (less : α → α → Prop) (elements : List α) : Prop :=
  IsStrictWeakOrder {x // x ∈ elements} fun x y => less x y

/-- `sorted` is a result of sorting `elements`. -/
structure Sorts (less : α → α → Prop) (elements sorted : List α) : Prop where
  perm : sorted.Perm elements
  ordered : WeakOn less elements → sorted.Pairwise fun first second => ¬ less second first

/-- Comparing keys from a linear order is a strict weak order. -/
theorem isStrictWeakOrder_of_key {β : Type} [LinearOrder β] (key : α → β) :
    IsStrictWeakOrder α fun x y => key x < key y where
  irrefl x := lt_irrefl (key x)
  trans x y z := lt_trans
  incomp_trans x y z hxy hyz := by
    have hxy : key x = key y := le_antisymm (not_lt.mp hxy.2) (not_lt.mp hxy.1)
    have hyz : key y = key z := le_antisymm (not_lt.mp hyz.2) (not_lt.mp hyz.1)
    simp [hxy, hyz]

theorem pair_sublist_or {x y : α} {list : List α} (hx : x ∈ list) (hy : y ∈ list) (hne : x ≠ y) :
    [x, y].Sublist list ∨ [y, x].Sublist list := by
  induction list with
  | nil => cases hx
  | cons head rest ih =>
      rcases List.mem_cons.mp hx with rfl | hxrest
      · have hyrest := (List.mem_cons.mp hy).resolve_left hne.symm
        exact Or.inl ((List.singleton_sublist.mpr hyrest).cons_cons x)
      · rcases List.mem_cons.mp hy with rfl | hyrest
        · exact Or.inr ((List.singleton_sublist.mpr hxrest).cons_cons y)
        · exact (ih hxrest hyrest).imp (List.Sublist.cons head) (List.Sublist.cons head)

theorem not_pair_sublist_swap {x y : α} {list : List α} (hnodup : list.Nodup) (hne : x ≠ y)
    (hpair : [x, y].Sublist list) : ¬ [y, x].Sublist list := by
  induction list with
  | nil => cases hpair
  | cons head rest ih =>
      intro hswap
      obtain ⟨hhead, hrest⟩ := List.nodup_cons.mp hnodup
      cases hpair with
      | cons _ hpair =>
          cases hswap with
          | cons _ hswap => exact ih hrest hpair hswap
          | cons_cons _ _ => exact hhead (hpair.subset (by simp))
      | cons_cons _ hy =>
          cases hswap with
          | cons _ hswap => exact hhead (hswap.subset (by simp))
          | cons_cons _ _ => exact hne rfl

theorem pair_sublist_take {x y : α} {list : List α} (hnodup : list.Nodup) {n : Nat}
    (hpair : [x, y].Sublist list) (hy : y ∈ list.take n) : [x, y].Sublist (list.take n) := by
  have hdisjoint : y ∉ list.drop n := by
    rw [← List.take_append_drop n list, List.nodup_append'] at hnodup
    exact hnodup.2.2 hy
  rw [← List.take_append_drop n list, List.sublist_append_iff] at hpair
  obtain ⟨front, back, heq, hfront, hback⟩ := hpair
  cases back with
  | nil =>
      rw [List.append_nil] at heq
      rwa [heq]
  | cons head back =>
      -- the last of the two would lie behind the cut
      have hlast : y ∈ head :: back := by
        have h := congrArg List.getLast? heq
        rw [List.getLast?_append_cons] at h
        exact List.mem_of_getLast? (by simpa using h.symm)
      exact absurd (hback.subset hlast) hdisjoint

/-- A stable sort in a strict weak order keeps elements in order that are. -/
theorem exists_ordered {less : α → α → Prop} (hweak : IsStrictWeakOrder α less)
    {front : List α} (hfront : front.Pairwise fun first second => ¬ less second first)
    (rest : List α) :
    ∃ sorted : List α, sorted.Perm (front ++ rest) ∧
      sorted.Pairwise (fun first second => ¬ less second first) ∧ front.Sublist sorted := by
  classical
  let le : α → α → Bool := fun first second => !decide (less second first)
  have htrans : ∀ x y z, le x y → le y z → le x z := by
    intro x y z hxy hyz
    simp only [le, Bool.not_eq_true', decide_eq_false_iff_not] at hxy hyz ⊢
    intro hzx
    by_cases hless : less x y
    · exact hyz (hweak.toIsTrans.trans z x y hzx hless)
    · by_cases hless' : less y z
      · exact hxy (hweak.toIsTrans.trans y z x hless' hzx)
      · exact (hweak.incomp_trans x y z ⟨hless, hxy⟩ ⟨hless', hyz⟩).2 hzx
  have htotal : ∀ x y, le x y || le y x := by
    intro x y
    by_cases hless : less y x
    · have hnot : ¬ less x y := fun hxy =>
        hweak.toIrrefl.irrefl x (hweak.toIsTrans.trans x y x hxy hless)
      simp [le, hnot]
    · simp [le, hless]
  refine ⟨(front ++ rest).mergeSort le, List.mergeSort_perm _ _, ?_, ?_⟩
  · exact (List.pairwise_mergeSort htrans htotal _).imp (by simp [le])
  · apply List.sublist_mergeSort htrans htotal _ (List.sublist_append_left front rest)
    exact hfront.imp (by simp [le])

section Results

variable {less : α → α → Prop} {elements sorted : List α}

theorem WeakOn.mono {fewer : List α} (hweak : WeakOn less elements) (hsub : fewer ⊆ elements) :
    WeakOn less fewer where
  irrefl x := hweak.toIrrefl.irrefl ⟨x, hsub x.2⟩
  trans x y z := hweak.toIsTrans.trans ⟨x, hsub x.2⟩ ⟨y, hsub y.2⟩ ⟨z, hsub z.2⟩
  incomp_trans x y z := hweak.incomp_trans ⟨x, hsub x.2⟩ ⟨y, hsub y.2⟩ ⟨z, hsub z.2⟩

theorem WeakOn.irrefl (hweak : WeakOn less elements) {x : α} (hx : x ∈ elements) : ¬ less x x :=
  hweak.toIrrefl.irrefl ⟨x, hx⟩

/-- Some result has the chosen elements in the chosen order, as long as the comparison does
not forbid it. -/
theorem exists_sorts_of_subperm {front : List α} (hsub : front.Subperm elements)
    (hfront : WeakOn less elements → front.Pairwise fun first second => ¬ less second first) :
    ∃ sorted, Sorts less elements sorted ∧ front.Sublist sorted := by
  obtain ⟨picked, hpicked, hsublist⟩ := hsub
  obtain ⟨rest, hrest⟩ := hsublist.exists_perm_append
  have hstart : (front ++ rest).Perm elements := (hpicked.symm.append_right rest).trans hrest.symm
  by_cases hweak : WeakOn less elements
  · have hmem : ∀ x ∈ front ++ rest, x ∈ elements := fun x hx => hstart.mem_iff.mp hx
    have hmemfront := fun x hx => hmem x (List.mem_append_left rest hx)
    have hmemrest := fun x hx => hmem x (List.mem_append_right front hx)
    have hpairwise : (front.attachWith (· ∈ elements) hmemfront).Pairwise
        fun (first second : {x // x ∈ elements}) => ¬ less second first := by
      have h := hfront hweak
      rw [← List.attachWith_map_subtype_val hmemfront] at h
      exact List.pairwise_map.mp h
    obtain ⟨sorted, hperm, hordered, hsorted⟩ :=
      exists_ordered hweak hpairwise (rest.attachWith (· ∈ elements) hmemrest)
    refine ⟨sorted.map Subtype.val, ⟨?_, fun _ => ?_⟩, ?_⟩
    · have h := hperm.map Subtype.val
      rw [List.map_append, List.attachWith_map_subtype_val, List.attachWith_map_subtype_val] at h
      exact h.trans hstart
    · exact List.pairwise_map.mpr hordered
    · have h := hsorted.map Subtype.val
      rwa [List.attachWith_map_subtype_val] at h
  · exact ⟨front ++ rest, ⟨hstart, fun h => absurd h hweak⟩, List.sublist_append_left front rest⟩

theorem exists_sorts (less : α → α → Prop) (elements : List α) :
    ∃ sorted, Sorts less elements sorted := by
  obtain ⟨sorted, hsorts, -⟩ :=
    @exists_sorts_of_subperm _ less elements [] List.nil_subperm (by simp)
  exact ⟨sorted, hsorts⟩

/-- An element with no smaller one may come first. -/
theorem exists_sorts_cons {x : α} (hx : x ∈ elements) (hleast : ∀ y ∈ elements, ¬ less y x) :
    ∃ sorted, Sorts less elements (x :: sorted) := by
  classical
  obtain ⟨sorted, hsorts⟩ := exists_sorts less (elements.erase x)
  have hperm : (x :: sorted).Perm elements :=
    (hsorts.perm.cons x).trans (List.perm_cons_erase hx).symm
  refine ⟨sorted, hperm, fun hweak => List.pairwise_cons.mpr ⟨?_, ?_⟩⟩
  swap
  · exact hsorts.ordered (hweak.mono List.erase_subset)
  intro y hy
  exact hleast y (hperm.mem_iff.mp (List.mem_cons_of_mem x hy))

theorem Sorts.pair_sublist (hsorts : Sorts less elements sorted) (hweak : WeakOn less elements)
    {x y : α} (hx : x ∈ elements) (hy : y ∈ elements) (hless : less x y) :
    [x, y].Sublist sorted := by
  have hne : x ≠ y := by
    rintro rfl
    exact hweak.irrefl hx hless
  have hmem := fun z => hsorts.perm.mem_iff (a := z)
  rcases pair_sublist_or ((hmem x).mpr hx) ((hmem y).mpr hy) hne with hpair | hswap
  · exact hpair
  · have hnot := (hsorts.ordered hweak).sublist hswap
    simp only [List.pairwise_pair] at hnot
    exact absurd hless hnot

/-- An element comes before another in every result exactly when it is the smaller of the two
in a strict weak order. -/
theorem forall_sorts_pair_iff (hnodup : elements.Nodup) {x y : α} (hx : x ∈ elements)
    (hy : y ∈ elements) (hne : x ≠ y) :
    (∀ sorted, Sorts less elements sorted → [x, y].Sublist sorted) ↔
      WeakOn less elements ∧ less x y := by
  constructor
  · intro hall
    by_contra hnot
    have hsub : [y, x].Subperm elements := by
      apply List.subperm_of_subset
      · simp [hne.symm]
      · simp [hx, hy]
    obtain ⟨sorted, hsorts, hswap⟩ := exists_sorts_of_subperm hsub fun hweak => by
      simp only [List.pairwise_pair]
      exact fun hless => hnot ⟨hweak, hless⟩
    exact not_pair_sublist_swap (hsorts.perm.nodup_iff.mpr hnodup) hne (hall sorted hsorts) hswap
  · rintro ⟨hweak, hless⟩ sorted hsorts
    exact hsorts.pair_sublist hweak hx hy hless

end Results

end Foundation
