import Mathlib

/-! # Slices and the array behind them

A slice is the front of an array it may share with other slices. Cutting an element out of
a slice in place moves what follows it down by one, and every slice of the same array sees
that. A loop over a slice fixes the length beforehand and reads each element when it comes
to it.
-/

namespace Foundation

/-- A slice at the start of its backing array. -/
structure Backed (α : Type) where
  array : List α
  length : Nat
  length_le : length ≤ array.length

namespace Backed

variable {α : Type}

/-- A slice that fills its array. -/
def full (elements : List α) : Backed α := ⟨elements, elements.length, le_rfl⟩

def toList (slice : Backed α) : List α := slice.array.take slice.length

/-- `append(s[:i], s[i+1:]...)`, which finds room in the array of `s`. -/
def cut (slice : Backed α) (i : Nat) (hi : i < slice.length) : Backed α where
  array := slice.toList.eraseIdx i ++ slice.array.drop (slice.length - 1)
  length := slice.length - 1
  length_le := by
    have hle := slice.length_le
    have hlength : slice.toList.length = slice.length := by simp [toList, hle]
    rw [List.length_append, List.length_eraseIdx_of_lt (by omega)]
    omega

variable {slice : Backed α}

@[simp] theorem toList_full (elements : List α) : (full elements).toList = elements :=
  List.take_length

theorem toList_length : slice.toList.length = slice.length := by
  simp [toList, slice.length_le]

theorem toList_cut {i : Nat} (hi : i < slice.length) :
    (slice.cut i hi).toList = slice.toList.eraseIdx i := by
  have hlength := @toList_length _ slice
  have herased : (slice.toList.eraseIdx i).length = slice.length - 1 := by
    rw [List.length_eraseIdx_of_lt (by omega), hlength]
  have hcut : (slice.cut i hi).toList =
      (slice.toList.eraseIdx i ++ slice.array.drop (slice.length - 1)).take (slice.length - 1) :=
    rfl
  rw [hcut, ← herased, List.take_left]

section Remove

variable [DecidableEq α]

/-- Cut out the first occurrence of an element, if there is one. -/
def remove (slice : Backed α) (element : α) : Backed α :=
  if h : slice.toList.idxOf element < slice.length then slice.cut (slice.toList.idxOf element) h
  else slice

/-- Remove the element at a place of the array. -/
def removeAt (slice : Backed α) (i : Nat) : Backed α :=
  match slice.array[i]? with
  | some element => slice.remove element
  | none => slice

/-- Remove every element of the front `s[:n]` in a loop over it. -/
def removeFront (slice : Backed α) (n : Nat) : Backed α := (List.range n).foldl removeAt slice

theorem toList_remove (element : α) : (slice.remove element).toList = slice.toList.erase element := by
  rw [List.erase_eq_eraseIdx_of_idxOf rfl]
  unfold remove
  split
  next h => exact toList_cut h
  next h => rw [List.eraseIdx_of_length_le (by rw [toList_length]; omega)]

/-! ## The second element -/

/-- An element that stands first in the array and nowhere else in it. -/
def Leads (slice : Backed α) (element : α) : Prop :=
  ∃ rest, slice.array = element :: rest ∧ element ∉ rest ∧ 0 < slice.length

theorem Leads.removeAt {element : α} (hleads : slice.Leads element) {i : Nat} (hi : 0 < i) :
    (slice.removeAt i).Leads element := by
  obtain ⟨rest, harray, hrest, hpos⟩ := hleads
  unfold Backed.removeAt
  split
  next other hother =>
    -- what is read stands behind the first element, so that one stays where it is
    have hmem : other ∈ rest := by
      obtain ⟨j, rfl⟩ := Nat.exists_eq_succ_of_ne_zero (Nat.pos_iff_ne_zero.mp hi)
      rw [harray, List.getElem?_cons_succ] at hother
      exact List.mem_of_getElem? hother
    have hne : other ≠ element := fun heq => hrest (heq ▸ hmem)
    unfold remove
    split
    next h =>
      obtain ⟨n, hn⟩ := Nat.exists_eq_succ_of_ne_zero (Nat.pos_iff_ne_zero.mp hpos)
      have hlist : slice.toList = element :: rest.take n := by
        rw [toList, harray, hn, List.take_succ_cons]
      have hidx : slice.toList.idxOf other = (rest.take n).idxOf other + 1 := by
        rw [hlist, List.idxOf_cons_ne _ (Ne.symm hne)]
      refine ⟨(rest.take n).eraseIdx ((rest.take n).idxOf other) ++
        slice.array.drop (slice.length - 1), ?_, ?_, ?_⟩
      · have hcut : (slice.cut _ h).array = slice.toList.eraseIdx (slice.toList.idxOf other) ++
            slice.array.drop (slice.length - 1) := rfl
        rw [hcut, hidx, hlist, List.eraseIdx_cons_succ]
        rfl
      · rw [List.mem_append, not_or]
        refine ⟨fun hin => hrest ?_, fun hin => hrest ?_⟩
        · exact List.mem_of_mem_take (List.mem_of_mem_eraseIdx hin)
        · have hlong : 1 ≤ slice.length - 1 := by
            rw [hidx] at h
            omega
          have hdrop : slice.array.drop (slice.length - 1) = rest.drop (slice.length - 1 - 1) := by
            rw [harray]
            obtain ⟨m, hm⟩ := Nat.exists_eq_succ_of_ne_zero (show slice.length - 1 ≠ 0 by omega)
            rw [hm]
            rfl
          rw [hdrop] at hin
          exact List.mem_of_mem_drop hin
      · have hshort : (slice.cut _ h).length = slice.length - 1 := rfl
        rw [hshort]
        omega
    next => exact ⟨rest, harray, hrest, hpos⟩
  next => exact ⟨rest, harray, hrest, hpos⟩

omit [DecidableEq α] in
theorem Leads.mem {element : α} (hleads : slice.Leads element) : element ∈ slice.toList := by
  obtain ⟨rest, harray, _, hpos⟩ := hleads
  obtain ⟨n, hn⟩ := Nat.exists_eq_succ_of_ne_zero (Nat.pos_iff_ne_zero.mp hpos)
  rw [toList, harray, hn, List.take_succ_cons]
  exact List.mem_cons_self

/-- Once the first of three or more elements was cut out, the loop looks at places behind the
second one only, which has moved to the front. -/
theorem second_mem_removeFront {first second third : α} {rest : List α}
    (hnodup : (first :: second :: third :: rest).Nodup) (n : Nat) :
    second ∈ ((full (first :: second :: third :: rest)).removeFront n).toList := by
  have hsecond : second ∉ third :: rest := (List.nodup_cons.mp (List.nodup_cons.mp hnodup).2).1
  have hleads : ((full (first :: second :: third :: rest)).removeAt 0).Leads second := by
    have hcut : (full (first :: second :: third :: rest)).removeAt 0 =
        (full (first :: second :: third :: rest)).remove first := rfl
    have hidx : (full (first :: second :: third :: rest)).toList.idxOf first = 0 := by
      rw [toList_full, List.idxOf_cons_self]
    rw [hcut, remove, dif_pos (by rw [hidx]; exact Nat.succ_pos _)]
    refine ⟨third :: rest ++ (first :: second :: third :: rest).drop (rest.length + 2), ?_, ?_, ?_⟩
    · have harray : ∀ i h, ((full (first :: second :: third :: rest)).cut i h).array =
          (full (first :: second :: third :: rest)).toList.eraseIdx i ++
            (first :: second :: third :: rest).drop (rest.length + 2) := fun _ _ => rfl
      rw [harray, hidx, toList_full]
      rfl
    · rw [List.mem_append, not_or]
      exact ⟨hsecond, fun hin => hsecond (List.mem_of_mem_drop hin)⟩
    · exact Nat.succ_pos _
  cases n with
  | zero => simp [removeFront]
  | succ n =>
      have hall : ∀ m, ((full (first :: second :: third :: rest)).removeFront (m + 1)).Leads
          second := by
        intro m
        induction m with
        | zero => exact hleads
        | succ m ih =>
            rw [removeFront, List.range_succ, List.foldl_append]
            exact ih.removeAt (Nat.succ_pos m)
      exact (hall n).mem

/-- The loop removes what it was started on exactly if that is at most one element or the
whole of a slice of two. -/
theorem toList_removeFront_eq_drop_iff {elements : List α} (hnodup : elements.Nodup) {n : Nat}
    (hn : n ≤ elements.length) :
    ((full elements).removeFront n).toList = elements.drop n ↔ n ≤ 1 ∨ elements.length ≤ 2 := by
  constructor
  · intro hdrop
    by_contra hnot
    rw [not_or] at hnot
    rcases elements with _ | ⟨first, _ | ⟨second, _ | ⟨third, rest⟩⟩⟩
    · simp at hnot
    · simp at hnot
    · simp at hnot
    · have hmem := second_mem_removeFront hnodup n
      have hsecond := (List.nodup_cons.mp (List.nodup_cons.mp hnodup).2).1
      obtain ⟨m, rfl⟩ : ∃ m, n = m + 2 := ⟨n - 2, by omega⟩
      rw [hdrop] at hmem
      exact hsecond (List.mem_of_mem_drop hmem)
  · intro hcase
    rcases n with _ | _ | n
    · exact toList_full elements
    · rcases elements with _ | ⟨first, rest⟩
      · simp at hn
      · have hone : (full (first :: rest)).removeFront 1 = (full (first :: rest)).remove first :=
          rfl
        rw [hone, toList_remove, toList_full]
        simp
    · rcases elements with _ | ⟨first, _ | ⟨second, _ | ⟨third, rest⟩⟩⟩
      · simp at hn
      · simp at hn
      · have hne : first ≠ second := by simpa using hnodup
        have hzero : n = 0 := by simpa using hn
        subst hzero
        have hidx : (full [first, second]).toList.idxOf first = 0 := by simp
        have hfirst : ((full [first, second]).removeAt 0).array = [second, second] ∧
            ((full [first, second]).removeAt 0).toList = [second] := by
          have hone : (full [first, second]).removeAt 0 = (full [first, second]).remove first := rfl
          rw [hone, toList_remove, remove, dif_pos (by rw [hidx]; exact Nat.succ_pos _)]
          refine ⟨?_, by simp⟩
          have harray : ∀ i h, ((full [first, second]).cut i h).array =
              (full [first, second]).toList.eraseIdx i ++ [second] := fun _ _ => rfl
          rw [harray, hidx, toList_full]
          rfl
        have htwo : (full [first, second]).removeFront 2 =
            ((full [first, second]).removeAt 0).removeAt 1 := rfl
        have hread : ((full [first, second]).removeAt 0).removeAt 1 =
            ((full [first, second]).removeAt 0).remove second := by
          rw [removeAt, hfirst.1]
          rfl
        rw [htwo, hread, toList_remove, hfirst.2]
        simp
      · simp at hcase

end Remove

end Backed

end Foundation
