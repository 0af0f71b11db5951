import Mathlib

/-! # Overwriting an element of a slice, and cutting a slice into pieces

`List.replace` overwrites the first occurrence of an element where it stands. Up to order this is
a removal followed by an insertion, and everything else about membership follows from that.

A piece of a slice takes elements from the front of what is left for as long as it may. The pieces
are the slice in its order, each of them grew by steps that it was allowed, and none of them may
take the first element of the next one.
-/

namespace Foundation

section Replace

variable {α : Type} [DecidableEq α] {slice : List α} {old new other : α}

section

variable (hold : old ∈ slice)

include hold

theorem replace_perm_cons_erase :
    (slice.replace old new).Perm (new :: slice.erase old) := by
  induction slice with
  | nil => simp at hold
  | cons head rest ih =>
      by_cases hhead : old = head
      · subst hhead
        simp
      · have hrest : old ∈ rest := by
          rcases List.mem_cons.mp hold with heq | hrest
          · exact absurd heq hhead
          · exact hrest
        have hreplace : (head :: rest).replace old new = head :: rest.replace old new := by
          rw [List.replace_cons, beq_eq_false_iff_ne.mpr hhead]
        have herase : (head :: rest).erase old = head :: rest.erase old :=
          List.erase_cons_tail (by simpa using Ne.symm hhead)
        rw [hreplace, herase]
        exact ((ih hrest).cons head).trans (List.Perm.swap _ _ _)

theorem mem_replace :
    other ∈ slice.replace old new ↔ other = new ∨ other ∈ slice.erase old := by
  rw [(replace_perm_cons_erase hold).mem_iff, List.mem_cons]

theorem mem_of_mem_replace (hother : other ∈ slice.replace old new) :
    other = new ∨ other ∈ slice := by
  rcases (mem_replace hold).mp hother with heq | hmem
  · exact Or.inl heq
  · exact Or.inr (List.mem_of_mem_erase hmem)

theorem nodup_replace (hslice : slice.Nodup) (hnew : new = old ∨ new ∉ slice) :
    (slice.replace old new).Nodup := by
  rw [(replace_perm_cons_erase hold).nodup_iff, List.nodup_cons]
  refine ⟨?_, hslice.erase old⟩
  intro hmem
  rcases hnew with rfl | hnew
  · exact hslice.not_mem_erase hmem
  · exact hnew (List.mem_of_mem_erase hmem)

end

theorem replace_self (slice : List α) (element : α) :
    slice.replace element element = slice := by
  induction slice with
  | nil => rfl
  | cons head rest ih =>
      rw [List.replace_cons]
      split
      next hhead => rw [beq_iff_eq.mp hhead]
      next => rw [ih]

end Replace

section Cutting

variable {α : Type} (fits : List α → α → Bool)

/-- Let a piece take what it may, and return the rest. -/
def grow (piece : List α) : List α → List α × List α
  | [] => (piece, [])
  | x :: rest => if fits piece x then grow (piece ++ [x]) rest else (piece, x :: rest)

/-- The pieces of the remaining elements, the first of which is under way. -/
def cutOn (piece : List α) : List α → List (List α)
  | [] => [piece]
  | x :: rest => if fits piece x then cutOn (piece ++ [x]) rest else piece :: cutOn [x] rest

def cut : List α → List (List α)
  | [] => []
  | x :: rest => cutOn fits [x] rest

/-- A piece may not take the first element of the one after it. -/
def Stuck (piece next : List α) : Prop := ∀ x ∈ next.head?, fits piece x = false

variable {fits} {piece rest : List α} {x : α}

theorem grow_append (piece rest : List α) :
    (grow fits piece rest).1 ++ (grow fits piece rest).2 = piece ++ rest := by
  induction rest generalizing piece with
  | nil => simp [grow]
  | cons x rest ih =>
      rw [grow]
      split
      next => simp [ih]
      next => rfl

theorem length_le_grow (piece rest : List α) :
    piece.length ≤ (grow fits piece rest).1.length := by
  induction rest generalizing piece with
  | nil => simp [grow]
  | cons x rest ih =>
      rw [grow]
      split
      next =>
        have hle := ih (piece ++ [x])
        rw [List.length_append, List.length_singleton] at hle
        omega
      next => exact le_rfl

/-- The first piece, and the pieces of the rest. -/
theorem cutOn_eq (piece rest : List α) :
    cutOn fits piece rest = (grow fits piece rest).1 :: cut fits (grow fits piece rest).2 := by
  induction rest generalizing piece with
  | nil => simp [cutOn, grow, cut]
  | cons x rest ih =>
      rw [cutOn, grow]
      split
      next => exact ih _
      next => rfl

theorem cut_cons (hfirst : fits [] x = true) :
    cut fits (x :: rest) =
      (grow fits [] (x :: rest)).1 :: cut fits (grow fits [] (x :: rest)).2 := by
  rw [cut, cutOn_eq, grow, if_pos hfirst, List.nil_append]

/-- The first piece leaves less than there was. -/
theorem length_grow_lt (hfirst : fits [] x = true) :
    (grow fits [] (x :: rest)).2.length < (x :: rest).length := by
  have hlength := congrArg List.length (@grow_append _ fits [x] rest)
  have hle := @length_le_grow _ fits [x] rest
  rw [grow, if_pos hfirst, List.nil_append]
  simp only [List.length_append, List.length_cons, List.length_nil] at hlength hle ⊢
  omega

theorem cutOn_flatten (piece rest : List α) : (cutOn fits piece rest).flatten = piece ++ rest := by
  induction rest generalizing piece with
  | nil => simp [cutOn]
  | cons x rest ih =>
      rw [cutOn]
      split
      next => simp [ih]
      next => simp [ih]

/-- The pieces are the elements in their order. -/
theorem cut_flatten (xs : List α) : (cut fits xs).flatten = xs := by
  cases xs with
  | nil => rfl
  | cons x rest => exact cutOn_flatten [x] rest

theorem mem_cutOn {P : List α → Prop} (hone : ∀ x, P [x])
    (hgrow : ∀ piece x, P piece → fits piece x = true → P (piece ++ [x])) (hpiece : P piece) :
    ∀ part ∈ cutOn fits piece rest, P part := by
  induction rest generalizing piece with
  | nil => simpa [cutOn] using hpiece
  | cons x rest ih =>
      rw [cutOn]
      split
      next hfits => exact ih (hgrow piece x hpiece hfits)
      next =>
        intro part hpart
        rcases List.mem_cons.mp hpart with rfl | hpart
        · exact hpiece
        · exact ih (hone x) part hpart

/-- What holds of one element and is kept by every allowed step holds of every piece. -/
theorem mem_cut {P : List α → Prop} {xs : List α} (hone : ∀ x, P [x])
    (hgrow : ∀ piece x, P piece → fits piece x = true → P (piece ++ [x])) :
    ∀ part ∈ cut fits xs, P part := by
  cases xs with
  | nil => simp [cut]
  | cons x rest => exact mem_cutOn hone hgrow (hone x)

theorem head?_cutOn (hpiece : piece ≠ []) :
    ∀ first ∈ (cutOn fits piece rest).head?, first.head? = piece.head? := by
  induction rest generalizing piece with
  | nil => simp [cutOn]
  | cons x rest ih =>
      intro first hfirst
      rw [cutOn] at hfirst
      split at hfirst
      next =>
        rw [ih (by simp) first hfirst, List.head?_append_of_ne_nil _ hpiece]
      next =>
        obtain rfl := Option.mem_some_iff.mp hfirst
        rfl

theorem isChain_cutOn (hpiece : piece ≠ []) : (cutOn fits piece rest).IsChain (Stuck fits) := by
  induction rest generalizing piece with
  | nil => simp [cutOn]
  | cons x rest ih =>
      rw [cutOn]
      split
      next => exact ih (by simp)
      next hfits =>
        apply List.isChain_cons.mpr
        constructor
        · intro next hnext y hy
          rw [head?_cutOn (by simp) next hnext] at hy
          obtain rfl := Option.mem_some_iff.mp hy
          exact Bool.eq_false_iff.mpr hfits
        · exact ih (by simp)

/-- No piece may take the first element of the next one. -/
theorem isChain_cut (xs : List α) : (cut fits xs).IsChain (Stuck fits) := by
  cases xs with
  | nil => simp [cut]
  | cons x rest => exact isChain_cutOn (by simp)

/-- A piece that is limited by its number of elements only. -/
theorem grow_of_length {count : Nat} (hfits : ∀ piece x, fits piece x = decide (piece.length < count))
    (hle : piece.length ≤ count) :
    grow fits piece rest =
      (piece ++ rest.take (count - piece.length), rest.drop (count - piece.length)) := by
  induction rest generalizing piece with
  | nil => simp [grow]
  | cons x rest ih =>
      rw [grow, hfits]
      by_cases hlt : piece.length < count
      · have hcount : count - piece.length = (count - (piece ++ [x]).length) + 1 := by
          rw [List.length_append, List.length_singleton]
          omega
        rw [if_pos (decide_eq_true hlt), ih (by simpa using hlt), hcount, List.take_succ_cons,
          List.drop_succ_cons, List.append_assoc]
        rfl
      · have hcount : count - piece.length = 0 := by omega
        simp [hlt, hcount]

end Cutting

section Chunks

variable {α : Type}

/-- The loop over the parts of a slice that starts at an index and goes on by the size of a
part. -/
def streamChunks (size : Nat) (hsize : 0 < size) (values : List α) (i : Nat) : List (List α) :=
  if i < values.length then
    (values.drop i).take size :: streamChunks size hsize values (i + size)
  else []
termination_by values.length - i
decreasing_by omega

theorem flatten_streamChunks (size : Nat) (hsize : 0 < size) (values : List α) (i : Nat) :
    (streamChunks size hsize values i).flatten = values.drop i := by
  induction i using streamChunks.induct size hsize values with
  | case1 i hlt ih =>
      rw [streamChunks, if_pos hlt, List.flatten_cons, ih, ← List.drop_drop, List.take_append_drop]
  | case2 i hge =>
      rw [streamChunks, if_neg hge, List.flatten_nil, List.drop_eq_nil_of_le (by omega)]

end Chunks

end Foundation
