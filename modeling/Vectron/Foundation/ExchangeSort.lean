import Mathlib.Data.List.Perm.Basic

/-! # Exchange sort

The quadratic sort that compares each position with every later one and swaps
whenever the later element is smaller. Equal elements keep no fixed order, so
the result may depend on the order of the input; when the elements of the input
are strictly ordered it depends only on which elements there are.
-/

namespace Foundation

variable {α : Type}

/-- The inner loop at one position: `current` stands at the position, the list
after it. Returns the element left at the position and the list after it. -/
def exchangePass (lt : α → α → Bool) : α → List α → α × List α
  | current, [] => (current, [])
  | current, next :: rest =>
      if lt next current then
        let result := exchangePass lt next rest
        (result.1, current :: result.2)
      else
        let result := exchangePass lt current rest
        (result.1, next :: result.2)

/-- The outer loop, for a list of length `count`. -/
def exchangeLoop (lt : α → α → Bool) : Nat → List α → List α
  | 0, list => list
  | _ + 1, [] => []
  | count + 1, head :: rest =>
      let result := exchangePass lt head rest
      result.1 :: exchangeLoop lt count result.2

def exchangeSort (lt : α → α → Bool) (list : List α) : List α :=
  exchangeLoop lt list.length list

theorem exchangePass_perm (lt : α → α → Bool) (current : α) (list : List α) :
    ((exchangePass lt current list).1 :: (exchangePass lt current list).2).Perm
      (current :: list) := by
  induction list generalizing current with
  | nil => exact List.Perm.refl _
  | cons next rest ih =>
      unfold exchangePass
      split
      · exact (List.Perm.swap _ _ _).trans ((ih next).cons current)
      · exact (List.Perm.swap _ _ _).trans
          (((ih current).cons next).trans (List.Perm.swap _ _ _))

theorem exchangeLoop_perm (lt : α → α → Bool) (count : Nat) (list : List α) :
    (exchangeLoop lt count list).Perm list := by
  induction count generalizing list with
  | zero => exact List.Perm.refl _
  | succ count ih =>
      cases list with
      | nil => exact List.Perm.refl _
      | cons head rest =>
          exact ((ih _).cons _).trans (exchangePass_perm lt head rest)

theorem exchangeSort_perm (lt : α → α → Bool) (list : List α) :
    (exchangeSort lt list).Perm list :=
  exchangeLoop_perm lt list.length list

section Strict

/-- A strict order in which any two different elements of `list` are comparable. -/
structure StrictOn (lt : α → α → Bool) (list : List α) : Prop where
  asymm : ∀ left right, lt left right = true → lt right left = false
  trans : ∀ left middle right, lt left middle = true → lt middle right = true →
    lt left right = true
  comparable : list.Pairwise fun left right => lt left right = true ∨ lt right left = true

variable {lt : α → α → Bool}

theorem StrictOn.perm {first second : List α} (hstrict : StrictOn lt first)
    (hperm : first.Perm second) : StrictOn lt second where
  asymm := hstrict.asymm
  trans := hstrict.trans
  comparable := hperm.pairwise hstrict.comparable Or.symm

theorem StrictOn.tail {head : α} {rest : List α} (hstrict : StrictOn lt (head :: rest)) :
    StrictOn lt rest where
  asymm := hstrict.asymm
  trans := hstrict.trans
  comparable := (List.pairwise_cons.mp hstrict.comparable).2

theorem StrictOn.skip {first second : α} {rest : List α}
    (hstrict : StrictOn lt (first :: second :: rest)) : StrictOn lt (first :: rest) :=
  (hstrict.perm (List.Perm.swap _ _ _)).tail

/-- A pass leaves the least element at its position. -/
theorem exchangePass_least {current : α} {list : List α}
    (hstrict : StrictOn lt (current :: list)) :
    ((exchangePass lt current list).1 = current ∨
        lt (exchangePass lt current list).1 current = true) ∧
      ∀ other ∈ (exchangePass lt current list).2,
        lt (exchangePass lt current list).1 other = true := by
  induction list generalizing current with
  | nil => simp [exchangePass]
  | cons next rest ih =>
      -- whatever the comparison decides, the least element is below the loser
      have hbelow : ∀ least winner loser : α, least = winner ∨ lt least winner = true →
          lt winner loser = true → lt least loser = true := by
        rintro least winner loser (rfl | hleast) hlt
        · exact hlt
        · exact hstrict.trans _ _ _ hleast hlt
      unfold exchangePass
      split
      next hlt =>
        obtain ⟨hleast, hrest⟩ := ih hstrict.tail
        have hcurrent := hbelow _ _ _ hleast hlt
        refine ⟨Or.inr hcurrent, ?_⟩
        intro other hother
        rcases List.mem_cons.mp hother with rfl | hother
        · exact hcurrent
        · exact hrest other hother
      next hnot =>
        obtain ⟨hleast, hrest⟩ := ih hstrict.skip
        have hlt : lt current next = true :=
          ((List.pairwise_cons.mp hstrict.comparable).1 next List.mem_cons_self).resolve_right
            hnot
        refine ⟨hleast, ?_⟩
        intro other hother
        rcases List.mem_cons.mp hother with rfl | hother
        · exact hbelow _ _ _ hleast hlt
        · exact hrest other hother

theorem exchangeLoop_pairwise {count : Nat} {list : List α} (hlength : list.length ≤ count)
    (hstrict : StrictOn lt list) :
    (exchangeLoop lt count list).Pairwise fun left right => lt left right = true := by
  induction count generalizing list with
  | zero =>
      have hempty : list = [] := List.eq_nil_of_length_eq_zero (by omega)
      subst hempty
      exact List.Pairwise.nil
  | succ count ih =>
      cases list with
      | nil => exact List.Pairwise.nil
      | cons head rest =>
          have hperm := exchangePass_perm lt head rest
          have hafter : StrictOn lt (exchangePass lt head rest).2 :=
            (hstrict.perm hperm.symm).tail
          have hshorter : (exchangePass lt head rest).2.length ≤ count := by
            have hlengths := hperm.length_eq
            simp only [List.length_cons] at hlengths hlength
            omega
          refine List.pairwise_cons.mpr ⟨?_, ih hshorter hafter⟩
          intro other hother
          have hmem := (exchangeLoop_perm lt count _).mem_iff.mp hother
          exact (exchangePass_least hstrict).2 other hmem

/-- On strictly ordered elements the result does not depend on the order of the
input. -/
theorem exchangeSort_eq_of_perm {first second : List α} (hstrict : StrictOn lt first)
    (hperm : first.Perm second) : exchangeSort lt first = exchangeSort lt second := by
  have hsorted := (exchangeSort_perm lt first).trans
    (hperm.trans (exchangeSort_perm lt second).symm)
  refine hsorted.eq_of_pairwise ?_ (exchangeLoop_pairwise (Nat.le_refl _) hstrict)
    (exchangeLoop_pairwise (Nat.le_refl _) (hstrict.perm hperm))
  intro left right _ _ hlt hgt
  rw [hstrict.asymm left right hlt] at hgt
  contradiction

end Strict

end Foundation
