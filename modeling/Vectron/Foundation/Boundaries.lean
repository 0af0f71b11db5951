import Mathlib.Data.List.Basic

/-! # Dividing an interval

Strictly increasing boundaries divide `[0, size)` into `count` cells. Every point
lies in exactly one of them, and a search among things that stand for the cells
finds the same one in whatever order it looks at them.
-/

namespace Foundation

/-- The boundaries of `count` consecutive, non-empty cells of `[0, size)`. -/
structure Boundaries (count size : Nat) where
  bound : Nat → Nat
  first : bound 0 = 0
  last : bound count = size
  increasing : ∀ i < count, bound i < bound (i + 1)

namespace Boundaries

variable {count size : Nat}

section

variable (boundaries : Boundaries count size)

theorem le_of_le {i j : Nat} (hij : i ≤ j) (hj : j ≤ count) :
    boundaries.bound i ≤ boundaries.bound j := by
  induction hij with
  | refl => exact Nat.le_refl _
  | @step j hij ih =>
      have hnext := boundaries.increasing j hj
      exact Nat.le_trans (ih (Nat.le_of_lt hj)) (Nat.le_of_lt hnext)

/-- The point lies in cell `i`. -/
def Contains (boundaries : Boundaries count size) (i point : Nat) : Prop :=
  boundaries.bound i ≤ point ∧ point < boundaries.bound (i + 1)

theorem exists_contains {point : Nat} (hpoint : point < size) :
    ∃ i < count, boundaries.Contains i point := by
  -- the first boundary above the point closes its cell
  have hsome : ∀ last ≤ count, point < boundaries.bound last →
      ∃ i < last, boundaries.Contains i point := by
    intro last
    induction last with
    | zero =>
        intro _ hlast
        rw [boundaries.first] at hlast
        omega
    | succ last ih =>
        intro hcount hlast
        by_cases hbelow : point < boundaries.bound last
        · obtain ⟨i, hi, hcontains⟩ := ih (by omega) hbelow
          exact ⟨i, by omega, hcontains⟩
        · exact ⟨last, by omega, by omega, hlast⟩
  exact hsome count (Nat.le_refl _) (by rw [boundaries.last]; exact hpoint)

theorem eq_of_contains {i j point : Nat} (hi : i < count) (hj : j < count)
    (hcell : boundaries.Contains i point) (hother : boundaries.Contains j point) : i = j := by
  rcases Nat.lt_trichotomy i j with hlt | heq | hgt
  · have hle : boundaries.bound (i + 1) ≤ boundaries.bound j :=
      boundaries.le_of_le hlt (by omega)
    have habove := hcell.2
    have hbelow := hother.1
    omega
  · exact heq
  · have hle : boundaries.bound (j + 1) ≤ boundaries.bound i :=
      boundaries.le_of_le hgt (by omega)
    have habove := hother.2
    have hbelow := hcell.1
    omega

end

/-- Cells of one width, with a last cell that takes what remains. -/
def even (count width size : Nat) (hcount : 0 < count) (hwidth : 1 < count → 0 < width)
    (hlast : (count - 1) * width < size) : Boundaries count size where
  bound i := if i < count then i * width else size
  first := by simp [hcount]
  last := by simp
  increasing i hi := by
    rw [if_pos hi]
    split
    next hnext => exact Nat.mul_lt_mul_of_pos_right (Nat.lt_succ_self i) (hwidth (by omega))
    next hnext =>
      have hi : i = count - 1 := by omega
      rw [hi]
      exact hlast

end Boundaries

/-- A search for a property that only one element has. -/
theorem find?_eq_some_of_forall {α : Type} {property : α → Bool} {list : List α} {found : α}
    (hmem : found ∈ list) (hfound : property found = true)
    (hunique : ∀ other ∈ list, property other = true → other = found) :
    list.find? property = some found := by
  cases hsearch : list.find? property with
  | none =>
      have hnot := List.find?_eq_none.mp hsearch found hmem
      exact absurd hfound hnot
  | some other =>
      rw [hunique other (List.mem_of_find?_eq_some hsearch) (List.find?_some hsearch)]

end Foundation
