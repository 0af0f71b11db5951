import Mathlib.Data.List.Nodup
import Mathlib.Data.List.Dedup
import Mathlib.Data.List.Perm.Subperm

/-! # Taking elements with new keys

A pass over a list takes each element whose key no taken element has, until there is no room.
What it ends with starts with what it began with, has nothing twice that determines the key, and is
full or has a key of every element.
-/

namespace Foundation

section Greedy

variable {α K : Type} [DecidableEq K] (key : α → K) (room : Nat)

def takeNew (taken : List α) (x : α) : List α :=
  if room ≤ taken.length then taken
  else if key x ∈ taken.map key then taken
  else taken ++ [x]

/-- Where a pass over `elements` that began with `before` has come to. -/
structure Takes (before elements after : List α) : Prop where
  front : before <+: after
  subset : ∀ x ∈ after, x ∈ before ∨ x ∈ elements
  nodup : ∀ {E : Type} (domain : α → E),
    (∀ x ∈ after, ∀ y ∈ after, domain x = domain y → key x = key y) →
      (before.map domain).Nodup → (after.map domain).Nodup
  full_or_covers : room ≤ after.length ∨ ∀ x ∈ elements, key x ∈ after.map key
  length_le : before.length ≤ room → after.length ≤ room

variable {key room}

theorem takeNew_takes (taken : List α) (x : α) :
    Takes key room taken [x] (takeNew key room taken x) := by
  unfold takeNew
  split
  next hfull =>
    exact ⟨List.prefix_rfl, fun y hy => Or.inl hy, fun _ _ => id, Or.inl hfull, id⟩
  next hroom =>
    split
    next hused =>
      refine ⟨List.prefix_rfl, fun y hy => Or.inl hy, fun _ _ => id, Or.inr ?_, id⟩
      simpa using hused
    next hnew =>
      constructor
      case front => exact List.prefix_append _ _
      case subset =>
        intro y hy
        rwa [List.mem_append] at hy
      case nodup =>
        intro E domain hkey hnodup
        rw [List.map_append, List.map_singleton, List.nodup_append]
        refine ⟨hnodup, List.nodup_singleton _, ?_⟩
        intro k hk k' hk' heq
        rw [List.mem_singleton.mp hk'] at heq
        obtain ⟨y, hy, rfl⟩ := List.mem_map.mp hk
        exact hnew (List.mem_map.mpr ⟨y, hy, hkey y (by simp [hy]) x (by simp) heq⟩)
      case full_or_covers =>
        right
        simp
      case length_le =>
        intro _
        rw [List.length_append, List.length_singleton]
        omega

omit [DecidableEq K] in
theorem Takes.trans {before middle after first second : List α}
    (hfirst : Takes key room before first middle) (hsecond : Takes key room middle second after) :
    Takes key room before (first ++ second) after where
  front := hfirst.front.trans hsecond.front
  subset x hx := by
    rw [List.mem_append]
    rcases hsecond.subset x hx with hx | hx
    · exact (hfirst.subset x hx).imp_right Or.inl
    · exact Or.inr (Or.inr hx)
  nodup domain hkey := hsecond.nodup domain hkey ∘ hfirst.nodup domain fun x hx y hy =>
    hkey x (hsecond.front.subset hx) y (hsecond.front.subset hy)
  full_or_covers := by
    rcases hsecond.full_or_covers with hfull | hcovers
    · exact Or.inl hfull
    · rcases hfirst.full_or_covers with hfull | hcovered
      · exact Or.inl (Nat.le_trans hfull hsecond.front.length_le)
      · right
        intro x hx
        rcases List.mem_append.mp hx with hx | hx
        · exact (hsecond.front.map key).subset (hcovered x hx)
        · exact hcovers x hx
  length_le := hsecond.length_le ∘ hfirst.length_le

theorem foldl_takeNew_takes (elements taken : List α) :
    Takes key room taken elements (elements.foldl (takeNew key room) taken) := by
  induction elements generalizing taken with
  | nil => exact ⟨List.prefix_rfl, fun x hx => Or.inl hx, fun _ _ => id, Or.inr (by simp), id⟩
  | cons x rest ih =>
      rw [List.foldl_cons, ← List.singleton_append]
      exact (takeNew_takes taken x).trans (ih _)

/-- The number of keys among some elements. -/
def keyCount (key : α → K) (elements : List α) : Nat := (elements.map key).dedup.length

theorem keyCount_eq_length {elements : List α} (hnodup : (elements.map key).Nodup) :
    keyCount key elements = elements.length := by
  rw [keyCount, hnodup.dedup, List.length_map]

theorem keyCount_le_of_subset {first second : List α}
    (hsubset : ∀ x ∈ first, key x ∈ second.map key) : keyCount key first ≤ keyCount key second := by
  apply (List.Nodup.subperm (List.nodup_dedup _) ?_).length_le
  intro k hk
  rw [List.mem_dedup] at hk ⊢
  obtain ⟨x, hx, rfl⟩ := List.mem_map.mp hk
  exact hsubset x hx

theorem keyCount_le_length (elements : List α) : keyCount key elements ≤ elements.length := by
  rw [keyCount, ← List.length_map (f := key)]
  exact (List.dedup_sublist _).length_le

/-- With enough keys a pass fills up. -/
theorem Takes.full_of_le {before elements after : List α}
    (htakes : Takes key room before elements after) (henough : room ≤ keyCount key elements) :
    room ≤ after.length := by
  rcases htakes.full_or_covers with hfull | hcovers
  · exact hfull
  · have hcount := keyCount_le_of_subset hcovers
    have hle : keyCount key after ≤ after.length := keyCount_le_length after
    omega

end Greedy

end Foundation
