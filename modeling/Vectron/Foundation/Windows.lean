import Mathlib

/-! # Windows that begin late

A window begins with a request, counts what it grants and is over after its length. Another one
begins with the next request after that, whenever it comes. Windows are at least their length
apart, so an interval that is shorter meets the grants of two of them at most.
-/

namespace Foundation

/-- When something was granted, and when the window that granted it began. -/
structure Grant where
  start : Int
  time : Int

/-- Grants of windows that do not overlap, each of which kept its limit. -/
structure Spaced (length limit : Int) (grants : List Grant) : Prop where
  within : ∀ grant ∈ grants, grant.start ≤ grant.time ∧ grant.time < grant.start + length
  apart : ∀ grant ∈ grants, ∀ later ∈ grants, grant.start < later.start →
    grant.start + length ≤ later.start
  limit : ∀ start, ((grants.countP fun grant => grant.start = start : Nat) : Int) ≤ limit

section Windows

variable {length limit : Int} {grants : List Grant}

theorem countP_le_add {α : Type} {p q r : α → Bool} {list : List α}
    (hcases : ∀ x ∈ list, p x = true → q x = true ∨ r x = true) :
    list.countP p ≤ list.countP q + list.countP r := by
  induction list with
  | nil => simp
  | cons x rest ih =>
      have hrest := ih fun y hy => hcases y (List.mem_cons_of_mem _ hy)
      have hx := hcases x List.mem_cons_self
      simp only [List.countP_cons]
      split
      next hp =>
        rcases hx hp with hq | hr
        · simp only [hq, if_true]
          omega
        · simp only [hr, if_true]
          omega
      next => omega

/-- The earliest and the latest window of some grants. -/
theorem exists_bounds {chosen : List Grant} (hne : chosen ≠ []) :
    ∃ first ∈ chosen, ∃ last ∈ chosen, ∀ grant ∈ chosen,
      first.start ≤ grant.start ∧ grant.start ≤ last.start := by
  induction chosen with
  | nil => exact absurd rfl hne
  | cons grant rest ih =>
      by_cases hrest : rest = []
      · subst hrest
        exact ⟨grant, by simp, grant, by simp, by simp⟩
      · obtain ⟨first, hfirst, last, hlast, hbounds⟩ := ih hrest
        have hlow : ∃ low ∈ grant :: rest, low.start ≤ grant.start ∧ low.start ≤ first.start := by
          rcases le_total grant.start first.start with hle | hle
          · exact ⟨grant, by simp, le_rfl, hle⟩
          · exact ⟨first, by simp [hfirst], hle, le_rfl⟩
        have hhigh : ∃ high ∈ grant :: rest,
            grant.start ≤ high.start ∧ last.start ≤ high.start := by
          rcases le_total grant.start last.start with hle | hle
          · exact ⟨last, by simp [hlast], hle, le_rfl⟩
          · exact ⟨grant, by simp, le_rfl, hle⟩
        obtain ⟨low, hlow, hlowGrant, hlowFirst⟩ := hlow
        obtain ⟨high, hhigh, hhighGrant, hhighLast⟩ := hhigh
        refine ⟨low, hlow, high, hhigh, ?_⟩
        intro other hother
        rcases List.mem_cons.mp hother with rfl | hother
        · exact ⟨hlowGrant, hhighGrant⟩
        · have hbound := hbounds other hother
          exact ⟨hlowFirst.trans hbound.1, hbound.2.trans hhighLast⟩

/-- An interval that is shorter than a window sees twice the limit at most. -/
theorem Spaced.countP_le (hspaced : Spaced length limit grants) {a b : Int} (hshort : b - a < length) :
    ((grants.countP fun grant => a ≤ grant.time && grant.time ≤ b : Nat) : Int) ≤ 2 * limit := by
  by_cases hnone : grants.filter (fun grant => a ≤ grant.time && grant.time ≤ b) = []
  · have hlimit := hspaced.limit 0
    rw [List.countP_eq_length_filter, hnone, List.length_nil]
    omega
  · obtain ⟨first, hfirst, last, hlast, hbounds⟩ := exists_bounds hnone
    have hle : grants.countP (fun grant => a ≤ grant.time && grant.time ≤ b) ≤
        grants.countP (fun grant => grant.start = first.start) +
          grants.countP (fun grant => grant.start = last.start) := by
      apply countP_le_add
      intro grant hgrant hinside
      have hbound := hbounds grant (List.mem_filter.mpr ⟨hgrant, hinside⟩)
      rw [List.mem_filter] at hfirst hlast
      by_contra hneither
      simp only [decide_eq_true_eq, not_or] at hneither
      -- the window of the grant lies whole between the two others
      have hbefore := hspaced.apart first hfirst.1 grant hgrant (by omega)
      have hafter := hspaced.apart grant hgrant last hlast.1 (by omega)
      have hfirstTime := hspaced.within first hfirst.1
      have hlastTime := hspaced.within last hlast.1
      simp only [Bool.and_eq_true, decide_eq_true_eq] at hfirst hlast
      omega
    have hfirstLimit := hspaced.limit first.start
    have hlastLimit := hspaced.limit last.start
    omega

/-- Events in order begin at some time. -/
theorem exists_earliest {α : Type} {time : α → Int} {events : List α}
    (hordered : events.Pairwise fun event later => time event ≤ time later) :
    ∃ now, ∀ event ∈ events, now ≤ time event := by
  cases events with
  | nil => exact ⟨0, by simp⟩
  | cons event rest =>
      refine ⟨time event, ?_⟩
      intro other hother
      rcases List.mem_cons.mp hother with rfl | hother
      · exact le_rfl
      · exact (List.pairwise_cons.mp hordered).1 other hother

/-! ## Counting the grants of a window -/

/-- A counter, when there is one, has begun its window by now and counts at least its grants. -/
structure Tracks (length limit : Int) (window : Option (Int × Int)) (now : Int)
    (grants : List Grant) : Prop where
  spaced : Spaced length limit grants
  current : match window with
    | none => ∀ grant ∈ grants, grant.start + length ≤ now
    | some (start, used) => start ≤ now ∧
        ((grants.countP fun grant => grant.start = start : Nat) : Int) ≤ used ∧
        ∀ grant ∈ grants, grant.start = start ∨ grant.start + length ≤ start

variable {window : Option (Int × Int)} {now start used : Int}

theorem tracks_nil (hlimit : 0 ≤ limit) (now : Int) : Tracks length limit none now [] where
  spaced := ⟨by simp, by simp, by simpa using hlimit⟩
  current := by simp

theorem Tracks.later (htracks : Tracks length limit window now grants) {later : Int}
    (hlater : now ≤ later) : Tracks length limit window later grants := by
  refine ⟨htracks.spaced, ?_⟩
  have hcurrent := htracks.current
  cases window with
  | none => exact fun grant hgrant => (hcurrent grant hgrant).trans hlater
  | some window => exact ⟨hcurrent.1.trans hlater, hcurrent.2⟩

/-- A window that is over may be forgotten. -/
theorem Tracks.forget (hlength : 0 < length)
    (htracks : Tracks length limit (some (start, used)) now grants) (hover : start + length ≤ now) :
    Tracks length limit none now grants := by
  refine ⟨htracks.spaced, ?_⟩
  intro grant hgrant
  rcases htracks.current.2.2 grant hgrant with heq | hle
  · omega
  · omega

/-- A window begins where there is none. -/
theorem Tracks.restart (hlength : 0 < length) (htracks : Tracks length limit none now grants) :
    Tracks length limit (some (now, 0)) now grants := by
  refine ⟨htracks.spaced, le_rfl, ?_, fun grant hgrant => Or.inr (htracks.current grant hgrant)⟩
  have hnone : (grants.countP fun grant => grant.start = now) = 0 := by
    apply List.countP_eq_zero.mpr
    intro grant hgrant
    have hover := htracks.current grant hgrant
    simp only [decide_eq_true_eq]
    omega
  rw [hnone]
  exact le_rfl

section

variable (htracks : Tracks length limit (some (start, used)) now grants)

include htracks

/-- A request is counted and refused. -/
theorem Tracks.refuse {more : Int} (hmore : used ≤ more) :
    Tracks length limit (some (start, more)) now grants :=
  ⟨htracks.spaced, htracks.current.1, htracks.current.2.1.trans hmore, htracks.current.2.2⟩

/-- A request is counted and granted. -/
theorem Tracks.grant (hrunning : now < start + length) (hused : used + 1 ≤ limit) :
    Tracks length limit (some (start, used + 1)) now (grants ++ [⟨start, now⟩]) := by
  obtain ⟨hstart, hcount, hothers⟩ := htracks.current
  have hlength : 0 < length := by omega
  constructor
  · constructor
    case within =>
      intro grant hgrant
      rcases List.mem_append.mp hgrant with hgrant | hgrant
      · exact htracks.spaced.within grant hgrant
      · obtain rfl := List.mem_singleton.mp hgrant
        exact ⟨hstart, hrunning⟩
    case apart =>
      intro grant hgrant later hlater hlt
      rcases List.mem_append.mp hgrant with hgrant | hgrant
      · rcases List.mem_append.mp hlater with hlater | hlater
        · exact htracks.spaced.apart grant hgrant later hlater hlt
        · obtain rfl := List.mem_singleton.mp hlater
          exact (hothers grant hgrant).resolve_left hlt.ne
      · obtain rfl := List.mem_singleton.mp hgrant
        rcases List.mem_append.mp hlater with hlater | hlater
        · rcases hothers later hlater with heq | hle
          · exact absurd hlt (by simp [heq])
          · simp only at hlt
            omega
        · obtain rfl := List.mem_singleton.mp hlater
          exact absurd hlt (lt_irrefl _)
    case limit =>
      intro other
      rw [List.countP_append, List.countP_singleton]
      have hother := htracks.spaced.limit other
      split
      next hsame =>
        have hsame : start = other := by simpa using hsame
        subst hsame
        push_cast
        omega
      next => simpa using hother
  · refine ⟨hstart, ?_, ?_⟩
    · rw [List.countP_append, List.countP_singleton]
      simp only [decide_true, if_true]
      push_cast
      omega
    · intro grant hgrant
      rcases List.mem_append.mp hgrant with hgrant | hgrant
      · exact hothers grant hgrant
      · obtain rfl := List.mem_singleton.mp hgrant
        exact Or.inl rfl

end

end Windows

end Foundation
