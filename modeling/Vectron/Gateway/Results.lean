import Vectron.Foundation.Best
import Vectron.Reranker.Strategy

/-! # Search results of the workers

The per-worker heap of `searchUncached` and `searchStreamUncached` in
`apigateway/cmd/apigateway/main.go`. Smaller scores are better.
-/

namespace Vectron.Gateway

open Foundation Reranker

structure SearchResult (S : Type) where
  id : Text
  score : S
  payload : Option StringMap

section Local

variable {S : Type} [LinearOrder S]

/-- `betterSearchScore` of the scores. -/
def better (a b : SearchResult S) : Bool := decide (a.score < b.score)

theorem weakOrder_better : WeakOrder (better (S := S)) := WeakOrder.of_key SearchResult.score

/-- The local heap at its end. `searchResultHeap` orders its elements by `betterSearchScore`. -/
def localHeap (heap : Heap (better (S := S))) (candidateLimit : Nat)
    (results : List (SearchResult S)) : List (SearchResult S) :=
  results.foldl (offer heap better candidateLimit) []

/-- When the heap ends with the best results: it holds one, or none of the results that came
after it was full is better than one that it was filled with, or it was filled with equal ones
and at most one better one came after. -/
def FewBetter (candidateLimit : Nat) (results : List (SearchResult S)) : Prop :=
  let filled := results.take candidateLimit
  let after := results.drop candidateLimit
  candidateLimit = 1 ∨
    (∀ x ∈ filled, ∀ y ∈ after, better y x = false) ∨
    ((∀ x ∈ filled, ∀ y ∈ filled, better y x = false) ∧
      ∀ x ∈ filled, after.countP (fun y => better y x) ≤ 1)

section Phases

variable {heap : Heap (better (S := S))} {candidateLimit : Nat}

/-- While there is room everything is kept. -/
theorem foldl_offer_of_le (heap : Heap (better (S := S))) {results : List (SearchResult S)}
    (hle : results.length ≤ candidateLimit) :
    heap.Ordered (localHeap heap candidateLimit results) ∧
      (localHeap heap candidateLimit results).Perm results := by
  induction results using List.reverseRecOn with
  | nil => exact ⟨heap.ordered_nil, List.Perm.refl _⟩
  | append_singleton results x ih =>
      rw [List.length_append, List.length_singleton] at hle
      obtain ⟨hordered, hperm⟩ := ih (by omega)
      have hroom : (localHeap heap candidateLimit results).length < candidateLimit := by
        rw [hperm.length_eq]
        omega
      have hlast : localHeap heap candidateLimit (results ++ [x]) =
          heap.push (localHeap heap candidateLimit results) x := by
        rw [localHeap, List.foldl_append, List.foldl_cons, List.foldl_nil]
        exact if_pos hroom
      rw [hlast]
      refine ⟨heap.ordered_push hordered, (heap.push_perm _ x).trans ?_⟩
      exact (hperm.cons x).trans (List.perm_append_singleton x results).symm

/-- A full heap gives up its best element for a better one: all but the root stay. -/
theorem foldl_offer_full (heap : Heap (better (S := S))) (after : List (SearchResult S))
    {root : SearchResult S} {others kept : List (SearchResult S)}
    (hordered : heap.Ordered kept) (hkept : kept.Perm (root :: others))
    (hhead : kept.head? = some root) (hfull : kept.length = candidateLimit) :
    ∃ best, (after.foldl (offer heap better candidateLimit) kept).Perm (best :: others) ∧
      (best = root ∧ (∀ y ∈ after, better y root = false) ∨
        better best root = true ∧ best ∈ after ∧ ∀ y ∈ after, better y best = false) := by
  induction after generalizing kept root with
  | nil => exact ⟨root, hkept, Or.inl ⟨rfl, by simp⟩⟩
  | cons x after ih =>
      obtain ⟨rest, rfl⟩ : ∃ rest, kept = root :: rest := by
        cases kept with
        | nil => simp at hhead
        | cons head rest => exact ⟨rest, by simpa using hhead⟩
      have hrest : rest.Perm others := hkept.cons_inv
      have hstep : offer heap better candidateLimit (root :: rest) x =
          if better x root then heap.fix (x :: rest) else root :: rest := by
        rw [offer, if_neg (by omega)]
      rw [List.foldl_cons, hstep]
      split
      next hless =>
        have hfix := heap.fix_perm (x :: rest)
        have hfixed := heap.ordered_fix (x := x) hordered
        -- the new element is better than all others, so it becomes the root
        have hnew : (heap.fix (x :: rest)).head? = some x := by
          cases hshape : heap.fix (x :: rest) with
          | nil =>
              have h := hfix.length_eq
              simp [hshape] at h
          | cons head tail =>
              rw [hshape] at hfix hfixed
              have hx : x ∈ head :: tail := hfix.mem_iff.mpr List.mem_cons_self
              rcases List.mem_cons.mp hx with rfl | hx
              · rfl
              · have hleast := heap.root_least hfixed hx
                rcases List.mem_cons.mp (hfix.mem_iff.mp List.mem_cons_self) with rfl | hhead'
                · rfl
                · have hroot := heap.root_least hordered hhead'
                  rw [weakOrder_better.negTrans hleast hroot] at hless
                  contradiction
        obtain ⟨best, hbest, hcases⟩ := ih hfixed (hfix.trans (hrest.cons x)) hnew (by
          rw [hfix.length_eq]
          exact hfull)
        refine ⟨best, hbest, Or.inr ?_⟩
        rcases hcases with ⟨rfl, hafter⟩ | ⟨hbetter, hmem, hafter⟩
        · refine ⟨hless, List.mem_cons_self, ?_⟩
          intro y hy
          rcases List.mem_cons.mp hy with rfl | hy
          · exact weakOrder_better.irrefl y
          · exact hafter y hy
        · refine ⟨?_, List.mem_cons_of_mem x hmem, ?_⟩
          · by_contra hnot
            rw [Bool.not_eq_true] at hnot
            rw [weakOrder_better.negTrans hnot (weakOrder_better.asymm hless)] at hbetter
            contradiction
          · intro y hy
            rcases List.mem_cons.mp hy with rfl | hy
            · exact weakOrder_better.asymm hbetter
            · exact hafter y hy
      next hnot =>
        rw [Bool.not_eq_true] at hnot
        obtain ⟨best, hbest, hcases⟩ := ih hordered hkept rfl hfull
        refine ⟨best, hbest, ?_⟩
        rcases hcases with ⟨rfl, hafter⟩ | ⟨hbetter, hmem, hafter⟩
        · refine Or.inl ⟨rfl, ?_⟩
          intro y hy
          rcases List.mem_cons.mp hy with rfl | hy
          · exact hnot
          · exact hafter y hy
        · refine Or.inr ⟨hbetter, List.mem_cons_of_mem x hmem, ?_⟩
          intro y hy
          rcases List.mem_cons.mp hy with rfl | hy
          · exact weakOrder_better.negTrans hnot (weakOrder_better.asymm hbetter)
          · exact hafter y hy

end Phases

/-- What was not kept decides whether the best was. -/
theorem best_iff_of_perm {k : Nat} {elements kept dropped : List (SearchResult S)}
    (hsplit : elements.Perm (kept ++ dropped)) (hlength : kept.length = min k elements.length) :
    Best better k elements kept ↔ ∀ x ∈ kept, ∀ y ∈ dropped, better y x = false := by
  constructor
  · rintro ⟨-, dropped', hsplit', hdropped⟩ x hx y hy
    have hperm : dropped.Perm dropped' :=
      (List.perm_append_left_iff kept).mp (hsplit.symm.trans hsplit')
    exact hdropped x hx y (hperm.mem_iff.mp hy)
  · intro hdropped
    exact ⟨hlength, dropped, hsplit, hdropped⟩

section Full

variable {candidateLimit : Nat} {results filled after rest : List (SearchResult S)}
  {root : SearchResult S}

/-- The heap as it was filled, when nothing better than its root came after. -/
theorem best_iff_of_none_better (hresults : results = filled ++ after)
    (hperm : (root :: rest).Perm filled) (hfull : (root :: rest).length = candidateLimit)
    (hnone : ∀ y ∈ after, better y root = false) :
    Best better candidateLimit results (root :: rest) ↔
      candidateLimit = 1 ∨ (∀ x ∈ filled, ∀ y ∈ after, better y x = false) ∨
        ((∀ x ∈ filled, ∀ y ∈ filled, better y x = false) ∧
          ∀ x ∈ filled, after.countP (fun y => better y x) ≤ 1) := by
  have hlength := hperm.length_eq
  have hsplit : results.Perm ((root :: rest) ++ after) := by
    rw [hresults]
    exact hperm.symm.append_right after
  rw [best_iff_of_perm hsplit (by rw [hresults, List.length_append]; omega)]
  constructor
  · intro h
    right
    left
    intro x hx y hy
    exact h x (hperm.mem_iff.mpr hx) y hy
  · rintro (hone | hall | ⟨hequal, -⟩) x hx y hy
    · have hnil : rest = [] := by
        apply List.eq_nil_of_length_eq_zero
        simp only [List.length_cons] at hfull
        omega
      subst hnil
      rw [List.mem_singleton.mp hx]
      exact hnone y hy
    · exact hall x (hperm.mem_iff.mp hx) y hy
    · exact weakOrder_better.negTrans (hnone y hy)
        (hequal x (hperm.mem_iff.mp hx) root (hperm.mem_iff.mp List.mem_cons_self))

/-- The heap with the best of the later results in place of the best of the earlier ones. -/
theorem best_iff_of_replaced {best : SearchResult S} (hresults : results = filled ++ after)
    (hperm : (root :: rest).Perm filled) (hfull : (root :: rest).length = candidateLimit)
    (hroot : ∀ y ∈ rest, better y root = false) (hbetter : better best root = true)
    (hmem : best ∈ after) (hnone : ∀ y ∈ after, better y best = false) :
    Best better candidateLimit results (best :: rest) ↔
      candidateLimit = 1 ∨ (∀ x ∈ filled, ∀ y ∈ after, better y x = false) ∨
        ((∀ x ∈ filled, ∀ y ∈ filled, better y x = false) ∧
          ∀ x ∈ filled, after.countP (fun y => better y x) ≤ 1) := by
  have hlength := hperm.length_eq
  have hfilled : ∀ x, x ∈ filled ↔ x = root ∨ x ∈ rest := fun x => by
    rw [← hperm.mem_iff, List.mem_cons]
  obtain ⟨after', hafter'⟩ : ∃ after', after.Perm (best :: after') := by
    obtain ⟨front, back, rfl⟩ := List.append_of_mem hmem
    exact ⟨front ++ back, List.perm_middle⟩
  have hsplit : results.Perm ((best :: rest) ++ (root :: after')) := by
    rw [hresults]
    refine (hperm.symm.append hafter').trans ?_
    rw [List.cons_append, List.cons_append]
    refine (List.perm_middle.cons root).trans ?_
    exact (List.Perm.swap best root _).trans (List.perm_middle.symm.cons best)
  have hbehind : ∀ y ∈ after', better y best = false := fun y hy =>
    hnone y (hafter'.mem_iff.mpr (List.mem_cons_of_mem best hy))
  have hrootfilled : root ∈ filled := (hfilled root).mpr (Or.inl rfl)
  have hcount : (best :: rest).length = min candidateLimit results.length := by
    rw [hresults, List.length_append]
    simp only [List.length_cons] at hfull hlength ⊢
    omega
  rw [best_iff_of_perm hsplit hcount]
  constructor
  · intro h
    cases rest with
    | nil => exact Or.inl hfull.symm
    | cons other rest =>
        have hrootlast : ∀ x ∈ other :: rest, better root x = false := fun x hx =>
          h x (List.mem_cons_of_mem best hx) root List.mem_cons_self
        have hequal : ∀ x ∈ filled, ∀ y ∈ filled, better y x = false := by
          intro x hx y hy
          have hyroot : better y root = false := by
            rcases (hfilled y).mp hy with rfl | hy
            · exact weakOrder_better.irrefl y
            · exact hroot y hy
          have hrootx : better root x = false := by
            rcases (hfilled x).mp hx with rfl | hx
            · exact weakOrder_better.irrefl x
            · exact hrootlast x hx
          exact weakOrder_better.negTrans hyroot hrootx
        refine Or.inr (Or.inr ⟨hequal, ?_⟩)
        intro x hx
        have hother : other ∈ filled := (hfilled other).mpr (Or.inr List.mem_cons_self)
        have hzero : after'.countP (fun y => better y x) = 0 := by
          rw [List.countP_eq_zero]
          intro y hy
          have hyother := h other (by simp) y (List.mem_cons_of_mem root hy)
          simpa using weakOrder_better.negTrans hyother (hequal x hx other hother)
        rw [hafter'.countP_eq, List.countP_cons, hzero]
        split <;> omega
  · rintro (hone | hall | ⟨hequal, hfew⟩) x hx y hy
    · have hnil : rest = [] := by
        apply List.eq_nil_of_length_eq_zero
        simp only [List.length_cons] at hfull
        omega
      subst hnil
      rw [List.mem_singleton.mp hx]
      rcases List.mem_cons.mp hy with rfl | hy
      · exact weakOrder_better.asymm hbetter
      · exact hbehind y hy
    · rw [hall root hrootfilled best hmem] at hbetter
      contradiction
    · rcases List.mem_cons.mp hx with rfl | hx
      · rcases List.mem_cons.mp hy with rfl | hy
        · exact weakOrder_better.asymm hbetter
        · exact hbehind y hy
      · have hxfilled := (hfilled x).mpr (Or.inr hx)
        rcases List.mem_cons.mp hy with rfl | hy
        · exact hequal x hxfilled y hrootfilled
        · by_contra hless
          rw [Bool.not_eq_false] at hless
          -- with the best one there would be two better than `x`
          have hbestx : better best x = true := by
            by_contra hnot
            rw [Bool.not_eq_true] at hnot
            rw [weakOrder_better.negTrans hnot (hequal root hrootfilled x hxfilled)] at hbetter
            contradiction
          have h := hfew x hxfilled
          rw [hafter'.countP_eq, List.countP_cons, if_pos hbestx] at h
          have hpos := List.countP_pos_iff (p := fun y => better y x).mpr ⟨y, hy, hless⟩
          omega

end Full

/-- The local heap ends with the best results exactly then. -/
theorem localHeap_best_iff (heap : Heap (better (S := S))) {candidateLimit : Nat}
    (hlimit : 1 ≤ candidateLimit) (results : List (SearchResult S)) :
    Best better candidateLimit results (localHeap heap candidateLimit results) ↔
      FewBetter candidateLimit results := by
  by_cases hle : results.length ≤ candidateLimit
  · have hperm := (foldl_offer_of_le heap hle).2
    have hfew : FewBetter candidateLimit results := by
      right
      left
      simp [List.drop_eq_nil_of_le hle]
    exact iff_of_true ((Best.self better hle).perm_kept hperm.symm) hfew
  · have hresults : results = results.take candidateLimit ++ results.drop candidateLimit :=
      (List.take_append_drop candidateLimit results).symm
    have hlength : (results.take candidateLimit).length = candidateLimit := by
      rw [List.length_take]
      omega
    obtain ⟨hordered, hperm⟩ := foldl_offer_of_le heap hlength.le
    have hfold : localHeap heap candidateLimit results =
        (results.drop candidateLimit).foldl (offer heap better candidateLimit)
          (localHeap heap candidateLimit (results.take candidateLimit)) := by
      rw [localHeap, localHeap, ← List.foldl_append, ← hresults]
    rw [hfold]
    cases hkept : localHeap heap candidateLimit (results.take candidateLimit) with
    | nil =>
        rw [hkept] at hperm
        have h := hperm.length_eq
        simp only [List.length_nil] at h
        omega
    | cons root rest =>
        rw [hkept] at hordered hperm
        have hfull : (root :: rest).length = candidateLimit := by rw [hperm.length_eq, hlength]
        obtain ⟨best, hbest, hcases⟩ := foldl_offer_full heap
          (results.drop candidateLimit) hordered (List.Perm.refl _) rfl hfull
        have hsame : Best better candidateLimit results ((results.drop candidateLimit).foldl
              (offer heap better candidateLimit) (root :: rest)) ↔
            Best better candidateLimit results (best :: rest) :=
          ⟨fun h => h.perm_kept hbest, fun h => h.perm_kept hbest.symm⟩
        rw [hsame]
        rcases hcases with ⟨rfl, hnone⟩ | ⟨hbetter, hmem, hnone⟩
        · exact best_iff_of_none_better hresults hperm hfull hnone
        · exact best_iff_of_replaced hresults hperm hfull
            (fun y hy => heap.root_least hordered hy) hbetter hmem hnone

def ofScore (id : String) (score : Nat) : SearchResult Nat := ⟨id.toList, score, none⟩

/-- The two nearest of three results in decreasing order of distance. -/
theorem local_heap_keeps_the_farthest :
    ¬ Best better 2 [ofScore "a" 3, ofScore "b" 2, ofScore "c" 1]
      (localHeap (binaryHeap weakOrder_better) 2
        [ofScore "a" 3, ofScore "b" 2, ofScore "c" 1]) := by
  rw [localHeap_best_iff _ (by decide)]
  unfold FewBetter
  decide

theorem localHeap_best_iff_pair :
    Best better 2 [ofScore "a" 1, ofScore "b" 2, ofScore "c" 3]
        (localHeap (binaryHeap weakOrder_better) 2
          [ofScore "a" 1, ofScore "b" 2, ofScore "c" 3]) ↔
      FewBetter 2 [ofScore "a" 1, ofScore "b" 2, ofScore "c" 3] :=
  localHeap_best_iff _ (by decide) _

end Local

end Vectron.Gateway
