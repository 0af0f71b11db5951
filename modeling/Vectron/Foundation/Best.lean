import Vectron.Foundation.GoMap
import Vectron.Foundation.Heap

/-! # Keeping the best elements

`Best` says that a list holds the first `k` elements of another one in a weak order; which of
several equal ones is open. A bounded heap keeps them as long as its root is the worst element
that it holds. A map keeps the best value of each key.
-/

namespace Foundation

variable {α : Type} {lt : α → α → Bool}

/-- `kept` are the first `k` of the elements, in any order. -/
structure Best (lt : α → α → Bool) (k : Nat) (elements kept : List α) : Prop where
  length : kept.length = min k elements.length
  split : ∃ dropped, elements.Perm (kept ++ dropped) ∧
    ∀ x ∈ kept, ∀ y ∈ dropped, lt y x = false

namespace Best

variable {k : Nat} {elements kept : List α}

theorem nil (lt : α → α → Bool) (k : Nat) : Best lt k [] [] := ⟨by simp, [], by simp, by simp⟩

theorem perm {other : List α} (hbest : Best lt k elements kept) (hperm : elements.Perm other) :
    Best lt k other kept := by
  obtain ⟨dropped, hsplit, hdropped⟩ := hbest.split
  exact ⟨hperm.length_eq ▸ hbest.length, dropped, hperm.symm.trans hsplit, hdropped⟩

theorem perm_kept {other : List α} (hbest : Best lt k elements kept) (hperm : kept.Perm other) :
    Best lt k elements other := by
  obtain ⟨dropped, hsplit, hdropped⟩ := hbest.split
  refine ⟨hperm.length_eq ▸ hbest.length, dropped, hsplit.trans (hperm.append_right _), ?_⟩
  exact fun x hx y hy => hdropped x (hperm.mem_iff.mpr hx) y hy

theorem subset (hbest : Best lt k elements kept) : kept ⊆ elements := by
  obtain ⟨dropped, hsplit, -⟩ := hbest.split
  exact fun x hx => hsplit.mem_iff.mpr (List.mem_append_left dropped hx)

/-- Below the bound nothing is dropped. -/
theorem perm_of_le (hbest : Best lt k elements kept) (hle : elements.length ≤ k) :
    elements.Perm kept := by
  obtain ⟨dropped, hsplit, -⟩ := hbest.split
  have hlength := hsplit.length_eq
  have hkept := hbest.length
  rw [List.length_append] at hlength
  have hnil : dropped = [] := List.eq_nil_of_length_eq_zero (by omega)
  rwa [hnil, List.append_nil] at hsplit

theorem self (lt : α → α → Bool) {k : Nat} {elements : List α} (hle : elements.length ≤ k) :
    Best lt k elements elements :=
  ⟨(min_eq_right hle).symm, [], by simp, by simp⟩

/-- The front of a sorted list. -/
theorem take (k : Nat) (hsorted : elements.Pairwise fun x y => lt y x = false) :
    Best lt k elements (elements.take k) := by
  refine ⟨List.length_take, elements.drop k, by rw [List.take_append_drop], ?_⟩
  rw [← List.take_append_drop k elements, List.pairwise_append] at hsorted
  exact hsorted.2.2

section

variable (hlt : WeakOrder lt)

include hlt

/-- The first of the first of some and of others are the first of all. -/
theorem append {others merged : List α} (hbest : Best lt k elements kept)
    (hmerged : Best lt k (kept ++ others) merged) : Best lt k (elements ++ others) merged := by
  obtain ⟨dropped, hsplit, hdropped⟩ := hbest.split
  obtain ⟨dropped', hsplit', hdropped'⟩ := hmerged.split
  have hlength := hbest.length
  have hlength' := hmerged.length
  have hsize := hsplit.length_eq
  simp only [List.length_append] at hlength' hsize
  refine ⟨?_, dropped' ++ dropped, ?_, ?_⟩
  · rw [List.length_append]
    omega
  · have h := (hsplit.append_right others).trans
      ((List.append_assoc kept dropped others).symm ▸
        (List.perm_append_comm.append_left kept))
    refine h.trans ?_
    rw [← List.append_assoc, ← List.append_assoc]
    exact hsplit'.append_right dropped
  · intro x hx y hy
    rcases List.mem_append.mp hy with hy | hy
    · exact hdropped' x hx y hy
    · by_contra hless
      rw [Bool.not_eq_false] at hless
      -- all that the first bound kept is before `x`, so it is merged, and `x` is one too many
      have hbefore : ∀ z ∈ kept, lt z x = true := by
        intro z hz
        by_contra hnot
        rw [Bool.not_eq_true] at hnot
        rw [hlt.negTrans (hdropped z hz y hy) hnot] at hless
        contradiction
      have hcount := hsplit'.countP_eq fun z => lt z x
      have hkept : kept.countP (fun z => lt z x) = kept.length :=
        List.countP_eq_length.mpr hbefore
      have hnone : dropped'.countP (fun z => lt z x) = 0 :=
        List.countP_eq_zero.mpr fun z hz => by simp [hdropped' x hx z hz]
      have hmany : merged.countP (fun z => lt z x) < merged.length := by
        apply List.countP_lt_length_iff.mpr
        exact ⟨x, hx, by simp [hlt.irrefl]⟩
      have hpos : 0 < dropped.length := List.length_pos_of_mem hy
      rw [List.countP_append, List.countP_append] at hcount
      omega

/-- The bests of several parts, merged, are the best of all. -/
theorem flatten {parts : List (List α × List α)} {merged : List α}
    (hparts : ∀ part ∈ parts, Best lt k part.1 part.2)
    (hmerged : Best lt k (parts.map Prod.snd).flatten merged) :
    Best lt k (parts.map Prod.fst).flatten merged := by
  -- replace the kept parts one after another, the first at the front
  have hstep : ∀ (front : List α), Best lt k (front ++ (parts.map Prod.snd).flatten) merged →
      Best lt k (front ++ (parts.map Prod.fst).flatten) merged := by
    clear hmerged
    induction parts with
    | nil => exact fun front h => h
    | cons part parts ih =>
        intro front h
        simp only [List.map_cons, List.flatten_cons] at h ⊢
        have hpart := hparts part List.mem_cons_self
        have hfront : Best lt k (part.2 ++ (front ++ (parts.map Prod.snd).flatten)) merged := by
          apply h.perm
          rw [← List.append_assoc, ← List.append_assoc]
          exact List.perm_append_comm.append_right _
        have hall := hpart.append hlt hfront
        rw [← List.append_assoc] at hall ⊢
        have hrest := ih (fun other hother => hparts other (List.mem_cons_of_mem part hother))
          (part.1 ++ front) hall
        exact hrest.perm (List.perm_append_comm.append_right _)
  simpa using hstep [] (by simpa using hmerged)

/-- The first elements of some are the first of others, if an element that only the others have
is covered by `k` elements that it is not before, and one that the others lack comes after such
an element. -/
theorem of_covered {others : List α} (hbest : Best lt k elements kept) (hnodup : elements.Nodup)
    (hothers : others.Nodup)
    (hcovered : ∀ y ∈ others, y ∉ elements → k ≤ elements.countP fun z => !lt y z)
    (hforeign : ∀ x ∈ elements, x ∉ others → ∃ y ∈ others, y ∉ elements ∧ lt y x = true) :
    Best lt k others kept := by
  classical
  obtain ⟨dropped, hsplit, hdropped⟩ := hbest.split
  have hlength := hbest.length
  -- what is kept is not behind an element that only the others have
  have hmissing : ∀ y ∈ others, y ∉ elements → ∀ x ∈ kept, lt y x = false := by
    intro y hy hnot x hx
    by_contra hless
    rw [Bool.not_eq_false] at hless
    have hcount := hcovered y hy hnot
    rw [hsplit.countP_eq, List.countP_append] at hcount
    have hfew : kept.countP (fun z => !lt y z) < kept.length := by
      apply List.countP_lt_length_iff.mpr
      exact ⟨x, hx, by simp [hless]⟩
    obtain ⟨z, hz, hyz⟩ := List.countP_pos_iff.mp (show 0 < dropped.countP fun z => !lt y z by omega)
    rw [Bool.not_eq_true'] at hyz
    rw [hlt.negTrans hyz (hdropped x hx z hz)] at hless
    contradiction
  have hkept : kept ⊆ others := by
    intro x hx
    by_contra hnot
    obtain ⟨y, hy, hyelements, hless⟩ := hforeign x (hbest.subset hx) hnot
    rw [hmissing y hy hyelements x hx] at hless
    contradiction
  have hkeptnodup : kept.Nodup := (hsplit.nodup_iff.mp hnodup).of_append_left
  obtain ⟨picked, hpicked, hsublist⟩ := List.subperm_of_subset hkeptnodup hkept
  obtain ⟨left, hleft⟩ := hsublist.exists_perm_append
  have hall := hleft.trans (hpicked.append_right left)
  refine ⟨?_, left, hall, ?_⟩
  · have hsize := hall.length_eq
    rw [List.length_append] at hsize
    by_cases hsub : others ⊆ elements
    · have hle := (List.subperm_of_subset hothers hsub).length_le
      omega
    · obtain ⟨y, hy, hnot⟩ : ∃ y ∈ others, y ∉ elements := by
        simpa [List.subset_def] using hsub
      have hcount := hcovered y hy hnot
      have hle : elements.countP (fun z => !lt y z) ≤ elements.length := List.countP_le_length
      omega
  · intro x hx y hy
    by_cases hmem : y ∈ elements
    · refine hdropped x hx y ((List.mem_append.mp (hsplit.mem_iff.mp hmem)).resolve_left ?_)
      have hdisjoint := (List.nodup_append'.mp (hall.nodup_iff.mp hothers)).2.2
      exact fun hykept => hdisjoint hykept hy
    · exact hmissing y (hall.mem_iff.mpr (List.mem_append_right _ hy)) hmem x hx

/-- An element with fewer than `k` before it may be kept as the first of its equals. -/
theorem exists_first {elements : List α} {e : α} (he : e ∈ elements)
    (hfew : (elements.countP fun f => lt f e) < k) :
    ∃ front back, Best lt k elements (front ++ e :: back) ∧
      (front ++ e :: back).Pairwise (fun x y => lt y x = false) ∧ ∀ f ∈ front, lt f e = true := by
  classical
  let le : α → α → Bool := fun x y => !lt y x
  have hsort : ∀ list : List α, (list.mergeSort le).Pairwise fun x y => lt y x = false := by
    intro list
    refine (List.pairwise_mergeSort ?_ ?_ list).imp fun {x y} h => by simpa [le] using h
    · intro x y z hxy hyz
      simp only [le, Bool.not_eq_true'] at hxy hyz ⊢
      exact hlt.negTrans hyz hxy
    · intro x y
      cases hyx : lt y x with
      | false => simp [le, hyx]
      | true => simp [le, hlt.asymm hyx]
  let before := (elements.filter fun f => lt f e).mergeSort le
  let after := ((elements.erase e).filter fun f => !lt f e).mergeSort le
  have hbefore : ∀ f ∈ before, lt f e = true := fun f hf =>
    (List.mem_filter.mp ((List.mergeSort_perm _ le).mem_iff.mp hf)).2
  have hafter : ∀ f ∈ after, lt f e = false := fun f hf => by
    simpa using (List.mem_filter.mp ((List.mergeSort_perm _ le).mem_iff.mp hf)).2
  have hperm : elements.Perm (before ++ e :: after) := by
    have hself : (fun f => lt f e) e = false := hlt.irrefl e
    have hfront : (elements.filter fun f => lt f e).Perm
        ((elements.erase e).filter fun f => lt f e) := by
      refine ((List.perm_cons_erase he).filter _).trans ?_
      rw [List.filter_cons_of_neg (by simp [hself])]
    have hsplit := List.filter_append_perm (fun f => lt f e) (elements.erase e)
    have hparts : (before ++ after).Perm (elements.erase e) :=
      ((((List.mergeSort_perm _ le).trans hfront).append (List.mergeSort_perm _ le))).trans hsplit
    exact (List.perm_cons_erase he).trans ((hparts.symm.cons e).trans List.perm_middle.symm)
  have hsorted : (before ++ e :: after).Pairwise fun x y => lt y x = false := by
    refine List.pairwise_append.mpr ⟨hsort _, List.pairwise_cons.mpr ⟨hafter, hsort _⟩, ?_⟩
    intro x hx y hy
    rcases List.mem_cons.mp hy with rfl | hy
    · exact hlt.asymm (hbefore x hx)
    · exact hlt.negTrans (hafter y hy) (hlt.asymm (hbefore x hx))
  have hlength : before.length < k := by
    rw [List.length_mergeSort, ← List.countP_eq_length_filter]
    exact hfew
  have htake : (before ++ e :: after).take k = before ++ e :: after.take (k - before.length - 1) := by
    rw [List.take_append, List.take_of_length_le hlength.le]
    obtain ⟨room, hroom⟩ := Nat.exists_eq_add_of_lt hlength
    rw [show k - before.length = room + 1 by omega]
    rfl
  refine ⟨before, after.take (k - before.length - 1), ?_, ?_, hbefore⟩
  · rw [← htake]
    exact (Best.take k hsorted).perm hperm.symm
  · rw [← htake]
    exact hsorted.sublist (List.take_sublist _ _)

/-- Two lists of first elements in strictly increasing order are the same. -/
theorem eq_of_pairwise {other : List α} (hkept : Best lt k elements kept)
    (hother : Best lt k elements other)
    (hdistinct : elements.Pairwise fun x y => lt x y = true ∨ lt y x = true)
    (hsorted : kept.Pairwise fun x y => lt y x = false)
    (hsorted' : other.Pairwise fun x y => lt y x = false) : kept = other := by
  obtain ⟨dropped, hsplit, hdropped⟩ := hkept.split
  obtain ⟨dropped', hsplit', hdropped'⟩ := hother.split
  have hcompare : ∀ x ∈ elements, ∀ y ∈ elements, lt x y = false → lt y x = false → x = y := by
    intro x hx y hy hxy hyx
    by_contra hne
    have hsymm : Std.Symm fun x y => lt x y = true ∨ lt y x = true := ⟨fun _ _ h => h.symm⟩
    have hpair := hdistinct.forall hx hy hne
    simp [hxy, hyx] at hpair
  have hmem := fun z => (hsplit.mem_iff (a := z)).symm
  have hmem' := fun z => (hsplit'.mem_iff (a := z)).symm
  have hnodup : elements.Nodup := hdistinct.imp fun {x y} h heq => by
    subst heq
    simp [hlt.irrefl] at h
  have hsub : kept ⊆ other := by
    classical
    intro x hx
    have hxall := (hmem x).mp (List.mem_append_left _ hx)
    by_contra hnot
    have hxdropped : x ∈ dropped' :=
      (List.mem_append.mp ((hmem' x).mpr hxall)).resolve_left hnot
    -- then everything in `other` is before `x`, hence kept, and there is no room for `x`
    have hinto : other ⊆ kept.erase x := by
      intro y hy
      have hyall := (hmem' y).mp (List.mem_append_left _ hy)
      have hne : y ≠ x := by
        rintro rfl
        exact hnot hy
      refine (List.mem_erase_of_ne hne).mpr ?_
      by_contra hnot'
      have hydropped := (List.mem_append.mp ((hmem y).mpr hyall)).resolve_left hnot'
      exact hne (hcompare y hyall x hxall (hdropped x hx y hydropped) (hdropped' y hy x hxdropped))
    have hothernodup : other.Nodup := (hsplit'.nodup_iff.mp hnodup).of_append_left
    have hle := (List.subperm_of_subset hothernodup hinto).length_le
    rw [List.length_erase_of_mem hx, hkept.length, hother.length] at hle
    have hpos := List.length_pos_of_mem hx
    rw [hkept.length] at hpos
    omega
  have hkeptnodup : kept.Nodup := (hsplit.nodup_iff.mp hnodup).of_append_left
  have hperm : kept.Perm other := by
    apply (List.subperm_of_subset hkeptnodup hsub).perm_of_length_le
    rw [hkept.length, hother.length]
  refine hperm.eq_of_pairwise ?_ hsorted hsorted'
  intro x y hx hy hxy hyx
  exact hcompare x ((hmem x).mp (List.mem_append_left _ hx)) y
    ((hmem' y).mp (List.mem_append_left _ hy)) hyx hxy

end

end Best

/-! ## Bounded heaps -/

section Bounded

variable {less better : α → α → Bool}

/-- Offer an element to a heap of at most `limit`: it is pushed while there is room, and
afterwards takes the place of the root if it is better. -/
def offer (heap : Heap less) (better : α → α → Bool) (limit : Nat) (kept : List α) (x : α) :
    List α :=
  if kept.length < limit then heap.push kept x
  else
    match kept with
    | [] => []
    | root :: rest => if better x root then heap.fix (x :: rest) else root :: rest

/-- Push an element and pop the root when there are more than `limit`. -/
def pushPop (heap : Heap less) (limit : Nat) (kept : List α) (x : α) : List α :=
  let pushed := heap.push kept x
  if limit < pushed.length then ((heap.pop pushed).map Prod.snd).getD pushed else pushed

/-- The elements in the order in which they are popped. -/
def drain (heap : Heap less) : Nat → List α → List α
  | 0, _ => []
  | count + 1, kept =>
      match heap.pop kept with
      | none => []
      | some (x, rest) => x :: drain heap count rest

section

variable (hbetter : WeakOrder better) (heap : Heap fun x y => better y x)

include hbetter heap

theorem offer_best {limit : Nat} {elements kept : List α} (hordered : heap.Ordered kept)
    (hbest : Best better limit elements kept) (x : α) :
    heap.Ordered (offer heap better limit kept x) ∧
      Best better limit (x :: elements) (offer heap better limit kept x) := by
  obtain ⟨dropped, hsplit, hdropped⟩ := hbest.split
  have hlength := hbest.length
  have hsize := hsplit.length_eq
  rw [List.length_append] at hsize
  unfold offer
  split
  next hroom =>
    have hnil : dropped = [] := List.eq_nil_of_length_eq_zero (by omega)
    subst hnil
    rw [List.append_nil] at hsplit
    refine ⟨heap.ordered_push hordered, ?_⟩
    apply Best.perm_kept _ (heap.push_perm kept x).symm
    refine ⟨?_, [], ?_, by simp⟩
    · simp only [List.length_cons]
      omega
    · simpa using hsplit.cons x
  next hfull =>
    cases kept with
    | nil =>
        refine ⟨hordered, ?_, x :: dropped, ?_, by simp⟩
        · simp only [List.length_nil] at hlength hfull ⊢
          omega
        · simpa using hsplit.cons x
    | cons root rest =>
        have hroot : ∀ y ∈ rest, better root y = false := fun y hy => heap.root_least hordered hy
        simp only [List.length_cons] at hlength hfull hsize
        dsimp only
        split
        next hless =>
          refine ⟨heap.ordered_fix hordered, ?_⟩
          apply Best.perm_kept _ (heap.fix_perm (x :: rest)).symm
          refine ⟨?_, root :: dropped, ?_, ?_⟩
          · simp only [List.length_cons]
            omega
          · exact (hsplit.cons x).trans (List.perm_middle.symm.cons x)
          · intro y hy z hz
            rcases List.mem_cons.mp hy with rfl | hy
            · rcases List.mem_cons.mp hz with rfl | hz
              · exact hbetter.asymm hless
              · exact hbetter.negTrans (hdropped root List.mem_cons_self z hz)
                  (hbetter.asymm hless)
            · rcases List.mem_cons.mp hz with rfl | hz
              · exact hroot y hy
              · exact hdropped y (List.mem_cons_of_mem root hy) z hz
        next hnot =>
          rw [Bool.not_eq_true] at hnot
          refine ⟨hordered, ?_, x :: dropped, ?_, ?_⟩
          · simp only [List.length_cons]
            omega
          · exact (hsplit.cons x).trans List.perm_middle.symm
          · intro y hy z hz
            rcases List.mem_cons.mp hz with rfl | hz
            · rcases List.mem_cons.mp hy with rfl | hy
              · exact hnot
              · exact hbetter.negTrans hnot (hroot y hy)
            · exact hdropped y hy z hz

/-- A heap whose root is its worst element keeps the best. -/
theorem foldl_offer_best (limit : Nat) (elements : List α) :
    heap.Ordered (elements.foldl (offer heap better limit) []) ∧
      Best better limit elements (elements.foldl (offer heap better limit) []) := by
  induction elements using List.reverseRecOn with
  | nil => exact ⟨heap.ordered_nil, Best.nil better limit⟩
  | append_singleton elements x ih =>
      rw [List.foldl_append, List.foldl_cons, List.foldl_nil]
      obtain ⟨hordered, hbest⟩ := offer_best hbetter heap ih.1 ih.2 x
      exact ⟨hordered, hbest.perm (List.perm_append_singleton x elements).symm⟩

end

/-- Giving up the root keeps the elements that come last in the order of the heap. -/
theorem pushPop_best (hless : WeakOrder less) (heap : Heap less) {limit : Nat}
    {elements kept : List α} (hordered : heap.Ordered kept)
    (hbest : Best (fun x y => less y x) limit elements kept) (x : α) :
    heap.Ordered (pushPop heap limit kept x) ∧
      Best (fun x y => less y x) limit (x :: elements) (pushPop heap limit kept x) := by
  obtain ⟨dropped, hsplit, hdropped⟩ := hbest.split
  have hlength := hbest.length
  have hsize := hsplit.length_eq
  have hpush := heap.push_perm kept x
  have hpushed := hpush.length_eq
  simp only [List.length_append, List.length_cons] at hsize hpushed
  unfold pushPop
  dsimp only
  split
  next hover =>
    obtain ⟨root, rest, hheap⟩ : ∃ root rest, heap.push kept x = root :: rest :=
      List.exists_cons_of_ne_nil (List.ne_nil_of_length_pos (by omega))
    obtain ⟨⟨first, others⟩, hpop⟩ :=
      Option.isSome_iff_exists.mp (heap.pop_isSome (List.cons_ne_nil root rest))
    have hfull := heap.ordered_push (x := x) hordered
    rw [hheap] at hfull hpush
    obtain ⟨rfl, hothers⟩ := heap.ordered_pop hfull hpop
    have hperm := (heap.pop_perm hpop).cons_inv
    have hleast : ∀ y ∈ others, less y first = false := fun y hy =>
      heap.root_least hfull (hperm.mem_iff.mp hy)
    rw [hheap, hpop]
    refine ⟨hothers, ?_, first :: dropped, ?_, ?_⟩
    · have hrest : others.length = rest.length := hperm.length_eq
      have hcount := hpush.length_eq
      simp only [List.length_cons, Option.map_some, Option.getD_some] at hcount ⊢
      omega
    · have hfirst : (x :: kept).Perm (first :: others) :=
        hpush.symm.trans (hperm.symm.cons first)
      have h := (hsplit.cons x).trans (hfirst.append_right dropped)
      exact h.trans List.perm_middle.symm
    · intro y hy z hz
      rcases List.mem_cons.mp hz with rfl | hz
      · exact hleast y hy
      · -- a pushed element that stays is no less than the root that goes
        have hroot := hpush.mem_iff.mp (List.mem_cons_self (a := first))
        have hmem := hpush.mem_iff.mp (List.mem_cons_of_mem first (hperm.mem_iff.mp hy))
        rcases List.mem_cons.mp hmem with rfl | hykept
        · rcases List.mem_cons.mp hroot with rfl | hkept
          · have hsame := (hperm.trans hpush.cons_inv).mem_iff.mp hy
            exact hdropped first hsame z hz
          · exact hless.negTrans (hleast y hy) (hdropped first hkept z hz)
        · exact hdropped y hykept z hz
  next hroom =>
    refine ⟨heap.ordered_push hordered, ?_⟩
    apply Best.perm_kept _ hpush.symm
    have hnil : dropped = [] := List.eq_nil_of_length_eq_zero (by omega)
    subst hnil
    rw [List.append_nil] at hsplit
    refine ⟨?_, [], ?_, by simp⟩
    · simp only [List.length_cons]
      omega
    · simpa using hsplit.cons x

theorem foldl_pushPop_best (hless : WeakOrder less) (heap : Heap less) (limit : Nat)
    (elements : List α) :
    heap.Ordered (elements.foldl (pushPop heap limit) []) ∧
      Best (fun x y => less y x) limit elements (elements.foldl (pushPop heap limit) []) := by
  induction elements using List.reverseRecOn with
  | nil => exact ⟨heap.ordered_nil, Best.nil _ limit⟩
  | append_singleton elements x ih =>
      rw [List.foldl_append, List.foldl_cons, List.foldl_nil]
      obtain ⟨hordered, hbest⟩ := pushPop_best hless heap ih.1 ih.2 x
      exact ⟨hordered, hbest.perm (List.perm_append_singleton x elements).symm⟩

theorem drain_perm (heap : Heap less) {count : Nat} {kept : List α} (hcount : kept.length = count) :
    (drain heap count kept).Perm kept := by
  induction count generalizing kept with
  | zero =>
      rw [List.eq_nil_of_length_eq_zero hcount]
      rfl
  | succ count ih =>
      have hne : kept ≠ [] := by
        rintro rfl
        simp at hcount
      obtain ⟨⟨x, rest⟩, hpop⟩ := Option.isSome_iff_exists.mp (heap.pop_isSome hne)
      have hperm := heap.pop_perm hpop
      have hlength := hperm.length_eq
      simp only [List.length_cons] at hlength
      rw [drain, hpop]
      exact ((ih (by omega)).cons x).trans hperm

/-- The elements come out in order. -/
theorem drain_pairwise (heap : Heap less) {count : Nat} {kept : List α}
    (hordered : heap.Ordered kept) (hcount : kept.length = count) :
    (drain heap count kept).Pairwise fun x y => less y x = false := by
  induction count generalizing kept with
  | zero => exact List.Pairwise.nil
  | succ count ih =>
      cases kept with
      | nil => simp at hcount
      | cons root rest =>
          obtain ⟨⟨x, rest'⟩, hpop⟩ :=
            Option.isSome_iff_exists.mp (heap.pop_isSome (List.cons_ne_nil root rest))
          obtain ⟨rfl, hrest⟩ := heap.ordered_pop hordered hpop
          have hperm := (heap.pop_perm hpop).cons_inv
          have hlength : rest'.length = rest.length := hperm.length_eq
          simp only [List.length_cons] at hcount
          rw [drain, hpop, List.pairwise_cons]
          refine ⟨?_, ih hrest (by omega)⟩
          intro y hy
          have hy := (drain_perm heap (by omega)).mem_iff.mp hy
          exact heap.root_least hordered (hperm.mem_iff.mp hy)

/-- The result of pushing all elements, and giving up the roots, in the reverse of the order in
which it is popped. -/
def lastReversed (heap : Heap less) (limit : Nat) (elements : List α) : List α :=
  let kept := elements.foldl (pushPop heap limit) []
  (drain heap kept.length kept).reverse

theorem lastReversed_best (hless : WeakOrder less) (heap : Heap less) (limit : Nat)
    (elements : List α) :
    Best (fun x y => less y x) limit elements (lastReversed heap limit elements) ∧
      (lastReversed heap limit elements).Pairwise fun x y => less x y = false := by
  obtain ⟨hordered, hbest⟩ := foldl_pushPop_best hless heap limit elements
  unfold lastReversed
  refine ⟨hbest.perm_kept ?_, ?_⟩
  · exact ((drain_perm heap rfl).symm).trans (List.reverse_perm _).symm
  · exact List.pairwise_reverse.mpr (drain_pairwise heap hordered rfl)

section

variable {finer : α → α → Bool} (heap : Heap finer)
  (hfiner : ∀ x y, less x y = true → finer x y = true)

include heap hfiner

theorem drain_coarsen (count : Nat) (kept : List α) :
    drain (heap.coarsen hfiner) count kept = drain heap count kept := by
  induction count generalizing kept with
  | zero => rfl
  | succ count ih =>
      simp only [drain, ih]
      rfl

theorem lastReversed_coarsen (limit : Nat) (elements : List α) :
    lastReversed (heap.coarsen hfiner) limit elements = lastReversed heap limit elements := by
  unfold lastReversed
  dsimp only
  rw [drain_coarsen]
  rfl

end

/-- How ties fall is up to the heap: every choice of the last elements is the result of one. -/
theorem exists_lastReversed_eq (hless : WeakOrder less) {limit : Nat} {elements last : List α}
    (hnodup : elements.Nodup) (hlast : Best (fun x y => less y x) limit elements last)
    (hsorted : last.Pairwise fun x y => less x y = false) :
    ∃ heap : Heap less, lastReversed heap limit elements = last := by
  classical
  obtain ⟨dropped, hsplit, hdropped⟩ := hlast.split
  have hall : (last ++ dropped).Nodup := hsplit.nodup_iff.mp hnodup
  let key : α → Nat := (last ++ dropped).idxOf
  have hkeys : (last ++ dropped).Pairwise fun x y => key x < key y := by
    rw [List.pairwise_iff_getElem]
    intro i j hi hj hij
    simpa only [key, hall.idxOf_getElem] using hij
  obtain ⟨hkeyslast, -, hkeysdropped⟩ := List.pairwise_append.mp hkeys
  have hfiner := hless.tieBreak key
  refine ⟨(binaryHeap hfiner).coarsen fun x y h => by simp [h], ?_⟩
  rw [lastReversed_coarsen]
  obtain ⟨hbest, hordered⟩ := lastReversed_best hfiner (binaryHeap hfiner) limit elements
  have hweak : WeakOrder fun x y => less y x || (!less x y && decide (key x < key y)) :=
    ⟨fun h => hfiner.asymm h, fun hxy hyz => hfiner.negTrans hyz hxy⟩
  refine hbest.eq_of_pairwise hweak ⟨hlast.length, dropped, hsplit, ?_⟩ ?_ hordered ?_
  · intro x hx y hy
    simp [hdropped x hx y hy, (hkeysdropped x hx y hy).le]
  · refine hnodup.imp_of_mem ?_
    intro x y hx hy hne
    have hdistinct : key x ≠ key y := fun h =>
      hne ((List.idxOf_inj (hsplit.mem_iff.mp hx)).mp h)
    cases hyx : less y x with
    | true => exact Or.inl (by simp)
    | false =>
        cases hxy : less x y with
        | true => exact Or.inr (by simp)
        | false =>
            rcases lt_or_gt_of_ne hdistinct with h | h
            · exact Or.inl (by simp [h])
            · exact Or.inr (by simp [h])
  · refine (hsorted.and hkeyslast).imp ?_
    rintro x y ⟨hxy, hkey⟩
    simp [hxy, hkey.le]

end Bounded

/-! ## The best of each key -/

section Keys

variable {K V : Type} [DecidableEq K] {better : V → V → Bool}

/-- Write an entry if its key is new or its value better than the one there. -/
def keepBest (better : V → V → Bool) (best : GoMap K V) (entry : K × V) : GoMap K V :=
  match best.lookup entry.1 with
  | some known => if better entry.2 known then best.insert entry.1 entry.2 else best
  | none => best.insert entry.1 entry.2

theorem keepBest_cases (hbetter : WeakOrder better) (best : GoMap K V) (entry : K × V) :
    (keepBest better best entry = best ∧
      ∃ known, best.lookup entry.1 = some known ∧ better entry.2 known = false) ∨
    (keepBest better best entry = best.insert entry.1 entry.2 ∧
      ∀ known, best.lookup entry.1 = some known → better known entry.2 = false) := by
  unfold keepBest
  cases hlookup : best.lookup entry.1 with
  | none => exact Or.inr ⟨rfl, by simp⟩
  | some known =>
      cases hless : better entry.2 known with
      | false => exact Or.inl ⟨if_neg (by simp [hless]), known, rfl, hless⟩
      | true =>
          refine Or.inr ⟨if_pos hless, ?_⟩
          intro known' heq
          obtain rfl := Option.some.inj heq
          exact hbetter.asymm hless

theorem isSome_keepBest (best : GoMap K V) (entry : K × V) (k : K) :
    ((keepBest better best entry).lookup k).isSome = true ↔
      (best.lookup k).isSome = true ∨ k = entry.1 := by
  have hinsert : ((best.insert entry.1 entry.2).lookup k).isSome = true ↔
      (best.lookup k).isSome = true ∨ k = entry.1 := by
    rw [GoMap.lookup_insert_if]
    by_cases hk : k = entry.1
    · simp [hk]
    · simp [hk]
  unfold keepBest
  split
  next known hknown =>
    split
    next => exact hinsert
    next =>
      refine ⟨Or.inl, fun hor => hor.elim id ?_⟩
      rintro rfl
      rw [hknown]
      rfl
  next => exact hinsert

/-- The loop ends with an entry of each key that it saw. -/
theorem isSome_foldl_keepBest (entries : List (K × V)) (best : GoMap K V) (k : K) :
    ((entries.foldl (keepBest better) best).lookup k).isSome = true ↔
      (best.lookup k).isSome = true ∨ k ∈ entries.map Prod.fst := by
  induction entries generalizing best with
  | nil => simp
  | cons entry rest ih =>
      rw [List.foldl_cons, ih, isSome_keepBest, List.map_cons, List.mem_cons, or_assoc]

/-- The loop ends with a best entry of each key that it saw. -/
theorem lookup_keepBest (hbetter : WeakOrder better) (entries : List (K × V)) (k : K) :
    (∀ v, (entries.foldl (keepBest better) ∅).lookup k = some v →
      (k, v) ∈ entries ∧ ∀ w, (k, w) ∈ entries → better w v = false) ∧
    ((entries.foldl (keepBest better) ∅).lookup k = none → ∀ v, (k, v) ∉ entries) := by
  induction entries using List.reverseRecOn with
  | nil => simp
  | append_singleton entries entry ih =>
      rw [List.foldl_append, List.foldl_cons, List.foldl_nil]
      generalize entries.foldl (keepBest better) ∅ = best at ih ⊢
      obtain ⟨hsome, hnone⟩ := ih
      simp only [List.mem_append, List.mem_singleton]
      rcases keepBest_cases hbetter best entry with ⟨heq, known, hknown, hworse⟩ | ⟨heq, hbest⟩
      · rw [heq]
        constructor
        · intro v hlookup
          obtain ⟨hmem, hall⟩ := hsome v hlookup
          refine ⟨Or.inl hmem, ?_⟩
          rintro w (hw | rfl)
          · exact hall w hw
          · obtain rfl := Option.some.inj (hknown.symm.trans hlookup)
            exact hworse
        · rintro hlookup v (hv | rfl)
          · exact hnone hlookup v hv
          · rw [hlookup] at hknown
            contradiction
      · rw [heq, GoMap.lookup_insert_if]
        by_cases hkey : k = entry.1
        · subst hkey
          simp only [if_true, Option.some.injEq, reduceCtorEq, false_implies, and_true]
          rintro v rfl
          refine ⟨Or.inr rfl, ?_⟩
          rintro w (hw | hw)
          · cases hlookup : best.lookup entry.1 with
            | none => exact absurd hw (hnone hlookup w)
            | some known =>
                exact hbetter.negTrans ((hsome known hlookup).2 w hw) (hbest known hlookup)
          · rw [← hw]
            exact hbetter.irrefl w
        · rw [if_neg hkey]
          constructor
          · intro v hlookup
            obtain ⟨hmem, hall⟩ := hsome v hlookup
            refine ⟨Or.inl hmem, ?_⟩
            rintro w (hw | rfl)
            · exact hall w hw
            · exact absurd rfl hkey
          · rintro hlookup v (hv | rfl)
            · exact hnone hlookup v hv
            · exact hkey rfl

end Keys

end Foundation
