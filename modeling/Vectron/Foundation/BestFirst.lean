import Vectron.Foundation.Best
import Vectron.Foundation.Traced

/-! # Best-first searches with bounded results

A search keeps the first `k` of the elements it has seen, and expands the first of these that it
has not expanded yet, until there is none. `Beam` relates the queue and the results of such a
search to what was seen and what was expanded. Where any two elements are in order, these alone
decide which element is next and what the results are, so that searches with other queues, or
that leave out elements which cannot be among the results, return the same.
-/

namespace Foundation

variable {α : Type} {lt : α → α → Bool}

theorem WeakOrder.trans (hlt : WeakOrder lt) {x y z : α} (hxy : lt x y = true)
    (hyz : lt y z = true) : lt x z = true := by
  by_contra hxz
  have hback := hlt.asymm hxy
  rw [Bool.not_eq_true] at hxz
  -- `y` is not before `x` and `x` is not before `z`, so `y` would not be before `z`
  have hnot := hlt.negTrans hback hxz
  rw [hyz] at hnot
  cases hnot

/-! ## The first elements by their rank -/

/-- One of two elements is before the other. -/
def Apart (lt : α → α → Bool) (x y : α) : Prop := lt x y = true ∨ lt y x = true

/-- How many of the elements are before one. -/
def rank (lt : α → α → Bool) (elements : List α) (x : α) : Nat := elements.countP fun y => lt y x

section Rank

variable {k : Nat} {elements kept : List α}

theorem rank_cons (lt : α → α → Bool) (y : α) (elements : List α) (x : α) :
    rank lt (y :: elements) x = rank lt elements x + if lt y x then 1 else 0 :=
  List.countP_cons

theorem rank_append (lt : α → α → Bool) (first second : List α) (x : α) :
    rank lt (first ++ second) x = rank lt first x + rank lt second x :=
  List.countP_append

theorem rank_mono (hlt : WeakOrder lt) {x y : α} (hless : lt y x = true) (elements : List α) :
    rank lt elements y ≤ rank lt elements x :=
  List.countP_mono_left fun _ _ hz => hlt.trans hz hless

theorem ne_of_apart (hlt : WeakOrder lt) {x y : α} (hapart : Apart lt x y) : x ≠ y := by
  rintro rfl
  cases hapart with
  | inl hless
  | inr hless => simp [hlt.irrefl] at hless

theorem nodup_of_apart (hlt : WeakOrder lt) (hapart : elements.Pairwise (Apart lt)) :
    elements.Nodup :=
  hapart.imp fun h => ne_of_apart hlt h

theorem apart_of_mem (hapart : elements.Pairwise (Apart lt)) {x y : α} (hx : x ∈ elements)
    (hy : y ∈ elements) (hne : x ≠ y) : Apart lt x y :=
  have : Std.Symm (Apart lt) := ⟨fun _ _ h => h.symm⟩
  hapart.forall hx hy hne

theorem Best.rank_lt (hlt : WeakOrder lt) (hbest : Best lt k elements kept) {x : α}
    (hx : x ∈ kept) : rank lt elements x < k := by
  obtain ⟨dropped, hsplit, hdropped⟩ := hbest.split
  have hnone : dropped.countP (fun y => lt y x) = 0 :=
    List.countP_eq_zero.mpr fun y hy => by simp [hdropped x hx y hy]
  have hfew : kept.countP (fun y => lt y x) < kept.length :=
    List.countP_lt_length_iff.mpr ⟨x, hx, by simp [hlt.irrefl]⟩
  have hcount := hsplit.countP_eq fun y => lt y x
  rw [List.countP_append, hnone, Nat.add_zero] at hcount
  have hlength := hbest.length
  rw [rank, hcount]
  omega

/-- Where any two elements are in order, those that are dropped have all that are kept before
them. -/
theorem Best.exists_covered (hbest : Best lt k elements kept)
    (hapart : elements.Pairwise (Apart lt)) :
    ∃ dropped, elements.Perm (kept ++ dropped) ∧ ∀ x ∈ dropped, k ≤ rank lt kept x := by
  obtain ⟨dropped, hsplit, hdropped⟩ := hbest.split
  refine ⟨dropped, hsplit, fun x hx => ?_⟩
  have hpairs : (kept ++ dropped).Pairwise (Apart lt) :=
    hsplit.pairwise hapart fun h => h.symm
  have hall : rank lt kept x = kept.length := by
    rw [rank, List.countP_eq_length]
    intro y hy
    have hless := hdropped y hy x hx
    cases (List.pairwise_append.mp hpairs).2.2 y hy x hx with
    | inl hbefore => exact hbefore
    | inr hafter => simp [hless] at hafter
  have hsize := hsplit.length_eq
  have hlength := hbest.length
  have hpos := List.length_pos_of_mem hx
  rw [List.length_append] at hsize
  omega

/-- Where any two elements are in order, those are kept that few are before. -/
theorem Best.mem_iff (hlt : WeakOrder lt) (hbest : Best lt k elements kept)
    (hapart : elements.Pairwise (Apart lt)) {x : α} :
    x ∈ kept ↔ x ∈ elements ∧ rank lt elements x < k := by
  refine ⟨fun hx => ⟨hbest.subset hx, hbest.rank_lt hlt hx⟩, fun hx => ?_⟩
  obtain ⟨dropped, hsplit, hcovered⟩ := hbest.exists_covered hapart
  by_contra hnot
  have hin : x ∈ dropped := (List.mem_append.mp (hsplit.mem_iff.mp hx.1)).resolve_left hnot
  have hmany := hcovered x hin
  have hfew := hx.2
  rw [rank, hsplit.countP_eq, List.countP_append] at hfew
  rw [rank] at hmany
  omega

/-- There is only one choice of the first elements. -/
theorem Best.perm_of_apart (hlt : WeakOrder lt) {other : List α} (hbest : Best lt k elements kept)
    (hother : Best lt k elements other) (hapart : elements.Pairwise (Apart lt)) :
    kept.Perm other := by
  have hnodup : ∀ {chosen}, Best lt k elements chosen → chosen.Nodup := by
    intro chosen hchosen
    obtain ⟨_, hsplit, _⟩ := hchosen.split
    exact (hsplit.nodup_iff.mp (nodup_of_apart hlt hapart)).of_append_left
  rw [List.perm_ext_iff_of_nodup (hnodup hbest) (hnodup hother)]
  intro x
  rw [hbest.mem_iff hlt hapart, hother.mem_iff hlt hapart]

/-- An element that many are before does not change which are first. -/
theorem Best.skip (hlt : WeakOrder lt) (hbest : Best lt k elements kept) {y : α}
    (hcovered : k ≤ rank lt elements y) : Best lt k (y :: elements) kept := by
  obtain ⟨dropped, hsplit, hdropped⟩ := hbest.split
  have hlength := hbest.length
  have hle : rank lt elements y ≤ elements.length := List.countP_le_length
  refine ⟨?_, y :: dropped, ?_, fun x hx z hz => ?_⟩
  · rw [List.length_cons]
    omega
  · exact (hsplit.cons y).trans List.perm_middle.symm
  · cases List.mem_cons.mp hz with
    | inr hz => exact hdropped x hx z hz
    | inl heq =>
        subst heq
        by_contra hless
        rw [Bool.not_eq_false] at hless
        have hrank := hbest.rank_lt hlt hx
        have hmono := rank_mono hlt hless elements
        omega

/-- While there is room, a new element is among the first. -/
theorem Best.push (hbest : Best lt k elements kept) (hroom : kept.length < k) (x : α) :
    Best lt k (x :: elements) (kept ++ [x]) := by
  have hlength := hbest.length
  have hperm : (x :: elements).Perm (kept ++ [x]) :=
    ((hbest.perm_of_le (by omega)).cons x).trans (List.perm_append_singleton x kept).symm
  refine (Best.self lt ?_).perm_kept hperm
  rw [List.length_cons]
  omega

/-- A new element that is before the last of the first ones takes its place. -/
theorem Best.replace (hlt : WeakOrder lt) {worst x : α} {rest : List α}
    (hbest : Best lt k elements (worst :: rest)) (hfull : k ≤ (worst :: rest).length)
    (hworst : ∀ y ∈ worst :: rest, lt worst y = false) (hless : lt x worst = true) :
    Best lt k (x :: elements) (x :: rest) := by
  obtain ⟨dropped, hsplit, hdropped⟩ := hbest.split
  have hlength := hbest.length
  simp only [List.length_cons] at hfull hlength
  refine ⟨?_, worst :: dropped, ?_, fun y hy z hz => ?_⟩
  · rw [List.length_cons, List.length_cons]
    omega
  · exact (hsplit.cons x).trans (List.perm_middle.symm.cons x)
  · have hbehind : lt z worst = false := by
      cases List.mem_cons.mp hz with
      | inl heq => exact heq ▸ hlt.irrefl z
      | inr hz => exact hdropped worst List.mem_cons_self z hz
    cases List.mem_cons.mp hy with
    | inl heq => exact heq ▸ hlt.negTrans hbehind (hlt.asymm hless)
    | inr hy => exact hlt.negTrans hbehind (hworst y (List.mem_cons_of_mem worst hy))

end Rank

/-! ## The queue of a search -/

/-- What a search has seen and expanded, the results it keeps, and what it has queued: every
result that is not expanded yet. -/
structure Beam (lt : α → α → Bool) (k : Nat) (seen spent results queue : List α) : Prop where
  apart : seen.Pairwise (Apart lt)
  best : Best lt k seen results
  known : spent ⊆ seen
  nodup : queue.Nodup
  queued : ∀ x ∈ queue, x ∈ seen ∧ x ∉ spent
  pending : ∀ x ∈ results, x ∉ spent → x ∈ queue

/-- The first result that is not expanded yet. -/
structure Next (lt : α → α → Bool) (spent results : List α) (x : α) : Prop where
  result : x ∈ results
  unspent : x ∉ spent
  least : ∀ y ∈ results, y ∉ spent → lt y x = false

namespace Beam

variable {k : Nat} {seen spent results queue : List α}

theorem start (lt : α → α → Bool) {k : Nat} (hk : 1 ≤ k) (x : α) : Beam lt k [x] [] [x] [x] where
  apart := List.pairwise_singleton _ _
  best := Best.self lt hk
  known := List.nil_subset _
  nodup := List.nodup_singleton x
  queued _ hy := ⟨hy, List.not_mem_nil⟩
  pending _ hy _ := hy

theorem perm_seen (hbeam : Beam lt k seen spent results queue) {other : List α}
    (hperm : seen.Perm other) : Beam lt k other spent results queue where
  apart := hperm.pairwise hbeam.apart fun h => h.symm
  best := hbeam.best.perm hperm
  known := fun _ hx => hperm.mem_iff.mp (hbeam.known hx)
  nodup := hbeam.nodup
  queued _ hx := (hbeam.queued _ hx).imp_left hperm.mem_iff.mp
  pending := hbeam.pending

/-- The first of the queue is the next element, unless the results are full and it is behind
them. -/
theorem next (hbeam : Beam lt k seen spent results queue) {x : α}
    (hx : x ∈ queue) (hleast : ∀ y ∈ queue, lt y x = false)
    (hgo : k ≤ results.length → ∃ worst ∈ results, lt worst x = false) :
    Next lt spent results x := by
  obtain ⟨hseen, hunspent⟩ := hbeam.queued x hx
  refine ⟨?_, hunspent, fun y hy hyspent => hleast y (hbeam.pending y hy hyspent)⟩
  by_contra hnot
  obtain ⟨dropped, hsplit, hdropped⟩ := hbeam.best.split
  have hin : x ∈ dropped := (List.mem_append.mp (hsplit.mem_iff.mp hseen)).resolve_left hnot
  have hsize := hsplit.length_eq
  have hlength := hbeam.best.length
  have hpos := List.length_pos_of_mem hin
  rw [List.length_append] at hsize
  obtain ⟨worst, hworst, hless⟩ := hgo (by omega)
  cases apart_of_mem hbeam.apart hseen (hbeam.best.subset hworst) (fun heq => hnot (heq ▸ hworst)) with
  | inl hbefore => simp [hdropped worst hworst x hin] at hbefore
  | inr hafter => simp [hless] at hafter

/-- When the first of the queue is behind the results, every result is expanded. -/
theorem stop (hlt : WeakOrder lt) (hbeam : Beam lt k seen spent results queue) {x worst : α}
    (hleast : ∀ y ∈ queue, lt y x = false) (hworst : ∀ y ∈ results, lt worst y = false)
    (hbehind : lt worst x = true) : ∀ y ∈ results, y ∈ spent := by
  intro y hy
  by_contra hunspent
  have hnot := hlt.negTrans (hworst y hy) (hleast y (hbeam.pending y hy hunspent))
  rw [hbehind] at hnot
  cases hnot

theorem stop_nil (hbeam : Beam lt k seen spent results []) : ∀ y ∈ results, y ∈ spent := by
  intro y hy
  by_contra hunspent
  exact List.not_mem_nil (hbeam.pending y hy hunspent)

/-- An element is taken out of the queue and expanded. -/
theorem spend (hbeam : Beam lt k seen spent results queue) {x : α} {rest : List α}
    (hpop : (x :: rest).Perm queue) : Beam lt k seen (x :: spent) results rest where
  apart := hbeam.apart
  best := hbeam.best
  known := by
    intro y hy
    cases List.mem_cons.mp hy with
    | inl heq => exact heq ▸ (hbeam.queued x (hpop.mem_iff.mp List.mem_cons_self)).1
    | inr hy => exact hbeam.known hy
  nodup := (List.nodup_cons.mp (hpop.nodup_iff.mpr hbeam.nodup)).2
  queued y hy := by
    obtain ⟨hseen, hunspent⟩ := hbeam.queued y (hpop.mem_iff.mp (List.mem_cons_of_mem x hy))
    have hnot := (List.nodup_cons.mp (hpop.nodup_iff.mpr hbeam.nodup)).1
    exact ⟨hseen, List.not_mem_cons_of_ne_of_not_mem (ne_of_mem_of_not_mem hy hnot) hunspent⟩
  pending y hy hunspent := by
    obtain ⟨hne, hunspent⟩ := List.ne_and_not_mem_of_not_mem_cons hunspent
    exact (List.mem_cons.mp (hpop.mem_iff.mpr (hbeam.pending y hy hunspent))).resolve_left hne

section

variable (hlt : WeakOrder lt) (hbeam : Beam lt k seen spent results queue)

include hlt hbeam

/-- A new element is queued, and the results are the first ones again. -/
theorem accept {x : α} (hapart : ∀ y ∈ seen, Apart lt x y) {results' queue' : List α}
    (hbest : Best lt k (x :: seen) results') (hqueue : queue'.Perm (x :: queue)) :
    Beam lt k (x :: seen) spent results' queue' := by
  have hnew : x ∉ seen := fun hmem => ne_of_apart hlt (hapart x hmem) rfl
  have hall : (x :: seen).Pairwise (Apart lt) := List.pairwise_cons.mpr ⟨hapart, hbeam.apart⟩
  have hnodup : (x :: queue).Nodup :=
    List.nodup_cons.mpr ⟨fun hmem => hnew (hbeam.queued x hmem).1, hbeam.nodup⟩
  constructor
  case apart => exact hall
  case best => exact hbest
  case known => exact fun y hy => List.mem_cons_of_mem x (hbeam.known hy)
  case nodup => exact hqueue.nodup_iff.mpr hnodup
  case queued =>
    intro y hy
    cases List.mem_cons.mp (hqueue.mem_iff.mp hy) with
    | inl heq => exact ⟨List.mem_cons.mpr (Or.inl heq), fun hmem => hnew (heq ▸ hbeam.known hmem)⟩
    | inr hy =>
        obtain ⟨hseen, hunspent⟩ := hbeam.queued y hy
        exact ⟨List.mem_cons_of_mem x hseen, hunspent⟩
  case pending =>
    intro y hy hunspent
    obtain ⟨hmem, hrank⟩ := (hbest.mem_iff hlt hall).mp hy
    cases List.mem_cons.mp hmem with
    | inl heq => exact hqueue.mem_iff.mpr (List.mem_cons.mpr (Or.inl heq))
    | inr hmem =>
        rw [rank_cons] at hrank
        have hkept := (hbeam.best.mem_iff hlt hbeam.apart).mpr ⟨hmem, by omega⟩
        exact hqueue.mem_iff.mpr (List.mem_cons_of_mem x (hbeam.pending y hkept hunspent))

/-- A new element that many are before need not be queued. -/
theorem skip {x : α} (hapart : ∀ y ∈ seen, Apart lt x y) (hcovered : k ≤ rank lt seen x) :
    Beam lt k (x :: seen) spent results queue where
  apart := List.pairwise_cons.mpr ⟨hapart, hbeam.apart⟩
  best := hbeam.best.skip hlt hcovered
  known := fun _ hy => List.mem_cons_of_mem x (hbeam.known hy)
  nodup := hbeam.nodup
  queued _ hy := (hbeam.queued _ hy).imp_left (List.mem_cons_of_mem x)
  pending := hbeam.pending

/-- With full results, an element that is not before the worst of them is covered. -/
theorem covered (hfull : k ≤ results.length) {x worst : α} (hapart : ∀ y ∈ seen, Apart lt x y)
    (hworst : ∀ y ∈ results, lt worst y = false) (hless : lt x worst = false) :
    k ≤ rank lt seen x := by
  obtain ⟨dropped, hsplit, _⟩ := hbeam.best.split
  have hall : results.countP (fun y => lt y x) = results.length := by
    rw [List.countP_eq_length]
    intro y hy
    cases hapart y (hbeam.best.subset hy) with
    | inl hbefore => simp [hlt.negTrans hless (hworst y hy)] at hbefore
    | inr hafter => exact hafter
  rw [rank, hsplit.countP_eq, List.countP_append, hall]
  omega

end

/-- New elements that many are before need not be queued. -/
theorem skipAll (hlt : WeakOrder lt) {others : List α}
    (hbeam : Beam lt k seen spent results queue)
    (hapart : (others ++ seen).Pairwise (Apart lt))
    (hcovered : ∀ x ∈ others, k ≤ rank lt seen x) :
    Beam lt k (others ++ seen) spent results queue := by
  induction others with
  | nil => exact hbeam
  | cons x others ih =>
      obtain ⟨hx, hrest⟩ := List.pairwise_cons.mp hapart
      have hsmaller := ih hrest fun y hy => hcovered y (List.mem_cons_of_mem x hy)
      refine hsmaller.skip hlt hx ?_
      have hmore := hcovered x List.mem_cons_self
      rw [rank_append]
      omega

/-- An element that is seen and expanded at once, and that many are before. -/
theorem pass (hlt : WeakOrder lt) (hbeam : Beam lt k seen spent results queue) {x : α}
    (hapart : ∀ y ∈ seen, Apart lt x y) (hcovered : k ≤ rank lt seen x) :
    Beam lt k (x :: seen) (x :: spent) results queue :=
  { hbeam.skip hlt hapart hcovered with
    known := List.cons_subset_cons x hbeam.known
    queued := by
      intro y hy
      obtain ⟨hseen, hunspent⟩ := hbeam.queued y hy
      have hne : y ≠ x := fun heq => ne_of_apart hlt (hapart y hseen) heq.symm
      exact ⟨List.mem_cons_of_mem x hseen, List.not_mem_cons_of_ne_of_not_mem hne hunspent⟩
    pending := fun y hy hunspent =>
      hbeam.pending y hy (List.ne_and_not_mem_of_not_mem_cons hunspent).2 }

end Beam

/-- An invariant about what a state has seen that one new element keeps is kept by several. -/
theorem foldl_seen {σ : Type} {apart : α → α → Prop} (invariant : List α → σ → Prop)
    {offer : σ → α → σ} (hsymm : ∀ {x y}, apart x y → apart y x)
    (hperm : ∀ {seen other state}, invariant seen state → seen.Perm other → invariant other state)
    (hoffer : ∀ {seen state x}, invariant seen state → (x :: seen).Pairwise apart →
      invariant (x :: seen) (offer state x))
    {seen found : List α} {state : σ} (hstate : invariant seen state)
    (hfound : (found ++ seen).Pairwise apart) :
    invariant (found ++ seen) (found.foldl offer state) := by
  induction found generalizing seen state with
  | nil => exact hstate
  | cons x found ih =>
      have hmiddle : (found ++ x :: seen).Perm (x :: found ++ seen) := List.perm_middle
      have hmoved : (found ++ x :: seen).Pairwise apart := hmiddle.symm.pairwise hfound hsymm
      exact hperm (ih (hoffer hstate (List.pairwise_append.mp hmoved).2.1) hmoved) hmiddle

/-! ## Searches -/

/-- A search with a queue of its own: its results, the marks of what it has seen, the element it
expands next, if it goes on, and what it does with the elements it finds. -/
structure Explorer (α μ σ Event Fault : Type) where
  results : σ → List α
  marks : σ → μ
  mark : σ → μ → σ
  next : σ → Option (α × σ)
  absorb : σ → List α → Traced Event Fault σ

section Explore

variable {μ σ τ Event Fault : Type}

/-- Expand elements until the search stops. -/
def Explorer.run (search : Explorer α μ σ Event Fault)
    (expand : μ → α → Traced Event Fault (List α × μ)) (endless : Fault) :
    Nat → σ → Traced Event Fault (List α)
  | 0, _ => Traced.raise endless
  | fuel + 1, state =>
      match search.next state with
      | none => pure (search.results state)
      | some (x, state) => do
          let (found, marks) ← expand (search.marks state) x
          let state ← search.absorb (search.mark state marks) found
          search.run expand endless fuel state

/-- A search that keeps the first `k` elements and expands them in order, by an invariant about
what it has seen and expanded. Any two elements it sees are `apart`. -/
structure Explorer.Follows (search : Explorer α μ σ Event Fault) (lt : α → α → Bool)
    (apart : α → α → Prop) (k : Nat) (invariant : List α → List α → σ → Prop) : Prop where
  best : ∀ {seen spent state}, invariant seen spent state → Best lt k seen (search.results state)
  known : ∀ {seen spent state}, invariant seen spent state → spent ⊆ seen
  stops : ∀ {seen spent state}, invariant seen spent state → search.next state = none →
    ∀ x ∈ search.results state, x ∈ spent
  goes : ∀ {seen spent state x state'}, invariant seen spent state →
    search.next state = some (x, state') → Next lt spent (search.results state) x ∧
      invariant seen (x :: spent) state' ∧ search.marks state' = search.marks state
  absorbs : ∀ {seen spent state} (marks found), invariant seen spent state →
    (found ++ seen).Pairwise apart →
      ∃ state', search.absorb (search.mark state marks) found = pure state' ∧
        invariant (found ++ seen) spent state' ∧ search.marks state' = marks

/-- What an expansion finds: elements that are apart from each other and from all that were
seen, as long as the marks belong to these. -/
def Explores (expand : μ → α → Traced Event Fault (List α × μ)) (apart : α → α → Prop)
    (marked : List α → μ → Prop) : Prop :=
  ∀ {seen marks x found marks'}, marked seen marks → seen.Pairwise apart →
    (expand marks x).outcome = .ok (found, marks') →
      (found ++ seen).Pairwise apart ∧ marked (found ++ seen) marks'

/-- Two computations that both return, with related values, or both stop with one fault, which is
not the given one. -/
def Traced.Agree (related : α → α → Prop) (endless : Fault) (first second : Traced Event Fault α) :
    Prop :=
  match first.outcome, second.outcome with
  | .ok value, .ok other => related value other
  | .error fault, .error other => fault = other ∧ fault ≠ endless
  | _, _ => False

variable {search : Explorer α μ σ Event Fault} {others : Explorer α μ τ Event Fault}
  {expand : μ → α → Traced Event Fault (List α × μ)} {apart : α → α → Prop} {k : Nat}
  {invariant : List α → List α → σ → Prop} {invariant' : List α → List α → τ → Prop}
  {marked : List α → μ → Prop} {endless : Fault} {room : μ → Nat}

theorem Traced.pure_bind {β : Type} (value : α) (next : α → Traced Event Fault β) :
    (pure value >>= next) = next value := rfl

theorem Next.unique {seen spent results results' : List α} {x y : α}
    (hapart : seen.Pairwise (Apart lt)) (hperm : results.Perm results') (hsub : results ⊆ seen)
    (hx : Next lt spent results x) (hy : Next lt spent results' y) : x = y := by
  have hy' := hperm.mem_iff.mpr hy.result
  by_contra hne
  cases apart_of_mem hapart (hsub hx.result) (hsub hy') hne with
  | inl hless => simp [hy.least x (hperm.mem_iff.mp hx.result) hx.unspent] at hless
  | inr hless => simp [hx.least y hy' hy.unspent] at hless

/-- What a search returns are the first of some elements that it has seen. -/
theorem Explorer.Follows.run_best (hfollows : search.Follows lt apart k invariant)
    (hexplores : Explores expand apart marked) {seen spent : List α} {state : σ}
    (hstate : invariant seen spent state) (hmarked : marked seen (search.marks state))
    (hapart : seen.Pairwise apart) {fuel : Nat} {value : List α}
    (hvalue : (search.run expand endless fuel state).outcome = .ok value) :
    ∃ others marks, Best lt k (others ++ seen) value ∧ (others ++ seen).Pairwise apart ∧
      marked (others ++ seen) marks := by
  induction fuel generalizing seen spent state with
  | zero => cases hvalue
  | succ fuel ih =>
      rw [Explorer.run] at hvalue
      cases hnext : search.next state with
      | none =>
          rw [hnext] at hvalue
          obtain rfl := Except.ok.inj hvalue
          exact ⟨[], _, hfollows.best hstate, hapart, hmarked⟩
      | some step =>
          obtain ⟨x, after⟩ := step
          obtain ⟨_, hafter, hsame⟩ := hfollows.goes hstate hnext
          simp only [hnext] at hvalue
          rw [hsame] at hvalue
          cases hexpand : expand (search.marks state) x with
          | mk trace outcome =>
              rw [hexpand] at hvalue
              cases outcome with
              | error fault => cases hvalue
              | ok result =>
                  obtain ⟨found, marks⟩ := result
                  have houtcome : (expand (search.marks state) x).outcome = .ok (found, marks) :=
                    congrArg Traced.outcome hexpand
                  obtain ⟨hfound, hmarked'⟩ := hexplores hmarked hapart houtcome
                  obtain ⟨next, habsorb, hinv, hat⟩ := hfollows.absorbs marks found hafter hfound
                  change ((search.absorb (search.mark after marks) found) >>= _).outcome = _
                    at hvalue
                  rw [habsorb] at hvalue
                  obtain ⟨others, last, hbest, hpairs, hlast⟩ :=
                    ih hinv (hat ▸ hmarked') hfound hvalue
                  rw [← List.append_assoc] at hbest hpairs hlast
                  exact ⟨others ++ found, last, hbest, hpairs, hlast⟩

/-- A search stops when all its results are expanded. -/
theorem Explorer.Follows.run_spent (hfollows : search.Follows lt apart k invariant)
    {seen spent : List α} {state : σ} (hstate : invariant seen spent state)
    (hspent : ∀ x ∈ search.results state, x ∈ spent) (fuel : Nat) :
    search.run expand endless (fuel + 1) state = pure (search.results state) := by
  rw [Explorer.run]
  cases hnext : search.next state with
  | none => rfl
  | some step =>
      obtain ⟨x, after⟩ := step
      obtain ⟨hgoes, _⟩ := hfollows.goes hstate hnext
      exact absurd (hspent x hgoes.result) hgoes.unspent

/-- Two searches that follow the same order agree: they expand the same elements one after the
other, and there is an end to it when every expansion uses up room. -/
theorem Explorer.Follows.agree (hlt : WeakOrder lt) (hordered : ∀ x y, apart x y → Apart lt x y)
    (hfirst : search.Follows lt apart k invariant) (hsecond : others.Follows lt apart k invariant')
    (hexplores : Explores expand apart marked)
    (hroom : ∀ {marks x found marks'}, (expand marks x).outcome = .ok (found, marks') →
      found.length + room marks' ≤ room marks)
    (hfault : ∀ {marks x}, (expand marks x).outcome ≠ .error endless)
    {seen spent : List α} {state : σ} {state' : τ} (hstate : invariant seen spent state)
    (hstate' : invariant' seen spent state') (hmarks : others.marks state' = search.marks state)
    (hmarked : marked seen (search.marks state)) (hapart : seen.Pairwise apart)
    (hspent : spent.Nodup) {fuel : Nat}
    (hfuel : seen.length + room (search.marks state) < spent.length + fuel) :
    Traced.Agree List.Perm endless (search.run expand endless fuel state)
      (others.run expand endless fuel state') := by
  induction fuel generalizing seen spent state state' with
  | zero =>
      have hle := (List.subperm_of_subset hspent (hfirst.known hstate)).length_le
      omega
  | succ fuel ih =>
      have hpairs : seen.Pairwise (Apart lt) := hapart.imp (hordered _ _)
      have hperm := (hfirst.best hstate).perm_of_apart hlt (hsecond.best hstate') hpairs
      have hsub := (hfirst.best hstate).subset
      rw [Explorer.run, Explorer.run]
      cases hnext : search.next state with
      | none =>
          cases hnext' : others.next state' with
          | none => exact hperm
          | some step' =>
              -- everything is expanded, so the other search cannot go on
              obtain ⟨hgoes, _⟩ := hsecond.goes hstate' hnext'
              have hin := hfirst.stops hstate hnext _ (hperm.mem_iff.mpr hgoes.result)
              exact absurd hin hgoes.unspent
      | some step =>
          obtain ⟨x, after⟩ := step
          obtain ⟨hgoes, hafter, hsame⟩ := hfirst.goes hstate hnext
          cases hnext' : others.next state' with
          | none =>
              have hin := hsecond.stops hstate' hnext' x (hperm.mem_iff.mp hgoes.result)
              exact absurd hin hgoes.unspent
          | some step' =>
              obtain ⟨y, after'⟩ := step'
              obtain ⟨hgoes', hafter', hsame'⟩ := hsecond.goes hstate' hnext'
              obtain rfl := Next.unique hpairs hperm hsub hgoes hgoes'
              simp only
              rw [hsame, hsame', hmarks]
              cases hexpand : expand (search.marks state) x with
              | mk trace outcome =>
                  cases outcome with
                  | error fault =>
                      refine ⟨rfl, fun heq => ?_⟩
                      exact hfault (congrArg Traced.outcome hexpand |>.trans (heq ▸ rfl))
                  | ok result =>
                      obtain ⟨found, marks⟩ := result
                      have houtcome : (expand (search.marks state) x).outcome = .ok (found, marks) :=
                        congrArg Traced.outcome hexpand
                      obtain ⟨hfound, hmarked'⟩ := hexplores hmarked hapart houtcome
                      obtain ⟨next, habsorb, hinv, hat⟩ := hfirst.absorbs marks found hafter hfound
                      obtain ⟨next', habsorb', hinv', hat'⟩ :=
                        hsecond.absorbs marks found hafter' hfound
                      have huses := hroom houtcome
                      have hnodup : (x :: spent).Nodup := List.nodup_cons.mpr ⟨hgoes.unspent, hspent⟩
                      have hagree := ih hinv hinv' (hat'.trans hat.symm) (hat ▸ hmarked') hfound
                        hnodup (by rw [hat, List.length_append, List.length_cons]; omega)
                      change Traced.Agree List.Perm endless
                        ⟨trace ++ _, ((search.absorb (search.mark after marks) found) >>= _).outcome⟩
                        ⟨trace ++ _, ((others.absorb (others.mark after' marks) found) >>= _).outcome⟩
                      rw [habsorb, habsorb']
                      exact hagree

end Explore

end Foundation
