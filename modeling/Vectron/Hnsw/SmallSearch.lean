import Vectron.Hnsw.LayerSearch

/-! # Searches with a small list

`searchLayerSmall` keeps its queues unordered and looks through them, with the worst result kept
aside. That is the same search as the one with heaps for every list of two or more. With a list of
one, the worst result is not known before the first neighbour is taken, and the start is given up
for it.
-/

namespace Vectron.Hnsw

open Foundation
open Worker (Vector)

namespace Index

variable {p : Platform} {h : Index} {query : Vector} {qvec : Option Bytes} {layer : Nat}

/-! ## Looking through the queue -/

/-- What is taken out is the nearest of the candidates. -/
theorem popNearest_nearest {candidates rest : List Candidate} {c : Candidate}
    (hcomparable : candidates.Pairwise Comparable) (hpop : popNearest candidates = some (c, rest)) :
    (c :: rest).Perm candidates ∧ ∀ y ∈ candidates, before y c = false := by
  simp only [popNearest] at hpop
  split at hpop
  next first last hget hlast =>
    obtain ⟨rfl, rfl⟩ := Prod.mk.inj (Option.some.inj hpop)
    have hne : candidates ≠ [] := fun heq => by simp [heq] at hlast
    obtain ⟨best, hbest, hleast⟩ :=
      bestIndex_spec weakOrder_before (agreeOn_nearer hcomparable) hne
    obtain rfl := Option.some.inj (hget.symm.trans hbest)
    refine ⟨?_, hleast⟩
    obtain ⟨hbound, hfirst⟩ := List.getElem?_eq_some_iff.mp hget
    obtain ⟨front, rfl⟩ : ∃ front, candidates = front ++ [last] :=
      List.getLast?_eq_some_iff.mp hlast
    generalize bestIndex nearer (front ++ [last]) = i at *
    by_cases hlate : i < front.length
    · rw [List.set_append_left _ _ hlate, List.dropLast_concat]
      have hthere : front[i] = first := by rwa [List.getElem_append_left hlate] at hfirst
      have hset := List.set_perm_cons_eraseIdx hlate last
      have hall := List.getElem_cons_eraseIdx_perm hlate
      rw [hthere] at hall
      calc (first :: front.set i last).Perm (first :: last :: front.eraseIdx i) := hset.cons first
        _ |>.Perm (last :: first :: front.eraseIdx i) := List.Perm.swap _ _ _
        _ |>.Perm (last :: front) := hall.cons last
        _ |>.Perm (front ++ [last]) := (List.perm_append_singleton last front).symm
    · have hi : i = front.length := by
        rw [List.length_append, List.length_singleton] at hbound
        omega
      subst hi
      have hfirst : last = first := by simpa using hfirst
      subst hfirst
      simpa using (List.perm_append_singleton last front).symm
  next => cases hpop

theorem popNearest_eq_none {candidates : List Candidate}
    (hcomparable : candidates.Pairwise Comparable) (hpop : popNearest candidates = none) :
    candidates = [] := by
  by_contra hne
  obtain ⟨best, hbest, _⟩ := bestIndex_spec weakOrder_before (agreeOn_nearer hcomparable) hne
  simp [popNearest, hbest, List.getLast?_eq_some_getLast hne] at hpop

/-! ## The search -/

/-- Take the nearest candidate, unless it is farther than the worst of a full set of results. -/
def SmallFrontier.next (ef : Nat) (frontier : SmallFrontier) : Option (Candidate × SmallFrontier) :=
  match popNearest frontier.candidates with
  | none => none
  | some (c, candidates) =>
      if ef ≤ frontier.results.length ∧ frontier.worstDist < c.dist then none
      else some (c, { frontier with candidates := candidates })

/-- The search of `searchLayerSmall`. -/
def smallSearch (ef : Nat) : Explorer Candidate (List Nat) SmallFrontier Node Fault where
  results := SmallFrontier.results
  marks := SmallFrontier.marks
  mark frontier marks := { frontier with marks := marks }
  next := SmallFrontier.next ef
  absorb frontier found := pure (found.foldl (SmallFrontier.offer ef) frontier)

theorem searchSmallLoop_eq_run (ef fuel : Nat) (frontier : SmallFrontier) :
    h.searchSmallLoop p query qvec ef layer fuel frontier =
      (smallSearch ef).run (h.expand p query qvec layer) .endless fuel frontier := by
  induction fuel generalizing frontier with
  | zero => rfl
  | succ fuel ih =>
      rw [searchSmallLoop, Explorer.run]
      simp only [smallSearch, SmallFrontier.next]
      cases popNearest frontier.candidates with
      | none => rfl
      | some popped =>
          obtain ⟨c, candidates⟩ := popped
          simp only
          split
          next => rfl
          next => simp only [ih, smallSearch, Traced.pure_bind]

/-- The queues of a search against what it has seen and expanded. Only where the results are full
is the worst of them known. -/
structure SmallBeam (ef : Nat) (seen spent : List Candidate) (frontier : SmallFrontier) :
    Prop where
  comparable : seen.Pairwise Comparable
  beam : Beam before ef seen spent frontier.results frontier.candidates
  worst : ef ≤ frontier.results.length → ∃ worst,
    frontier.results[frontier.worstIdx]? = some worst ∧ frontier.worstDist = worst.dist ∧
      ∀ y ∈ frontier.results, before worst y = false

namespace SmallBeam

variable {ef : Nat} {seen spent : List Candidate} {frontier : SmallFrontier}

theorem queued_comparable (hbeam : SmallBeam ef seen spent frontier) :
    frontier.candidates.Pairwise Comparable := by
  have : Std.Symm Comparable := ⟨fun _ _ h => h.symm⟩
  refine hbeam.beam.nodup.imp_of_mem fun hx hy hne => ?_
  exact hbeam.comparable.forall (hbeam.beam.queued _ hx).1 (hbeam.beam.queued _ hy).1 hne

theorem start (first : Candidate) (marks : List Nat) {ef : Nat} (hef : 1 ≤ ef)
    (worstDist : Float32) (worstIdx : Nat)
    (hworst : ef = 1 → worstDist = first.dist ∧ worstIdx = 0) :
    SmallBeam ef [first] [] ⟨[first], [first], marks, worstDist, worstIdx⟩ where
  comparable := List.pairwise_singleton _ _
  beam := Beam.start before hef first
  worst hfull := by
    obtain ⟨hdist, hidx⟩ := hworst (le_antisymm hfull hef)
    refine ⟨first, by rw [hidx]; rfl, hdist, fun y hy => ?_⟩
    rw [List.mem_singleton.mp hy]
    exact weakOrder_before.irrefl first

theorem stops (hbeam : SmallBeam ef seen spent frontier) (hnext : frontier.next ef = none) :
    ∀ x ∈ frontier.results, x ∈ spent := by
  unfold SmallFrontier.next at hnext
  cases hpop : popNearest frontier.candidates with
  | none =>
      have hnil := hbeam.beam
      rw [popNearest_eq_none hbeam.queued_comparable hpop] at hnil
      exact hnil.stop_nil
  | some popped =>
      obtain ⟨c, rest⟩ := popped
      simp only [hpop] at hnext
      split at hnext
      next hfar =>
        obtain ⟨worst, _, hdist, hworst⟩ := hbeam.worst hfar.1
        have hless : worst.dist < c.dist := hdist ▸ hfar.2
        exact hbeam.beam.stop weakOrder_before (popNearest_nearest hbeam.queued_comparable hpop).2
          hworst (before_of_lt hless)
      next => cases hnext

theorem goes (hbeam : SmallBeam ef seen spent frontier) {c : Candidate} {after : SmallFrontier}
    (hnext : frontier.next ef = some (c, after)) :
    Next before spent frontier.results c ∧ SmallBeam ef seen (c :: spent) after ∧
      after.marks = frontier.marks := by
  unfold SmallFrontier.next at hnext
  cases hpop : popNearest frontier.candidates with
  | none => simp [hpop] at hnext
  | some popped =>
      obtain ⟨x, rest⟩ := popped
      obtain ⟨hperm, hleast⟩ := popNearest_nearest hbeam.queued_comparable hpop
      simp only [hpop] at hnext
      split at hnext
      next => cases hnext
      next hnear =>
        obtain ⟨rfl, rfl⟩ := Prod.mk.inj (Option.some.inj hnext)
        have hx : x ∈ frontier.candidates := hperm.mem_iff.mp List.mem_cons_self
        refine ⟨hbeam.beam.next hx hleast fun hfull => ?_,
          ⟨hbeam.comparable, hbeam.beam.spend hperm, hbeam.worst⟩, rfl⟩
        obtain ⟨worst, hget, hdist, _⟩ := hbeam.worst hfull
        have hworst : worst ∈ frontier.results := List.mem_of_getElem? hget
        refine ⟨worst, hworst, ?_⟩
        have hagree := agreeOn_nearer hbeam.comparable worst (hbeam.beam.best.subset hworst) x
          (hbeam.beam.queued x hx).1
        rw [← hagree]
        exact decide_eq_false fun hless => hnear ⟨hfull, hdist ▸ hless⟩

/-- Looking for the worst result finds it. -/
theorem refresh_worst {results : List Candidate} (hcomparable : results.Pairwise Comparable)
    (hne : results ≠ []) (hresults : frontier.results = results) :
    ∃ worst, frontier.refresh.results[frontier.refresh.worstIdx]? = some worst ∧
      frontier.refresh.worstDist = worst.dist ∧
      ∀ y ∈ frontier.refresh.results, before worst y = false := by
  obtain ⟨worst, hget, hworst⟩ :=
    bestIndex_spec weakOrder_behind (agreeOn_farther hcomparable) hne
  unfold SmallFrontier.refresh
  simp only [hresults, hget]
  exact ⟨worst, rfl, rfl, hworst⟩

/-- A new candidate is taken, or many results are nearer. -/
theorem offer (hbeam : SmallBeam ef seen spent frontier) {c : Candidate}
    (hc : (c :: seen).Pairwise Comparable) :
    SmallBeam ef (c :: seen) spent (frontier.offer ef c) ∧
      (frontier.offer ef c).marks = frontier.marks := by
  have hpairs := List.pairwise_cons.mp hc
  have hapart : ∀ y ∈ seen, Apart before c y := fun y hy => (hpairs.1 y hy).apart
  have hqueue : (frontier.candidates ++ [c]).Perm (c :: frontier.candidates) :=
    List.perm_append_singleton c _
  have hkept : ∀ {results}, Best before ef (c :: seen) results → results.Pairwise Comparable := by
    intro results hbest
    obtain ⟨_, hsplit, _⟩ := hbest.split
    exact (List.pairwise_append.mp (hsplit.pairwise hc fun h => h.symm)).1
  unfold SmallFrontier.offer
  split
  next htaken =>
    simp only
    by_cases hroom : frontier.results.length < ef
    · rw [if_pos hroom]
      have hbest := hbeam.beam.best.push hroom c
      have haccepted := hbeam.beam.accept weakOrder_before hapart hbest hqueue
      split
      next hfull =>
        exact ⟨⟨hc, haccepted, fun _ => refresh_worst (hkept hbest) (by simp) rfl⟩, rfl⟩
      next hopen =>
        refine ⟨⟨hc, haccepted, fun hfull => absurd (le_antisymm ?_ hfull) hopen⟩, rfl⟩
        simp only [List.length_append, List.length_singleton]
        omega
    · rw [if_neg hroom]
      obtain ⟨worst, hget, hdist, hworst⟩ := hbeam.worst (not_lt.mp hroom)
      obtain ⟨hbound, hthere⟩ := List.getElem?_eq_some_iff.mp hget
      have hless : c.dist < worst.dist := hdist ▸ htaken.resolve_left hroom
      have hperm := List.getElem_cons_eraseIdx_perm hbound
      rw [hthere] at hperm
      have hset := List.set_perm_cons_eraseIdx hbound c
      have hbest := ((hbeam.beam.best.perm_kept hperm.symm).replace weakOrder_before
        (hperm.length_eq.symm ▸ not_lt.mp hroom) (fun y hy => hworst y (hperm.mem_iff.mp hy))
        (before_of_lt hless)).perm_kept hset.symm
      have haccepted := hbeam.beam.accept weakOrder_before hapart hbest hqueue
      refine ⟨⟨hc, haccepted, fun _ => refresh_worst (hkept hbest) ?_ rfl⟩, rfl⟩
      exact List.ne_nil_of_length_pos (by rw [List.length_set]; omega)
  next hleft =>
    simp only [not_or, not_lt] at hleft
    obtain ⟨worst, hget, hdist, hworst⟩ := hbeam.worst hleft.1
    have hin : worst ∈ seen := hbeam.beam.best.subset (List.mem_of_getElem? hget)
    have hless : before c worst = false := by
      rw [← agreeOn_nearer hc c List.mem_cons_self worst (List.mem_cons_of_mem c hin)]
      exact decide_eq_false (hdist ▸ hleft.2)
    have hcovered := hbeam.beam.covered weakOrder_before hleft.1 hapart hworst hless
    exact ⟨⟨hc, hbeam.beam.skip weakOrder_before hapart hcovered, hbeam.worst⟩, rfl⟩

theorem perm_seen (hbeam : SmallBeam ef seen spent frontier) {other : List Candidate}
    (hperm : seen.Perm other) : SmallBeam ef other spent frontier :=
  { hbeam with
    comparable := hperm.pairwise hbeam.comparable fun h => h.symm
    beam := hbeam.beam.perm_seen hperm }

/-- New candidates are taken one by one. -/
theorem offerAll {found : List Candidate} (hbeam : SmallBeam ef seen spent frontier)
    (hfound : (found ++ seen).Pairwise Comparable) :
    SmallBeam ef (found ++ seen) spent (found.foldl (SmallFrontier.offer ef) frontier) ∧
      (found.foldl (SmallFrontier.offer ef) frontier).marks = frontier.marks :=
  foldl_seen (fun seen f => SmallBeam ef seen spent f ∧ f.marks = frontier.marks)
    (fun h => h.symm) (fun h hperm => ⟨h.1.perm_seen hperm, h.2⟩)
    (fun h hc => ⟨(h.1.offer hc).1, (h.1.offer hc).2.trans h.2⟩) ⟨hbeam, rfl⟩ hfound

end SmallBeam

/-- The small search follows the order. -/
theorem follows_smallSearch (ef : Nat) :
    (smallSearch ef).Follows before Comparable ef (SmallBeam ef) where
  best hbeam := hbeam.beam.best
  known hbeam := hbeam.beam.known
  stops hbeam hnext := hbeam.stops hnext
  goes hbeam hnext := hbeam.goes hnext
  absorbs _ _ hbeam hfound :=
    ⟨_, rfl, SmallBeam.offerAll ⟨hbeam.comparable, hbeam.beam, hbeam.worst⟩ hfound⟩

/-! ## A list of one -/

section One

variable {first : Candidate} {found : List Candidate} {marks : List Nat}

/-- A number that is below one that is not above a bound is below the bound. -/
theorem lt_of_lt_of_not_lt {x y bound : Float32} (hbound : ∃ a, floatKey bound.toModel.unpack = some a)
    (hlt : x < y) (hnot : ¬ bound < y) : x < bound := by
  obtain ⟨limit, hlimit⟩ := hbound
  obtain ⟨a, b, ha, hb, hab⟩ := float32_lt_iff.mp hlt
  refine float32_lt_iff.mpr ⟨a, limit, ha, hlimit, hab.trans_le ?_⟩
  exact not_lt.mp fun hless => hnot (float32_lt_iff.mpr ⟨limit, b, hlimit, hb, hless⟩)

/-- Until a neighbour is below the largest number, a search with a list of one keeps the start.
From then on it is as if the start had not been seen. -/
theorem offerAll_one (hfound : found.Pairwise Comparable) :
    (found.foldl (SmallFrontier.offer 1) ⟨[], [first], marks, maxFloat32, 0⟩).marks = marks ∧
      ((∀ n ∈ found, ¬ n.dist < maxFloat32) ∧
          found.foldl (SmallFrontier.offer 1) ⟨[], [first], marks, maxFloat32, 0⟩ =
            ⟨[], [first], marks, maxFloat32, 0⟩ ∨
        (∃ n ∈ found, n.dist < maxFloat32) ∧
          SmallBeam 1 found []
            (found.foldl (SmallFrontier.offer 1) ⟨[], [first], marks, maxFloat32, 0⟩)) := by
  induction found with
  | nil => simp
  | cons c found ih =>
      obtain ⟨hc, hrest⟩ := List.pairwise_cons.mp hfound
      rw [List.foldl_cons]
      by_cases hless : c.dist < maxFloat32
      · have htaken : SmallFrontier.offer 1 ⟨[], [first], marks, maxFloat32, 0⟩ c =
            ⟨[c], [c], marks, c.dist, 0⟩ := by
          simp [SmallFrontier.offer, hless, SmallFrontier.refresh, bestIndex]
        rw [htaken]
        have hstart := SmallBeam.start c marks le_rfl c.dist 0 fun _ => ⟨rfl, rfl⟩
        have hperm : (found ++ [c]).Perm (c :: found) := List.perm_append_singleton c found
        obtain ⟨hall, hmarks⟩ := hstart.offerAll (hperm.symm.pairwise hfound fun h => h.symm)
        exact ⟨hmarks, Or.inr ⟨⟨c, List.mem_cons_self, hless⟩, hall.perm_seen hperm⟩⟩
      · have hleft : SmallFrontier.offer 1 ⟨[], [first], marks, maxFloat32, 0⟩ c =
            ⟨[], [first], marks, maxFloat32, 0⟩ := by
          simp [SmallFrontier.offer, hless]
        rw [hleft]
        obtain ⟨hmarks, hcases⟩ := ih hrest
        refine ⟨hmarks, ?_⟩
        cases hcases with
        | inl hnone => exact Or.inl ⟨List.forall_mem_cons.mpr ⟨hless, hnone.1⟩, hnone.2⟩
        | inr hsome =>
            obtain ⟨⟨n, hn, hbelow⟩, hbeam⟩ := hsome
            refine Or.inr ⟨⟨n, List.mem_cons_of_mem c hn, hbelow⟩, hfound, ?_, hbeam.worst⟩
            have hnearer : before n c = true := by
              cases hc n hn with
              | inl hlt => exact absurd (float32_lt_trans hlt hbelow) hless
              | inr hgt => exact before_of_lt hgt
            exact hbeam.beam.skip weakOrder_before (fun y hy => (hc y hy).apart)
              (List.countP_pos_iff.mpr ⟨n, hn, hnearer⟩)

end One

/-- The ids and distances of candidates. -/
def pairs (candidates : List Candidate) : List (Nat × Float32) :=
  candidates.map fun c => (c.id, c.dist)

/-- Two lists of candidates have the same ids and distances. -/
def SamePairs (first second : List Candidate) : Prop :=
  ∀ pair, pair ∈ pairs first ↔ pair ∈ pairs second

theorem samePairs_of_perm {first second : List Candidate} (hperm : first.Perm second) :
    SamePairs first second := fun _ => (hperm.map _).mem_iff

section Spared

variable {start : Option Node} {first : Candidate} {found : List Candidate} {marks : List Nat}

theorem searchSmallLoop_first (fuel : Nat) :
    (h.searchSmallLoop p query qvec 1 layer (fuel + 1)
      ⟨[first], [first], [first.id], maxFloat32, 0⟩).outcome =
      if maxFloat32 < first.dist then .ok [first]
      else (h.expand p query qvec layer [first.id] first).outcome.bind fun result =>
        (h.searchSmallLoop p query qvec 1 layer fuel (result.1.foldl (SmallFrontier.offer 1)
          ⟨[], [first], result.2, maxFloat32, 0⟩)).outcome := by
  have hpop : popNearest [first] = some (first, []) := rfl
  rw [searchSmallLoop]
  simp only [hpop, List.length_singleton, le_refl, true_and]
  split
  next => rfl
  next => exact outcome_bind

theorem next_first (first : Candidate) (marks : List Nat) :
    (⟨[first], [first], marks⟩ : Frontier).next 1 = some (first, ⟨[], [first], marks⟩) := by
  have hpop : candHeapPop [first] = some (first, []) := by
    simp [candHeapPop, heapPop, exchange, siftDown]
  simp [Frontier.next, hpop, float32_lt_irrefl]

theorem searchLoop_first (fuel : Nat) :
    (h.searchLoop p query qvec 1 layer (fuel + 1) ⟨[first], [first], [first.id]⟩).outcome =
      (h.expand p query qvec layer [first.id] first).outcome.bind fun result =>
        (Frontier.absorb p h 1 ⟨[], [first], result.2⟩ result.1 >>=
          h.searchLoop p query qvec 1 layer fuel).outcome := by
  have hpop : candHeapPop [first] = some (first, []) := by
    simp [candHeapPop, heapPop, exchange, siftDown]
  rw [searchLoop]
  simp only [hpop, List.head?_cons, Option.any_some, float32_lt_irrefl, decide_false,
    Bool.false_eq_true, and_false, if_false]
  exact outcome_bind

/-- A start that no neighbour is nearer than is all that the search with heaps returns. -/
theorem searchLoop_kept {after : Frontier} (hbeam : HeapBeam 1 (found ++ [first]) [first] after)
    (hnone : ∀ n ∈ found, ¬ n.dist < first.dist) (fuel : Nat) :
    h.searchLoop p query qvec 1 layer (fuel + 1) after = pure [first] := by
  have hrank : rank before (found ++ [first]) first = 0 := by
    rw [rank, List.countP_eq_zero]
    intro y hy
    cases List.mem_append.mp hy with
    | inl hy =>
        have hpair := (List.pairwise_append.mp hbeam.comparable).2.2 y hy first
          (List.mem_singleton_self _)
        rw [weakOrder_before.asymm (before_of_lt (hpair.resolve_left (hnone y hy)))]
        exact Bool.false_ne_true
    | inr hy =>
        rw [List.mem_singleton.mp hy, weakOrder_before.irrefl]
        exact Bool.false_ne_true
  have hfirst : first ∈ after.results :=
    (hbeam.beam.best.mem_iff weakOrder_before (apart_of_comparable hbeam.comparable)).mpr
      ⟨List.mem_append_right _ (List.mem_singleton_self _), by omega⟩
  have hone : after.results = [first] := by
    obtain ⟨x, hx⟩ := List.length_eq_one_iff.mp (hbeam.length_results (by simp))
    rw [hx] at hfirst ⊢
    rw [List.mem_singleton.mp hfirst]
  rw [searchLoop_eq_run]
  rw [(follows_searchLoop p h le_rfl).run_spent hbeam fun x hx => hone ▸ hx]
  exact congrArg pure hone

section

variable (hdistinguished : Distinguished p h query qvec layer start)

include hdistinguished

/-- A start that a neighbour is nearer than is not among what the search with heaps returns. -/
theorem searchLoop_leaves {after : Frontier} (hbeam : HeapBeam 1 (found ++ [first]) [first] after)
    (hmarked : Marked p h query qvec layer start (found ++ [first]) after.marks)
    (hnear : ∃ n ∈ found, n.dist < first.dist) {fuel : Nat} {value : List Candidate}
    (hvalue : (h.searchLoop p query qvec 1 layer fuel after).outcome = .ok value) :
    (first.id, first.dist) ∉ pairs value := by
  rw [searchLoop_eq_run] at hvalue
  obtain ⟨others, _, hbest, _, _⟩ := (follows_searchLoop p h le_rfl).run_best
    (explores_expand hdistinguished) hbeam hmarked hbeam.comparable hvalue
  intro hmem
  obtain ⟨c, hc, heq⟩ := List.mem_map.mp hmem
  obtain ⟨n, hn, hless⟩ := hnear
  obtain ⟨_, hdist⟩ := Prod.mk.inj heq
  have hbefore : before n c = true := before_of_lt (hdist ▸ hless)
  have hin : n ∈ others ++ (found ++ [first]) :=
    List.mem_append_right _ (List.mem_append_left _ hn)
  have hpos : 0 < rank before (others ++ (found ++ [first])) c :=
    List.countP_pos_iff.mpr ⟨n, hin, hbefore⟩
  have hrank := hbest.rank_lt weakOrder_before hc
  omega

/-- A search that does not hold the start never returns it. -/
theorem searchSmallLoop_leaves {frontier : SmallFrontier} (hbeam : SmallBeam 1 found [] frontier)
    (hfound : (found ++ [first]).Pairwise Comparable)
    (hmarked : Marked p h query qvec layer start (found ++ [first]) frontier.marks) {fuel : Nat}
    {value : List Candidate}
    (hvalue : (h.searchSmallLoop p query qvec 1 layer fuel frontier).outcome = .ok value) :
    (first.id, first.dist) ∉ pairs value := by
  rw [searchSmallLoop_eq_run] at hvalue
  -- the start keeps its mark, so that every node that is found later differs from it
  have hexplores : Explores (h.expand p query qvec layer) Comparable fun seen marks =>
      Marked p h query qvec layer start (seen ++ [first]) marks ∧
        (seen ++ [first]).Pairwise Comparable := by
    intro seen marks x others marks' hmarked hseen hexpand
    obtain ⟨hpairs, hmarked'⟩ := explores_expand hdistinguished hmarked.1 hmarked.2 hexpand
    rw [← List.append_assoc] at hpairs hmarked'
    exact ⟨(List.pairwise_append.mp hpairs).1, hmarked', hpairs⟩
  obtain ⟨others, _, hbest, _, _, hpairs⟩ := (follows_smallSearch 1).run_best hexplores hbeam
    ⟨hmarked, hfound⟩ hbeam.comparable hvalue
  intro hmem
  obtain ⟨c, hc, heq⟩ := List.mem_map.mp hmem
  obtain ⟨_, hdist⟩ := Prod.mk.inj heq
  have hcomparable := (List.pairwise_append.mp hpairs).2.2 c (hbest.subset hc) first
    (List.mem_singleton_self _)
  unfold Comparable at hcomparable
  rw [hdist] at hcomparable
  exact float32_lt_irrefl _ (hcomparable.elim id id)

/-- A start that a neighbour is nearer than can be given up. -/
theorem searchSmallLoop_agrees {frontier : SmallFrontier} {after : Frontier}
    (hsmall : SmallBeam 1 found [] frontier) (hbeam : HeapBeam 1 (found ++ [first]) [first] after)
    (hmarked : Marked p h query qvec layer start (found ++ [first]) after.marks)
    (hmarks : frontier.marks = after.marks) (hnear : ∃ n ∈ found, n.dist < first.dist) {fuel : Nat}
    (hfuel : found.length + (unmarkedSlots h after.marks).card < fuel) :
    Traced.Agree List.Perm .endless (h.searchSmallLoop p query qvec 1 layer fuel frontier)
      (h.searchLoop p query qvec 1 layer fuel after) := by
  rw [searchLoop_eq_run, searchSmallLoop_eq_run]
  have hperm : (first :: found).Perm (found ++ [first]) :=
    (List.perm_append_singleton first found).symm
  have hapart : ∀ y ∈ found, Apart before first y := fun y hy =>
    ((List.pairwise_append.mp hbeam.comparable).2.2 y hy first
      (List.mem_singleton_self _)).symm.apart
  obtain ⟨n, hn, hless⟩ := hnear
  have hcovered : 1 ≤ rank before found first :=
    List.countP_pos_iff.mpr ⟨n, hn, before_of_lt hless⟩
  have hpassed : SmallBeam 1 (found ++ [first]) [first] frontier :=
    ⟨hbeam.comparable, (hsmall.beam.pass weakOrder_before hapart hcovered).perm_seen hperm,
      hsmall.worst⟩
  have hroom : ∀ {marks x found marks'},
      (h.expand p query qvec layer marks x).outcome = .ok (found, marks') →
        found.length + (unmarkedSlots h marks').card ≤ (unmarkedSlots h marks).card :=
    fun hexpand => (expand_discovers hexpand).room
  have hmarked' : Marked p h query qvec layer start (found ++ [first]) frontier.marks := by
    rwa [hmarks]
  refine (follows_smallSearch 1).agree weakOrder_before (fun _ _ => Comparable.apart)
    (follows_searchLoop p h le_rfl) (explores_expand hdistinguished) hroom (expand_faults _ _)
    hpassed hbeam hmarks.symm hmarked' hbeam.comparable (List.nodup_singleton first) ?_
  change _ + (unmarkedSlots h frontier.marks).card < _
  rw [hmarks, List.length_append, List.length_singleton]
  omega

end

end Spared

variable (p h query qvec layer) in
/-- A list of one loses nothing by its first step: the start has a nearer neighbour, or it has
none whose distance is below the largest number. -/
def StartSpared (start : Option Node) : Prop :=
  ∀ node dist, start = some node → (h.distanceToNode p query qvec start).outcome = .ok dist →
    match (h.expand p query qvec layer [node.id] ⟨node.id, dist, node⟩).outcome with
    | .ok (found, _) =>
        (¬ maxFloat32 < dist ∧ ∃ n ∈ found, n.dist < maxFloat32) ↔ ∃ n ∈ found, n.dist < dist
    | .error _ => ¬ maxFloat32 < dist

section Lists

variable {start : Option Node}

theorem Agree.samePairs {first second : Probe (List Candidate)}
    (hagree : Traced.Agree List.Perm .endless first second) :
    Traced.Agree SamePairs .endless first second := by
  unfold Traced.Agree at hagree ⊢
  split at hagree
  next hfirst hsecond => exact samePairs_of_perm hagree
  next hfirst hsecond => exact hagree
  next => exact hagree.elim

theorem Agree.samePairs_value {first second : Probe (List Candidate)}
    (hagree : Traced.Agree SamePairs .endless first second) {value other : List Candidate}
    (hvalue : first.value? = some value) (hother : second.value? = some other) :
    SamePairs value other := by
  unfold Traced.Agree at hagree
  rw [value?_eq_some.mp hvalue, value?_eq_some.mp hother] at hagree
  exact hagree

theorem SamePairs.ids {first second : List Candidate} (hsame : SamePairs first second) (id : Nat) :
    id ∈ first.map Candidate.id ↔ id ∈ second.map Candidate.id := by
  have hmap : ∀ candidates : List Candidate,
      candidates.map Candidate.id = (pairs candidates).map Prod.fst := by
    intro candidates
    rw [pairs, List.map_map]
    rfl
  rw [hmap, hmap, List.mem_map, List.mem_map]
  exact exists_congr fun pair => and_congr_left' (hsame pair)

section

variable (hdistinguished : Distinguished p h query qvec layer start) {first : Candidate}

include hdistinguished

/-- With a list of one, what the two loops do once the start is expanded. -/
theorem loops_agree_iff_of_expand {found : List Candidate} {marks : List Nat}
    (hmet : Marked p h query qvec layer start [first] [first.id])
    (hexpand : (h.expand p query qvec layer [first.id] first).outcome = .ok (found, marks))
    {after : Frontier} (hbeam : HeapBeam 1 (found ++ [first]) [first] after)
    (hmarks : after.marks = marks) (hbounded : ¬ maxFloat32 < first.dist) :
    Traced.Agree SamePairs .endless
        (h.searchSmallLoop p query qvec 1 layer (h.nodes.length + 1)
          (found.foldl (SmallFrontier.offer 1) ⟨[], [first], marks, maxFloat32, 0⟩))
        (h.searchLoop p query qvec 1 layer (h.nodes.length + 1) after) ↔
      ((∃ n ∈ found, n.dist < maxFloat32) ↔ ∃ n ∈ found, n.dist < first.dist) := by
  have hfound : found.Pairwise Comparable := (List.pairwise_append.mp hbeam.comparable).1
  obtain ⟨_, hmarked⟩ := explores_expand hdistinguished hmet (List.pairwise_singleton _ _) hexpand
  have hnumber : ∃ a, floatKey maxFloat32.toModel.unpack = some a :=
    Option.isSome_iff_exists.mp (by decide +kernel)
  obtain ⟨hsame, hcases⟩ := @offerAll_one first found marks hfound
  by_cases hnear : ∃ n ∈ found, n.dist < first.dist
  · obtain ⟨n, hn, hless⟩ := hnear
    have hbelow : n.dist < maxFloat32 := lt_of_lt_of_not_lt hnumber hless hbounded
    have hsmall := (hcases.resolve_left fun hnone => hnone.1 n hn hbelow).2
    refine iff_of_true (Agree.samePairs ?_) (iff_of_true ⟨n, hn, hbelow⟩ ⟨n, hn, hless⟩)
    refine searchSmallLoop_agrees hdistinguished hsmall hbeam (hmarks ▸ hmarked)
      (hsame.trans hmarks.symm) ⟨n, hn, hless⟩ ?_
    have hroom := (expand_discovers hexpand).room
    have hslots : (unmarkedSlots h [first.id]).card ≤ h.nodes.length :=
      (Finset.card_filter_le _ _).trans_eq (Finset.card_range _)
    simp only [hmarks] at hroom ⊢
    omega
  · have hkept := @searchLoop_kept p h query qvec layer first found after hbeam
      (fun n hn hless => hnear ⟨n, hn, hless⟩) h.nodes.length
    rw [hkept]
    cases hcases with
    | inl hnone =>
        refine iff_of_true ?_ (iff_of_false (fun hsome => ?_) hnear)
        · rw [hnone.2]
          exact fun _ => Iff.rfl
        · obtain ⟨n, hn, hbelow⟩ := hsome
          exact hnone.1 n hn hbelow
    | inr hsome =>
        refine iff_of_false (fun hagree => ?_) fun hiff => hnear (hiff.mp hsome.1)
        unfold Traced.Agree at hagree
        cases hvalue : (h.searchSmallLoop p query qvec 1 layer (h.nodes.length + 1)
            (found.foldl (SmallFrontier.offer 1)
              ⟨[], [first], marks, maxFloat32, 0⟩)).outcome with
        | error fault =>
            rw [hvalue] at hagree
            exact hagree
        | ok value =>
            rw [hvalue] at hagree
            have hleaves := searchSmallLoop_leaves hdistinguished hsome.2 hbeam.comparable
              (hsame.symm ▸ hmarked) hvalue
            exact hleaves ((hagree (first.id, first.dist)).mpr List.mem_cons_self)

/-- With a list of one the two loops agree exactly if nothing is lost by the first step. -/
theorem loops_agree_iff (hmet : Marked p h query qvec layer start [first] [first.id]) :
    Traced.Agree SamePairs .endless
        (h.searchSmallLoop p query qvec 1 layer (h.nodes.length + 2)
          ⟨[first], [first], [first.id], maxFloat32, 0⟩)
        (h.searchLoop p query qvec 1 layer (h.nodes.length + 2)
          ⟨[first], [first], [first.id]⟩) ↔
      match (h.expand p query qvec layer [first.id] first).outcome with
      | .ok (found, _) =>
          (¬ maxFloat32 < first.dist ∧ ∃ n ∈ found, n.dist < maxFloat32) ↔
            ∃ n ∈ found, n.dist < first.dist
      | .error _ => ¬ maxFloat32 < first.dist := by
  have hsmall := @searchSmallLoop_first p h query qvec layer first (h.nodes.length + 1)
  have hheaps := @searchLoop_first p h query qvec layer first (h.nodes.length + 1)
  have hfaults := @expand_faults p h query qvec layer [first.id] first
  unfold Traced.Agree
  rw [hsmall, hheaps]
  cases hexpand : (h.expand p query qvec layer [first.id] first).outcome with
  | error fault =>
      by_cases hover : maxFloat32 < first.dist
      · simp [hover, Except.bind]
      · have hnot : fault ≠ .endless := fun heq => hfaults (heq ▸ hexpand)
        simp [hover, Except.bind, hnot]
  | ok result =>
      obtain ⟨found, marks⟩ := result
      obtain ⟨hpairs, hmarked⟩ :=
        explores_expand hdistinguished hmet (List.pairwise_singleton _ _) hexpand
      obtain ⟨_, hspent, _⟩ := (HeapBeam.start le_rfl first [first.id]).goes le_rfl
        (next_first first [first.id])
      have hready : HeapBeam 1 [first] [first] ⟨[], [first], marks⟩ :=
        ⟨hspent.comparable, hspent.beam, hspent.candidates, hspent.results⟩
      obtain ⟨after, habsorb, hbeam, hmarks⟩ := @HeapBeam.absorb p h _ _ _ _ le_rfl hready _ hpairs
      simp only [Except.bind]
      rw [habsorb, Traced.pure_bind]
      by_cases hover : maxFloat32 < first.dist
      · rw [if_pos hover]
        simp only [hover, not_true_eq_false, false_and, false_iff]
        by_cases hnear : ∃ n ∈ found, n.dist < first.dist
        · refine iff_of_false (fun hagree => ?_) (not_not.mpr hnear)
          cases hvalue : (h.searchLoop p query qvec 1 layer (h.nodes.length + 1) after).outcome with
          | error fault =>
              rw [hvalue] at hagree
              exact hagree
          | ok value =>
              rw [hvalue] at hagree
              have hleaves := searchLoop_leaves hdistinguished hbeam (hmarks ▸ hmarked) hnear hvalue
              exact hleaves ((hagree (first.id, first.dist)).mp List.mem_cons_self)
        · have hkept := @searchLoop_kept p h query qvec layer first found after hbeam
            (fun n hn hless => hnear ⟨n, hn, hless⟩) h.nodes.length
          rw [hkept]
          exact iff_of_true (fun _ => Iff.rfl) hnear
      · rw [if_neg hover]
        simp only [hover, not_false_eq_true, true_and]
        exact loops_agree_iff_of_expand hdistinguished hmet hexpand hbeam hmarks hover

end

/-- Where different nodes have different distances, `searchLayerSmall` and the search with heaps
return the same exactly if the list is longer than one or the first step spares the start. -/
theorem searchLayerSmall_agrees_iff {ef : Int} (hef : 1 ≤ ef)
    (hdistinguished : Distinguished p h query qvec layer start) :
    Traced.Agree SamePairs .endless (h.searchLayerSmall p query qvec start ef layer)
        (h.searchLayerHeaps p query qvec start ef layer) ↔
      1 < ef ∨ StartSpared p h query qvec layer start := by
  unfold searchLayerSmall searchLayerHeaps
  rw [searchFrom_agree_iff, if_neg (by omega)]
  by_cases hone : 1 < ef
  · refine iff_of_true (fun node dist hstart hdist => Agree.samePairs ?_) (Or.inl hone)
    have hpos : 1 ≤ ef.toNat := by omega
    have hnot : ef.toNat ≠ 1 := by omega
    rw [searchSmallLoop_eq_run]
    exact heapSearch_agree hpos hdistinguished hstart hdist (follows_smallSearch _)
      (SmallBeam.start _ _ hpos _ _ fun heq => absurd heq hnot) rfl
  · obtain rfl : ef = 1 := by omega
    rw [or_iff_right hone]
    have hloops : ∀ {node dist}, start = some node →
        (h.distanceToNode p query qvec start).outcome = .ok dist → _ := fun hstart hdist =>
      @loops_agree_iff p h query qvec layer start hdistinguished _ (marked_start hstart hdist)
    constructor
    · intro hagree node dist hstart hdist
      exact (hloops hstart hdist).mp (hagree node dist hstart hdist)
    · intro hspared node dist hstart hdist
      exact (hloops hstart hdist).mpr (hspared node dist hstart hdist)

theorem searchLayerSmall_line :
    Distinguished plainPlatform (lineGraph [three, two, one]) one none 0
        ((lineGraph [three, two, one]).getNodeFast 1) ∧
      (Traced.Agree SamePairs .endless
          ((lineGraph [three, two, one]).searchLayerSmall plainPlatform one none
            ((lineGraph [three, two, one]).getNodeFast 1) 2 0)
          ((lineGraph [three, two, one]).searchLayerHeaps plainPlatform one none
            ((lineGraph [three, two, one]).getNodeFast 1) 2 0) ↔
        1 < (2 : Int) ∨ StartSpared plainPlatform (lineGraph [three, two, one]) one none 0
          ((lineGraph [three, two, one]).getNodeFast 1)) := by
  have hseparated : Separated plainPlatform (lineGraph [three, two, one]) one none := by
    unfold Separated
    decide +kernel
  have hdistinguished := distinguished_line [three, two, one] hseparated
  exact ⟨hdistinguished, searchLayerSmall_agrees_iff (by decide) hdistinguished⟩

/-- The small search gives up a start that is the query itself for its farther neighbour. -/
theorem searchLayerSmall_gives_up :
    Distinguished plainPlatform (lineGraph [one, two]) one none 0
        ((lineGraph [one, two]).getNodeFast 1) ∧
      ¬ Traced.Agree SamePairs .endless
        ((lineGraph [one, two]).searchLayerSmall plainPlatform one none
          ((lineGraph [one, two]).getNodeFast 1) 1 0)
        ((lineGraph [one, two]).searchLayerHeaps plainPlatform one none
          ((lineGraph [one, two]).getNodeFast 1) 1 0) := by
  have hseparated : Separated plainPlatform (lineGraph [one, two]) one none := by
    unfold Separated
    decide +kernel
  refine ⟨distinguished_line [one, two] hseparated, fun hagree => ?_⟩
  have hsmall : ((lineGraph [one, two]).searchLayerSmall plainPlatform one none
      ((lineGraph [one, two]).getNodeFast 1) 1 0).value?.map (List.map Candidate.id) =
        some [2] := by decide +kernel
  have hheaps : ((lineGraph [one, two]).searchLayerHeaps plainPlatform one none
      ((lineGraph [one, two]).getNodeFast 1) 1 0).value?.map (List.map Candidate.id) =
        some [1] := by decide +kernel
  obtain ⟨small, hvalue, hids⟩ := Option.map_eq_some_iff.mp hsmall
  obtain ⟨heaps, hvalue', hids'⟩ := Option.map_eq_some_iff.mp hheaps
  have hsame := (Agree.samePairs_value hagree hvalue hvalue').ids
  rw [hids, hids'] at hsame
  simpa using hsame 2

end Lists

end Index

end Vectron.Hnsw
