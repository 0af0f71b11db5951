import Vectron.Hnsw.Cleanup

/-! # What pruning leaves of the neighbour lists

`selectNeighborsHeuristic` takes as many candidates as it may: what the diversity check turns down
fills the room that is left. A pruning run replaces a list only if its length changes, and a list
of the same length has nothing to lose: all its entries are live and there are not too many.
-/

namespace Vectron.Hnsw

open Foundation
open Worker (Vector)

namespace Index

variable {h : Index} {p : Platform} {event : Node → Prop} {fault : Fault → Prop}

/-! ## Distances between stored vectors -/

/-- The distance to a live node is computed for every query of the dimension. -/
theorem distanceToNode_total (htables : Tables h) {i : Nat} {node : Node}
    (hnode : h.getNode i = some node) {query : Vector} (hquery : query.length = h.dim)
    (qvec : Option Bytes) (hevent : event node) :
    Traced.Keeps event fault (fun _ => True) (h.distanceToNode p query qvec (some node)) := by
  obtain ⟨hstored, hlive⟩ := getNode_eq_some.mp hnode
  refine (Traced.Keeps.emit hevent).bind fun _ _ => ?_
  cases hqvec : node.qvec with
  | some stored => exact Traced.Keeps.pure trivial
  | none =>
      have hsome : node.vec.isSome = true := by simpa [Node.live, hqvec] using hlive
      obtain ⟨vec, hvec⟩ := Option.isSome_iff_exists.mp hsome
      have hlength := (htables.node i node hstored).vec vec hvec
      rw [hvec]
      exact distanceWithNode_keeps (Or.inl (by rw [Option.getD_some, hlength, hquery])) _

/-- The distance to a live node, which only fails where the tables are not in order. -/
theorem distanceToNode_ranged (hrange : Tables h ∨ fault .vectorOutOfRange) {i : Nat}
    {node : Node} (hnode : h.getNode i = some node) {query : Vector}
    (hquery : Tables h → query.length = h.dim) (qvec : Option Bytes) (hevent : event node) :
    Traced.Keeps event fault (fun _ => True) (h.distanceToNode p query qvec (some node)) := by
  cases hrange with
  | inl htables => exact distanceToNode_total htables hnode (hquery htables) qvec hevent
  | inr hfault => exact distanceToNode_keeps query qvec hevent hfault

/-- The vector of a live node. -/
theorem nodeVector_of_getNode (p : Platform) {i : Nat} {node : Node}
    (hnode : h.getNode i = some node) :
    ∃ vec, nodeVector p node = some vec ∧ (Tables h → vec.length = h.dim) := by
  obtain ⟨hstored, hlive⟩ := getNode_eq_some.mp hnode
  unfold nodeVector
  cases hvec : node.vec with
  | some vec => exact ⟨vec, rfl, fun htables => (htables.node i node hstored).vec vec hvec⟩
  | none =>
      have hsome : node.qvec.isSome = true := by simpa [Node.live, hvec] using hlive
      obtain ⟨stored, hqvec⟩ := Option.isSome_iff_exists.mp hsome
      rw [hqvec]
      refine ⟨_, rfl, fun htables => (p.dequantize_length stored).trans ?_⟩
      exact (htables.node i node hstored).qvec stored hqvec

/-! ## Selecting neighbours -/

section Select

/-- What the fallback adds to the ids that were selected. -/
theorem foldl_fillNearest {m : Int} (hm : 0 ≤ m) (used result : List Nat)
    (sorted : List Candidate) :
    sorted.foldl (fillNearest m used) result =
      result ++ ((sorted.map Candidate.id).filter (· ∉ used)).take (m.toNat - result.length) := by
  induction sorted generalizing result with
  | nil => simp
  | cons c rest ih =>
      rw [List.foldl_cons, ih, List.map_cons]
      unfold fillNearest
      by_cases hfull : m ≤ result.length
      · have hnone : m.toNat - result.length = 0 := by omega
        rw [if_pos hfull, hnone, List.take_zero, List.take_zero]
      · rw [if_neg hfull]
        by_cases hused : c.id ∈ used
        · rw [if_pos hused, List.filter_cons_of_neg (by simpa using hused)]
        · obtain ⟨room, hroom⟩ : ∃ room, m.toNat - result.length = room + 1 :=
            ⟨m.toNat - result.length - 1, by omega⟩
          have hless : m.toNat - (result ++ [c.id]).length = room := by
            rw [List.length_append, List.length_singleton]
            omega
          rw [if_neg hused, List.filter_cons_of_pos (by simpa using hused), hless, hroom,
            List.take_succ_cons, List.append_assoc]
          rfl

/-- What the diversity check has selected. -/
structure Diverse (candidates : List Candidate) (m : Int) (result : List Nat) : Prop where
  nodup : result.Nodup
  chosen : result ⊆ candidates.map Candidate.id
  length : (result.length : Int) ≤ m

/-- Some of the candidates, not more than allowed, and all that are allowed where no id is
repeated. -/
structure Picked (candidates : List Candidate) (m : Int) (ids : List Nat) : Prop where
  chosen : ids ⊆ candidates.map Candidate.id
  bounded : (ids.length : Int) ≤ m
  fewer : ids.length ≤ candidates.length
  nonempty : candidates ≠ [] → ids ≠ []
  distinct : (candidates.map Candidate.id).Nodup →
    ids.Nodup ∧ ids.length = min m.toNat candidates.length

/-- The fallback fills what is left. -/
theorem Diverse.picked {candidates sorted : List Candidate} {m : Int} {result : List Nat}
    (hm : 1 ≤ m) (hsorted : sorted.Perm candidates) (hdiverse : Diverse candidates m result) :
    Picked candidates m (sorted.foldl (fillNearest m result) result) := by
  have hids : (sorted.map Candidate.id).Perm (candidates.map Candidate.id) := hsorted.map _
  rw [foldl_fillNearest (by omega)]
  generalize hothers : (sorted.map Candidate.id).filter (· ∉ result) = others
  have hbound := hdiverse.length
  -- the selected ids stand for as many candidates that are not left over
  have hselected : result.length ≤ ((sorted.map Candidate.id).filter (· ∈ result)).length := by
    refine (List.subperm_of_subset hdiverse.nodup fun id hid => ?_).length_le
    exact List.mem_filter.mpr ⟨hids.symm.subset (hdiverse.chosen hid), by simpa using hid⟩
  have hsplit : ((sorted.map Candidate.id).filter (· ∈ result)).length + others.length =
      candidates.length := by
    have hall := (List.filter_append_perm (fun id => decide (id ∈ result))
      (sorted.map Candidate.id)).length_eq
    have hsame : (sorted.map Candidate.id).filter (fun id => !decide (id ∈ result)) = others := by
      rw [← hothers]
      simp
    rw [hsame, List.length_append, hids.length_eq, List.length_map] at hall
    exact hall
  have hlength : (result ++ others.take (m.toNat - result.length)).length =
      min m.toNat (result.length + others.length) := by
    rw [List.length_append, List.length_take]
    omega
  constructor
  case chosen =>
    intro id hid
    cases List.mem_append.mp hid with
    | inl hold => exact hdiverse.chosen hold
    | inr hnew =>
        rw [← hothers] at hnew
        exact hids.subset (List.mem_of_mem_filter (List.mem_of_mem_take hnew))
  case bounded => omega
  case fewer => omega
  case nonempty =>
    intro hne hnil
    have hpos := List.length_pos_iff.mpr hne
    rw [hnil, List.length_nil] at hlength
    have hzero : result.length + others.length = 0 := by omega
    have hnone : result = [] := List.eq_nil_of_length_eq_zero (by omega)
    rw [hnone] at hsplit
    simp at hsplit
    omega
  case distinct =>
    intro hnodup
    have hnodup' := hids.nodup_iff.mpr hnodup
    have hothers' : others.Nodup := hothers ▸ hnodup'.filter _
    refine ⟨List.nodup_append'.mpr ⟨hdiverse.nodup, hothers'.sublist (List.take_sublist _ _), ?_⟩, ?_⟩
    · intro id hold hnew
      have hleft := List.mem_of_mem_take hnew
      rw [← hothers] at hleft
      simpa [hold] using List.of_mem_filter hleft
    · have hexact : ((sorted.map Candidate.id).filter (· ∈ result)).length ≤ result.length := by
        refine (List.subperm_of_subset (hnodup'.filter _) fun id hid => ?_).length_le
        simpa using List.of_mem_filter hid
      omega

section

variable (hrange : Tables h ∨ fault .vectorOutOfRange) (hevent : ∀ node, event node)

include hrange hevent

theorem tooClose_ranged (cand : Candidate) (selected : List Nat) :
    Traced.Keeps event fault (fun _ => True) (h.tooClose p cand selected) := by
  refine tooClose_keeps (fun hselected hcand => ?_) selected
  obtain ⟨node, hnode, hvec⟩ := Option.bind_eq_some_iff.mp hselected
  obtain ⟨vec, hsame, hlength⟩ := nodeVector_of_getNode p hnode
  obtain rfl := Option.some.inj (hvec.symm.trans hsame)
  exact distanceToNode_ranged hrange hcand hlength none (hevent _)

theorem selectDiverse_ranged {m : Int} {candidates : List Candidate} {result : List Nat}
    {cand : Candidate} (hcand : cand.id ∈ candidates.map Candidate.id)
    (hdiverse : Diverse candidates m result) :
    Traced.Keeps event fault (Diverse candidates m) (h.selectDiverse p m result cand) := by
  unfold selectDiverse
  refine Traced.Keeps.ite (fun _ => Traced.Keeps.pure hdiverse) (fun hroom => ?_)
  refine Traced.Keeps.ite (fun _ => Traced.Keeps.pure hdiverse) (fun hnew => ?_)
  refine (tooClose_ranged hrange hevent cand result).bind fun close _ => ?_
  refine Traced.Keeps.ite (fun _ => Traced.Keeps.pure hdiverse) (fun _ => Traced.Keeps.pure ?_)
  constructor
  case nodup =>
    exact List.nodup_append'.mpr ⟨hdiverse.nodup, List.nodup_singleton _, by simpa using hnew⟩
  case chosen => exact List.append_subset.mpr ⟨hdiverse.chosen, by simpa using hcand⟩
  case length =>
    rw [List.length_append, List.length_singleton]
    omega

/-- Of any candidates, as many are selected as may be. -/
theorem selectNeighborsHeuristic_picks (candidates : List Candidate) {m : Int} (hm : 1 ≤ m) :
    Traced.Keeps event fault (fun result => Picked candidates m result.2)
      (h.selectNeighborsHeuristic p candidates m) := by
  unfold selectNeighborsHeuristic
  refine Traced.Keeps.ite (fun hnil => Traced.Keeps.pure ?_) (fun _ => ?_)
  · obtain rfl := List.isEmpty_iff.mp hnil
    exact ⟨by simp, by simp; omega, le_rfl, by simp, by simp⟩
  · refine Traced.Keeps.ite (fun hneg => by omega) (fun _ => ?_)
    have hsorted := p.sort_perm candidates
    have hfirst : Diverse candidates m [] := ⟨List.nodup_nil, by simp, by simp; omega⟩
    have hdiverse : Traced.Keeps event fault (Diverse candidates m)
        (Traced.fold (h.selectDiverse p m) [] (p.sort candidates)) :=
      Traced.Keeps.fold (fun result cand hcand hresult => selectDiverse_ranged hrange hevent
        (List.mem_map_of_mem (hsorted.subset hcand)) hresult) hfirst
    exact hdiverse.bind fun result hresult => Traced.Keeps.pure (hresult.picked hm hsorted)

end

end Select

/-! ## Pruning a list -/

section Prune

/-- What pruning may do to a neighbour list. -/
structure Thinned (h : Index) (list thinned : List Nat) : Prop where
  linked : thinned ⊆ list
  bounded : (thinned.length : Int) ≤ h.config.m
  live : ∀ id ∈ thinned, (h.getNode id).isSome
  kept : (∃ id ∈ list, (h.getNode id).isSome) → thinned ≠ []

theorem Thinned.trans {first second third : List Nat} (hfirst : Thinned h first second)
    (hsecond : Thinned h second third) : Thinned h first third where
  linked := List.Subset.trans hsecond.linked hfirst.linked
  bounded := hsecond.bounded
  live := hsecond.live
  kept hsome := by
    obtain ⟨id, hid⟩ := List.exists_mem_of_ne_nil _ (hfirst.kept hsome)
    exact hsecond.kept ⟨id, hid, hfirst.live id hid⟩

theorem thinned_trans {first second third : List (List Nat)}
    (hfirst : List.Forall₂ (Thinned h) first second)
    (hsecond : List.Forall₂ (Thinned h) second third) :
    List.Forall₂ (Thinned h) first third := by
  induction hfirst generalizing third with
  | nil => exact hsecond
  | cons hlist _ ih =>
      cases hsecond with
      | cons hlist' hrest => exact .cons (hlist.trans hlist') (ih hrest)

/-- Whether nodes are live is all that pruning a list depends on. -/
theorem Thinned.of_skeleton {h' : Index} (hskeleton : h'.skeleton = h.skeleton)
    {list thinned : List Nat} (hthinned : Thinned h' list thinned) : Thinned h list thinned := by
  have hsame := isSome_getNode_of_skeleton hskeleton
  constructor
  case linked => exact hthinned.linked
  case bounded => exact config_of_skeleton hskeleton ▸ hthinned.bounded
  case live => exact fun id hid => hsame id ▸ hthinned.live id hid
  case kept =>
    rintro ⟨id, hid, hlive⟩
    exact hthinned.kept ⟨id, hid, (hsame id).trans hlive⟩

section

variable (hrange : Tables h ∨ fault .vectorOutOfRange) (hevent : ∀ node, event node)

include hrange hevent

/-- The candidates of a list are its live entries, in order. -/
theorem toCandidates_live (ids : List Nat) {query : Vector}
    (hquery : Tables h → query.length = h.dim) :
    Traced.Keeps event fault
      (fun cands => cands.map Candidate.id = ids.filter fun id => (h.getNode id).isSome)
      (h.toCandidates p ids query) := by
  unfold toCandidates
  have hone : ∀ id ∈ ids, Traced.Keeps event fault
      (fun found => found.map Candidate.id = if (h.getNode id).isSome then some id else none)
      (h.toCandidate p query id) := by
    intro id _
    unfold toCandidate
    cases hnode : h.getNode id with
    | none => exact Traced.Keeps.pure rfl
    | some node =>
        refine (distanceToNode_ranged hrange hnode hquery none (hevent node)).bind fun d _ => ?_
        exact Traced.Keeps.pure rfl
  refine (Traced.Keeps.each hone).bind fun found hfound => Traced.Keeps.pure ?_
  clear hone
  induction hfound with
  | nil => rfl
  | @cons id slot ids found hfirst _ ih =>
      cases slot with
      | none =>
          have hdead : (h.getNode id).isSome = false := by
            cases hlive : (h.getNode id).isSome <;> simp [hlive] at hfirst ⊢
          rw [List.filterMap_cons_none rfl, List.filter_cons_of_neg (by simp [hdead])]
          exact ih
      | some cand =>
          have hboth : (h.getNode id).isSome = true ∧ cand.id = id := by
            cases hlive : (h.getNode id).isSome <;> simp [hlive] at hfirst ⊢
            exact hfirst
          have hcons : (some cand :: found).filterMap (fun cand => cand) =
              cand :: found.filterMap fun cand => cand := rfl
          rw [hcons, List.filter_cons_of_pos (by simp [hboth.1]), List.map_cons, hboth.2, ih]

/-- One list of a node is thinned. -/
theorem pruneList_thins (hm : 1 ≤ h.config.m) {vec : Vector} (hvec : Tables h → vec.length = h.dim)
    (list : List Nat) :
    Traced.Keeps event fault (Thinned h list) (h.pruneList p vec list) := by
  unfold pruneList
  refine Traced.Keeps.ite (fun hempty => Traced.Keeps.pure ?_) (fun hfilled => ?_)
  · rw [List.isEmpty_iff.mp hempty]
    exact ⟨List.Subset.refl _, by simp; omega, by simp, by simp⟩
  refine (toCandidates_live hrange hevent list hvec).bind fun cands hcands => ?_
  refine (selectNeighborsHeuristic_picks hrange hevent cands hm).bind fun result hpicked => ?_
  refine Traced.Keeps.pure ?_
  have hchosen := hpicked.chosen
  rw [hcands] at hchosen
  have hkept : (∃ id ∈ list, (h.getNode id).isSome) → result.2 ≠ [] := by
    rintro ⟨id, hid, hlive⟩
    refine hpicked.nonempty fun hnil => ?_
    have hmem : id ∈ cands.map Candidate.id := hcands ▸ List.mem_filter.mpr ⟨hid, hlive⟩
    simp [hnil] at hmem
  split
  next =>
    exact ⟨fun id hid => List.mem_of_mem_filter (hchosen hid), hpicked.bounded,
      fun id hid => (List.mem_filter.mp (hchosen hid)).2, hkept⟩
  next hsame =>
    -- as many ids as there are entries were taken from the live ones, so all entries are live
    have hlength := congrArg List.length hcands
    rw [List.length_map] at hlength
    have hfewer := hpicked.fewer
    have hall : list.filter (fun id => (h.getNode id).isSome) = list := by
      refine List.filter_sublist.eq_of_length_le ?_
      omega
    refine ⟨List.Subset.refl _, ?_, fun id hid => ?_, fun _ hnil => ?_⟩
    · have hbounded := hpicked.bounded
      omega
    · rw [← hall] at hid
      exact (List.mem_filter.mp hid).2
    · exact hfilled (List.isEmpty_iff.mpr hnil)

end

/-! ## Pruning an index -/

/-- The lists of the live nodes that were visited are thinned, and the others are as before. -/
structure Swept (h : Index) (visited : List Nat) (swept : Index) : Prop where
  skeleton : swept.skeleton = h.skeleton
  node : ∀ i node', swept.getNode i = some node' → ∃ node, h.getNode i = some node ∧
    if i ∈ visited then List.Forall₂ (Thinned h) node.neighbors node'.neighbors
    else node'.neighbors = node.neighbors

variable {visited : List Nat} {swept : Index}

theorem Swept.other (hswept : Swept h visited swept) {id i : Nat} {node' : Node} (hne : i ≠ id)
    (hnode' : swept.getNode i = some node') : ∃ node, h.getNode i = some node ∧
      if i ∈ id :: visited then List.Forall₂ (Thinned h) node.neighbors node'.neighbors
      else node'.neighbors = node.neighbors := by
  obtain ⟨node, hnode, hlists⟩ := hswept.node i node' hnode'
  refine ⟨node, hnode, ?_⟩
  simpa [hne] using hlists

/-- Thinning the lists of one more node. -/
theorem Swept.next (hswept : Swept h visited swept) (hrange : Tables h ∨ fault .vectorOutOfRange)
    (hevent : ∀ node, event node) (hm : 1 ≤ h.config.m) (id : Nat) :
    Traced.Keeps event fault (fun result => Swept h (id :: visited) result.1)
      (swept.pruneNodeLocked p id) := by
  have hrange' : Tables swept ∨ fault .vectorOutOfRange :=
    hrange.imp_left fun htables => htables.of_skeleton hswept.skeleton
  have hm' : 1 ≤ swept.config.m := config_of_skeleton hswept.skeleton ▸ hm
  unfold pruneNodeLocked
  cases hnode : swept.getNode id with
  | none =>
      refine Traced.Keeps.pure ⟨hswept.skeleton, fun i node' hnode' => hswept.other ?_ hnode'⟩
      rintro rfl
      rw [hnode] at hnode'
      cases hnode'
  | some node =>
      obtain ⟨vec, hvec, hlength⟩ := nodeVector_of_getNode p hnode
      simp only [hvec]
      refine (Traced.Keeps.each fun list _ => pruneList_thins hrange' hevent hm' hlength list).bind
        fun lists hlists => Traced.Keeps.pure ⟨?_, fun i node' hnode' => ?_⟩
      · let keep : Node → Node := fun node => { node with neighbors := lists }
        have hskeleton : (swept.modifyNode id keep).skeleton = swept.skeleton :=
          skeleton_modifyNode id fun _ => rfl
        exact hskeleton.trans hswept.skeleton
      by_cases hi : i = id
      · subst hi
        rw [getNode_eq_some, getNodeFast_modifyNode, if_pos rfl, (getNode_eq_some.mp hnode).1]
          at hnode'
        obtain rfl := Option.some.inj hnode'.1
        obtain ⟨old, hold, hbefore⟩ := hswept.node i node hnode
        have hthinned : List.Forall₂ (Thinned h) node.neighbors lists :=
          hlists.imp fun _ _ hthinned => hthinned.of_skeleton hswept.skeleton
        refine ⟨old, hold, ?_⟩
        rw [if_pos List.mem_cons_self]
        split at hbefore
        next => exact thinned_trans hbefore hthinned
        next => exact hbefore ▸ hthinned
      · refine hswept.other hi ?_
        rw [getNode_eq_some, getNodeFast_modifyNode, if_neg hi] at hnode'
        exact getNode_eq_some.mpr hnode'

/-- Without a bound on the nodes, every id of the loop is visited. -/
theorem Swept.loop {ids : List Nat} (processed : Nat) (hswept : Swept h visited swept)
    (hrange : Tables h ∨ fault .vectorOutOfRange) (hevent : ∀ node, event node)
    (hm : 1 ≤ h.config.m) :
    Traced.Keeps event fault (Swept h (ids.reverse ++ visited))
      (pruneLoop p 0 ids swept processed) := by
  induction ids generalizing visited swept processed with
  | nil => exact Traced.Keeps.pure hswept
  | cons id rest ih =>
      rw [pruneLoop, List.reverse_cons, List.append_assoc]
      refine (hswept.next hrange hevent hm id).bind fun result hresult => ?_
      refine Traced.Keeps.ite (fun _ => ?_) (fun _ => ih processed hresult)
      exact Traced.Keeps.ite (fun hbound => by omega) (fun _ => ih (processed + 1) hresult)

/-- What pruning leaves of an index: the same nodes are live, and their lists are thinned. The
slot 0 is not looked at. -/
structure Pruned (h pruned : Index) : Prop where
  live : ∀ i, (pruned.getNode i).isSome = (h.getNode i).isSome
  thinned : ∀ i node', 0 < i → pruned.getNode i = some node' → ∃ node, h.getNode i = some node ∧
    List.Forall₂ (Thinned h) node.neighbors node'.neighbors

/-- `PruneNeighbors(0)` thins every list of every live node. -/
theorem pruneNeighbors_prunes (hrange : Tables h ∨ fault .vectorOutOfRange)
    (hevent : ∀ node, event node) (hm : 1 ≤ h.config.m) (env : Env) :
    Traced.Keeps event fault (Pruned h) (h.pruneNeighbors p env 0) := by
  unfold pruneNeighbors
  refine Traced.Keeps.ite (fun hnone => by omega) (fun _ => ?_)
  have hstart : Swept h [] (h.takePruneCandidates env.order 0).2 :=
    ⟨rfl, fun i node hnode => ⟨node, hnode, by simp⟩⟩
  refine (hstart.loop 0 hrange hevent hm).imp fun pruned hswept =>
    ⟨isSome_getNode_of_skeleton hswept.skeleton, fun i node' hpos hnode' => ?_⟩
  obtain ⟨node, hnode, hlists⟩ := hswept.node i node' hnode'
  have hlength := lt_length_of_getNodeFast (getNode_eq_some.mp hnode).1
  have hvisited : i ∈ (List.range h.nodes.length).drop 1 := by
    rw [List.mem_iff_getElem?]
    refine ⟨i - 1, ?_⟩
    rw [List.getElem?_drop, List.getElem?_range (by omega)]
    congr 1
    omega
  refine ⟨node, hnode, ?_⟩
  rw [if_pos] at hlists
  · exact hlists
  · simp only [List.append_nil, List.mem_reverse]
    exact List.mem_append_right _ hvisited

end Prune

/-- A computation without faults returns. -/
theorem returns_of_keeps {α : Type} {post : α → Prop} {computation : Probe α}
    (hkeeps : Traced.Keeps (fun _ => True) (fun _ => False) post computation) :
    ∃ value, computation.outcome = .ok value := by
  cases houtcome : computation.outcome with
  | ok value => exact ⟨value, rfl⟩
  | error fault => exact (hkeeps.faults fault houtcome).elim

end Index

/-! ## In every run -/

/-- The selection takes as many candidates as it may, and pruning bounds every list without
isolating a node, in whatever state an index is. While the internal ids do not run out, both
return, and the slot that pruning does not look at is empty. -/
theorem pruning_of_run (setting : Setting) :
    (∀ (h : Index) (candidates : List Candidate) (m : Int) (result : List Candidate × List Nat),
      1 ≤ m → (candidates.map Candidate.id).Nodup →
      (h.selectNeighborsHeuristic setting.platform candidates m).outcome = .ok result →
        result.2.Nodup ∧ result.2.length = min m.toNat candidates.length ∧
          result.2 ⊆ candidates.map Candidate.id) ∧
      (∀ (h pruned : Index) (env : Env), 1 ≤ h.config.m →
        (h.pruneNeighbors setting.platform env 0).outcome = .ok pruned → h.Pruned pruned) ∧
      ∀ (inputs : List Input) (site : Site),
        Run.Meets setting.serve (During Admissible) (some setting.start) inputs →
        Run.run setting.serve (some setting.start) inputs = some site →
          site.index.getNode 0 = none ∧
          (∀ (candidates : List Candidate) (m : Int), 1 ≤ m → ∃ result,
            (site.index.selectNeighborsHeuristic setting.platform candidates m).outcome =
              .ok result) ∧
          (1 ≤ site.index.config.m → ∀ env, ∃ pruned,
            (site.index.pruneNeighbors setting.platform env 0).outcome = .ok pruned) := by
  refine ⟨fun h candidates m result hm hnodup hresult => ?_, fun h pruned env hm hpruned => ?_,
    fun inputs site hmeets hsite => ?_⟩
  · have hpicks := @Index.selectNeighborsHeuristic_picks h setting.platform (fun _ => True)
      (fun _ => True) (Or.inr trivial) (fun _ => trivial) candidates m hm
    have hpicked := hpicks.value result hresult
    obtain ⟨hdistinct, hlength⟩ := hpicked.distinct hnodup
    exact ⟨hdistinct, hlength, hpicked.chosen⟩
  · have hprunes := @Index.pruneNeighbors_prunes h setting.platform (fun _ => True)
      (fun _ => True) (Or.inr trivial) (fun _ => trivial) hm env
    exact hprunes.value pruned hpruned
  · have htables := ((kept_coherent setting).run hmeets hsite).index.coherent.tables
    refine ⟨?_, fun candidates m hm => ?_, fun hm env => ?_⟩
    · cases hnode : site.index.getNode 0 with
      | none => rfl
      | some node =>
          obtain ⟨id, hid, _⟩ := (htables.node 0 node (Index.getNode_eq_some.mp hnode).1).named
          exact absurd (htables.handed 0 id hid).1 (lt_irrefl 0)
    · exact Index.returns_of_keeps (Index.selectNeighborsHeuristic_picks (Or.inl htables)
        (fun _ => trivial) candidates hm)
    · exact Index.returns_of_keeps (Index.pruneNeighbors_prunes (Or.inl htables)
        (fun _ => trivial) hm env)

theorem pruning_of_run_mixedCalls :
    Run.Meets lineSetting.serve (During Admissible) (some lineSetting.start) mixedCalls ∧
      ∃ site, Run.run lineSetting.serve (some lineSetting.start) mixedCalls = some site ∧
        (∃ pruned, (site.index.pruneNeighbors plainPlatform (call .rebuild).env 0).outcome =
          .ok pruned ∧ site.index.Pruned pruned) ∧
        ∀ node : Node, ∃ result,
          (site.index.selectNeighborsHeuristic plainPlatform [⟨1, 1, node⟩, ⟨2, 2, node⟩] 1).outcome =
            .ok result ∧ result.2.length = 1 := by
  have hmeets : Run.Meets lineSetting.serve (During Admissible) (some lineSetting.start)
      mixedCalls := by decide +kernel
  have hvalue : (Run.run lineSetting.serve (some lineSetting.start) mixedCalls).map
      (fun site => decide (1 ≤ site.index.config.m)) = some true := by decide +kernel
  obtain ⟨site, hsite, hm⟩ := Option.map_eq_some_iff.mp hvalue
  have hpos := of_decide_eq_true hm
  obtain ⟨hselects, hprunes, hruns⟩ := pruning_of_run lineSetting
  obtain ⟨_, hpicks, hreturns⟩ := hruns mixedCalls site hmeets hsite
  obtain ⟨pruned, hpruned⟩ := hreturns hpos (call .rebuild).env
  refine ⟨hmeets, site, hsite, ⟨pruned, hpruned, hprunes _ _ _ hpos hpruned⟩, fun node => ?_⟩
  obtain ⟨result, hresult⟩ := hpicks [⟨1, 1, node⟩, ⟨2, 2, node⟩] 1 le_rfl
  exact ⟨result, hresult, (hselects _ _ 1 result le_rfl (by simp) hresult).2.1⟩

/-- When the internal ids run out a node is given the id 0, and pruning does not look at it: it
keeps a neighbour that was deleted. -/
theorem null_node_unpruned :
    ∃ site pruned node, Run.run lineSetting.serve (some lineSetting.start)
        (call (.add (nameOf 'a') one) :: List.replicate (2 ^ 32 - 2) refusedCall ++
          [call (.add (nameOf 'b') two), call (.delete (nameOf 'a'))]) = some site ∧
      1 ≤ site.index.config.m ∧
      (site.index.pruneNeighbors plainPlatform (call .rebuild).env 0).outcome = .ok pruned ∧
      pruned.idToUint32.lookup (nameOf 'b') = some 0 ∧ pruned.getNode 0 = some node ∧
      node.neighbors = [[1]] ∧ pruned.getNode 1 = none := by
  have hrun := @run_refused (2 ^ 32 - 2) (by norm_num) (by norm_num)
  have hlast : (2 ^ 32 - 2 + 1) % 2 ^ 32 = 2 ^ 32 - 1 := by norm_num
  have hnext : (2 ^ 32 - 2 + 2) % 2 ^ 32 = 0 := by norm_num
  rw [hlast, hnext] at hrun
  have hvalue : (Run.run lineSetting.serve (some (refusedAt (2 ^ 32 - 1) 0))
      [call (.add (nameOf 'b') two), call (.delete (nameOf 'a'))]).any (fun site =>
        decide (1 ≤ site.index.config.m) &&
          (site.index.pruneNeighbors plainPlatform (call .rebuild).env 0).value?.any fun pruned =>
            decide (pruned.idToUint32.lookup (nameOf 'b') = some 0 ∧
              (pruned.getNode 0).map Node.neighbors = some [[1]] ∧ pruned.getNode 1 = none)) = true := by
    decide +kernel
  obtain ⟨site, hsite, hboth⟩ := (Option.any_eq_true _ _).mp hvalue
  obtain ⟨hm, hpruned⟩ := Bool.and_eq_true_iff.mp hboth
  obtain ⟨pruned, hpruned, hfields⟩ := (Option.any_eq_true _ _).mp hpruned
  obtain ⟨hid, hnode, hdead⟩ := of_decide_eq_true hfields
  obtain ⟨node, hnode, hlists⟩ := Option.map_eq_some_iff.mp hnode
  obtain ⟨found, hfound, rfl⟩ := @value?_map_eq_some _ _ _ id pruned (by simpa using hpruned)
  exact ⟨site, _, node, by rw [Run.run_append, hrun, hsite], of_decide_eq_true hm, hfound, hid, hnode,
    hlists, hdead⟩

end Vectron.Hnsw
