import Vectron.Hnsw.Upkeep

/-! # Cleanup, pruning and rebuild

The operations of the background loops. Cleanup and pruning only take nodes and edges away
and keep the live ids; a rebuild adds every live vector to an empty index again. Cleanup
reads through the pointer of every slot it passes, so it panics at the first empty one.
-/

namespace Vectron.Hnsw

open Foundation
open Worker (Vector)

namespace Index

variable {h : Index}

/-- The cached flags, which decide how distances are computed. -/
def metric (h : Index) : Bool × Bool × Bool × Bool :=
  (h.isCosine, h.isNormalized, h.useNorms, h.useQuantize)

theorem metric_of_skeleton {h' : Index} (hskeleton : h'.skeleton = h.skeleton) :
    h'.metric = h.metric := by
  have hmetric : h'.skeleton.metric = h.skeleton.metric := by rw [hskeleton]
  exact hmetric

theorem metric_ensureNodeCapacity (id : Nat) : (h.ensureNodeCapacity id).metric = h.metric := by
  unfold ensureNodeCapacity
  split <;> rfl

/-- The second index has the live ids of the first and the same excess of the deletion counter
over the deleted nodes that are stored, and no nodes in other slots. -/
structure Alike (h h' : Index) : Prop where
  live : ∀ id, Live h' id ↔ Live h id
  drift : h'.deletedCount - h'.deletedNodes = h.deletedCount - h.deletedNodes
  metric : h'.metric = h.metric
  nextID : h'.nextID = h.nextID
  stored : ∀ i, (h'.getNodeFast i).isSome → (h.getNodeFast i).isSome

theorem Alike.refl : Alike h h := ⟨fun _ => Iff.rfl, rfl, rfl, rfl, fun _ hsome => hsome⟩

theorem Alike.trans {h' h'' : Index} (hfirst : Alike h h') (hsecond : Alike h' h'') :
    Alike h h'' :=
  ⟨fun id => (hsecond.live id).trans (hfirst.live id), hsecond.drift.trans hfirst.drift,
    hsecond.metric.trans hfirst.metric, hsecond.nextID.trans hfirst.nextID,
    fun i hsome => hfirst.stored i (hsecond.stored i hsome)⟩

theorem alike_of_skeleton {h' : Index} (hskeleton : h'.skeleton = h.skeleton) : Alike h h' where
  live := live_of_skeleton hskeleton
  drift := by rw [deletedCount_of_skeleton hskeleton, deletedNodes_of_skeleton hskeleton]
  metric := metric_of_skeleton hskeleton
  nextID := nextID_of_skeleton hskeleton
  stored i hsome := by
    obtain ⟨node', hnode'⟩ := Option.isSome_iff_exists.mp hsome
    obtain ⟨node, hnode, _⟩ := getNodeFast_of_skeleton hskeleton.symm hnode'
    rw [hnode]
    rfl

/-- A change of the lists that only drops edges. -/
theorem Coherent.thin {h' : Index} (hcoherent : Coherent h) (hskeleton : h'.skeleton = h.skeleton)
    (hlists : ∀ i node', h'.getNodeFast i = some node' → ∃ node, h.getNodeFast i = some node ∧
      node'.neighbors.length = node.neighbors.length ∧
      ∀ (l : Nat) (list' : List Nat), node'.neighbors[l]? = some list' →
        ∃ list, node.neighbors[l]? = some list ∧ list' ⊆ list) : Coherent h' := by
  have hentry : h'.entry = h.entry := by
    have heq : h'.skeleton.entry = h.skeleton.entry := by rw [hskeleton]
    exact heq
  have hmax : h'.maxLayer = h.maxLayer := by
    have heq : h'.skeleton.maxLayer = h.skeleton.maxLayer := by rw [hskeleton]
    exact heq
  have hnode : ∀ i node', h'.getNodeFast i = some node' → ∃ node, h.getNodeFast i = some node ∧
      node'.id = node.id ∧ node'.layer = node.layer ∧
      node'.neighbors.length = node.neighbors.length ∧
      ∀ (l : Nat) (list' : List Nat), node'.neighbors[l]? = some list' →
        ∃ list, node.neighbors[l]? = some list ∧ list' ⊆ list := by
    intro i node' hnode'
    obtain ⟨node, hold, hlength, hsub⟩ := hlists i node' hnode'
    obtain ⟨other, hother, hbare⟩ := getNodeFast_of_skeleton hskeleton.symm hnode'
    rw [hold] at hother
    obtain rfl := Option.some.inj hother
    have hid : node.bare.id = node'.bare.id := congrArg Node.id hbare
    have hlayer : node.bare.layer = node'.bare.layer := congrArg Node.layer hbare
    exact ⟨node, hold, hid.symm, hlayer.symm, hlength, hsub⟩
  refine ⟨hcoherent.layered.weaken (nextID_of_skeleton hskeleton) ?_ hnode ?_,
    hcoherent.tables.of_skeleton hskeleton, ?_⟩
  · rw [hentry]
    exact hcoherent.layered.entry_lt
  · intro node' hnode'
    obtain ⟨node, hold, _, hlayer, _⟩ := hnode _ node' hnode'
    rw [hlayer, hmax]
    exact hcoherent.layered.entry node (hentry ▸ hold)
  · rw [nextID_of_skeleton hskeleton]
    exact hcoherent.bounded

/-! ## Cleanup -/

section Cleanup

variable {event : Node → Prop} {fault : Fault → Prop}

theorem removeDeleted_spec (hcoherent : Coherent h) {n : Nat} {node : Node}
    (hnode : h.getNodeFast n = some node) (hdead : node.live = false) :
    Coherent (h.removeDeleted n) ∧ Alike h (h.removeDeleted n) := by
  obtain ⟨id, hname, _⟩ := (hcoherent.tables.node n node hnode).named
  have hid := (hcoherent.tables.inverse id n).mpr hname
  have hremoved := removed_removeDeleted hname (by rw [hnode]; rfl)
  refine ⟨hremoved.coherent hcoherent hid, fun id' => ?_, ?_, rfl, rfl, fun i hsome => ?_⟩
  · rw [hremoved.live hcoherent hid]
    refine ⟨fun hboth => hboth.2, fun hlive => ⟨?_, hlive⟩⟩
    rintro rfl
    obtain ⟨n', node', hlookup, hnode'⟩ := hlive
    rw [hid] at hlookup
    obtain rfl := Option.some.inj hlookup
    obtain ⟨hfast, hlive⟩ := getNode_eq_some.mp hnode'
    rw [hnode] at hfast
    obtain rfl := Option.some.inj hfast
    rw [hdead] at hlive
    cases hlive
  · have hnodes := hremoved.deletedNodes
    have hslot : deletedSlot (h.getNodeFast n) = true := by
      rw [hnode]
      simp [deletedSlot, hdead]
    have hcount : (h.removeDeleted n).deletedCount = h.deletedCount - 1 := rfl
    rw [hslot] at hnodes
    rw [hcount, hnodes]
    simp
  · rw [hremoved.getNodeFast] at hsome
    split at hsome
    next => cases hsome
    next => exact hsome

theorem cleanupLoop_keeps (hfault : fault .nilDereference) (batchSize : Int) (slots : List Nat)
    {state : Index × Nat × List Nat} (hcoherent : Coherent state.1) (halike : Alike h state.1) :
    Traced.Keeps event fault (fun result => Coherent result.1 ∧ Alike h result.1)
      (cleanupLoop batchSize slots state) := by
  induction slots generalizing state with
  | nil => exact Traced.Keeps.pure ⟨hcoherent, halike⟩
  | cons idx rest ih =>
      obtain ⟨current, removed, affected⟩ := state
      rw [cleanupLoop]
      refine Traced.Keeps.ite (fun _ => Traced.Keeps.pure ⟨hcoherent, halike⟩) (fun _ => ?_)
      refine Traced.Keeps.ite (fun _ => ih hcoherent halike) (fun _ => ?_)
      cases hnode : current.getNodeFast idx with
      | none => exact Traced.Keeps.raise hfault
      | some node =>
          refine Traced.Keeps.ite (fun _ => ih hcoherent halike) (fun hdead => ?_)
          have hafter := removeDeleted_spec hcoherent hnode (by simpa using hdead)
          exact ih hafter.1 (halike.trans hafter.2)

theorem filterDead_spec (hcoherent : Coherent h) (id : Nat) :
    Coherent (h.filterDead id) ∧ (h.filterDead id).skeleton = h.skeleton := by
  unfold filterDead
  split
  next => exact ⟨hcoherent, rfl⟩
  next =>
    let keep : Node → Node := fun node =>
      { node with neighbors := node.neighbors.map (List.filter fun n => (h.getNode n).isSome) }
    have hskeleton : (h.modifyNode id keep).skeleton = h.skeleton :=
      skeleton_modifyNode id fun _ => rfl
    refine ⟨hcoherent.thin hskeleton fun i node' hnode' => ?_, hskeleton⟩
    rw [getNodeFast_modifyNode] at hnode'
    split at hnode'
    next =>
      obtain ⟨node, hnode, rfl⟩ := Option.map_eq_some_iff.mp hnode'
      refine ⟨node, hnode, List.length_map _, fun l list' hlist' => ?_⟩
      rw [List.getElem?_map] at hlist'
      obtain ⟨list, hlist, rfl⟩ := Option.map_eq_some_iff.mp hlist'
      exact ⟨list, hlist, List.filter_sublist.subset⟩
    next => exact ⟨node', hnode', rfl, fun l list' hlist' => ⟨list', hlist', List.Subset.refl _⟩⟩

theorem foldl_filterDead_spec (hcoherent : Coherent h) (affected : List Nat) :
    Coherent (affected.foldl filterDead h) ∧
      (affected.foldl filterDead h).skeleton = h.skeleton := by
  induction affected generalizing h with
  | nil => exact ⟨hcoherent, rfl⟩
  | cons id rest ih =>
      obtain ⟨hfirst, hskeleton⟩ := filterDead_spec hcoherent id
      obtain ⟨hrest, hskeleton'⟩ := ih hfirst
      exact ⟨hrest, hskeleton'.trans hskeleton⟩

/-- The entry point found is a live node, and the top layer becomes its layer. -/
theorem liveAt_spec {l : Nat} {node : Node} (hlayered : Layered h)
    (hfound : h.liveAt l = some node) :
    h.getNodeFast node.id = some node ∧ node.live = true ∧ node.layer = l := by
  obtain ⟨slot, hslot, hfilter⟩ := List.exists_of_findSome?_eq_some hfound
  obtain ⟨hsome, hboth⟩ := Option.filter_eq_some_iff.mp hfilter
  obtain ⟨i, hi, hget⟩ := List.getElem_of_mem hslot
  have hnode : h.getNodeFast i = some node := by
    rw [← nodes_getElem hi, hget, hsome]
  rw [(hlayered.node i node hnode).id]
  simp only [Bool.and_eq_true, decide_eq_true_eq] at hboth
  exact ⟨hnode, hboth.1, hboth.2⟩

theorem maybeUpdateEntryPoint_spec (hcoherent : Coherent h) :
    Coherent h.maybeUpdateEntryPoint ∧ Alike h h.maybeUpdateEntryPoint := by
  unfold maybeUpdateEntryPoint
  split
  next => exact ⟨hcoherent, Alike.refl⟩
  next =>
    split
    next node hfound =>
      obtain ⟨l, _, hat⟩ := List.exists_of_findSome?_eq_some hfound
      obtain ⟨hnode, _, _⟩ := liveAt_spec hcoherent.layered hat
      refine ⟨⟨?_, hcoherent.tables.entry _ _, hcoherent.bounded⟩,
        fun _ => Iff.rfl, rfl, rfl, rfl, fun _ hsome => hsome⟩
      exact hcoherent.layered.enter hnode rfl
    next =>
      refine ⟨⟨?_, hcoherent.tables.entry _ _, hcoherent.bounded⟩,
        fun _ => Iff.rfl, rfl, rfl, rfl, fun _ hsome => hsome⟩
      refine hcoherent.layered.weaken rfl hcoherent.layered.next_pos
        (fun i node hnode => ⟨node, hnode, rfl, rfl, rfl,
          fun l list hlist => ⟨list, hlist, List.Subset.refl _⟩⟩) fun node hnode => ?_
      have hnone := hcoherent.layered.not_zero
      have hnode : h.getNodeFast 0 = some node := hnode
      rw [hnone] at hnode
      cases hnode

theorem performCleanup_keeps (hfault : fault .nilDereference) (hcoherent : Coherent h)
    (batchSize : Int) :
    Traced.Keeps event fault (fun h' => Coherent h' ∧ Alike h h')
      (performCleanup batchSize h) := by
  unfold performCleanup
  refine (cleanupLoop_keeps hfault batchSize _ hcoherent Alike.refl).bind fun result hresult => ?_
  obtain ⟨hcleaned, halike⟩ := hresult
  obtain ⟨hfiltered, hskeleton⟩ := foldl_filterDead_spec hcleaned result.2.2
  have halike' := halike.trans (alike_of_skeleton hskeleton)
  refine Traced.Keeps.pure ?_
  split
  next =>
    obtain ⟨hentered, hsame⟩ := maybeUpdateEntryPoint_spec hfiltered
    exact ⟨hentered, halike'.trans hsame⟩
  next => exact ⟨hfiltered, halike'⟩

end Cleanup

/-! ## Pruning -/

section Prune

variable {p : Platform} {event : Node → Prop} {fault : Fault → Prop}

section

variable (hevent : ∀ node, event node) (hfault : fault .vectorOutOfRange)

include hevent hfault

theorem toCandidates_keeps (ids : List Nat) (query : Vector) :
    Traced.Keeps event fault (fun cands => ∀ c ∈ cands, c.id ∈ ids)
      (h.toCandidates p ids query) := by
  unfold toCandidates
  have hone : ∀ id ∈ ids, Traced.Keeps event fault (fun found => ∀ c, found = some c → c.id = id)
      (h.toCandidate p query id) := by
    intro id _
    unfold toCandidate
    split
    next => exact Traced.Keeps.pure nofun
    next node _ =>
      refine (distanceToNode_keeps query none (hevent node) hfault).bind fun d _ => ?_
      refine Traced.Keeps.pure fun c hc => ?_
      cases hc
      rfl
  refine (Traced.Keeps.each hone).bind fun found hfound => Traced.Keeps.pure fun c hc => ?_
  obtain ⟨slot, hslot, rfl⟩ := List.mem_filterMap.mp hc
  obtain ⟨i, hi, hget⟩ := List.getElem_of_mem hslot
  have hlt : i < ids.length := by
    rw [hfound.length_eq]
    exact hi
  have hid := (List.forall₂_iff_get.mp hfound).2 i hlt hi c hget
  rw [hid]
  exact List.get_mem ids ⟨i, hlt⟩

theorem pruneList_keeps (hm : 0 < h.config.m) (vec : Vector) (list : List Nat) :
    Traced.Keeps event fault (fun pruned => pruned ⊆ list) (h.pruneList p vec list) := by
  unfold pruneList
  refine Traced.Keeps.ite (fun _ => Traced.Keeps.pure (List.Subset.refl _)) (fun _ => ?_)
  refine (toCandidates_keeps hevent hfault list vec).bind fun cands hcands => ?_
  have hselect := @selectNeighborsHeuristic_keeps h p event fault hevent hfault cands
    h.config.m (fun hneg => absurd hneg (by omega))
  refine hselect.bind fun result hresult => Traced.Keeps.pure ?_
  split
  next =>
    intro id hid
    obtain ⟨c, hc, rfl⟩ := hresult.chosen id hid
    exact hcands c hc
  next => exact List.Subset.refl _

theorem pruneNodeLocked_keeps (hm : 0 < h.config.m) (hcoherent : Coherent h) (id : Nat) :
    Traced.Keeps event fault (fun result => Coherent result.1 ∧ result.1.skeleton = h.skeleton)
      (h.pruneNodeLocked p id) := by
  unfold pruneNodeLocked
  split
  next => exact Traced.Keeps.pure ⟨hcoherent, rfl⟩
  next node hnode =>
    split
    next => exact Traced.Keeps.pure ⟨hcoherent, rfl⟩
    next vec _ =>
      refine (Traced.Keeps.each fun list _ => pruneList_keeps hevent hfault hm vec list).bind
        fun lists hlists => Traced.Keeps.pure ?_
      let keep : Node → Node := fun node => { node with neighbors := lists }
      have hskeleton : (h.modifyNode id keep).skeleton = h.skeleton :=
        skeleton_modifyNode id fun _ => rfl
      refine ⟨hcoherent.thin hskeleton fun i node' hnode' => ?_, hskeleton⟩
      rw [getNodeFast_modifyNode] at hnode'
      split at hnode'
      next hi =>
        obtain ⟨old, hold, rfl⟩ := Option.map_eq_some_iff.mp hnode'
        rw [hi, (getNode_eq_some.mp hnode).1] at hold
        obtain rfl := Option.some.inj hold
        refine ⟨node, hi ▸ (getNode_eq_some.mp hnode).1, hlists.length_eq.symm, ?_⟩
        intro l list' hlist'
        obtain ⟨hlt, hget⟩ := List.getElem?_eq_some_iff.mp hlist'
        have hlt' : l < node.neighbors.length := by
          rw [hlists.length_eq]
          exact hlt
        refine ⟨_, List.getElem?_eq_getElem hlt', ?_⟩
        rw [← hget]
        exact (List.forall₂_iff_get.mp hlists).2 l hlt' hlt
      next => exact ⟨node', hnode', rfl, fun l list' hlist' => ⟨list', hlist', List.Subset.refl _⟩⟩

end

theorem config_of_skeleton {h' : Index} (hskeleton : h'.skeleton = h.skeleton) :
    h'.config = h.config := by
  have hconfig : h'.skeleton.config = h.skeleton.config := by rw [hskeleton]
  exact hconfig

theorem pruneLoop_keeps (hevent : ∀ node, event node) (hfault : fault .vectorOutOfRange)
    (maxNodes : Int) (ids : List Nat) (processed : Nat) (hm : 0 < h.config.m)
    (hcoherent : Coherent h) :
    Traced.Keeps event fault (fun pruned => Coherent pruned ∧ pruned.skeleton = h.skeleton)
      (pruneLoop p maxNodes ids h processed) := by
  induction ids generalizing h processed with
  | nil => exact Traced.Keeps.pure ⟨hcoherent, rfl⟩
  | cons id rest ih =>
      rw [pruneLoop]
      refine (pruneNodeLocked_keeps hevent hfault hm hcoherent id).bind fun result hresult => ?_
      obtain ⟨hpruned, hskeleton⟩ := hresult
      have hrest : ∀ processed, Traced.Keeps event fault
          (fun pruned => Coherent pruned ∧ pruned.skeleton = h.skeleton)
          (pruneLoop p maxNodes rest result.1 processed) := fun processed =>
        (ih processed (by rw [config_of_skeleton hskeleton]; exact hm) hpruned).imp
          fun pruned hboth => ⟨hboth.1, hboth.2.trans hskeleton⟩
      refine Traced.Keeps.ite (fun _ => ?_) (fun _ => hrest _)
      exact Traced.Keeps.ite (fun _ => Traced.Keeps.pure ⟨hpruned, hskeleton⟩) (fun _ => hrest _)

theorem Coherent.of_pruneCandidates (hcoherent : Coherent h) (ids : GoMap Nat Unit) :
    Coherent { h with pruneCandidates := ids } := by
  refine ⟨hcoherent.layered.congr rfl rfl rfl rfl, ?_, hcoherent.bounded⟩
  exact hcoherent.tables.of_skeleton rfl

theorem pruneNeighbors_keeps (hevent : ∀ node, event node) (hfault : fault .vectorOutOfRange)
    (env : Env) (maxNodes : Int) (hcoherent : Coherent h) :
    Traced.Keeps event fault (fun pruned => Coherent pruned ∧ Alike h pruned)
      (pruneNeighbors p env maxNodes h) := by
  unfold pruneNeighbors
  refine Traced.Keeps.ite (fun _ => Traced.Keeps.pure ⟨hcoherent, Alike.refl⟩) (fun hm => ?_)
  have htaken := hcoherent.of_pruneCandidates
    (h.takePruneCandidates env.order maxNodes).2.pruneCandidates
  refine (pruneLoop_keeps hevent hfault maxNodes _ 0 (by simpa using hm) htaken).imp ?_
  intro pruned hpruned
  exact ⟨hpruned.1, alike_of_skeleton hpruned.2⟩

end Prune

/-! ## Rebuild -/

section Rebuild

variable {p : Platform} {env : Env} {event : Node → Prop} {fault : Fault → Prop}

/-- The live nodes, in the order of the table. -/
def liveNodes (h : Index) : List Node :=
  h.nodes.filterMap fun slot => slot.filter Node.live

theorem mem_liveNodes (hlayered : Layered h) {node : Node} :
    node ∈ h.liveNodes ↔ h.getNode node.id = some node := by
  constructor
  · intro hmem
    obtain ⟨slot, hslot, hfilter⟩ := List.mem_filterMap.mp hmem
    obtain ⟨i, hi, rfl⟩ := List.getElem_of_mem hslot
    rw [nodes_getElem hi] at hfilter
    have hget : h.getNode i = some node := hfilter
    rw [(hlayered.node i node (getNode_eq_some.mp hget).1).id]
    exact hget
  · intro hget
    have hlt := lt_length_of_getNode hget
    refine List.mem_filterMap.mpr ⟨h.nodes[node.id], List.getElem_mem hlt, ?_⟩
    rw [nodes_getElem hlt]
    exact hget

theorem liveNodes_pairwise (hlayered : Layered h) :
    h.liveNodes.Pairwise fun first second => first.id < second.id := by
  refine List.pairwise_filterMap.mpr (List.pairwise_iff_getElem.mpr ?_)
  intro i j hi hj hlt first hfirst second hsecond
  rw [nodes_getElem hi] at hfirst
  rw [nodes_getElem hj] at hsecond
  rw [(hlayered.node i first (Option.filter_eq_some_iff.mp hfirst).1).id,
    (hlayered.node j second (Option.filter_eq_some_iff.mp hsecond).1).id]
  exact hlt

/-- Fewer nodes are live than ids were handed out. -/
theorem liveNodes_length_lt (hlayered : Layered h) : h.liveNodes.length < h.nextID := by
  have hnodup : (h.liveNodes.map Node.id).Nodup := by
    refine List.Nodup.of_map id ?_
    rw [List.map_id]
    exact List.pairwise_map.mpr ((liveNodes_pairwise hlayered).imp fun hlt => ne_of_lt hlt)
  have hsub : (h.liveNodes.map Node.id).toFinset ⊆ Finset.Ioo 0 h.nextID := by
    intro n hn
    obtain ⟨node, hnode, rfl⟩ := List.mem_map.mp (List.mem_toFinset.mp hn)
    have hstored := (getNode_eq_some.mp ((mem_liveNodes hlayered).mp hnode)).1
    have hlinked := hlayered.node node.id node hstored
    exact Finset.mem_Ioo.mpr ⟨hlinked.pos, hlinked.lt⟩
  have hcard := Finset.card_le_card hsub
  have hpos := hlayered.next_pos
  rw [List.toFinset_card_of_nodup hnodup, List.length_map, Nat.card_Ioo] at hcard
  omega

/-- The id and the vector under which a rebuild adds a node again. -/
def relisted (p : Platform) (h : Index) (node : Node) : Bytes × Vector :=
  ((h.uint32ToID.lookup node.id).getD [], (nodeVector p node).getD [])

theorem nodeVector_isSome {node : Node} (hlive : node.live = true) :
    (nodeVector p node).isSome = true := by
  unfold nodeVector
  unfold Node.live at hlive
  cases hvec : node.vec with
  | some vec => rfl
  | none =>
      rw [hvec] at hlive
      cases hqvec : node.qvec with
      | some qvec => rfl
      | none =>
          rw [hqvec] at hlive
          cases hlive

theorem liveVectors_eq : h.liveVectors p = h.liveNodes.map (h.relisted p) := by
  unfold liveVectors liveNodes
  rw [List.map_filterMap]
  refine List.filterMap_congr fun slot _ => ?_
  cases hslot : slot.filter Node.live with
  | none => rfl
  | some node =>
      have hsome := @nodeVector_isSome p node (Option.filter_eq_some_iff.mp hslot).2
      obtain ⟨vec, hvec⟩ := Option.isSome_iff_exists.mp hsome
      simp [relisted, hvec]

section

variable (hcoherent : Coherent h)

include hcoherent

/-- The node of a live id is added again under that id. -/
theorem relisted_fst {id : Bytes} {node : Node} (hnode : node ∈ h.liveNodes) :
    (h.relisted p node).1 = id ↔ h.idToUint32.lookup id = some node.id := by
  have hget := (mem_liveNodes hcoherent.layered).mp hnode
  obtain ⟨name, hname, _⟩ := (hcoherent.tables.node node.id node (getNode_eq_some.mp hget).1).named
  rw [hcoherent.tables.inverse id node.id, relisted, hname]
  simp

theorem mem_liveVectors_iff_live (id : Bytes) :
    id ∈ (h.liveVectors p).map Prod.fst ↔ Live h id := by
  rw [liveVectors_eq, List.map_map, List.mem_map]
  constructor
  · rintro ⟨node, hnode, heq⟩
    exact ⟨node.id, node, (relisted_fst hcoherent hnode).mp heq,
      (mem_liveNodes hcoherent.layered).mp hnode⟩
  · rintro ⟨n, node, hlookup, hget⟩
    have hid := (hcoherent.layered.node n node (getNode_eq_some.mp hget).1).id
    have hnode : node ∈ h.liveNodes := by
      rw [mem_liveNodes hcoherent.layered, hid]
      exact hget
    exact ⟨node, hnode, (relisted_fst hcoherent hnode).mpr (by rw [hid]; exact hlookup)⟩

theorem liveVectors_nodup :
    ((h.liveVectors p).map Prod.fst).Nodup := by
  rw [liveVectors_eq, List.map_map]
  refine List.pairwise_map.mpr ((liveNodes_pairwise hcoherent.layered).imp_of_mem ?_)
  intro first second hfirst hsecond hlt heq
  have hone : h.idToUint32.lookup (h.relisted p second).1 = some first.id :=
    (relisted_fst hcoherent hfirst).mp heq
  rw [(relisted_fst hcoherent hsecond).mp rfl] at hone
  exact absurd (Option.some.inj hone) (by omega)

theorem liveVectors_dim {entry : Bytes × Vector} (hentry : entry ∈ h.liveVectors p) :
    entry.2.length = h.dim := by
  rw [liveVectors_eq] at hentry
  obtain ⟨node, hnode, rfl⟩ := List.mem_map.mp hentry
  have hget := getNode_eq_some.mp ((mem_liveNodes hcoherent.layered).mp hnode)
  have hnamed := hcoherent.tables.node node.id node hget.1
  obtain ⟨vec, hvec⟩ := Option.isSome_iff_exists.mp (@nodeVector_isSome p node hget.2)
  have heq : (h.relisted p node).2 = vec := by simp [relisted, hvec]
  rw [heq]
  unfold nodeVector at hvec
  cases hstored : node.vec with
  | some stored =>
      rw [hstored] at hvec
      cases hvec
      exact hnamed.vec vec hstored
  | none =>
      rw [hstored] at hvec
      obtain ⟨qvec, hqvec, rfl⟩ := Option.map_eq_some_iff.mp hvec
      rw [p.dequantize_length]
      exact hnamed.qvec qvec hqvec

end

/-- What insertion leaves of the configuration, and the id it registers. -/
theorem Added.fields {id : Bytes} {vec : Vector} {result : Index × Option AddError}
    (hadded : Added p env h id vec result) :
    result.1.config = h.config ∧ result.1.dim = h.dim ∧ result.1.metric = h.metric ∧
      result.1.idToUint32 = h.idToUint32.insert id h.nextID := by
  have hinserted : (h.inserted p env id vec).metric = h.metric :=
    metric_ensureNodeCapacity (h.drawnNode p env vec).id
  cases hadded with
  | refused err hreason => exact ⟨rfl, rfl, rfl, rfl⟩
  | alone hdim hentry =>
      exact ⟨inserted_config id vec, inserted_dim id vec, hinserted, inserted_idToUint32 id vec⟩
  | joined linked entry hdim hentry hlinked =>
      have heq := hlinked.skeleton
      have hdims : linked.skeleton.dim = (h.inserted p env id vec).skeleton.dim := by rw [heq]
      have hids : linked.skeleton.idToUint32 =
          (h.inserted p env id vec).skeleton.idToUint32 := by rw [heq]
      have hall : linked.config = h.config ∧ linked.dim = h.dim ∧ linked.metric = h.metric ∧
          linked.idToUint32 = h.idToUint32.insert id h.nextID :=
        ⟨(config_of_skeleton heq).trans (inserted_config id vec),
          hdims.trans (inserted_dim id vec), (metric_of_skeleton heq).trans hinserted,
          hids.trans (inserted_idToUint32 id vec)⟩
      simp only
      split
      next => exact hall
      next => exact hall

/-- The one name an insertion adds is that of its new node. -/
theorem Added.uint32ToID {p : Platform} {env : Env} {id : Bytes} {vec : Vector}
    {result : Index × Option AddError} (hadded : Added p env h id vec result) :
    result.1.uint32ToID = h.uint32ToID.insert h.nextID id := by
  cases hadded with
  | refused err hreason => rfl
  | alone hdim hentry => exact inserted_uint32ToID id vec
  | joined linked entry hdim hentry hlinked =>
      have hskeleton : linked.skeleton.uint32ToID =
          (h.inserted p env id vec).skeleton.uint32ToID := by rw [hlinked.skeleton]
      have heq : linked.uint32ToID = h.uint32ToID.insert h.nextID id :=
        hskeleton.trans (inserted_uint32ToID id vec)
      simp only
      split
      next => exact heq
      next => exact heq

/-- The loop of a rebuild over distinct new ids. Only a refused write of the node store or a
vector of another dimension stops it. -/
theorem addAll_keeps (hevent : ∀ node, event node) (hfault : fault .vectorOutOfRange)
    (hm : h.config.m < 0 → fault .makeSlice) (entries : List (Bytes × Vector))
    (hcoherent : Coherent h) (hnodup : (entries.map Prod.fst).Nodup)
    (hnew : ∀ id ∈ entries.map Prod.fst, h.idToUint32.lookup id = none)
    (hbound : h.nextID + entries.length < 2 ^ 32) :
    Traced.Keeps event fault
      (fun result => Coherent result.1 ∧ result.1.metric = h.metric ∧
        result.1.deletedCount - result.1.deletedNodes = h.deletedCount - h.deletedNodes ∧
        (∀ id, Live result.1 id → id ∈ entries.map Prod.fst ∨ Live h id) ∧
        ((∀ entry ∈ entries, entry.2.length = h.dim) →
          (∀ n < h.nextID + entries.length, h.persistNode env n = true) →
          result.2 = none ∧ ∀ id, Live result.1 id ↔ id ∈ entries.map Prod.fst ∨ Live h id) ∧
        ∀ n name, result.1.uint32ToID.lookup n = some name → h.uint32ToID.lookup n = some name ∨
          ∃ i, (entries.map Prod.fst)[i]? = some name ∧ n = h.nextID + i)
      (addAll p env entries h) := by
  induction entries generalizing h with
  | nil =>
      exact Traced.Keeps.pure ⟨hcoherent, rfl, rfl, by simp, fun _ _ => ⟨rfl, by simp⟩,
        fun _ _ hname => Or.inl hname⟩
  | cons entry rest ih =>
      obtain ⟨id, vec⟩ := entry
      simp only [List.map_cons, List.nodup_cons, List.length_cons] at hnodup hbound
      have hid := hnew id List.mem_cons_self
      have hnext : h.nextID + 1 < 2 ^ 32 := by omega
      rw [addAll]
      refine (addNoLock_keeps hevent hfault hm hcoherent.layered hnext id vec).bind
        fun result hadded => ?_
      obtain ⟨hafter, hlive, hcount, hnodes, hnextID⟩ := hcoherent.added hnext hid hadded
      obtain ⟨hconfig, hdim, hmetric, hids⟩ := hadded.fields
      have hdrift : result.1.deletedCount - result.1.deletedNodes =
          h.deletedCount - h.deletedNodes := by rw [hcount, hnodes]
      have hpersist : result.1.persistNode env = h.persistNode env := by
        funext n
        unfold persistNode
        rw [hconfig]
      have hnames : ∀ n name, result.1.uint32ToID.lookup n = some name →
          h.uint32ToID.lookup n = some name ∨
            ∃ i, (((id, vec) :: rest).map Prod.fst)[i]? = some name ∧ n = h.nextID + i := by
        intro n name hname
        rw [hadded.uint32ToID, GoMap.lookup_insert_if] at hname
        split at hname
        next hn => exact Or.inr ⟨0, hname, hn⟩
        next => exact Or.inl hname
      obtain ⟨added, err⟩ := result
      cases err with
      | some err =>
          refine Traced.Keeps.pure ⟨hafter, hmetric, hdrift, fun id' hlive' => ?_,
            fun hdims hput => ?_, hnames⟩
          · exact Or.inr (((hlive id').mp hlive').resolve_left (by simp))
          -- the only two reasons for a refusal are excluded
          cases hadded with
          | refused _ hreason =>
              rcases hreason with hlength | hrefused
              · exact absurd (hdims (id, vec) List.mem_cons_self) hlength
              · rw [hput _ (by simp)] at hrefused
                cases hrefused
      | none =>
          have hrest := @ih added (by rw [hconfig]; exact hm) hafter hnodup.2
            (fun id' hid' => by
              rw [hids, AList.lookup_insert_ne]
              · exact hnew id' (List.mem_cons_of_mem _ hid')
              · rintro rfl
                exact hnodup.1 hid')
            (by rw [hnextID]; omega)
          refine hrest.imp fun last hlast => ?_
          obtain ⟨hcoherent', hmetric', hdrift', hsub, hdone, hlater⟩ := hlast
          refine ⟨hcoherent', hmetric'.trans hmetric, hdrift'.trans hdrift, fun id' hlive' => ?_,
            fun hdims hput => ?_, fun n name hname => ?_⟩
          · rw [List.map_cons, List.mem_cons]
            rcases hsub id' hlive' with hmem | hbefore
            · exact Or.inl (Or.inr hmem)
            · rcases (hlive id').mp hbefore with ⟨heq, _⟩ | hold
              · exact Or.inl (Or.inl heq)
              · exact Or.inr hold
          · obtain ⟨hnone, hlives⟩ := hdone
              (fun entry hentry => by
                rw [hdim]
                exact hdims entry (List.mem_cons_of_mem _ hentry))
              (fun n hn => by
                rw [hpersist]
                refine hput n ?_
                rw [hnextID] at hn
                rw [List.length_cons]
                omega)
            refine ⟨hnone, fun id' => ?_⟩
            rw [hlives, hlive, List.map_cons, List.mem_cons]
            tauto
          · rcases hlater n name hname with hbefore | ⟨i, hi, hn⟩
            · exact hnames n name hbefore
            · exact Or.inr ⟨i + 1, hi, by rw [hn, hnextID]; omega⟩

theorem Coherent.reset (hcoherent : Coherent h) : Coherent h.reset where
  layered :=
    { next_pos := Nat.one_pos
      entry_lt := Nat.one_pos
      node := by
        intro i node hnode
        have hnone : h.reset.getNodeFast i = none := by rcases i with _ | i <;> rfl
        rw [hnone] at hnode
        cases hnode
      entry := by
        intro node hnode
        cases hnode }
  tables :=
    { flags :=
        have hflags := hcoherent.tables.flags
        ⟨hflags.isCosine, hflags.isNormalized, hflags.useNorms, hflags.useQuantize,
          hflags.quantized⟩
      caches := rfl
      inverse := by simp [Index.reset]
      handed := by simp [Index.reset]
      node := by
        intro i node hnode
        have hnone : h.reset.getNodeFast i = none := by rcases i with _ | i <;> rfl
        rw [hnone] at hnode
        cases hnode
      count := rfl }
  bounded := by simp [Index.reset]

/-- A rebuild keeps the live ids, unless the node store refuses a node, and numbers them anew. -/
theorem rebuild_keeps (hevent : ∀ node, event node) (hfault : fault .vectorOutOfRange)
    (hm : h.config.m < 0 → fault .makeSlice) (hcoherent : Coherent h) :
    Traced.Keeps event fault
      (fun result => Coherent result.1 ∧ result.1.metric = h.metric ∧
        result.1.deletedCount = result.1.deletedNodes ∧ (∀ id, Live result.1 id → Live h id) ∧
        ((∀ n < h.nextID, h.persistNode env n = true) →
          result.2 = none ∧ ∀ id, Live result.1 id ↔ Live h id) ∧
        ∀ n name, result.1.uint32ToID.lookup n = some name →
          ∃ i, ((h.liveVectors p).map Prod.fst)[i]? = some name ∧ n = 1 + i)
      (rebuild p env h) := by
  unfold rebuild
  have hlength : (h.liveVectors p).length < h.nextID := by
    rw [liveVectors_eq, List.length_map]
    exact liveNodes_length_lt hcoherent.layered
  have hbounded := hcoherent.bounded
  have hall := @addAll_keeps h.reset p env event fault hevent hfault hm (h.liveVectors p)
    hcoherent.reset (liveVectors_nodup hcoherent) (fun _ _ => rfl)
    (by
      have hone : h.reset.nextID = 1 := rfl
      omega)
  refine hall.imp fun result hresult => ?_
  obtain ⟨hafter, hmetric, hdrift, hsub, hdone, hnames⟩ := hresult
  have hzero : h.reset.deletedCount - (h.reset.deletedNodes : Int) = 0 := rfl
  have hempty : ∀ id, ¬ Live h.reset id := by
    rintro id ⟨n, node, hlookup, _⟩
    simp [Index.reset] at hlookup
  refine ⟨hafter, hmetric, by omega, fun id hlive => ?_, fun hput => ?_,
    fun n name hname => (hnames n name hname).resolve_left (by simp [Index.reset])⟩
  · exact (mem_liveVectors_iff_live hcoherent id).mp ((hsub id hlive).resolve_right (hempty id))
  · obtain ⟨hnone, hlive⟩ := hdone (fun entry hentry => liveVectors_dim hcoherent hentry)
      (fun n hn => hput n (by
        have hone : h.reset.nextID = 1 := rfl
        omega))
    refine ⟨hnone, fun id => ?_⟩
    rw [hlive, mem_liveVectors_iff_live hcoherent]
    exact or_iff_left (hempty id)

end Rebuild

end Index

end Vectron.Hnsw
