import Vectron.Hnsw.Layers

/-! # Linking a new node

The loop that links a new node works down from its layer. Below the layer it has reached no
list leads to the new node yet, so no search of a lower layer can find it; lists only grow,
and everything but the lists stays as it was.
-/

namespace Vectron.Hnsw

open Foundation
open Worker (Vector)

namespace Index

variable {h : Index}

/-! ## Writing one list -/

theorem getNodeFast_setNeighbors (id l j : Nat) (list : List Nat) :
    (h.setNeighbors id l list).getNodeFast j =
      if j = id then
        (h.getNodeFast j).map fun node => { node with neighbors := node.neighbors.set l list }
      else h.getNodeFast j :=
  getNodeFast_modifyNode id j _

/-- A node after a list was written, by the node before. -/
theorem setNeighbors_cases {id l j : Nat} {list : List Nat} {node' : Node}
    (hnode' : (h.setNeighbors id l list).getNodeFast j = some node') :
    ∃ node, h.getNodeFast j = some node ∧
      node' = if j = id then { node with neighbors := node.neighbors.set l list } else node := by
  rw [getNodeFast_setNeighbors] at hnode'
  split at hnode'
  next hj =>
    obtain ⟨node, hnode, rfl⟩ := Option.map_eq_some_iff.mp hnode'
    exact ⟨node, hnode, by rw [if_pos hj]⟩
  next hj => exact ⟨node', hnode', by rw [if_neg hj]⟩

/-- The lists of a node after one list was written. -/
theorem setNeighbors_list {id l j l' : Nat} {list list' : List Nat} {node' : Node}
    (hnode' : (h.setNeighbors id l list).getNodeFast j = some node')
    (hlist' : node'.neighbors[l']? = some list') :
    j = id ∧ l' = l ∧ list' = list ∨
      ∃ node, h.getNodeFast j = some node ∧ node.neighbors[l']? = some list' := by
  obtain ⟨node, hnode, rfl⟩ := setNeighbors_cases hnode'
  split at hlist'
  next hj =>
    rw [List.getElem?_set] at hlist'
    split at hlist'
    next hl =>
      split at hlist'
      next => exact Or.inl ⟨hj, hl.symm, (Option.some.inj hlist').symm⟩
      next => cases hlist'
    next => exact Or.inr ⟨node, hnode, hlist'⟩
  next => exact Or.inr ⟨node, hnode, hlist'⟩

theorem setNeighbors_layer {id l j : Nat} {list : List Nat} {node' : Node}
    (hnode' : (h.setNeighbors id l list).getNodeFast j = some node') :
    ∃ node, h.getNodeFast j = some node ∧ node'.layer = node.layer ∧ node'.id = node.id ∧
      node'.neighbors.length = node.neighbors.length := by
  obtain ⟨node, hnode, rfl⟩ := setNeighbors_cases hnode'
  refine ⟨node, hnode, ?_⟩
  split
  next => exact ⟨rfl, rfl, List.length_set⟩
  next => exact ⟨rfl, rfl, rfl⟩

theorem Layered.setNeighbors {id l : Nat} {list : List Nat} (hlayered : Layered h)
    (hlist : ∀ e ∈ list, e ≠ id ∧ e < h.nextID ∧
      ∀ next, h.getNodeFast e = some next → l ≤ next.layer) :
    Layered (h.setNeighbors id l list) where
  next_pos := hlayered.next_pos
  entry_lt := hlayered.entry_lt
  node j node' hnode' := by
    obtain ⟨node, hnode, hlayer, hid, hlength⟩ := setNeighbors_layer hnode'
    have hlinked := hlayered.node j node hnode
    refine ⟨by rw [hid, hlinked.id], hlinked.pos, hlinked.lt, by rw [hlength, hlinked.lists, hlayer],
      fun l' list' hlist' e he => ?_⟩
    have hedge : e ≠ j ∧ e < h.nextID ∧ ∀ next, h.getNodeFast e = some next → l' ≤ next.layer := by
      rcases setNeighbors_list hnode' hlist' with ⟨rfl, rfl, rfl⟩ | ⟨old, hold, holdList⟩
      · exact hlist e he
      · exact (hlayered.node j old hold).edges l' list' holdList e he
    refine ⟨hedge.1, hedge.2.1, fun next hnext => ?_⟩
    obtain ⟨old, hold, holdLayer, _, _⟩ := setNeighbors_layer hnext
    rw [holdLayer]
    exact hedge.2.2 old hold
  entry node' hnode' := by
    obtain ⟨node, hnode, hlayer, _, _⟩ := setNeighbors_layer hnode'
    rw [hlayer]
    exact hlayered.entry node hnode

/-! ## The state of the loop -/

/-- The new node `new` is linked in the layers from `bound` to `top`, and the index is
otherwise still `base`. -/
structure Growing (base : Index) (new top bound : Nat) (h : Index) : Prop where
  skeleton : h.skeleton = base.skeleton
  layered : Layered h
  fresh : ∀ i node l list, l < bound → h.getNodeFast i = some node →
    node.neighbors[l]? = some list → new ∉ list
  kept : ∀ (i : Nat) (node : Node) (l : Nat) (list : List Nat), i ≠ new →
    base.getNodeFast i = some node →
    node.neighbors[l]? = some list → ∃ node' list', h.getNodeFast i = some node' ∧
      node'.neighbors[l]? = some list' ∧ list ⊆ list'
  own : ∀ l, bound ≤ l → l ≤ top → ∃ node list, h.getNodeFast new = some node ∧
    node.neighbors[l]? = some list ∧
      (0 < base.config.m → ∃ e ∈ list, e ≠ new ∧ (h.getNodeFast e).isSome)

section Growing

variable {base : Index} {new top bound : Nat}

theorem Growing.refl (hlayered : Layered base)
    (hfresh : ∀ (i : Nat) (node : Node) (l : Nat) (list : List Nat),
      base.getNodeFast i = some node → node.neighbors[l]? = some list → new ∉ list) :
    Growing base new top (top + 1) base where
  skeleton := rfl
  layered := hlayered
  fresh i node l list _ := hfresh i node l list
  kept i node l list _ hnode hlist := ⟨node, list, hnode, hlist, List.Subset.refl _⟩
  own l hle hge := by omega

theorem Growing.config (hgrowing : Growing base new top bound h) : h.config = base.config := by
  have hconfig : h.skeleton.config = base.skeleton.config := by rw [hgrowing.skeleton]
  exact hconfig

/-- Every node of the base is still there, with its id and layer. -/
theorem Growing.stored (hgrowing : Growing base new top bound h) {i : Nat} {node : Node}
    (hnode : base.getNodeFast i = some node) :
    ∃ node', h.getNodeFast i = some node' ∧ node'.layer = node.layer ∧ node'.id = node.id := by
  obtain ⟨node', hnode', hbare⟩ := getNodeFast_of_skeleton hgrowing.skeleton hnode
  have hlayer : node'.bare.layer = node.bare.layer := congrArg Node.layer hbare
  have hid : node'.bare.id = node.bare.id := congrArg Node.id hbare
  exact ⟨node', hnode', hlayer, hid⟩

theorem isSome_setNeighbors (id l j : Nat) (list : List Nat) :
    ((h.setNeighbors id l list).getNodeFast j).isSome = (h.getNodeFast j).isSome := by
  rw [getNodeFast_setNeighbors]
  split
  next => rw [Option.isSome_map]
  next => rfl

/-- The lists written at other places of the table are the old ones. -/
theorem setNeighbors_other {id l j l' : Nat} {list list' : List Nat} {node : Node}
    (hnode : h.getNodeFast j = some node) (hlist : node.neighbors[l']? = some list')
    (hother : j ≠ id ∨ l' ≠ l) :
    ∃ node', (h.setNeighbors id l list).getNodeFast j = some node' ∧
      node'.neighbors[l']? = some list' := by
  rw [getNodeFast_setNeighbors, hnode]
  split
  next hj =>
    refine ⟨_, rfl, ?_⟩
    rw [List.getElem?_set_ne (by tauto)]
    exact hlist
  next => exact ⟨node, rfl, hlist⟩

/-- Writing the list of the new node at the layer just above the bound. -/
theorem Growing.setOwn {l : Nat} {list : List Nat} {node : Node}
    (hgrowing : Growing base new top (l + 1) h) (hnode : h.getNodeFast new = some node)
    (hl : l ≤ node.layer)
    (hlist : ∀ e ∈ list, e ≠ new ∧ ∃ next, h.getNodeFast e = some next ∧ l ≤ next.layer)
    (hne : 0 < base.config.m → list ≠ []) :
    Growing base new top l (h.setNeighbors new l list) where
  skeleton := (skeleton_setNeighbors new l list).trans hgrowing.skeleton
  layered := by
    refine hgrowing.layered.setNeighbors fun e he => ?_
    obtain ⟨hne, next, hnext, hlayer⟩ := hlist e he
    refine ⟨hne, (hgrowing.layered.node e next hnext).lt, fun other hother => ?_⟩
    rw [hnext] at hother
    exact Option.some.inj hother ▸ hlayer
  fresh i node' l' list' hlt hnode' hlist' := by
    rcases setNeighbors_list hnode' hlist' with ⟨_, rfl, _⟩ | ⟨old, hold, holdList⟩
    · exact absurd hlt (lt_irrefl l')
    · exact hgrowing.fresh i old l' list' (by omega) hold holdList
  kept i node' l' list' hi hnode' hlist' := by
    obtain ⟨mid, midList, hmid, hmidList, hsub⟩ := hgrowing.kept i node' l' list' hi hnode' hlist'
    obtain ⟨after, hafter, hafterList⟩ := setNeighbors_other hmid hmidList (Or.inl hi)
    exact ⟨after, midList, hafter, hafterList, hsub⟩
  own l' hle hge := by
    by_cases hl' : l' = l
    · subst hl'
      have hlists := (hgrowing.layered.node new node hnode).lists
      refine ⟨{ node with neighbors := node.neighbors.set l' list }, list, ?_, ?_, fun hpos => ?_⟩
      · rw [getNodeFast_setNeighbors, if_pos rfl, hnode]
        rfl
      · exact List.getElem?_set_self (by omega)
      · obtain ⟨e, he⟩ := List.exists_mem_of_ne_nil list (hne hpos)
        obtain ⟨hother, next, hnext, _⟩ := hlist e he
        exact ⟨e, he, hother, by rw [isSome_setNeighbors, hnext]; rfl⟩
    · obtain ⟨mid, midList, hmid, hmidList, hedge⟩ := hgrowing.own l' (by omega) hge
      obtain ⟨after, hafter, hafterList⟩ := setNeighbors_other hmid hmidList (Or.inr hl')
      refine ⟨after, midList, hafter, hafterList, fun hpos => ?_⟩
      obtain ⟨e, he, hother, hstored⟩ := hedge hpos
      exact ⟨e, he, hother, by rw [isSome_setNeighbors]; exact hstored⟩

/-- Adding the new node to a list of the bound's layer. -/
theorem Growing.append {l id : Nat} {list : List Nat} {node neighbor : Node}
    (hgrowing : Growing base new top l h) (hnode : h.getNodeFast new = some node)
    (hl : l ≤ node.layer) (hid : id ≠ new) (hneighbor : h.getNodeFast id = some neighbor)
    (hlist : neighbor.neighbors[l]? = some list) :
    Growing base new top l (h.setNeighbors id l (list ++ [new])) where
  skeleton := (skeleton_setNeighbors id l _).trans hgrowing.skeleton
  layered := by
    refine hgrowing.layered.setNeighbors fun e he => ?_
    rcases List.mem_append.mp he with hold | hnew
    · exact (hgrowing.layered.node id neighbor hneighbor).edges l list hlist e hold
    · obtain rfl := List.mem_singleton.mp hnew
      refine ⟨Ne.symm hid, (hgrowing.layered.node e node hnode).lt, fun other hother => ?_⟩
      rw [hnode] at hother
      exact Option.some.inj hother ▸ hl
  fresh i node' l' list' hlt hnode' hlist' := by
    rcases setNeighbors_list hnode' hlist' with ⟨_, rfl, _⟩ | ⟨old, hold, holdList⟩
    · exact absurd hlt (lt_irrefl l')
    · exact hgrowing.fresh i old l' list' hlt hold holdList
  kept i node' l' list' hi hnode' hlist' := by
    obtain ⟨mid, midList, hmid, hmidList, hsub⟩ := hgrowing.kept i node' l' list' hi hnode' hlist'
    by_cases hsame : i = id ∧ l' = l
    · obtain ⟨rfl, rfl⟩ := hsame
      rw [hneighbor] at hmid
      obtain rfl := Option.some.inj hmid
      rw [hlist] at hmidList
      obtain rfl := Option.some.inj hmidList
      have hlists := (hgrowing.layered.node i neighbor hneighbor).lists
      obtain ⟨hlength, _⟩ := List.getElem?_eq_some_iff.mp hlist
      refine ⟨{ neighbor with neighbors := neighbor.neighbors.set l' (list ++ [new]) },
        list ++ [new], ?_, List.getElem?_set_self hlength,
        fun e he => List.mem_append_left _ (hsub he)⟩
      rw [getNodeFast_setNeighbors, if_pos rfl, hneighbor]
      rfl
    · obtain ⟨after, hafter, hafterList⟩ := setNeighbors_other hmid hmidList
        (not_and_or.mp hsame)
      exact ⟨after, midList, hafter, hafterList, hsub⟩
  own l' hle hge := by
    obtain ⟨mid, midList, hmid, hmidList, hedge⟩ := hgrowing.own l' hle hge
    obtain ⟨after, hafter, hafterList⟩ := setNeighbors_other hmid hmidList (Or.inl (Ne.symm hid))
    refine ⟨after, midList, hafter, hafterList, fun hpos => ?_⟩
    obtain ⟨e, he, hother, hstored⟩ := hedge hpos
    exact ⟨e, he, hother, by rw [isSome_setNeighbors]; exact hstored⟩

@[simp] theorem getNodeFast_markForPrune (id j : Nat) :
    (h.markForPrune id).getNodeFast j = h.getNodeFast j := by
  unfold markForPrune
  split <;> rfl

theorem Layered.markForPrune (hlayered : Layered h) (id : Nat) : Layered (h.markForPrune id) := by
  unfold Index.markForPrune
  split
  next => exact hlayered.congr rfl rfl rfl rfl
  next => exact hlayered

theorem Growing.markForPrune (hgrowing : Growing base new top bound h) (id : Nat) :
    Growing base new top bound (h.markForPrune id) where
  skeleton := (skeleton_markForPrune id).trans hgrowing.skeleton
  layered := hgrowing.layered.markForPrune id
  fresh i node l list := by
    rw [getNodeFast_markForPrune]
    exact hgrowing.fresh i node l list
  kept i node l list := by
    rw [getNodeFast_markForPrune]
    exact hgrowing.kept i node l list
  own l hle hge := by
    simp only [getNodeFast_markForPrune]
    exact hgrowing.own l hle hge

end Growing

/-! ## Edges both ways -/

/-- No stored node is deleted. -/
def AllLive (h : Index) : Prop := ∀ i node, h.getNodeFast i = some node → node.live = true

/-- A node has an edge to another one in a layer, which has one back. -/
def Mutual (h : Index) (new l : Nat) : Prop :=
  ∃ (e : Nat) (node other : Node) (list list' : List Nat), e ≠ new ∧
    h.getNodeFast new = some node ∧ node.neighbors[l]? = some list ∧ e ∈ list ∧
    h.getNodeFast e = some other ∧ other.neighbors[l]? = some list' ∧ new ∈ list'

theorem Growing.getNode_isSome {base : Index} {new top bound i : Nat}
    (hgrowing : Growing base new top bound h) (hlive : base.AllLive)
    (hsome : (h.getNodeFast i).isSome) : (h.getNode i).isSome := by
  obtain ⟨node, hnode⟩ := Option.isSome_iff_exists.mp hsome
  obtain ⟨old, hold, hbare⟩ := getNodeFast_of_skeleton hgrowing.skeleton.symm hnode
  have hsame : old.live = node.live := by
    change old.bare.live = node.bare.live
    rw [hbare]
  rw [getNode_eq_some.mpr ⟨hnode, hsame ▸ hlive i old hold⟩]
  rfl

/-- What a backlink that is made writes. -/
theorem backlink_value {new l nid : Nat} {after : Index}
    (hback : (backlink new l h nid).outcome = .ok after) :
    h.getNode nid = none ∧ after = h ∨
      ∃ neighbor list, h.getNode nid = some neighbor ∧ neighbor.neighbors[l]? = some list ∧
        ∀ j, after.getNodeFast j = (h.setNeighbors nid l (list ++ [new])).getNodeFast j := by
  unfold backlink at hback
  cases hnid : h.getNode nid with
  | none =>
      rw [hnid] at hback
      exact Or.inl ⟨rfl, (Except.ok.inj hback).symm⟩
  | some neighbor =>
      simp only [hnid] at hback
      cases hlist : neighbor.neighbors[l]? with
      | none =>
          rw [hlist] at hback
          cases hback
      | some list =>
          simp only [hlist] at hback
          obtain rfl := Except.ok.inj hback
          refine Or.inr ⟨neighbor, list, rfl, hlist, fun j => ?_⟩
          split
          next => exact getNodeFast_markForPrune _ j
          next => rfl

/-- A backlink keeps an edge that goes both ways. -/
theorem Mutual.backlink {new l nid : Nat} {after : Index} (hmutual : Mutual h new l)
    (hnid : nid ≠ new) (hback : (Index.backlink new l h nid).outcome = .ok after) :
    Mutual after new l := by
  rcases backlink_value hback with ⟨_, rfl⟩ | ⟨neighbor, grown, hneighbor, hgrown, hread⟩
  · exact hmutual
  · obtain ⟨e, node, other, list, list', hne, hnode, hlist, hmem, hother, hlist', hmem'⟩ := hmutual
    have hnode' : after.getNodeFast new = some node := by
      rw [hread, getNodeFast_setNeighbors, if_neg hnid.symm, hnode]
    by_cases he : e = nid
    · subst he
      rw [(getNode_eq_some.mp hneighbor).1] at hother
      obtain rfl := Option.some.inj hother
      obtain ⟨hlength, _⟩ := List.getElem?_eq_some_iff.mp hgrown
      refine ⟨e, node, { neighbor with neighbors := neighbor.neighbors.set l (grown ++ [new]) },
        list, grown ++ [new], hne, hnode', hlist, hmem, ?_, List.getElem?_set_self hlength,
        List.mem_append_right _ (List.mem_singleton_self new)⟩
      rw [hread, getNodeFast_setNeighbors, if_pos rfl, (getNode_eq_some.mp hneighbor).1]
      rfl
    · refine ⟨e, node, other, list, list', hne, hnode', hlist, hmem, ?_, hlist', hmem'⟩
      rw [hread, getNodeFast_setNeighbors, if_neg he, hother]

/-- The first of the backlinks closes an edge both ways. -/
theorem fold_backlink_mutual {new l : Nat} {node : Node} {neighbors : List Nat}
    (hne : neighbors ≠ []) (hother : ∀ nid ∈ neighbors, nid ≠ new)
    (hlive : ∀ nid ∈ neighbors, (h.getNode nid).isSome) (hnode : h.getNodeFast new = some node)
    (hl : l < node.neighbors.length) :
    Traced.Keeps (fun _ => True) (fun _ => True) (fun linked => Mutual linked new l)
      (Traced.fold (backlink new l) (h.setNeighbors new l neighbors) neighbors) := by
  obtain ⟨nid, rest, rfl⟩ := List.exists_cons_of_ne_nil hne
  have hnid := hother nid List.mem_cons_self
  rw [Traced.fold]
  have hfirst : Traced.Keeps (fun _ => True) (fun _ => True) (fun linked => Mutual linked new l)
      (backlink new l (h.setNeighbors new l (nid :: rest)) nid) := by
    refine ⟨fun _ _ => trivial, fun _ _ => trivial, fun after hback => ?_⟩
    have hset : (h.setNeighbors new l (nid :: rest)).getNodeFast new =
        some { node with neighbors := node.neighbors.set l (nid :: rest) } := by
      rw [getNodeFast_setNeighbors, if_pos rfl, hnode]
      rfl
    have hsame : (h.setNeighbors new l (nid :: rest)).getNode nid = h.getNode nid := by
      rw [getNode, getNodeFast_setNeighbors, if_neg hnid, getNode]
    rcases backlink_value hback with ⟨hnone, _⟩ | ⟨neighbor, list, hneighbor, hlist, hread⟩
    · have hsome := hlive nid List.mem_cons_self
      rw [← hsame, hnone] at hsome
      cases hsome
    · obtain ⟨hlength, _⟩ := List.getElem?_eq_some_iff.mp hlist
      refine ⟨nid, { node with neighbors := node.neighbors.set l (nid :: rest) },
        { neighbor with neighbors := neighbor.neighbors.set l (list ++ [new]) }, nid :: rest,
        list ++ [new], hnid, ?_, List.getElem?_set_self hl, List.mem_cons_self, ?_,
        List.getElem?_set_self hlength, List.mem_append_right _ (List.mem_singleton_self new)⟩
      · rw [hread, getNodeFast_setNeighbors, if_neg hnid.symm, hset]
      · rw [hread, getNodeFast_setNeighbors, if_pos rfl, (getNode_eq_some.mp hneighbor).1]
        rfl
  refine hfirst.bind fun after hafter => Traced.Keeps.fold (fun h' other hmem hmutual => ?_) hafter
  refine ⟨fun _ _ => trivial, fun _ _ => trivial, fun last hlast => ?_⟩
  exact hmutual.backlink (hother other (List.mem_cons_of_mem nid hmem)) hlast

/-! ## The loop -/

section Loop

variable {p : Platform} {event : Node → Prop} {fault : Fault → Prop} {base : Index}
  {new top : Nat}

/-- Distances to stored nodes, from a query or from one another, cause only such events and
faults, whatever the lists are. -/
structure Measured (p : Platform) (base : Index) (query : Vector) (qvec : Option Bytes)
    (event : Node → Prop) (fault : Fault → Prop) : Prop where
  measure : ∀ (h : Index) node, h.skeleton = base.skeleton → h.getNodeFast node.id = some node →
    Traced.Keeps event fault (fun _ => True) (h.distanceToNode p query qvec (some node))
  batchInt8 : ∀ (h : Index) node stored, h.skeleton = base.skeleton →
    h.getNodeFast node.id = some node → qvec = some stored →
    Traced.Keeps event fault (fun _ => True) (h.batchDistanceInt8 p query stored node)
  batchFloat : ∀ (h : Index) node, h.skeleton = base.skeleton →
    h.getNodeFast node.id = some node → qvec = none → h.config.normalized = true →
    Traced.Keeps event fault (fun _ => True) (h.batchDistanceFloat p query node)
  tooClose : ∀ (h : Index) cand selected, h.skeleton = base.skeleton →
    Traced.Keeps event fault (fun _ => True) (h.tooClose p cand selected)

theorem measured_of_fault (query : Vector) (qvec : Option Bytes) (hevent : ∀ node, event node)
    (hfault : fault .vectorOutOfRange) : Measured p base query qvec event fault where
  measure _ node _ _ := distanceToNode_keeps query qvec (hevent node) hfault
  batchInt8 _ node stored _ _ _ := batchDistanceInt8_keeps query stored (hevent node) hfault
  batchFloat _ node _ _ _ _ := batchDistanceFloat_keeps query (hevent node) hfault
  tooClose _ _ selected _ :=
    tooClose_keeps (fun _ _ => distanceToNode_keeps _ _ (hevent _) hfault) selected

/-- The stored nodes other than one that no list of the layers leads to. -/
theorem terrain_of_measured {query : Vector} {qvec : Option Bytes} {layers : Nat → Prop}
    (hmeasured : Measured p base query qvec event fault) (hskeleton : h.skeleton = base.skeleton)
    (hlayered : Layered h)
    (hfresh : ∀ (i : Nat) (node : Node) (l : Nat) (list : List Nat), layers l →
      h.getNodeFast i = some node → node.neighbors[l]? = some list → new ∉ list) :
    Terrain p h query qvec layers event fault
      (fun node => h.getNodeFast node.id = some node ∧ node.id ≠ new) (fun _ => True) where
  measure node hground := hmeasured.measure h node hskeleton hground.1
  batchInt8 node hground stored hqvec :=
    hmeasured.batchInt8 h node stored hskeleton hground.1 hqvec
  batchFloat node hground hqvec hnormalized :=
    hmeasured.batchFloat h node hskeleton hground.1 hqvec hnormalized
  stored node hground := hground.1
  closed l hl node hground _ hlayer := by
    obtain ⟨list, hlist⟩ := hlayered.list hground.1 hlayer
    refine ⟨list, hlist, fun nid hnid next hnext => ?_⟩
    have hid := (hlayered.node nid next hnext).id
    have hlt := ((hlayered.node node.id node hground.1).edges l list hlist nid hnid).2.2
    have hne : nid ≠ new := by
      rintro rfl
      exact hfresh node.id node l list hl hground.1 hlist hnid
    exact ⟨⟨by rw [hid]; exact hnext, by rw [hid]; exact hne⟩, hid, hlt next hnext⟩

theorem terrain_of_fresh (query : Vector) (qvec : Option Bytes) {layers : Nat → Prop}
    (hevent : ∀ node, event node) (hfault : fault .vectorOutOfRange) (hlayered : Layered h)
    (hfresh : ∀ (i : Nat) (node : Node) (l : Nat) (list : List Nat), layers l →
      h.getNodeFast i = some node → node.neighbors[l]? = some list → new ∉ list) :
    Terrain p h query qvec layers event fault
      (fun node => h.getNodeFast node.id = some node ∧ node.id ≠ new) (fun _ => True) :=
  terrain_of_measured (measured_of_fault query qvec hevent hfault) rfl hlayered hfresh

/-- A node that a search may start from, other than the new one. -/
def Startable (h : Index) (new l curr : Nat) : Prop :=
  curr ≠ new ∧ ∃ node, h.getNodeFast curr = some node ∧ l ≤ node.layer

theorem backlink_keeps {l : Nat} {node : Node} (hnode : base.getNodeFast new = some node)
    (hl : l ≤ node.layer) {nid : Nat} (hnid : nid ≠ new)
    (hlayer : ∀ next, base.getNodeFast nid = some next → l ≤ next.layer)
    (hgrowing : Growing base new top l h) :
    Traced.Keeps event fault (Growing base new top l) (backlink new l h nid) := by
  unfold backlink
  split
  next => exact Traced.Keeps.pure hgrowing
  next neighbor hneighbor =>
    have hstored := (getNode_eq_some.mp hneighbor).1
    obtain ⟨node', hnode', hlayer', _⟩ := hgrowing.stored hnode
    obtain ⟨next, hnext, hbare⟩ := getNodeFast_of_skeleton hgrowing.skeleton.symm hstored
    have hsame : next.bare.layer = neighbor.bare.layer := congrArg Node.layer hbare
    have hreach : l ≤ neighbor.layer := (hlayer next hnext).trans_eq hsame
    obtain ⟨list, hlist⟩ := hgrowing.layered.list hstored hreach
    rw [hlist]
    have hafter := hgrowing.append hnode' (hlayer' ▸ hl) hnid hstored hlist
    refine Traced.Keeps.pure ?_
    split
    next => exact hafter.markForPrune _
    next => exact hafter

section

variable {searchVec : Vector} {qvec : Option Bytes}
  (hmeasured : Measured p base searchVec qvec event fault)
  (hm : base.config.m < 0 → fault .makeSlice)

include hmeasured hm

theorem linkLayer_keeps {l curr : Nat} {node : Node} (hnode : base.getNodeFast new = some node)
    (hl : l ≤ node.layer) (hgrowing : Growing base new top (l + 1) h)
    (hcurr : Startable h new l curr) :
    Traced.Keeps event fault
      (fun result => Growing base new top l result.1 ∧ Startable result.1 new l result.2 ∧
        (base.AllLive → 0 < base.config.m → Mutual result.1 new l))
      (linkLayer p new searchVec qvec l h curr) := by
  obtain ⟨hne, start, hstart, hlayer⟩ := hcurr
  have hlayered := hgrowing.layered
  have hterrain := @terrain_of_measured h p event fault base new searchVec qvec (fun l' => l' = l)
    hmeasured hgrowing.skeleton hlayered
    (fun i node l' list hl' => hgrowing.fresh i node l' list (by omega))
  have hid := (hlayered.node curr start hstart).id
  have hground : ∀ node, h.getNodeFast curr = some node →
      (h.getNodeFast node.id = some node ∧ node.id ≠ new) ∧ l ≤ node.layer := by
    intro other hother
    rw [hstart] at hother
    obtain rfl := Option.some.inj hother
    rw [hid]
    exact ⟨⟨hstart, hne⟩, hlayer⟩
  have hsome : h.getNodeFast curr = none → fault .nilDereference := by
    rw [hstart]
    nofun
  unfold linkLayer
  refine (searchLayer_keeps hterrain rfl h.config.efConstruction hground hsome).bind
    fun candidates hfound => ?_
  have hconfig := hgrowing.config
  refine (selectNeighborsHeuristic_selects
    (fun cand selected => hmeasured.tooClose h cand selected hgrowing.skeleton) candidates
    (by rw [hconfig]; exact hm)).bind fun selection hselection => ?_
  -- every candidate, and so every selected id, is a node of the layer other than the new one
  have hcandidate : ∀ c ∈ candidates, c.id ≠ new ∧
      ∃ next, h.getNodeFast c.id = some next ∧ l ≤ next.layer := by
    intro c hc
    have hplaced := hfound.placed c hc
    rw [hplaced.id]
    exact ⟨hplaced.ground.2, c.node, hplaced.ground.1, hplaced.layer⟩
  have hselected : ∀ e ∈ selection.2, e ≠ new ∧
      ∃ next, h.getNodeFast e = some next ∧ l ≤ next.layer := by
    intro e he
    obtain ⟨c, hc, rfl⟩ := hselection.chosen e he
    exact hcandidate c hc
  obtain ⟨node', hnode', hlayer', _⟩ := hgrowing.stored hnode
  have hown : Growing base new top l (h.setNeighbors new l selection.2) :=
    hgrowing.setOwn hnode' (hlayer' ▸ hl) hselected
      fun hpos => hselection.nonempty hfound.nonempty (by rw [hconfig]; exact hpos)
  have hbase : ∀ nid ∈ selection.2, ∀ next, base.getNodeFast nid = some next →
      l ≤ next.layer := by
    intro nid hnid next hnext
    obtain ⟨_, stored, hstored, hreach⟩ := hselected nid hnid
    obtain ⟨other, hother, hsame, _⟩ := hgrowing.stored hnext
    rw [hstored] at hother
    obtain rfl := Option.some.inj hother
    exact hsame ▸ hreach
  have hfold : Traced.Keeps event fault (Growing base new top l)
      (Traced.fold (backlink new l) (h.setNeighbors new l selection.2) selection.2) :=
    Traced.Keeps.fold (fun h' nid hmem hgrowing' =>
      backlink_keeps hnode hl (hselected nid hmem).1 (hbase nid hmem) hgrowing') hown
  have hmutual : Traced.Keeps (fun _ => True) (fun _ => True)
      (fun linked => base.AllLive → 0 < base.config.m → Mutual linked new l)
      (Traced.fold (backlink new l) (h.setNeighbors new l selection.2) selection.2) := by
    refine ⟨fun _ _ => trivial, fun _ _ => trivial, fun linked hlinked hlive hpos => ?_⟩
    have hne : selection.2 ≠ [] := hselection.nonempty hfound.nonempty (by rw [hconfig]; exact hpos)
    have hlists := (hgrowing.layered.node new node' hnode').lists
    have hthere : l < node'.neighbors.length := by omega
    refine (fold_backlink_mutual hne (fun nid hmem => (hselected nid hmem).1) (fun nid hmem => ?_)
      hnode' hthere).value linked hlinked
    obtain ⟨_, next, hnext, _⟩ := hselected nid hmem
    exact hgrowing.getNode_isSome hlive (hnext ▸ rfl)
  refine (hfold.and hmutual).bind fun linked hboth => ?_
  obtain ⟨hlinked, hlinkedBack⟩ := hboth
  refine Traced.Keeps.pure ⟨hlinked, ?_, hlinkedBack⟩
  have hkeep : ∀ i, Startable h new l i → Startable linked new l i := by
    rintro i ⟨hi, stored, hstored, hreach⟩
    obtain ⟨after, hafter, hbare⟩ := getNodeFast_of_skeleton
      (hlinked.skeleton.trans hgrowing.skeleton.symm) hstored
    have hsame : after.bare.layer = stored.bare.layer := congrArg Node.layer hbare
    exact ⟨hi, after, hafter, hreach.trans_eq hsame.symm⟩
  have hcurr : Startable linked new l curr := hkeep curr ⟨hne, start, hstart, hlayer⟩
  simp only
  split
  next c hhead =>
    split
    next =>
      refine hkeep c.id (hcandidate c ?_)
      exact hselection.sorted.subset (List.mem_of_head? hhead)
    next => exact hcurr
  next => exact hcurr

theorem linkLayers_keeps {count curr : Nat} {node : Node} (hnode : base.getNodeFast new = some node)
    (hl : count ≤ node.layer + 1) (hgrowing : Growing base new top count h)
    (hcurr : Startable h new (count - 1) curr) :
    Traced.Keeps event fault
      (fun linked => Growing base new top 0 linked ∧
        (0 < count → base.AllLive → 0 < base.config.m → Mutual linked new 0))
      (linkLayers p new searchVec qvec count h curr) := by
  induction count generalizing h curr with
  | zero => exact Traced.Keeps.pure ⟨hgrowing, fun hcount => absurd hcount (lt_irrefl 0)⟩
  | succ l ih =>
      rw [linkLayers]
      refine (linkLayer_keeps hmeasured hm hnode (by omega) hgrowing hcurr).bind
        fun result hresult => ?_
      obtain ⟨hgrowing', ⟨hne, start, hstart, hlayer⟩, hmutual⟩ := hresult
      cases l with
      | zero => exact Traced.Keeps.pure ⟨hgrowing', fun _ => hmutual⟩
      | succ l =>
          have hrest := ih (by omega) hgrowing' ⟨hne, start, hstart, by omega⟩
          exact hrest.imp fun linked hboth => ⟨hboth.1, fun _ => hboth.2 (by omega)⟩

end

/-- Linking a node that is in the table and that no list leads to. -/
theorem linkNode_keeps {searchVec : Vector}
    (hmeasured : Measured p h searchVec (h.maybeQuantizeQuery p searchVec) event fault)
    (hm : h.config.m < 0 → fault .makeSlice) {node entry : Node} (hlayered : Layered h)
      (hnode : h.getNodeFast node.id = some node)
    (hfresh : ∀ (i : Nat) (other : Node) (l : Nat) (list : List Nat),
      h.getNodeFast i = some other → other.neighbors[l]? = some list → node.id ∉ list)
    (hentry : h.getNodeFast h.entry = some entry) (hne : h.entry ≠ node.id) :
    Traced.Keeps event fault
      (fun result => ∃ linked, Growing h node.id (min node.layer h.maxLayer) 0 linked ∧
        (h.AllLive → 0 < h.config.m → Mutual linked node.id 0) ∧
        result = if h.maxLayer < node.layer then linked.enter node else linked)
      (h.linkNode p node entry searchVec) := by
  unfold linkNode
  have hid := (hlayered.node h.entry entry hentry).id
  have htop := hlayered.entry entry hentry
  have hterrain := @terrain_of_measured h p event fault h node.id searchVec
    (h.maybeQuantizeQuery p searchVec) (fun _ => True) hmeasured rfl hlayered
    (fun i other l list _ => hfresh i other l list)
  have hground : ∀ other, some entry = some other →
      (h.getNodeFast other.id = some other ∧ other.id ≠ node.id) ∧ h.maxLayer ≤ other.layer := by
    intro other hother
    cases hother
    exact ⟨⟨by rw [hid]; exact hentry, by rw [hid]; exact hne⟩, by omega⟩
  refine (descendLayers_keeps hterrain (fun _ _ _ => trivial) hground nofun).bind
    fun start hstart => ?_
  -- the descent stays at the entry point or ends above the layer of the new node
  have hfound : ∃ curr, start = some curr ∧
      Startable h node.id (min node.layer h.maxLayer) curr.id := by
    rcases hstart with ⟨rfl, hle⟩ | ⟨curr, rfl, hcurr, habove⟩
    · exact ⟨entry, rfl, by rw [hid]; exact hne, entry, by rw [hid]; exact hentry, by omega⟩
    · exact ⟨curr, rfl, hcurr.2, curr, hcurr.1, by omega⟩
  obtain ⟨curr, rfl, hstartable⟩ := hfound
  have hlinks := @linkLayers_keeps h p event fault h node.id (min node.layer h.maxLayer)
    searchVec (h.maybeQuantizeQuery p searchVec) hmeasured hm
    (min node.layer h.maxLayer + 1) curr.id node hnode (by omega)
    (Growing.refl hlayered hfresh) hstartable
  refine hlinks.bind fun linked hlinked => Traced.Keeps.pure ?_
  exact ⟨linked, hlinked.1, hlinked.2 (Nat.succ_pos _), rfl⟩

end Loop

/-! ## Insertion as a whole -/

section Add

variable (p : Platform) (env : Env)

/-- The node `addNoLock` makes of a vector. -/
def drawnNode (h : Index) (vec : Vector) : Node :=
  h.newNode p h.nextID (randomLayer (env.grows h.nextID) h.config.maxLevel.toNat 0) vec

/-- The index with that node in its table, not linked yet. -/
def inserted (h : Index) (id : Bytes) (vec : Vector) : Index :=
  (h.assign id).place id (h.drawnNode p env vec)

/-- What `addNoLock` can end with. -/
inductive Added (h : Index) (id : Bytes) (vec : Vector) : Index × Option AddError → Prop
  | refused (err : AddError)
      (hreason : vec.length ≠ h.dim ∨ h.persistNode env h.nextID = false) :
      Added h id vec (h.assign id, some err)
  | alone (hdim : vec.length = h.dim) (hentry : h.getNode h.entry = none) :
      Added h id vec ((h.inserted p env id vec).enter (h.drawnNode p env vec), none)
  | joined (linked : Index) (entry : Node) (hdim : vec.length = h.dim)
      (hentry : h.getNode h.entry = some entry)
      (hlinked : Growing (h.inserted p env id vec) h.nextID
        (min (h.drawnNode p env vec).layer h.maxLayer) 0 linked) :
      Added h id vec
        (if h.maxLayer < (h.drawnNode p env vec).layer then linked.enter (h.drawnNode p env vec)
          else linked, none)

variable {p env}

theorem drawnNode_id (vec : Vector) : (h.drawnNode p env vec).id = h.nextID := by
  simp only [drawnNode, newNode]
  split_ifs <;> rfl

theorem drawnNode_neighbors (vec : Vector) : (h.drawnNode p env vec).neighbors =
    List.replicate ((h.drawnNode p env vec).layer + 1) [] := by
  simp only [drawnNode, newNode]
  split_ifs <;> rfl

theorem drawnNode_live (vec : Vector) : (h.drawnNode p env vec).live = true := by
  simp only [drawnNode, newNode, Node.live]
  split_ifs <;> simp

theorem getNodeFast_place (id : Bytes) (node : Node) (j : Nat) :
    (h.place id node).getNodeFast j = if j = node.id then some node else h.getNodeFast j := by
  have hset : (h.place id node).getNodeFast j =
      ((h.ensureNodeCapacity node.id).setSlot node.id (some node)).getNodeFast j := rfl
  rw [hset, getNodeFast_setSlot, getNodeFast_ensureNodeCapacity]
  by_cases hj : j = node.id
  · rw [if_pos ⟨hj, lt_length_ensureNodeCapacity node.id⟩, if_pos hj]
  · rw [if_neg (fun hboth => hj hboth.1), if_neg hj]

theorem getNodeFast_inserted (id : Bytes) (vec : Vector) (j : Nat) :
    (h.inserted p env id vec).getNodeFast j =
      if j = h.nextID then some (h.drawnNode p env vec) else h.getNodeFast j := by
  rw [inserted, getNodeFast_place, drawnNode_id]
  rfl

@[simp] theorem ensureNodeCapacity_nextID (id : Nat) :
    (h.ensureNodeCapacity id).nextID = h.nextID := by
  unfold ensureNodeCapacity
  split <;> rfl

@[simp] theorem ensureNodeCapacity_entry (id : Nat) :
    (h.ensureNodeCapacity id).entry = h.entry := by
  unfold ensureNodeCapacity
  split <;> rfl

@[simp] theorem ensureNodeCapacity_maxLayer (id : Nat) :
    (h.ensureNodeCapacity id).maxLayer = h.maxLayer := by
  unfold ensureNodeCapacity
  split <;> rfl

@[simp] theorem ensureNodeCapacity_config (id : Nat) :
    (h.ensureNodeCapacity id).config = h.config := by
  unfold ensureNodeCapacity
  split <;> rfl

theorem inserted_nextID (hnext : h.nextID + 1 < 2 ^ 32) (id : Bytes) (vec : Vector) :
    (h.inserted p env id vec).nextID = h.nextID + 1 := by
  have heq : (h.inserted p env id vec).nextID = (h.nextID + 1) % 2 ^ 32 := by
    simp [inserted, place, setSlot, assign]
  rw [heq, Nat.mod_eq_of_lt hnext]

@[simp] theorem inserted_entry (id : Bytes) (vec : Vector) :
    (h.inserted p env id vec).entry = h.entry := by
  simp [inserted, place, setSlot, assign]

@[simp] theorem inserted_maxLayer (id : Bytes) (vec : Vector) :
    (h.inserted p env id vec).maxLayer = h.maxLayer := by
  simp [inserted, place, setSlot, assign]

@[simp] theorem inserted_config (id : Bytes) (vec : Vector) :
    (h.inserted p env id vec).config = h.config := by
  simp [inserted, place, setSlot, assign]

/-- No list leads to an id that was not handed out. -/
theorem Layered.unlinked (hlayered : Layered h) {i l : Nat} {node : Node} {list : List Nat}
    (hnode : h.getNodeFast i = some node) (hlist : node.neighbors[l]? = some list) :
    h.nextID ∉ list := fun hmem =>
  lt_irrefl _ ((hlayered.node i node hnode).edges l list hlist h.nextID hmem).2.1

section

variable (hlayered : Layered h) (hnext : h.nextID + 1 < 2 ^ 32) (id : Bytes)

include hlayered hnext

theorem Layered.assign :
    Layered (h.assign id) := by
  have heq : (h.assign id).nextID = h.nextID + 1 := Nat.mod_eq_of_lt hnext
  refine ⟨by omega, ?_, fun i node hnode => ?_, hlayered.entry⟩
  · have hlt : (h.assign id).entry < h.nextID := hlayered.entry_lt
    omega
  · have hlinked := hlayered.node i node hnode
    have hlt := hlinked.lt
    refine ⟨hlinked.id, hlinked.pos, by omega, hlinked.lists, fun l list hlist e he => ?_⟩
    obtain ⟨hne, hbelow, htarget⟩ := hlinked.edges l list hlist e he
    exact ⟨hne, by omega, htarget⟩

theorem Layered.inserted (vec : Vector) : Layered (h.inserted p env id vec) := by
  have hnextID := @inserted_nextID h p env hnext id vec
  refine ⟨by omega, ?_, fun i node hnode => ?_, fun node hnode => ?_⟩
  · have hlt := hlayered.entry_lt
    rw [inserted_entry, hnextID]
    omega
  · rw [getNodeFast_inserted] at hnode
    split at hnode
    next hi =>
      cases hnode
      subst hi
      refine ⟨drawnNode_id vec, hlayered.next_pos, by omega, ?_, fun l list hlist e he => ?_⟩
      · rw [drawnNode_neighbors, List.length_replicate]
      · rw [drawnNode_neighbors, List.getElem?_replicate] at hlist
        split at hlist
        next =>
          cases hlist
          cases he
        next => cases hlist
    next hi =>
      have hlinked := hlayered.node i node hnode
      have hlt := hlinked.lt
      refine ⟨hlinked.id, hlinked.pos, by omega, hlinked.lists, fun l list hlist e he => ?_⟩
      obtain ⟨hne, hbelow, htarget⟩ := hlinked.edges l list hlist e he
      refine ⟨hne, by omega, fun next hnext' => ?_⟩
      rw [getNodeFast_inserted, if_neg (by omega)] at hnext'
      exact htarget next hnext'
  · have hlt := hlayered.entry_lt
    rw [inserted_entry, getNodeFast_inserted, if_neg (by omega)] at hnode
    rw [inserted_maxLayer]
    exact hlayered.entry node hnode

end

theorem allLive_inserted (hlive : h.AllLive) (id : Bytes) (vec : Vector) :
    (h.inserted p env id vec).AllLive := by
  intro i node hnode
  rw [getNodeFast_inserted] at hnode
  split at hnode
  next =>
    cases hnode
    exact drawnNode_live vec
  next => exact hlive i node hnode

theorem Layered.enter {node stored : Node} (hlayered : Layered h)
    (hstored : h.getNodeFast node.id = some stored) (hlayer : stored.layer = node.layer) :
    Layered (h.enter node) := by
  refine ⟨hlayered.next_pos, (hlayered.node node.id stored hstored).lt,
    fun i other hother => ?_, fun other hother => ?_⟩
  · have hlinked := hlayered.node i other hother
    exact ⟨hlinked.id, hlinked.pos, hlinked.lt, hlinked.lists, hlinked.edges⟩
  · have hread : h.getNodeFast node.id = some other := hother
    rw [hstored] at hread
    obtain rfl := Option.some.inj hread
    exact hlayer

theorem unlinked_inserted (hlayered : Layered h) (id : Bytes) (vec : Vector) (i : Nat)
    (node : Node) (l : Nat) (list : List Nat)
    (hnode : (h.inserted p env id vec).getNodeFast i = some node)
    (hlist : node.neighbors[l]? = some list) : h.nextID ∉ list := by
  rw [getNodeFast_inserted] at hnode
  split at hnode
  next =>
    cases hnode
    rw [drawnNode_neighbors, List.getElem?_replicate] at hlist
    split at hlist
    next =>
      cases hlist
      exact List.not_mem_nil
    next => cases hlist
  next => exact hlayered.unlinked hnode hlist

variable {event : Node → Prop} {fault : Fault → Prop}

/-- The vector `addNoLock` searches with. -/
def searchVec (p : Platform) (h : Index) (vec : Vector) : Vector :=
  if h.config.normalized then p.normalize vec else vec

/-- What `addNoLock` ends with, and that a node which is linked to others has an edge both ways
to one of them. -/
theorem addNoLock_links {id : Bytes} {vec : Vector}
    (hmeasured : vec.length = h.dim → Measured p (h.inserted p env id vec)
      ((h.inserted p env id vec).searchVec p vec)
      ((h.inserted p env id vec).maybeQuantizeQuery p ((h.inserted p env id vec).searchVec p vec))
      event fault)
    (hm : h.config.m < 0 → fault .makeSlice) (hlayered : Layered h)
    (hnext : h.nextID + 1 < 2 ^ 32) :
    Traced.Keeps event fault
      (fun result => Added p env h id vec result ∧ (result.2 = none →
        (h.getNode h.entry).isSome → h.AllLive → 0 < h.config.m → Mutual result.1 h.nextID 0))
      (addNoLock p env h id vec) := by
  have hentryNode : (h.inserted p env id vec).getNode h.entry = h.getNode h.entry := by
    have hlt := hlayered.entry_lt
    rw [getNode, getNodeFast_inserted, if_neg (by omega), getNode]
  unfold addNoLock
  refine Traced.Keeps.ite (fun hdim => ?_) (fun hdim => ?_)
  · exact Traced.Keeps.pure ⟨Added.refused _ (Or.inl hdim), fun hnone => by cases hnone⟩
  · have hdim : vec.length = h.dim := by simpa [assign] using hdim
    refine Traced.Keeps.ite (fun hneg => Traced.Keeps.raise (hm hneg)) (fun _ => ?_)
    refine Traced.Keeps.ite (fun hput => ?_) (fun _ => ?_)
    · refine Traced.Keeps.pure ⟨Added.refused _ (Or.inr ?_), fun hnone => by cases hnone⟩
      simpa [persistNode, assign] using hput
    · change Traced.Keeps event fault _
        (if (h.inserted p env id vec).entry = 0 then _ else _)
      refine Traced.Keeps.ite (fun hzero => ?_) (fun _ => ?_)
      · rw [inserted_entry] at hzero
        have hnone : h.getNode h.entry = none := by
          rw [hzero, getNode, hlayered.not_zero]
          rfl
        refine Traced.Keeps.pure ⟨Added.alone hdim hnone, fun _ hsome => ?_⟩
        rw [hnone] at hsome
        cases hsome
      · split
        next hnone =>
          have hnone : (h.inserted p env id vec).getNode (h.inserted p env id vec).entry = none :=
            hnone
          rw [inserted_entry, hentryNode] at hnone
          refine Traced.Keeps.pure ⟨Added.alone hdim hnone, fun _ hsome => ?_⟩
          rw [hnone] at hsome
          cases hsome
        next entry hentry' =>
          have hentry : (h.inserted p env id vec).getNode (h.inserted p env id vec).entry =
              some entry := hentry'
          rw [inserted_entry, hentryNode] at hentry
          have hself : (h.inserted p env id vec).getNodeFast (h.drawnNode p env vec).id =
              some (h.drawnNode p env vec) := by
            rw [getNodeFast_inserted, drawnNode_id, if_pos rfl]
          have hlink := @linkNode_keeps (h.inserted p env id vec) p event fault
            ((h.inserted p env id vec).searchVec p vec) (hmeasured hdim)
            (by rw [inserted_config]; exact hm)
            (h.drawnNode p env vec) entry (hlayered.inserted hnext id vec) hself
            (by rw [drawnNode_id]; exact unlinked_inserted hlayered id vec)
            (getNode_eq_some.mp hentry').1
            (by
              have hlt := hlayered.entry_lt
              rw [inserted_entry, drawnNode_id]
              omega)
          refine hlink.bind fun result hresult => Traced.Keeps.pure ?_
          obtain ⟨linked, hlinked, hmutual, hresult⟩ := hresult
          rw [drawnNode_id, inserted_maxLayer] at hlinked
          rw [inserted_maxLayer] at hresult
          rw [drawnNode_id] at hmutual
          rw [hresult]
          refine ⟨Added.joined linked entry hdim hentry hlinked, fun _ _ hlive hpos => ?_⟩
          have hlinkedBack := hmutual (allLive_inserted hlive id vec)
            (by rw [inserted_config]; exact hpos)
          simp only
          split
          next => exact hlinkedBack
          next => exact hlinkedBack

theorem addNoLock_keeps (hevent : ∀ node, event node) (hfault : fault .vectorOutOfRange)
    (hm : h.config.m < 0 → fault .makeSlice) (hlayered : Layered h)
    (hnext : h.nextID + 1 < 2 ^ 32) (id : Bytes) (vec : Vector) :
    Traced.Keeps event fault (Added p env h id vec) (addNoLock p env h id vec) :=
  (addNoLock_links (fun _ => measured_of_fault _ _ hevent hfault) hm hlayered hnext).imp
    fun _ hboth => hboth.1

/-- Whatever `addNoLock` ends with is layered again. -/
theorem Layered.added (hlayered : Layered h) (hnext : h.nextID + 1 < 2 ^ 32) {id : Bytes}
    {vec : Vector} {result : Index × Option AddError} (hadded : Added p env h id vec result) :
    Layered result.1 := by
  have hself : (h.inserted p env id vec).getNodeFast h.nextID = some (h.drawnNode p env vec) := by
    rw [getNodeFast_inserted, if_pos rfl]
  cases hadded with
  | refused err hreason => exact hlayered.assign hnext id
  | alone hdim hentry =>
      refine (hlayered.inserted hnext id vec).enter ?_ rfl
      rw [drawnNode_id]
      exact hself
  | joined linked entry hdim hentry hlinked =>
      simp only
      split
      next =>
        obtain ⟨stored, hstored, hlayer, _⟩ := hlinked.stored hself
        refine hlinked.layered.enter ?_ hlayer
        rw [drawnNode_id]
        exact hstored
      next => exact hlinked.layered

end Add

end Index

end Vectron.Hnsw
