import Vectron.Hnsw.Traversal
import Vectron.Hnsw.Update

/-! # The layers of the graph

What every state of the index keeps of its layered structure: a node has one neighbour list
for each of its layers, an edge of layer `l` leads to another id that was handed out before,
and if that id still has a node, to one that reaches up to layer `l`. A stored entry point
stands at the top layer. This is what makes every access to a neighbour list succeed.
-/

namespace Vectron.Hnsw

open Foundation
open Worker (Vector)

/-- A node without its neighbour lists. -/
def Node.bare (node : Node) : Node := { node with neighbors := [] }

namespace Index

variable {h : Index}

/-! ## Reading the node table -/

theorem getNodeFast_setSlot (id j : Nat) (slot : Option Node) :
    (h.setSlot id slot).getNodeFast j =
      if j = id ∧ id < h.nodes.length then slot else h.getNodeFast j := by
  simp only [setSlot, getNodeFast, List.getElem?_set]
  grind

theorem getNodeFast_modifyNode (id j : Nat) (f : Node → Node) :
    (h.modifyNode id f).getNodeFast j =
      if j = id then (h.getNodeFast j).map f else h.getNodeFast j := by
  simp only [modifyNode, getNodeFast, List.getElem?_modify]
  by_cases heq : id = j
  · subst heq
    rcases h.nodes[id]? with _ | _ | _ <;> simp
  · simp [heq, Ne.symm heq]

theorem getNode_eq_some {id : Nat} {node : Node} :
    h.getNode id = some node ↔ h.getNodeFast id = some node ∧ node.live = true := by
  rw [getNode, Option.filter_eq_some_iff]

theorem getNode_eq_none {id : Nat} :
    h.getNode id = none ↔ ∀ node, h.getNodeFast id = some node → node.live = false := by
  rw [getNode, Option.filter_eq_none_iff]
  simp

theorem grownSize_spec {size id : Nat} (hpos : 0 < size) :
    id < grownSize size id ∧ size ≤ grownSize size id := by
  fun_induction grownSize size id with
  | case1 size hle ih =>
      have hgrown := ih (by omega)
      omega
  | case2 size hlt => omega

theorem getNodeFast_ensureNodeCapacity (id j : Nat) :
    (h.ensureNodeCapacity id).getNodeFast j = h.getNodeFast j := by
  unfold ensureNodeCapacity
  split
  next => rfl
  next hlt =>
    simp only [getNodeFast]
    by_cases hj : j < h.nodes.length
    · rw [List.getElem?_append_left hj]
    · have hnone : h.nodes[j]? = none := List.getElem?_eq_none (by omega)
      rw [List.getElem?_append_right (by omega), List.getElem?_replicate, hnone]
      split <;> rfl

theorem lt_length_ensureNodeCapacity (id : Nat) :
    id < (h.ensureNodeCapacity id).nodes.length := by
  unfold ensureNodeCapacity
  split
  next hlt => exact hlt
  next hge =>
    have hgrown := @grownSize_spec (max h.nodes.length 1) id (by omega)
    simp only [List.length_append, List.length_replicate]
    omega

/-! ## What linking leaves alone -/

/-- The index without neighbour lists and prune candidates. -/
def skeleton (h : Index) : Index :=
  { h with
    nodes := h.nodes.map (Option.map Node.bare)
    pruneCandidates := ∅ }

theorem getNodeFast_skeleton (j : Nat) :
    h.skeleton.getNodeFast j = (h.getNodeFast j).map Node.bare := by
  simp only [skeleton, getNodeFast, List.getElem?_map]
  rcases h.nodes[j]? with _ | _ | _ <;> rfl

/-- Under one skeleton a slot holds nodes that differ in their lists only. -/
theorem getNodeFast_of_skeleton {h' : Index} (hskeleton : h'.skeleton = h.skeleton) {j : Nat}
    {node : Node} (hnode : h.getNodeFast j = some node) :
    ∃ node', h'.getNodeFast j = some node' ∧ node'.bare = node.bare := by
  have hmap : (h'.getNodeFast j).map Node.bare = (h.getNodeFast j).map Node.bare := by
    rw [← getNodeFast_skeleton, hskeleton, getNodeFast_skeleton]
  rw [hnode, Option.map_some] at hmap
  exact Option.map_eq_some_iff.mp hmap

theorem skeleton_modifyNode (id : Nat) {f : Node → Node} (hf : ∀ node, (f node).bare = node.bare) :
    (h.modifyNode id f).skeleton = h.skeleton := by
  have hnodes : (h.nodes.modify id (Option.map f)).map (Option.map Node.bare) =
      h.nodes.map (Option.map Node.bare) := by
    apply List.ext_getElem?
    intro j
    simp only [List.getElem?_map, List.getElem?_modify]
    rcases h.nodes[j]? with _ | _ | node <;> split <;> simp [hf]
  simp only [skeleton, modifyNode, hnodes]

theorem skeleton_setNeighbors (id l : Nat) (list : List Nat) :
    (h.setNeighbors id l list).skeleton = h.skeleton :=
  skeleton_modifyNode id fun _ => rfl

theorem skeleton_markForPrune (id : Nat) : (h.markForPrune id).skeleton = h.skeleton := by
  unfold markForPrune
  split <;> rfl

/-! ## The invariant -/

/-- The node in slot `i` and its edges. -/
structure NodeLayered (h : Index) (i : Nat) (node : Node) : Prop where
  id : node.id = i
  pos : 0 < i
  lt : i < h.nextID
  lists : node.neighbors.length = node.layer + 1
  edges : ∀ l list, node.neighbors[l]? = some list → ∀ e ∈ list, e ≠ i ∧ e < h.nextID ∧
    ∀ next, h.getNodeFast e = some next → l ≤ next.layer

/-- The layered structure of the graph. -/
structure Layered (h : Index) : Prop where
  next_pos : 0 < h.nextID
  entry_lt : h.entry < h.nextID
  node : ∀ i node, h.getNodeFast i = some node → NodeLayered h i node
  entry : ∀ node, h.getNodeFast h.entry = some node → node.layer = h.maxLayer

theorem Layered.list {i l : Nat} {node : Node} (hlayered : Layered h)
    (hnode : h.getNodeFast i = some node) (hl : l ≤ node.layer) :
    ∃ list, node.neighbors[l]? = some list := by
  have hlists := (hlayered.node i node hnode).lists
  exact ⟨_, List.getElem?_eq_getElem (by omega)⟩

theorem layered_new (dim : Nat) (config : Config) : Layered (new dim config) where
  next_pos := Nat.one_pos
  entry_lt := Nat.one_pos
  node i node hnode := by
    have hnone : (new dim config).getNodeFast i = none := by
      rcases i with _ | i <;> rfl
    rw [hnone] at hnode
    cases hnode
  entry node hnode := by cases hnode

theorem Layered.not_zero (hlayered : Layered h) : h.getNodeFast 0 = none := by
  cases hnode : h.getNodeFast 0 with
  | none => rfl
  | some node => exact absurd (hlayered.node 0 node hnode).pos (lt_irrefl 0)

theorem Layered.fresh (hlayered : Layered h) {i : Nat} (hi : h.nextID ≤ i) :
    h.getNodeFast i = none := by
  cases hnode : h.getNodeFast i with
  | none => rfl
  | some node => exact absurd (hlayered.node i node hnode).lt (by omega)

/-- A change of the table that only takes nodes or edges away, or moves the entry point to
where it may stand. -/
theorem Layered.weaken {h' : Index} (hlayered : Layered h) (hnext : h'.nextID = h.nextID)
    (hentry : h'.entry < h.nextID)
    (hnode : ∀ i node', h'.getNodeFast i = some node' → ∃ node, h.getNodeFast i = some node ∧
      node'.id = node.id ∧ node'.layer = node.layer ∧
      node'.neighbors.length = node.neighbors.length ∧
      ∀ (l : Nat) (list' : List Nat), node'.neighbors[l]? = some list' →
        ∃ list, node.neighbors[l]? = some list ∧ list' ⊆ list)
    (htop : ∀ node', h'.getNodeFast h'.entry = some node' → node'.layer = h'.maxLayer) :
    Layered h' where
  next_pos := hnext ▸ hlayered.next_pos
  entry_lt := hnext ▸ hentry
  node i node' hnode' := by
    obtain ⟨node, hold, hid, hlayer, hlength, hlists⟩ := hnode i node' hnode'
    have hlinked := hlayered.node i node hold
    refine ⟨by rw [hid, hlinked.id], hlinked.pos, by rw [hnext]; exact hlinked.lt,
      by rw [hlength, hlinked.lists, hlayer], ?_⟩
    intro l list' hlist' e he
    obtain ⟨list, hlist, hsub⟩ := hlists l list' hlist'
    obtain ⟨hne, hlt, htarget⟩ := hlinked.edges l list hlist e (hsub he)
    refine ⟨hne, by rw [hnext]; exact hlt, fun next hnext' => ?_⟩
    obtain ⟨old, hold', _, holdLayer, _, _⟩ := hnode e next hnext'
    rw [holdLayer]
    exact htarget old hold'
  entry := htop

/-- The structure depends on the nodes, the next id and the entry point only. -/
theorem Layered.congr {h' : Index} (hlayered : Layered h) (hnodes : h'.nodes = h.nodes)
    (hnext : h'.nextID = h.nextID) (hentry : h'.entry = h.entry)
    (hmax : h'.maxLayer = h.maxLayer) : Layered h' := by
  have hread : ∀ i, h'.getNodeFast i = h.getNodeFast i := fun i => by
    rw [getNodeFast, hnodes, getNodeFast]
  refine hlayered.weaken hnext (hentry ▸ hlayered.entry_lt) ?_ ?_
  · intro i node' hnode'
    exact ⟨node', hread i ▸ hnode', rfl, rfl, rfl, fun l list' hlist' =>
      ⟨list', hlist', List.Subset.refl _⟩⟩
  · intro node' hnode'
    rw [hread, hentry] at hnode'
    rw [hmax]
    exact hlayered.entry node' hnode'

/-! ## Selecting neighbours -/

section Link

variable {p : Platform} {event : Node → Prop} {fault : Fault → Prop}

theorem tooClose_keeps {cand : Candidate}
    (hdistance : ∀ {i : Nat} {vec : Vector} {node : Node},
      (h.getNode i).bind (nodeVector p) = some vec → h.getNode cand.id = some node →
        Traced.Keeps event fault (fun _ => True) (h.distanceToNode p vec none (some node)))
    (selected : List Nat) :
    Traced.Keeps event fault (fun _ => True) (h.tooClose p cand selected) := by
  induction selected with
  | nil => exact Traced.Keeps.pure trivial
  | cons selectedID rest ih =>
      rw [tooClose]
      split
      next hselected hcand =>
        refine (hdistance hselected hcand).bind fun d _ => ?_
        exact Traced.Keeps.ite (fun _ => Traced.Keeps.pure trivial) (fun _ => ih)
      next => exact ih

/-- What `selectNeighborsHeuristic` returns: the candidates in another order, and the ids of
some of them, at least one if it may select any. -/
structure Selected (candidates : List Candidate) (m : Int)
    (result : List Candidate × List Nat) : Prop where
  sorted : result.1.Perm candidates
  chosen : ∀ id ∈ result.2, ∃ c ∈ candidates, c.id = id
  nonempty : candidates ≠ [] → 0 < m → result.2 ≠ []

theorem fillNearest_mem {m : Int} {used result : List Nat} {sorted : List Candidate} :
    result ⊆ sorted.foldl (fillNearest m used) result ∧
      ∀ id ∈ sorted.foldl (fillNearest m used) result, id ∈ result ∨ ∃ c ∈ sorted, c.id = id := by
  induction sorted generalizing result with
  | nil => exact ⟨List.Subset.refl _, fun id hid => Or.inl hid⟩
  | cons c rest ih =>
      obtain ⟨hsub, hmem⟩ := @ih (fillNearest m used result c)
      have hstep : result ⊆ fillNearest m used result c ∧
          ∀ id ∈ fillNearest m used result c, id ∈ result ∨ c.id = id := by
        unfold fillNearest
        split
        next => exact ⟨List.Subset.refl _, fun id hid => Or.inl hid⟩
        next =>
          split
          next => exact ⟨List.Subset.refl _, fun id hid => Or.inl hid⟩
          next =>
            refine ⟨List.subset_append_left _ _, fun id hid => ?_⟩
            rcases List.mem_append.mp hid with hold | hnew
            · exact Or.inl hold
            · exact Or.inr (List.mem_singleton.mp hnew).symm
      refine ⟨List.Subset.trans hstep.1 hsub, fun id hid => ?_⟩
      rcases hmem id hid with hold | ⟨c', hc', heq⟩
      · rcases hstep.2 id hold with hresult | heq
        · exact Or.inl hresult
        · exact Or.inr ⟨c, List.mem_cons_self, heq⟩
      · exact Or.inr ⟨c', List.mem_cons_of_mem _ hc', heq⟩

/-- If nothing else was selected, the fallback takes the first candidate. -/
theorem fillNearest_ne_nil {m : Int} (hm : 0 < m) {used result : List Nat} (hused : used ⊆ result)
    {sorted : List Candidate} (hsorted : sorted ≠ []) :
    sorted.foldl (fillNearest m used) result ≠ [] := by
  intro hnil
  cases sorted with
  | nil => exact hsorted rfl
  | cons c rest =>
      have hsub := (@fillNearest_mem m used (fillNearest m used result c) rest).1
      rw [List.foldl_cons] at hnil
      rw [hnil] at hsub
      have hempty := List.subset_nil.mp hsub
      unfold fillNearest at hempty
      split at hempty
      next hfull =>
        rw [hempty, List.length_nil] at hfull
        omega
      next =>
        split at hempty
        next hmem =>
          have := hused hmem
          rw [hempty] at this
          cases this
        next => simp at hempty

/-- What the selection promises, if the diversity check may be made. -/
theorem selectNeighborsHeuristic_selects
    (hclose : ∀ cand selected,
      Traced.Keeps event fault (fun _ => True) (h.tooClose p cand selected))
    (candidates : List Candidate) {m : Int} (hm : m < 0 → fault .makeSlice) :
    Traced.Keeps event fault (Selected candidates m)
      (h.selectNeighborsHeuristic p candidates m) := by
  unfold selectNeighborsHeuristic
  refine Traced.Keeps.ite (fun hnil => ?_) (fun hne => ?_)
  · obtain rfl := List.isEmpty_iff.mp hnil
    exact Traced.Keeps.pure ⟨List.Perm.refl _, by simp, by simp⟩
  · refine Traced.Keeps.ite (fun hneg => Traced.Keeps.raise (hm hneg)) (fun _ => ?_)
    have hsorted := p.sort_perm candidates
    have hdiverse : Traced.Keeps event fault
        (fun result : List Nat => ∀ id ∈ result, ∃ c ∈ candidates, c.id = id)
        (Traced.fold (h.selectDiverse p m) [] (p.sort candidates)) := by
      refine Traced.Keeps.fold (fun result c hc hresult => ?_) (by simp)
      unfold selectDiverse
      refine Traced.Keeps.ite (fun _ => Traced.Keeps.pure hresult) (fun _ => ?_)
      refine Traced.Keeps.ite (fun _ => Traced.Keeps.pure hresult) (fun _ => ?_)
      refine (hclose c result).bind fun close _ => ?_
      refine Traced.Keeps.ite (fun _ => Traced.Keeps.pure hresult) (fun _ => ?_)
      refine Traced.Keeps.pure fun id hid => ?_
      rcases List.mem_append.mp hid with hold | hnew
      · exact hresult id hold
      · exact ⟨c, hsorted.subset hc, (List.mem_singleton.mp hnew).symm⟩
    refine hdiverse.bind fun result hresult => ?_
    refine Traced.Keeps.pure ⟨hsorted, fun id hid => ?_, fun hne hpos => ?_⟩
    · rcases (@fillNearest_mem m result result (p.sort candidates)).2 id hid with hold | ⟨c, hc, heq⟩
      · exact hresult id hold
      · exact ⟨c, hsorted.subset hc, heq⟩
    · refine fillNearest_ne_nil hpos (List.Subset.refl _) fun hnil => hne ?_
      rw [hnil] at hsorted
      exact hsorted.symm.eq_nil

theorem selectNeighborsHeuristic_keeps (hevent : ∀ node, event node)
    (hfault : fault .vectorOutOfRange) (candidates : List Candidate) {m : Int}
    (hm : m < 0 → fault .makeSlice) :
    Traced.Keeps event fault (Selected candidates m)
      (h.selectNeighborsHeuristic p candidates m) :=
  selectNeighborsHeuristic_selects
    (fun _ => tooClose_keeps fun _ _ => distanceToNode_keeps _ _ (hevent _) hfault) candidates hm

end Link

end Index

end Vectron.Hnsw
