import Vectron.Foundation.FloatOrder
import Vectron.Hnsw.Search

/-! # What a search can visit

Every search moves along neighbour lists. A terrain is a set of nodes that the lists of
some layers do not lead out of, together with what a distance computation to one of its
nodes can do. A search that starts inside a terrain stays inside: it measures only nodes of
the terrain, returns only nodes it has measured, none twice, and ends.
-/

namespace Vectron.Hnsw

open Foundation
open Worker (Vector)

namespace Index

/-- The nodes in `ground` are closed under the lists of the given layers, and a distance to
one of them causes only such events and faults. A node in `fit` was measured. -/
structure Terrain (p : Platform) (h : Index) (query : Vector) (qvec : Option Bytes)
    (layers : Nat → Prop) (event : Node → Prop) (fault : Fault → Prop)
    (ground fit : Node → Prop) : Prop where
  measure : ∀ node, ground node →
    Traced.Keeps event fault (fun _ => fit node) (h.distanceToNode p query qvec (some node))
  batchInt8 : ∀ node, ground node → ∀ stored, qvec = some stored →
    Traced.Keeps event fault (fun _ => fit node) (h.batchDistanceInt8 p query stored node)
  batchFloat : ∀ node, ground node → qvec = none → h.config.normalized = true →
    Traced.Keeps event fault (fun _ => fit node) (h.batchDistanceFloat p query node)
  stored : ∀ node, ground node → h.getNodeFast node.id = some node
  closed : ∀ l, layers l → ∀ node, ground node → fit node → l ≤ node.layer →
    ∃ list, node.neighbors[l]? = some list ∧ ∀ nid ∈ list, ∀ next,
      h.getNodeFast nid = some next → ground next ∧ next.id = nid ∧ l ≤ next.layer

theorem lt_length_of_getNodeFast {h : Index} {id : Nat} {node : Node}
    (hnode : h.getNodeFast id = some node) : id < h.nodes.length := by
  by_contra hge
  rw [getNodeFast, List.getElem?_eq_none (by omega)] at hnode
  cases hnode

section Search

variable {p : Platform} {h : Index} {query : Vector} {qvec : Option Bytes}
  {layers : Nat → Prop} {event : Node → Prop} {fault : Fault → Prop}
  {ground fit : Node → Prop}

/-! ## Distances -/

section

variable {a b : Vector} (hrange : a.length ≤ b.length ∨ fault .vectorOutOfRange)

include hrange

theorem euclideanLoop_keeps (sum : Float32) :
    Traced.Keeps event fault (fun _ => True) (euclideanLoop a b sum) := by
  fun_induction euclideanLoop a b sum with
  | case1 => exact Traced.Keeps.pure trivial
  | case2 => exact Traced.Keeps.raise (hrange.resolve_left (by simp))
  | case3 _ _ _ _ _ _ ih => exact ih (hrange.imp_left (by simp))

theorem cosineLoop_keeps (dot normA normB : Float32) :
    Traced.Keeps event fault (fun _ => True) (cosineLoop a b dot normA normB) := by
  fun_induction cosineLoop a b dot normA normB with
  | case1 => exact Traced.Keeps.pure trivial
  | case2 => exact Traced.Keeps.raise (hrange.resolve_left (by simp))
  | case3 _ _ _ _ _ _ _ _ _ ih => exact ih (hrange.imp_left (by simp))

/-- Distances do not run past the end of a vector that is long enough. -/
theorem distanceWithNode_keeps (norm : UInt32) :
    Traced.Keeps event fault (fun _ => True) (h.distanceWithNode p a b norm) := by
  unfold distanceWithNode
  refine Traced.Keeps.ite (fun _ => Traced.Keeps.pure trivial) (fun _ => ?_)
  refine Traced.Keeps.ite (fun _ => ?_) (fun _ => ?_)
  · unfold distance
    refine Traced.Keeps.ite (fun _ => ?_) (fun _ => euclideanLoop_keeps hrange _)
    refine (cosineLoop_keeps hrange _ _ _).bind fun sums _ => ?_
    exact Traced.Keeps.ite (fun _ => Traced.Keeps.pure trivial) (fun _ => Traced.Keeps.pure trivial)
  · refine (cosineLoop_keeps hrange _ _ _).bind fun sums _ => ?_
    exact Traced.Keeps.ite (fun _ => Traced.Keeps.pure trivial) (fun _ => Traced.Keeps.pure trivial)

end

/-- A distance computation measures its node and can only run past the end of a vector. -/
theorem distanceToNode_keeps (query : Vector) (qvec : Option Bytes) {node : Node}
    (hevent : event node) (hfault : fault .vectorOutOfRange) :
    Traced.Keeps event fault (fun _ => True) (h.distanceToNode p query qvec (some node)) := by
  refine (Traced.Keeps.emit hevent).bind fun _ _ => ?_
  cases node.qvec with
  | some stored => exact Traced.Keeps.pure trivial
  | none => exact distanceWithNode_keeps (Or.inr hfault) _

theorem batchDistanceInt8_keeps (query : Vector) (qvec : Bytes) {node : Node}
    (hevent : event node) (hfault : fault .vectorOutOfRange) :
    Traced.Keeps event fault (fun _ => True) (h.batchDistanceInt8 p query qvec node) := by
  refine (Traced.Keeps.emit hevent).bind fun _ _ => ?_
  cases node.qvec with
  | some stored =>
      exact Traced.Keeps.ite (fun _ => Traced.Keeps.raise hfault)
        (fun _ => Traced.Keeps.pure trivial)
  | none => exact distanceWithNode_keeps (Or.inr hfault) _

theorem scalarDot_keeps (hfault : fault .vectorOutOfRange) (a b : Vector) (sum : Float32) :
    Traced.Keeps event fault (fun _ => True) (scalarDot a b sum) := by
  fun_induction scalarDot a b sum with
  | case1 => exact Traced.Keeps.pure trivial
  | case2 => exact Traced.Keeps.raise hfault
  | case3 _ _ _ _ _ ih => exact ih

theorem batchDistanceFloat_keeps (query : Vector) {node : Node} (hevent : event node)
    (hfault : fault .vectorOutOfRange) :
    Traced.Keeps event fault (fun _ => True) (h.batchDistanceFloat p query node) := by
  unfold batchDistanceFloat
  cases node.vec with
  | some vec =>
      refine (Traced.Keeps.emit hevent).bind fun _ _ => ?_
      exact (scalarDot_keeps hfault _ _ _).bind fun _ _ => Traced.Keeps.pure trivial
  | none => exact distanceToNode_keeps query none hevent hfault

/-- The exact distance to a node computes nothing if the node has no vector. -/
theorem distanceExact_keeps (query : Vector) {node : Node} (hevent : node.live = true → event node)
    (hfault : fault .vectorOutOfRange) :
    Traced.Keeps event fault (fun _ => True) (h.distanceExact p query node) := by
  unfold distanceExact
  unfold Node.live at hevent
  cases hvec : node.vec with
  | some vec =>
      refine (Traced.Keeps.emit (hevent (by rw [hvec]; rfl))).bind fun _ _ => ?_
      exact distanceWithNode_keeps (Or.inr hfault) _
  | none =>
      cases hqvec : node.qvec with
      | some stored =>
          refine (Traced.Keeps.emit (hevent (by rw [hvec, hqvec]; rfl))).bind fun _ _ => ?_
          exact distanceWithNode_keeps (Or.inr hfault) _
      | none => exact Traced.Keeps.pure trivial

/-! ## The descent -/

/-- Whether the node of a slot is nearer to the query than a distance. -/
def slotNearer (p : Platform) (h : Index) (query : Vector) (qvec : Option Bytes)
    (dist : Float32) (i : Nat) : Bool :=
  match (h.getNodeFast i).map fun node => (h.distanceToNode p query qvec (some node)).outcome with
  | some (.ok d) => decide (d < dist)
  | _ => false

theorem slotNearer_iff {dist : Float32} {i : Nat} :
    slotNearer p h query qvec dist i = true ↔ ∃ node d, h.getNodeFast i = some node ∧
      (h.distanceToNode p query qvec (some node)).outcome = .ok d ∧ d < dist := by
  unfold slotNearer
  cases h.getNodeFast i with
  | none => simp
  | some node =>
      cases hd : (h.distanceToNode p query qvec (some node)).outcome with
      | error f => simp [hd]
      | ok d => simp [hd]

def nearerSlots (p : Platform) (h : Index) (query : Vector) (qvec : Option Bytes)
    (dist : Float32) : Finset Nat :=
  (Finset.range h.nodes.length).filter fun i => slotNearer p h query qvec dist i = true

theorem nearerSlots_card_lt {node : Node} {d dist : Float32} {i : Nat}
    (hnode : h.getNodeFast i = some node)
    (hd : (h.distanceToNode p query qvec (some node)).outcome = .ok d) (hlt : d < dist) :
    (nearerSlots p h query qvec d).card < (nearerSlots p h query qvec dist).card := by
  refine Finset.card_lt_card ((Finset.ssubset_iff_of_subset ?_).mpr ⟨i, ?_, ?_⟩)
  · intro j hj
    obtain ⟨hrange, hnearer⟩ := Finset.mem_filter.mp hj
    obtain ⟨other, e, hother, he, helt⟩ := slotNearer_iff.mp hnearer
    exact Finset.mem_filter.mpr
      ⟨hrange, slotNearer_iff.mpr ⟨other, e, hother, he, float32_lt_trans helt hlt⟩⟩
  · exact Finset.mem_filter.mpr ⟨Finset.mem_range.mpr (lt_length_of_getNodeFast hnode),
      slotNearer_iff.mpr ⟨node, d, hnode, hd, hlt⟩⟩
  · intro hmem
    obtain ⟨other, e, hother, he, helt⟩ := slotNearer_iff.mp (Finset.mem_filter.mp hmem).2
    rw [hnode] at hother
    obtain rfl := Option.some.inj hother
    rw [hd] at he
    obtain rfl := Except.ok.inj he
    exact float32_lt_irrefl d helt

theorem nearerSlots_card_le (dist : Float32) :
    (nearerSlots p h query qvec dist).card ≤ h.nodes.length := by
  rw [← Finset.card_range h.nodes.length]
  exact Finset.card_le_card (Finset.filter_subset _ _)

/-- Where the scan of a neighbour list stands: at a node of the terrain, and if it moved,
then nearer to the query than at its start. -/
structure Scanned (p : Platform) (h : Index) (query : Vector) (qvec : Option Bytes)
    (ground fit : Node → Prop) (l : Nat) (dist : Float32) (best : Node × Float32 × Bool) :
    Prop where
  ground : ground best.1
  fit : fit best.1
  layer : l ≤ best.1.layer
  start : best.2.2 = false → best.2.1 = dist
  moved : best.2.2 = true → best.2.1 < dist ∧
    (h.distanceToNode p query qvec (some best.1)).outcome = .ok best.2.1

section

variable (hterrain : Terrain p h query qvec layers event fault ground fit)

include hterrain

theorem scanNeighbors_keeps {l : Nat} {dist : Float32} {best : Node × Float32 × Bool} {nid : Nat}
    (hbest : Scanned p h query qvec ground fit l dist best)
    (hnid : ∀ next, h.getNodeFast nid = some next → ground next ∧ next.id = nid ∧ l ≤ next.layer) :
    Traced.Keeps event fault (Scanned p h query qvec ground fit l dist)
      (h.scanNeighbors p query qvec best nid) := by
  unfold scanNeighbors
  cases hnode : h.getNodeFast nid with
  | none => exact Traced.Keeps.pure hbest
  | some node =>
      obtain ⟨hground, _, hlayer⟩ := hnid node hnode
      refine (hterrain.measure node hground).with_outcome.bind ?_
      rintro d ⟨hfit, hd⟩
      refine Traced.Keeps.ite (fun hlt => ?_) (fun _ => Traced.Keeps.pure hbest)
      refine Traced.Keeps.pure ⟨hground, hfit, hlayer, nofun, fun _ => ⟨?_, hd⟩⟩
      cases hmoved : best.2.2 with
      | false => exact hbest.start hmoved ▸ hlt
      | true => exact float32_lt_trans hlt (hbest.moved hmoved).1

theorem descend_keeps {l fuel : Nat} (hl : layers l) {node : Node} {dist : Float32}
    (hground : ground node) (hfit : fit node) (hlayer : l ≤ node.layer)
    (hfuel : (nearerSlots p h query qvec dist).card < fuel) :
    Traced.Keeps event fault (fun found => ground found ∧ fit found ∧ l ≤ found.layer)
      (h.descend p query qvec l fuel node dist) := by
  induction fuel generalizing node dist with
  | zero => omega
  | succ fuel ih =>
      obtain ⟨list, hlist, hclosed⟩ := hterrain.closed l hl node hground hfit hlayer
      rw [descend, hlist]
      have hstart : Scanned p h query qvec ground fit l dist (node, dist, false) :=
        ⟨hground, hfit, hlayer, fun _ => rfl, nofun⟩
      refine (Traced.Keeps.fold (fun best nid hmem hbest =>
        scanNeighbors_keeps hterrain hbest (hclosed nid hmem)) hstart).bind fun best hbest => ?_
      refine Traced.Keeps.ite (fun hmoved => ?_) (fun _ => ?_)
      · -- every round leaves fewer nodes that are nearer still
        obtain ⟨hlt, hd⟩ := hbest.moved hmoved
        have hless := nearerSlots_card_lt (hterrain.stored best.1 hbest.ground) hd hlt
        exact ih hbest.ground hbest.fit hbest.layer (by omega)
      · exact Traced.Keeps.pure ⟨hbest.ground, hbest.fit, hbest.layer⟩

theorem searchLayerSingle_keeps {l : Nat} (hl : layers l) {start : Option Node}
    (hstart : ∀ node, start = some node → ground node ∧ l ≤ node.layer)
    (hnil : start = none → fault .nilDereference) :
    Traced.Keeps event fault (fun found => ground found ∧ fit found ∧ l ≤ found.layer)
      (h.searchLayerSingle p query qvec start l) := by
  cases start with
  | none =>
      have hmax : Traced.Keeps event fault (fun _ => True)
          (h.distanceToNode p query qvec none) := Traced.Keeps.pure trivial
      exact hmax.bind fun _ _ => Traced.Keeps.raise (hnil rfl)
  | some node =>
      obtain ⟨hground, hlayer⟩ := hstart node rfl
      refine (hterrain.measure node hground).bind fun dist hfit => ?_
      have hcard := @nearerSlots_card_le p h query qvec dist
      exact descend_keeps hterrain hl hground hfit hlayer (by omega)

/-- The descent ends at a node of the terrain, above the floor unless it has not moved. -/
theorem descendLayers_keeps {floor top : Nat} (hlayers : ∀ l, floor < l → l ≤ top → layers l)
    {start : Option Node} (hstart : ∀ node, start = some node → ground node ∧ top ≤ node.layer)
    (hnil : start = none → fault .nilDereference) :
    Traced.Keeps event fault
      (fun found => found = start ∧ top ≤ floor ∨
        ∃ node, found = some node ∧ ground node ∧ floor < node.layer)
      (h.descendLayers p query qvec floor top start) := by
  induction top generalizing start with
  | zero => exact Traced.Keeps.pure (Or.inl ⟨rfl, Nat.zero_le _⟩)
  | succ l ih =>
      rw [descendLayers]
      refine Traced.Keeps.ite (fun hfloor => ?_) (fun hfloor => ?_)
      · refine (searchLayerSingle_keeps hterrain (hlayers (l + 1) hfloor le_rfl) hstart hnil).bind
          fun node hnode => ?_
        obtain ⟨hground, -, hlayer⟩ := hnode
        have hbelow : ∀ l', floor < l' → l' ≤ l → layers l' :=
          fun l' hlt hle => hlayers l' hlt (Nat.le_succ_of_le hle)
        have hnode : ∀ other, some node = some other → ground other ∧ l ≤ other.layer := by
          intro other hother
          cases hother
          exact ⟨hground, by omega⟩
        refine (ih hbelow hnode nofun).imp fun found hfound => ?_
        rcases hfound with ⟨hsame, _⟩ | hmoved
        · exact Or.inr ⟨node, hsame, hground, by omega⟩
        · exact Or.inr hmoved
      · exact Traced.Keeps.pure (Or.inl ⟨rfl, by omega⟩)

/-! ## The neighbours of a candidate -/

/-- What stands in the queues of a search of layer `l`. -/
structure Placed (ground fit : Node → Prop) (l : Nat) (c : Candidate) : Prop where
  ground : ground c.node
  fit : fit c.node
  layer : l ≤ c.node.layer
  id : c.id = c.node.id

theorem computeDistancesInto_keeps {nodes : List Node} (hnodes : ∀ node ∈ nodes, ground node) :
    Traced.Keeps event fault (fun dists => List.Forall₂ (fun node _ => fit node) nodes dists)
      (h.computeDistancesInto p query qvec nodes) := by
  have hplain : Traced.Keeps event fault
      (fun dists => List.Forall₂ (fun node _ => fit node) nodes dists)
      (Traced.each (fun node => h.distanceToNode p query qvec (some node)) nodes) :=
    Traced.Keeps.each fun node hmem => hterrain.measure node (hnodes node hmem)
  unfold computeDistancesInto
  refine Traced.Keeps.ite (fun _ => hplain) (fun _ => ?_)
  cases hqvec : qvec with
  | some stored =>
      refine Traced.Keeps.ite (fun _ => ?_) (fun _ => hqvec ▸ hplain)
      exact Traced.Keeps.each fun node hmem =>
        hterrain.batchInt8 node (hnodes node hmem) stored hqvec
  | none =>
      refine Traced.Keeps.ite (fun hbatch => ?_) (fun _ => hqvec ▸ hplain)
      have hnormalized : h.config.normalized = true := by
        simp only [Bool.and_eq_true] at hbatch
        exact hbatch.1.1.1
      exact Traced.Keeps.each fun node hmem =>
        hterrain.batchFloat node (hnodes node hmem) hqvec hnormalized

end

/-- What `freshNeighbors` finds: stored nodes under distinct ids of the list that had no mark
and have one now. -/
theorem freshNeighbors_spec (marks list : List Nat) :
    (∀ entry ∈ (h.freshNeighbors marks list).1, entry.1 ∈ list ∧ entry.1 ∉ marks ∧
      entry.1 ∈ (h.freshNeighbors marks list).2 ∧ h.getNodeFast entry.1 = some entry.2) ∧
    ((h.freshNeighbors marks list).1.map Prod.fst).Nodup ∧
    marks ⊆ (h.freshNeighbors marks list).2 := by
  fun_induction h.freshNeighbors marks list with
  | case1 marks => simp
  | case2 marks nid rest hmarked ih =>
      obtain ⟨hfound, hnodup, hsub⟩ := ih
      refine ⟨fun entry hmem => ?_, hnodup, hsub⟩
      obtain ⟨hlist, hrest⟩ := hfound entry hmem
      exact ⟨List.mem_cons_of_mem _ hlist, hrest⟩
  | case3 marks nid rest hunmarked hnone ih =>
      obtain ⟨hfound, hnodup, hsub⟩ := ih
      refine ⟨fun entry hmem => ?_, hnodup, fun id hid => hsub (List.mem_cons_of_mem _ hid)⟩
      obtain ⟨hlist, hmarks, hrest⟩ := hfound entry hmem
      exact ⟨List.mem_cons_of_mem _ hlist, fun hid => hmarks (List.mem_cons_of_mem _ hid), hrest⟩
  | case4 marks nid rest hunmarked node hnode found marks' heq ih =>
      rw [heq] at ih
      obtain ⟨hfound, hnodup, hsub⟩ := ih
      refine ⟨fun entry hmem => ?_, ?_, fun id hid => hsub (List.mem_cons_of_mem _ hid)⟩
      · rcases List.mem_cons.mp hmem with rfl | hmem
        · exact ⟨List.mem_cons_self, hunmarked, hsub List.mem_cons_self, hnode⟩
        · obtain ⟨hlist, hmarks, hrest⟩ := hfound entry hmem
          exact ⟨List.mem_cons_of_mem _ hlist, fun hid => hmarks (List.mem_cons_of_mem _ hid),
            hrest⟩
      · refine List.nodup_cons.mpr ⟨fun hmem => ?_, hnodup⟩
        obtain ⟨entry, hentry, heq⟩ := List.mem_map.mp hmem
        exact (hfound entry hentry).2.1 (heq ▸ List.mem_cons_self)

/-- The new candidates of one expansion. -/
structure Expanded (ground fit : Node → Prop) (h : Index) (l : Nat) (marks : List Nat)
    (result : List Candidate × List Nat) : Prop where
  placed : ∀ c ∈ result.1, Placed ground fit l c
  stored : ∀ c ∈ result.1, (h.getNodeFast c.id).isSome
  nodup : (result.1.map Candidate.id).Nodup
  unmarked : ∀ c ∈ result.1, c.id ∉ marks
  marked : ∀ c ∈ result.1, c.id ∈ result.2
  marks : marks ⊆ result.2

/-- The entries that were found, with the distances that were computed to them. -/
theorem zipWith_candidates {found : List (Nat × Node)} {dists : List Float32}
    (hdists : List.Forall₂ (fun entry _ => fit entry.2) found dists) :
    (List.zipWith (fun entry dist => (⟨entry.1, dist, entry.2⟩ : Candidate)) found dists).map
        Candidate.id = found.map Prod.fst ∧
      ∀ c ∈ List.zipWith (fun entry dist => (⟨entry.1, dist, entry.2⟩ : Candidate)) found dists,
        (c.id, c.node) ∈ found ∧ fit c.node := by
  induction hdists with
  | nil => simp
  | @cons entry dist found dists hfit _ ih =>
      obtain ⟨hids, hmem⟩ := ih
      refine ⟨by simp [hids], fun c hc => ?_⟩
      rcases List.mem_cons.mp hc with rfl | hc
      · exact ⟨List.mem_cons_self, hfit⟩
      · obtain ⟨hfound, hfit⟩ := hmem c hc
        exact ⟨List.mem_cons_of_mem _ hfound, hfit⟩

theorem expand_keeps (hterrain : Terrain p h query qvec layers event fault ground fit) {l : Nat}
    (hl : layers l) {marks : List Nat} {c : Candidate} (hc : Placed ground fit l c) :
    Traced.Keeps event fault (Expanded ground fit h l marks)
      (h.expand p query qvec l marks c) := by
  obtain ⟨list, hlist, hclosed⟩ := hterrain.closed l hl c.node hc.ground hc.fit hc.layer
  rw [expand, hlist]
  have hcapped : (if 0 < p.neighborCap then list.take p.neighborCap else list) ⊆ list := by
    split
    next => exact List.take_subset _ _
    next => exact List.Subset.refl _
  simp only
  generalize (if 0 < p.neighborCap then list.take p.neighborCap else list) = capped at hcapped
  obtain ⟨hfound, hnodup, hsub⟩ := @freshNeighbors_spec h marks capped
  have hground : ∀ entry ∈ (h.freshNeighbors marks capped).1,
      ground entry.2 ∧ entry.2.id = entry.1 ∧ l ≤ entry.2.layer := by
    intro entry hmem
    obtain ⟨hin, _, _, hnode⟩ := hfound entry hmem
    exact hclosed entry.1 (hcapped hin) entry.2 hnode
  refine (computeDistancesInto_keeps hterrain (fun node hmem => ?_)).bind fun dists hdists => ?_
  · obtain ⟨entry, hentry, rfl⟩ := List.mem_map.mp hmem
    exact (hground entry hentry).1
  · rw [List.forall₂_map_left_iff] at hdists
    obtain ⟨hids, hmem⟩ := zipWith_candidates hdists
    refine Traced.Keeps.pure ⟨fun cand hcand => ?_, fun cand hcand => ?_, ?_, fun cand hcand => ?_,
      fun cand hcand => ?_, hsub⟩
    · obtain ⟨hentry, hfit⟩ := hmem cand hcand
      obtain ⟨hgood, hself, hlayer⟩ := hground _ hentry
      exact ⟨hgood, hfit, hlayer, hself.symm⟩
    · rw [(hfound _ (hmem cand hcand).1).2.2.2]
      rfl
    · rw [hids]
      exact hnodup
    · exact (hfound _ (hmem cand hcand).1).2.1
    · exact (hfound _ (hmem cand hcand).1).2.2.1

/-! ## The queues -/

/-- What taking new candidates does to the two queues. -/
structure Offered (found candidates results candidates' results' : List Candidate) : Prop where
  queued : candidates'.Subperm (found ++ candidates)
  kept : results'.Subperm (found ++ results)
  grows : results.length ≤ results'.length

namespace Offered

variable {found more candidates results candidates' results' candidates'' results'' :
  List Candidate}

theorem refl : Offered found candidates results candidates results where
  queued := (List.sublist_append_right _ _).subperm
  kept := (List.sublist_append_right _ _).subperm
  grows := le_rfl

theorem trans (hfirst : Offered found candidates results candidates' results')
    (hsecond : Offered more candidates' results' candidates'' results'') :
    Offered (found ++ more) candidates results candidates'' results'' where
  queued := by
    refine hsecond.queued.trans (((List.subperm_append_left more).mpr hfirst.queued).trans ?_)
    rw [← List.append_assoc]
    exact (List.perm_append_comm.append_right candidates).subperm
  kept := by
    refine hsecond.kept.trans (((List.subperm_append_left more).mpr hfirst.kept).trans ?_)
    rw [← List.append_assoc]
    exact (List.perm_append_comm.append_right results).subperm
  grows := hfirst.grows.trans hsecond.grows

theorem of_subperm (hoffered : Offered found candidates results candidates' results')
    (hsub : found.Subperm more) : Offered more candidates results candidates' results' where
  queued := hoffered.queued.trans ((List.subperm_append_right candidates).mpr hsub)
  kept := hoffered.kept.trans ((List.subperm_append_right results).mpr hsub)
  grows := hoffered.grows

/-- A state that is offered candidates one by one. -/
theorem foldl {σ : Type} {queue kept : σ → List Candidate} {marks : σ → List Nat}
    {offer : σ → Candidate → σ}
    (hoffer : ∀ state c, Offered [c] (queue state) (kept state) (queue (offer state c))
      (kept (offer state c)) ∧ marks (offer state c) = marks state)
    (state : σ) (found : List Candidate) :
    Offered found (queue state) (kept state) (queue (found.foldl offer state))
      (kept (found.foldl offer state)) ∧ marks (found.foldl offer state) = marks state := by
  induction found generalizing state with
  | nil => exact ⟨refl, rfl⟩
  | cons c rest ih =>
      obtain ⟨hhead, hmarks⟩ := hoffer state c
      obtain ⟨hrest, hmarks'⟩ := ih (offer state c)
      exact ⟨hhead.trans hrest, hmarks'.trans hmarks⟩

end Offered

theorem Frontier.offer_offered (ef : Nat) (frontier : Frontier) (c : Candidate) :
    Offered [c] frontier.candidates frontier.results (frontier.offer ef c).candidates
        (frontier.offer ef c).results ∧
      (frontier.offer ef c).marks = frontier.marks := by
  unfold Frontier.offer
  split
  next =>
    refine ⟨⟨(heapPush_perm _ _).subperm, ?_, ?_⟩, rfl⟩
    · have hpush : (resHeapPush frontier.results c).Perm ([c] ++ frontier.results) :=
        heapPush_perm _ _
      simp only
      split
      next =>
        cases hpop : resHeapPop (resHeapPush frontier.results c) with
        | none => exact hpush.subperm
        | some popped =>
            have hrest := heapPop_perm hpop
            exact ((List.sublist_cons_self popped.1 popped.2).subperm.trans
              hrest.subperm).trans hpush.subperm
      next => exact hpush.subperm
    · have hlength : (resHeapPush frontier.results c).length = frontier.results.length + 1 :=
        (heapPush_perm _ _).length_eq
      simp only
      split
      next =>
        cases hpop : resHeapPop (resHeapPush frontier.results c) with
        | none =>
            simp only [Option.map_none, Option.getD_none]
            omega
        | some popped =>
            have hrest := (heapPop_perm hpop).length_eq
            simp only [List.length_cons, Option.map_some, Option.getD_some] at hrest ⊢
            omega
      next => omega
  next => exact ⟨Offered.refl, rfl⟩

theorem Frontier.foldl_offered (ef : Nat) (frontier : Frontier) (found : List Candidate) :
    Offered found frontier.candidates frontier.results
        (found.foldl (Frontier.offer ef) frontier).candidates
        (found.foldl (Frontier.offer ef) frontier).results ∧
      (found.foldl (Frontier.offer ef) frontier).marks = frontier.marks :=
  Offered.foldl (fun f => f.offer_offered ef) frontier found

theorem nearer_irrefl (c : Candidate) : nearer c c = false :=
  decide_eq_false (float32_lt_irrefl c.dist)

/-- The selection returns, with some of the candidates it was given. -/
theorem selectTopKByDist_keeps (cands : List Candidate) (k : Int) :
    Traced.Keeps event fault
      (fun selected => selected.Subperm cands ∧ (0 < k → (selected.length : Int) ≤ k))
      (selectTopKByDist cands k) := by
  unfold selectTopKByDist
  refine Traced.Keeps.ite (fun hall => ?_) (fun hsome => ?_)
  · exact Traced.Keeps.pure ⟨List.Subperm.refl _, fun hk => by omega⟩
  · refine Traced.Keeps.ite (fun hone => ?_) (fun _ => ?_)
    · refine Traced.Keeps.pure ⟨?_, fun _ => ?_⟩
      · exact (List.take_sublist _ _).subperm.trans (exchange_perm _ _ _).subperm
      · have := List.length_take_le 1 (exchange cands 0 (bestIndex nearer cands))
        omega
    · have htotal := @selectLoop_isSome _ nearer nearer_irrefl (k.toNat - 1) (cands.length + 1)
        cands 0 cands.length (by omega) le_rfl
      obtain ⟨selected, hselected⟩ := Option.isSome_iff_exists.mp htotal
      rw [hselected]
      refine Traced.Keeps.pure ⟨?_, fun _ => ?_⟩
      · exact (List.take_sublist _ _).subperm.trans (selectLoop_perm hselected).subperm
      · have := List.length_take_le k.toNat selected
        omega

theorem chunksOf_flatten_sublist (size : Nat) (list : List Candidate) :
    (chunksOf size list).flatten.Sublist list := by
  fun_induction chunksOf size list with
  | case1 => exact List.nil_sublist _
  | case2 list _ ih =>
      rw [List.flatten_cons]
      have happend := ((List.Sublist.refl (list.take size)).append ih)
      rwa [List.take_append_drop] at happend

/-- What an operation on the queues promises. -/
def Frontier.Absorbs (frontier : Frontier) (found : List Candidate) (after : Frontier) : Prop :=
  Offered found frontier.candidates frontier.results after.candidates after.results ∧
    after.marks = frontier.marks

section

variable (ef : Nat) (frontier : Frontier)

theorem Frontier.offerLocal_keeps (found : List Candidate) :
    Traced.Keeps event fault (frontier.Absorbs found) (frontier.offerLocal ef found) := by
  unfold Frontier.offerLocal
  refine Traced.Keeps.ite (fun _ => Traced.Keeps.pure ⟨Offered.refl, rfl⟩) (fun _ => ?_)
  refine (selectTopKByDist_keeps found _).bind fun best hbest => ?_
  obtain ⟨hoffered, hmarks⟩ := frontier.foldl_offered ef best
  exact Traced.Keeps.pure ⟨hoffered.of_subperm hbest.1, hmarks⟩

theorem Frontier.offerLocals_keeps (locals : List (List Candidate)) :
    Traced.Keeps event fault (frontier.Absorbs locals.flatten)
      (Traced.fold (Frontier.offerLocal ef) frontier locals) := by
  induction locals generalizing frontier with
  | nil => exact Traced.Keeps.pure ⟨Offered.refl, rfl⟩
  | cons found rest ih =>
      refine (frontier.offerLocal_keeps ef found).bind fun middle hmiddle => ?_
      refine (ih middle).imp fun after hafter => ?_
      exact ⟨hmiddle.1.trans hafter.1, hafter.2.trans hmiddle.2⟩

theorem Frontier.absorb_keeps (found : List Candidate) :
    Traced.Keeps event fault (frontier.Absorbs found) (frontier.absorb p h ef found) := by
  unfold Frontier.absorb
  refine Traced.Keeps.ite (fun _ => ?_) (fun _ => ?_)
  · refine (frontier.offerLocals_keeps ef _).imp fun after hafter => ?_
    refine ⟨hafter.1.of_subperm (List.Sublist.subperm ?_), hafter.2⟩
    rw [← List.filter_flatten]
    exact List.filter_sublist.trans (chunksOf_flatten_sublist _ found)
  · refine Traced.Keeps.ite (fun _ => ?_) (fun _ => Traced.Keeps.pure (frontier.foldl_offered ef found))
    simp only
    refine Traced.Keeps.ite (fun _ => Traced.Keeps.pure ⟨Offered.refl, rfl⟩) (fun _ => ?_)
    refine (selectTopKByDist_keeps _ _).bind fun best hbest => ?_
    obtain ⟨hoffered, hmarks⟩ := frontier.foldl_offered ef best
    exact Traced.Keeps.pure
      ⟨hoffered.of_subperm (hbest.1.trans List.filter_sublist.subperm), hmarks⟩

end

theorem SmallFrontier.offer_offered (ef : Nat) (frontier : SmallFrontier) (c : Candidate) :
    Offered [c] frontier.candidates frontier.results (frontier.offer ef c).candidates
        (frontier.offer ef c).results ∧
      (frontier.offer ef c).marks = frontier.marks := by
  unfold SmallFrontier.offer
  split
  next =>
    have hcandidates : (frontier.candidates ++ [c]).Subperm ([c] ++ frontier.candidates) :=
      (List.perm_append_comm).subperm
    split
    next =>
      have hresults : Offered [c] frontier.candidates frontier.results
          (frontier.candidates ++ [c]) (frontier.results ++ [c]) :=
        ⟨hcandidates, List.perm_append_comm.subperm, by simp⟩
      simp only
      split
      next => exact ⟨hresults, rfl⟩
      next => exact ⟨hresults, rfl⟩
    next =>
      refine ⟨⟨hcandidates, ?_, ?_⟩, rfl⟩
      · exact set_subperm_cons _ _ _
      · exact (List.length_set).ge
  next => exact ⟨Offered.refl, rfl⟩

theorem SmallFrontier.foldl_offered (ef : Nat) (frontier : SmallFrontier)
    (found : List Candidate) :
    Offered found frontier.candidates frontier.results
        (found.foldl (SmallFrontier.offer ef) frontier).candidates
        (found.foldl (SmallFrontier.offer ef) frontier).results ∧
      (found.foldl (SmallFrontier.offer ef) frontier).marks = frontier.marks :=
  Offered.foldl (fun f => f.offer_offered ef) frontier found

/-! ## The loops -/

/-- The slots with a node that a search has not marked. -/
def unmarkedSlots (h : Index) (marks : List Nat) : Finset Nat :=
  (Finset.range h.nodes.length).filter fun i => (h.getNodeFast i).isSome = true ∧ i ∉ marks

/-- The queues and marks of a search of layer `l`. -/
structure Searching (ground fit : Node → Prop) (l : Nat) (candidates results : List Candidate)
    (marks : List Nat) : Prop where
  queued : ∀ c ∈ candidates, Placed ground fit l c
  kept : ∀ c ∈ results, Placed ground fit l c
  nodup : (results.map Candidate.id).Nodup
  marked : ∀ c ∈ results, c.id ∈ marks
  nonempty : results ≠ []

/-- New candidates have distinct ids, none of which is among the results. -/
theorem Searching.offered {l : Nat} {candidates rest results candidates' results' : List Candidate}
    {marks : List Nat} {expanded : List Candidate × List Nat}
    (hsearching : Searching ground fit l candidates results marks)
    (hexpanded : Expanded ground fit h l marks expanded) (hrest : rest ⊆ candidates)
    (hoffered : Offered expanded.1 rest results candidates' results') :
    Searching ground fit l candidates' results' expanded.2 where
  queued c hc := by
    rcases List.mem_append.mp (hoffered.queued.subset hc) with hfound | hold
    · exact hexpanded.placed c hfound
    · exact hsearching.queued c (hrest hold)
  kept c hc := by
    rcases List.mem_append.mp (hoffered.kept.subset hc) with hfound | hold
    · exact hexpanded.placed c hfound
    · exact hsearching.kept c hold
  nodup := by
    have hall : ((expanded.1 ++ results).map Candidate.id).Nodup := by
      rw [List.map_append]
      refine hexpanded.nodup.append hsearching.nodup ?_
      intro id hfound hold
      obtain ⟨c, hc, rfl⟩ := List.mem_map.mp hfound
      obtain ⟨c', hc', heq⟩ := List.mem_map.mp hold
      exact hexpanded.unmarked c hc (heq ▸ hsearching.marked c' hc')
    obtain ⟨kept, hperm, hsub⟩ := hoffered.kept
    exact (hperm.map Candidate.id).nodup_iff.mp (hall.sublist (hsub.map Candidate.id))
  marked c hc := by
    rcases List.mem_append.mp (hoffered.kept.subset hc) with hfound | hold
    · exact hexpanded.marked c hfound
    · exact hexpanded.marks (hsearching.marked c hold)
  nonempty := by
    intro hnil
    have hlength := hoffered.grows
    rw [hnil, List.length_nil, Nat.le_zero, List.length_eq_zero_iff] at hlength
    exact hsearching.nonempty hlength

/-- Every expansion marks the nodes it queues. -/
theorem unmarked_card_le {found : List Candidate} {marks marks' : List Nat}
    (hstored : ∀ c ∈ found, (h.getNodeFast c.id).isSome) (hnodup : (found.map Candidate.id).Nodup)
    (hunmarked : ∀ c ∈ found, c.id ∉ marks) (hmarked : ∀ c ∈ found, c.id ∈ marks')
    (hmarks : marks ⊆ marks') :
    found.length + (unmarkedSlots h marks').card ≤ (unmarkedSlots h marks).card := by
  have hfound : (found.map Candidate.id).toFinset.card = found.length := by
    rw [List.toFinset_card_of_nodup hnodup, List.length_map]
  rw [← hfound, ← Finset.card_union_of_disjoint]
  · refine Finset.card_le_card (Finset.union_subset ?_ ?_)
    · intro id hid
      obtain ⟨c, hc, rfl⟩ := List.mem_map.mp (List.mem_toFinset.mp hid)
      obtain ⟨node, hnode⟩ := Option.isSome_iff_exists.mp (hstored c hc)
      exact Finset.mem_filter.mpr ⟨Finset.mem_range.mpr (lt_length_of_getNodeFast hnode),
        hstored c hc, hunmarked c hc⟩
    · intro id hid
      obtain ⟨hrange, hnode, hid⟩ := Finset.mem_filter.mp hid
      exact Finset.mem_filter.mpr ⟨hrange, hnode, fun hmem => hid (hmarks hmem)⟩
  · rw [Finset.disjoint_left]
    intro id hid hleft
    obtain ⟨c, hc, rfl⟩ := List.mem_map.mp (List.mem_toFinset.mp hid)
    exact (Finset.mem_filter.mp hleft).2.2 (hmarked c hc)

theorem Expanded.unmarked_card {l : Nat} {marks : List Nat}
    {expanded : List Candidate × List Nat} (hexpanded : Expanded ground fit h l marks expanded) :
    expanded.1.length + (unmarkedSlots h expanded.2).card ≤ (unmarkedSlots h marks).card :=
  unmarked_card_le hexpanded.stored hexpanded.nodup hexpanded.unmarked hexpanded.marked
    hexpanded.marks

/-- What a search of layer `l` returns. -/
structure Found (ground fit : Node → Prop) (l : Nat) (results : List Candidate) : Prop where
  placed : ∀ c ∈ results, Placed ground fit l c
  nodup : (results.map Candidate.id).Nodup
  nonempty : results ≠ []

theorem Searching.found {l : Nat} {candidates results : List Candidate} {marks : List Nat}
    (hsearching : Searching ground fit l candidates results marks) : Found ground fit l results :=
  ⟨hsearching.kept, hsearching.nodup, hsearching.nonempty⟩

theorem searchLoop_keeps (hterrain : Terrain p h query qvec layers event fault ground fit)
    {ef l fuel : Nat} (hl : layers l) {frontier : Frontier}
    (hsearching : Searching ground fit l frontier.candidates frontier.results frontier.marks)
    (hfuel : frontier.candidates.length + (unmarkedSlots h frontier.marks).card < fuel) :
    Traced.Keeps event fault (Found ground fit l)
      (h.searchLoop p query qvec ef l fuel frontier) := by
  induction fuel generalizing frontier with
  | zero => omega
  | succ fuel ih =>
      rw [searchLoop]
      cases hpop : candHeapPop frontier.candidates with
      | none => exact Traced.Keeps.pure hsearching.found
      | some popped =>
          obtain ⟨c, rest⟩ := popped
          have hperm : (c :: rest).Perm frontier.candidates := heapPop_perm hpop
          have hc := hsearching.queued c (hperm.subset List.mem_cons_self)
          refine Traced.Keeps.ite (fun _ => Traced.Keeps.pure hsearching.found) (fun _ => ?_)
          refine (expand_keeps hterrain hl hc).bind fun expanded hexpanded => ?_
          refine (Frontier.absorb_keeps ef _ expanded.1).bind fun after hafter => ?_
          obtain ⟨hoffered, hmarks⟩ := hafter
          have hrest : rest ⊆ frontier.candidates :=
            fun c' hc' => hperm.subset (List.mem_cons_of_mem _ hc')
          apply ih
          · rw [hmarks]
            exact hsearching.offered hexpanded hrest hoffered
          · have hcard := hexpanded.unmarked_card
            have hqueued := hoffered.queued.length_le
            have hlength := hperm.length_eq
            rw [hmarks]
            simp only [List.length_append, List.length_cons] at hqueued hlength ⊢
            omega

theorem popNearest_spec {candidates rest : List Candidate} {c : Candidate}
    (hpop : popNearest candidates = some (c, rest)) :
    c ∈ candidates ∧ rest ⊆ candidates ∧ rest.length < candidates.length := by
  simp only [popNearest] at hpop
  split at hpop
  next c' last hget hlast =>
    obtain ⟨rfl, rfl⟩ := Prod.mk.inj (Option.some.inj hpop)
    have hmem : last ∈ candidates := List.mem_of_getLast? hlast
    refine ⟨List.mem_of_getElem? hget, fun cand hcand => ?_, ?_⟩
    · rcases List.mem_or_eq_of_mem_set (List.dropLast_subset _ hcand) with hold | rfl
      · exact hold
      · exact hmem
    · have hpos := List.length_pos_of_mem hmem
      rw [List.length_dropLast, List.length_set]
      omega
  next => cases hpop

section

variable (hterrain : Terrain p h query qvec layers event fault ground fit)

include hterrain

theorem searchSmallLoop_keeps {ef l fuel : Nat} (hl : layers l) {frontier : SmallFrontier}
    (hsearching : Searching ground fit l frontier.candidates frontier.results frontier.marks)
    (hfuel : frontier.candidates.length + (unmarkedSlots h frontier.marks).card < fuel) :
    Traced.Keeps event fault (Found ground fit l)
      (h.searchSmallLoop p query qvec ef l fuel frontier) := by
  induction fuel generalizing frontier with
  | zero => omega
  | succ fuel ih =>
      rw [searchSmallLoop]
      cases hpop : popNearest frontier.candidates with
      | none => exact Traced.Keeps.pure hsearching.found
      | some popped =>
          obtain ⟨c, rest⟩ := popped
          obtain ⟨hmem, hrest, hless⟩ := popNearest_spec hpop
          have hc := hsearching.queued c hmem
          refine Traced.Keeps.ite (fun _ => Traced.Keeps.pure hsearching.found) (fun _ => ?_)
          refine (expand_keeps hterrain hl hc).bind fun expanded hexpanded => ?_
          obtain ⟨hoffered, hmarks⟩ := SmallFrontier.foldl_offered ef
            { frontier with candidates := rest, marks := expanded.2 } expanded.1
          apply ih
          · rw [hmarks]
            exact hsearching.offered hexpanded hrest hoffered
          · have hcard := hexpanded.unmarked_card
            have hqueued := hoffered.queued.length_le
            rw [hmarks]
            simp only [List.length_append] at hqueued ⊢
            omega

/-- A search of one layer finds distinct measured nodes of the terrain, and at least one. -/
theorem searchLayer_keeps {l : Nat} (hl : layers l) {start : Option Node} (ef : Int)
    (hstart : ∀ node, start = some node → ground node ∧ l ≤ node.layer)
    (hnil : start = none → fault .nilDereference) :
    Traced.Keeps event fault (Found ground fit l)
      (h.searchLayer p query qvec start ef l) := by
  cases start with
  | none =>
      have hmax : Traced.Keeps event fault (fun _ => True)
          (h.distanceToNode p query qvec none) := Traced.Keeps.pure trivial
      exact hmax.bind fun _ _ => Traced.Keeps.raise (hnil rfl)
  | some node =>
      obtain ⟨hground, hlayer⟩ := hstart node rfl
      refine (hterrain.measure node hground).bind fun dist hfit => ?_
      have hfirst : Placed ground fit l ⟨node.id, dist, node⟩ := ⟨hground, hfit, hlayer, rfl⟩
      have hsearching : Searching ground fit l [⟨node.id, dist, node⟩] [⟨node.id, dist, node⟩]
          [node.id] :=
        ⟨by simpa using hfirst, by simpa using hfirst, by simp, by simp, by simp⟩
      have hcard : (unmarkedSlots h [node.id]).card ≤ h.nodes.length := by
        rw [← Finset.card_range h.nodes.length]
        exact Finset.card_le_card (Finset.filter_subset _ _)
      refine Traced.Keeps.ite (fun _ => ?_) (fun _ => ?_)
      · exact searchSmallLoop_keeps hterrain hl hsearching (by simp only [List.length_singleton]; omega)
      · exact searchLoop_keeps hterrain hl hsearching (by simp only [List.length_singleton]; omega)

end

/-! ## Entry points -/

/-- The answer of a search: distinct measured nodes of the terrain, at most `k`. -/
def Answers (h : Index) (ground fit : Node → Prop) (k : Int) (answer : List (Bytes × Float32)) :
    Prop :=
  ∃ results, answer = h.answer results ∧ (∀ c ∈ results, Placed ground fit 0 c) ∧
    (results.map Candidate.id).Nodup ∧ (results.length : Int) ≤ max k 0

theorem nodup_ids_of_subperm {first second : List Candidate} (hsub : first.Subperm second)
    (hnodup : (second.map Candidate.id).Nodup) : (first.map Candidate.id).Nodup := by
  obtain ⟨middle, hperm, hmiddle⟩ := hsub
  exact (hperm.map Candidate.id).nodup_iff.mp (hnodup.sublist (hmiddle.map Candidate.id))

theorem nearest_keeps (results : List Candidate) {k : Int} (hk : k < 0 → fault .sliceBounds) :
    Traced.Keeps event fault
      (fun top => top.Subperm results ∧ (top.length : Int) ≤ max k 0) (nearest p results k) := by
  have hselect : Traced.Keeps event fault (fun selected => selected.Subperm results)
      (if k < results.length then selectTopKByDist results k else pure results) := by
    refine Traced.Keeps.ite (fun _ => ?_) (fun _ => Traced.Keeps.pure (List.Subperm.refl _))
    exact (selectTopKByDist_keeps results k).imp fun _ hselected => hselected.1
  refine hselect.bind fun selected hselected => ?_
  refine Traced.Keeps.ite (fun hneg => Traced.Keeps.raise (hk (by omega))) (fun hcount => ?_)
  have hperm : (p.sort (selected.take (min (selected.length : Int) k).toNat) ++
      selected.drop (min (selected.length : Int) k).toNat).Perm selected := by
    have happend := (p.sort_perm (selected.take (min (selected.length : Int) k).toNat)).append_right
      (selected.drop (min (selected.length : Int) k).toNat)
    rwa [List.take_append_drop] at happend
  simp only
  generalize p.sort (selected.take (min (selected.length : Int) k).toNat) ++
    selected.drop (min (selected.length : Int) k).toNat = sorted at hperm
  refine Traced.Keeps.pure ⟨?_, ?_⟩
  · split
    next => exact ((List.take_sublist _ _).subperm.trans hperm.subperm).trans hselected
    next => exact hperm.subperm.trans hselected
  · split
    next =>
      have hlength := List.length_take_le k.toNat sorted
      omega
    next hle =>
      have hle := not_lt.mp hle
      omega

/-- The descent from the entry point. -/
theorem descent_keeps (hterrain : Terrain p h query qvec layers event fault ground fit)
    (hlayers : ∀ l, l ≤ h.maxLayer → layers l)
    (hentry : ∀ node, h.getNode h.entry = some node → ground node ∧ h.maxLayer ≤ node.layer)
    (hnil : h.getNode h.entry = none → fault .nilDereference) :
    Traced.Keeps event fault
      (fun curr => (∀ node, curr = some node → ground node ∧ 0 ≤ node.layer) ∧
        (curr = none → fault .nilDereference))
      (h.descendLayers p query qvec 0 h.maxLayer (h.getNode h.entry)) := by
  refine (descendLayers_keeps hterrain (fun l _ hle => hlayers l hle) hentry hnil).imp
    fun curr hcurr => ?_
  rcases hcurr with ⟨rfl, _⟩ | ⟨found, rfl, hground, _⟩
  · exact ⟨fun node hnode => ⟨(hentry node hnode).1, Nat.zero_le _⟩, hnil⟩
  · refine ⟨fun node hnode => ?_, nofun⟩
    cases hnode
    exact ⟨hground, Nat.zero_le _⟩

/-- A search from an entry point inside the terrain. -/
theorem searchEf_keeps {vec : Vector} {k ef : Int}
    (hterrain : Terrain p h (h.normalizedQuery p vec)
      (h.maybeQuantizeQuery p (h.normalizedQuery p vec)) layers event fault ground fit)
    (hlayers : ∀ l, l ≤ h.maxLayer → layers l)
    (hentry : ∀ node, h.getNode h.entry = some node → ground node ∧ h.maxLayer ≤ node.layer)
    (hnil : h.entry ≠ 0 → h.getNode h.entry = none → fault .nilDereference)
    (hk : k < 0 → fault .sliceBounds) :
    Traced.Keeps event fault (Answers h ground fit k) (h.searchEf p vec k ef) := by
  unfold searchEf
  refine Traced.Keeps.ite (fun _ => ?_) (fun hne => ?_)
  · exact Traced.Keeps.pure ⟨[], rfl, by simp, by simp, by simp⟩
  · refine (descent_keeps hterrain hlayers hentry (hnil hne)).bind fun curr hcurr => ?_
    refine (searchLayer_keeps hterrain (hlayers 0 (Nat.zero_le _)) ef hcurr.1 hcurr.2).bind
      fun results hresults => ?_
    refine (nearest_keeps results hk).bind fun top htop => ?_
    exact Traced.Keeps.pure ⟨top, rfl, fun c hc => hresults.placed c (htop.1.subset hc),
      nodup_ids_of_subperm htop.1 hresults.nodup, htop.2⟩

/-- Reranking changes distances only. -/
theorem rerank_keeps {vec : Vector} (candidates : List Candidate)
    (hexact : ∀ c ∈ candidates, Traced.Keeps event fault (fun _ => True)
      (h.distanceExact p vec c.node)) :
    Traced.Keeps event fault
      (fun reranked => List.Forall₂ (fun c c' => c'.id = c.id ∧ c'.node = c.node) candidates
        reranked) (Traced.each (h.rerank p vec) candidates) := by
  refine Traced.Keeps.each fun c hc => ?_
  exact (hexact c hc).bind fun dist _ => Traced.Keeps.pure ⟨rfl, rfl⟩

theorem forall₂_reranked {candidates reranked : List Candidate} (good : Nat → Node → Prop)
    (hsame : List.Forall₂ (fun c c' : Candidate => c'.id = c.id ∧ c'.node = c.node) candidates
      reranked) (hgood : ∀ c ∈ candidates, good c.id c.node) :
    reranked.map Candidate.id = candidates.map Candidate.id ∧ ∀ c ∈ reranked, good c.id c.node := by
  induction hsame with
  | nil => simp
  | @cons c c' candidates reranked hhead _ ih =>
      obtain ⟨hids, hrest⟩ := ih fun c hc => hgood c (List.mem_cons_of_mem _ hc)
      refine ⟨by simp [hids, hhead.1], fun cand hcand => ?_⟩
      rcases List.mem_cons.mp hcand with rfl | hcand
      · rw [hhead.1, hhead.2]
        exact hgood c List.mem_cons_self
      · exact hrest cand hcand

theorem searchTwoStage_keeps {vec : Vector} {k stage1Ef candidateFactor : Int}
    (hterrain : Terrain p h (h.normalizedQuery p vec)
      (h.maybeQuantizeQuery p (h.normalizedQuery p vec)) layers event fault ground fit)
    (hexact : ∀ node, ground node → fit node → Traced.Keeps event fault (fun _ => True)
      (h.distanceExact p (h.normalizedQuery p vec) node))
    (hlayers : ∀ l, l ≤ h.maxLayer → layers l)
    (hentry : ∀ node, h.getNode h.entry = some node → ground node ∧ h.maxLayer ≤ node.layer)
    (hnil : h.entry ≠ 0 → h.getNode h.entry = none → fault .nilDereference) :
    Traced.Keeps event fault (Answers h ground fit k)
      (h.searchTwoStage p vec k stage1Ef candidateFactor) := by
  have hnone : Answers h ground fit k [] := ⟨[], rfl, by simp, by simp, by simp⟩
  unfold searchTwoStage
  refine Traced.Keeps.ite (fun _ => Traced.Keeps.pure hnone) (fun hne => ?_)
  refine Traced.Keeps.ite (fun _ => Traced.Keeps.pure hnone) (fun hk => ?_)
  refine (descent_keeps hterrain hlayers hentry (hnil hne)).bind fun curr hcurr => ?_
  refine (searchLayer_keeps hterrain (hlayers 0 (Nat.zero_le _)) _ hcurr.1 hcurr.2).bind
    fun results hresults => ?_
  simp only
  generalize (if Int.bmod (k * if candidateFactor ≤ 0 then 4 else candidateFactor) (2 ^ 64) < k
    then k else Int.bmod (k * if candidateFactor ≤ 0 then 4 else candidateFactor) (2 ^ 64)) = most
  let chosen := if most < (p.sort results).length then (p.sort results).take most.toNat
    else p.sort results
  have hchosen : chosen.Subperm results := by
    simp only [chosen]
    split
    next => exact (List.take_sublist _ _).subperm.trans (p.sort_perm results).subperm
    next => exact (p.sort_perm results).subperm
  have hplaced : ∀ c ∈ chosen, Placed ground fit 0 c :=
    fun c hc => hresults.placed c (hchosen.subset hc)
  refine (rerank_keeps chosen fun c hc =>
    hexact c.node (hplaced c hc).ground (hplaced c hc).fit).bind fun reranked hreranked => ?_
  obtain ⟨hids, hgood⟩ := forall₂_reranked
    (fun id node => ground node ∧ fit node ∧ 0 ≤ node.layer ∧ id = node.id) hreranked
    fun c hc => ⟨(hplaced c hc).ground, (hplaced c hc).fit, Nat.zero_le _, (hplaced c hc).id⟩
  have hnodup : (reranked.map Candidate.id).Nodup :=
    hids ▸ nodup_ids_of_subperm hchosen hresults.nodup
  have hplaced' : ∀ c ∈ reranked, Placed ground fit 0 c := fun c hc =>
    ⟨(hgood c hc).1, (hgood c hc).2.1, (hgood c hc).2.2.1, (hgood c hc).2.2.2⟩
  have hsorted : (p.sort reranked).Subperm reranked := (p.sort_perm reranked).subperm
  refine Traced.Keeps.pure ⟨_, rfl, ?_⟩
  split
  next =>
    have htake := (List.take_sublist k.toNat (p.sort reranked)).subperm.trans hsorted
    refine ⟨fun c hc => hplaced' c (htake.subset hc), nodup_ids_of_subperm htake hnodup, ?_⟩
    have hlength := List.length_take_le k.toNat (p.sort reranked)
    omega
  next hle =>
    refine ⟨fun c hc => hplaced' c (hsorted.subset hc), nodup_ids_of_subperm hsorted hnodup, ?_⟩
    have hle := not_lt.mp hle
    omega

end Search

end Index

end Vectron.Hnsw
