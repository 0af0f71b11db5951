import Vectron.Hnsw.Pruning
import Vectron.Hnsw.Reachability

/-! # What a rebuild restores

`Rebuild` adds the live vectors one after the other to an empty index. Each new node gets an edge
to a node that is there already and one back, so that the lowest layer stays connected in every
direction, whichever node becomes the entry point. Lists are not cut while nodes are added.
-/

namespace Vectron.Hnsw

open Foundation
open Worker (Vector)

namespace Index

variable {h : Index} {p : Platform} {env : Env} {event : Node → Prop} {fault : Fault → Prop}

/-! ## Distances without faults -/

theorem scalarDot_total {a b : Vector} (hlength : b.length ≤ a.length) (sum : Float32) :
    Traced.Keeps event fault (fun _ => True) (scalarDot a b sum) := by
  fun_induction scalarDot a b sum with
  | case1 => exact Traced.Keeps.pure trivial
  | case2 => simp at hlength
  | case3 _ _ _ _ _ ih => exact ih (by simpa using hlength)

theorem dim_of_skeleton {h' : Index} (hskeleton : h'.skeleton = h.skeleton) : h'.dim = h.dim := by
  have hdim : h'.skeleton.dim = h.skeleton.dim := by rw [hskeleton]
  exact hdim

theorem AllLive.of_skeleton {h' : Index} (hlive : h.AllLive)
    (hskeleton : h'.skeleton = h.skeleton) : h'.AllLive := by
  intro i node hnode
  obtain ⟨old, hold, hbare⟩ := getNodeFast_of_skeleton hskeleton.symm hnode
  rw [← live_bare, ← hbare, live_bare]
  exact hlive i old hold

/-- Where all nodes are live, or vectors are normalised, no distance runs past a vector. -/
theorem measured_of_tables {base : Index} (htables : Tables base)
    (hlive : base.isNormalized = true ∨ base.AllLive) (hevent : ∀ node, event node)
    {query : Vector} (hquery : query.length = base.dim)
    {qvec : Option Bytes} (hqvec : ∀ stored, qvec = some stored → stored.length = base.dim) :
    Measured p base query qvec event fault := by
  have hlength : ∀ h : Index, h.skeleton = base.skeleton → query.length = h.dim :=
    fun h hskeleton => hquery.trans (dim_of_skeleton hskeleton).symm
  have hfloat : ∀ (h : Index) (node : Node), h.skeleton = base.skeleton →
      h.getNodeFast node.id = some node → node.qvec = none →
      Traced.Keeps event fault (fun _ => True)
        (h.distanceWithNode p query (node.vec.getD []) node.norm) := by
    intro h node hskeleton hstored hnone
    rcases hlive with hnormalized | hlive
    · have hsame : h.skeleton.isNormalized = base.skeleton.isNormalized := by rw [hskeleton]
      have hflag : h.isNormalized = true := hsame.trans hnormalized
      unfold distanceWithNode
      rw [if_pos hflag]
      exact Traced.Keeps.pure trivial
    · have hsome : node.vec.isSome = true := by
        simpa [Node.live, hnone] using hlive.of_skeleton hskeleton node.id node hstored
      obtain ⟨vec, hvec⟩ := Option.isSome_iff_exists.mp hsome
      have hnamed := (htables.of_skeleton hskeleton).node node.id node hstored
      rw [hvec]
      exact distanceWithNode_keeps
        (Or.inl (by rw [Option.getD_some, hnamed.vec vec hvec, hlength h hskeleton])) _
  have hplain : ∀ (h : Index) (node : Node) (qvec : Option Bytes), h.skeleton = base.skeleton →
      h.getNodeFast node.id = some node →
      Traced.Keeps event fault (fun _ => True) (h.distanceToNode p query qvec (some node)) := by
    intro h node qvec hskeleton hstored
    refine (Traced.Keeps.emit (hevent node)).bind fun _ _ => ?_
    cases hown : node.qvec with
    | some own => exact Traced.Keeps.pure trivial
    | none => exact hfloat h node hskeleton hstored hown
  constructor
  case measure => exact fun h node hskeleton hstored => hplain h node qvec hskeleton hstored
  case batchInt8 =>
    intro h node stored hskeleton hstored hsome
    have hnamed := (htables.of_skeleton hskeleton).node node.id node hstored
    refine (Traced.Keeps.emit (hevent node)).bind fun _ _ => ?_
    cases hown : node.qvec with
    | some own =>
        have hsame : stored.length = own.length := by
          rw [hqvec stored hsome, hnamed.qvec own hown, dim_of_skeleton hskeleton]
        exact Traced.Keeps.ite (fun hshort => by omega) (fun _ => Traced.Keeps.pure trivial)
    | none => exact hfloat h node hskeleton hstored hown
  case batchFloat =>
    intro h node hskeleton hstored _ _
    have hnamed := (htables.of_skeleton hskeleton).node node.id node hstored
    unfold batchDistanceFloat
    cases hvec : node.vec with
    | some vec =>
        refine (Traced.Keeps.emit (hevent node)).bind fun _ _ => ?_
        refine (scalarDot_total ?_ _).bind fun _ _ => Traced.Keeps.pure trivial
        rw [hnamed.vec vec hvec, hlength h hskeleton]
    | none => exact hplain h node none hskeleton hstored
  case tooClose =>
    exact fun h cand selected hskeleton =>
      tooClose_ranged (Or.inl (htables.of_skeleton hskeleton)) hevent cand selected

theorem length_searchVec (p : Platform) (vec : Vector) :
    (h.searchVec p vec).length = vec.length := by
  unfold searchVec
  split
  next => exact p.normalize_length vec
  next => rfl

theorem length_maybeQuantizeQuery {vec : Vector} {stored : Bytes}
    (hstored : h.maybeQuantizeQuery p vec = some stored) : stored.length = vec.length := by
  unfold maybeQuantizeQuery at hstored
  split at hstored
  next =>
    rw [← Option.some.inj hstored]
    exact p.quantize_length vec
  next => cases hstored

/-! ## One more node -/

section

variable {id : Bytes} {vec : Vector} {after : Index} (hadded : Added p env h id vec (after, none))

include hadded

/-- The nodes after an insertion are the old ones and the new one, but for their lists. -/
theorem Added.bare (j : Nat) :
    (after.getNodeFast j).map Node.bare =
      if j = h.nextID then some (h.drawnNode p env vec).bare
      else (h.getNodeFast j).map Node.bare := by
  have hinserted : ((h.inserted p env id vec).getNodeFast j).map Node.bare =
      if j = h.nextID then some (h.drawnNode p env vec).bare
      else (h.getNodeFast j).map Node.bare := by
    rw [getNodeFast_inserted]
    split <;> rfl
  rw [← hinserted]
  generalize hresult : (after, (none : Option AddError)) = result at hadded
  cases hadded with
  | refused err hreason => cases hresult
  | alone hdim hentry =>
      obtain ⟨rfl, _⟩ := Prod.mk.inj hresult
      rfl
  | joined linked entry hdim hentry hlinked =>
      obtain ⟨rfl, _⟩ := Prod.mk.inj hresult
      have hsame : (linked.getNodeFast j).map Node.bare =
          ((h.inserted p env id vec).getNodeFast j).map Node.bare := by
        rw [← getNodeFast_skeleton, hlinked.skeleton, getNodeFast_skeleton]
      split
      next => exact hsame
      next => exact hsame

/-- What a node of an index without deletions is, whatever its lists are. -/
theorem Added.stored (j : Nat) :
    (after.getNodeFast j).isSome = true ↔ j = h.nextID ∨ (h.getNodeFast j).isSome = true := by
  have hbare := congrArg Option.isSome (hadded.bare j)
  rw [Option.isSome_map] at hbare
  rw [hbare]
  split
  next heq => simp [heq]
  next hne => simp [hne]

theorem Added.allLive (hlive : h.AllLive) : after.AllLive := by
  intro j node hnode
  have hbare := hadded.bare j
  rw [hnode, Option.map_some] at hbare
  rw [← live_bare]
  split at hbare
  next =>
    rw [Option.some.inj hbare, live_bare]
    exact drawnNode_live vec
  next =>
    obtain ⟨old, hold, heq⟩ := Option.map_eq_some_iff.mp hbare.symm
    rw [← heq, live_bare]
    exact hlive j old hold

end

/-- Where an id leads to a node with the vector. -/
def Holds (h : Index) (id : Bytes) (vec : Vector) : Prop :=
  ∃ n node, h.idToUint32.lookup id = some n ∧ h.getNodeFast n = some node ∧ node.vec = some vec

theorem drawnNode_vec (hplain : h.config.normalized = false) (vec : Vector) :
    (h.drawnNode p env vec).vec = some vec := by
  simp [drawnNode, newNode, hplain]
  split
  next => rfl
  next => rfl

theorem Added.holds_new {id : Bytes} {vec : Vector} {after : Index}
    (hadded : Added p env h id vec (after, none)) (hplain : h.config.normalized = false) :
    Holds after id vec := by
  have hbare := hadded.bare h.nextID
  rw [if_pos rfl] at hbare
  obtain ⟨node, hnode, heq⟩ := Option.map_eq_some_iff.mp hbare
  refine ⟨h.nextID, node, ?_, hnode, ?_⟩
  · rw [hadded.fields.2.2.2, GoMap.lookup_insert_if, if_pos rfl]
  · have hvec : node.bare.vec = (h.drawnNode p env vec).bare.vec := by rw [heq]
    exact hvec.trans (drawnNode_vec hplain vec)

theorem Added.holds_old {id other : Bytes} {vec vec' : Vector} {after : Index}
    (hadded : Added p env h id vec (after, none)) (hlayered : Layered h)
    (hid : h.idToUint32.lookup id = none) (hholds : Holds h other vec') :
    Holds after other vec' := by
  obtain ⟨n, node, hlookup, hnode, hvec⟩ := hholds
  have hne : other ≠ id := by
    rintro rfl
    rw [hid] at hlookup
    cases hlookup
  have hlt := (hlayered.node n node hnode).lt
  have hbare := hadded.bare n
  rw [if_neg (by omega), hnode, Option.map_some] at hbare
  obtain ⟨node', hnode', heq⟩ := Option.map_eq_some_iff.mp hbare
  refine ⟨n, node', ?_, hnode', ?_⟩
  · rw [hadded.fields.2.2.2, AList.lookup_insert_ne hne]
    exact hlookup
  · have hsame : node'.bare.vec = node.bare.vec := by rw [heq]
    exact hsame.trans hvec

/-! ## Connected in every direction -/

/-- Edges lead from every node to every other one, and the entry point is one of them. Nothing is
deleted. -/
structure Woven (h : Index) : Prop where
  coherent : Coherent h
  live : h.AllLive
  undeleted : h.deletedNodes = 0
  count : h.deletedCount = 0
  connected : ∀ a b, (h.getNodeFast a).isSome = true → (h.getNodeFast b).isSome = true →
    Relation.ReflTransGen h.GroundEdge a b
  entered : ∀ a, (h.getNodeFast a).isSome = true → (h.getNodeFast h.entry).isSome = true

theorem Mutual.edges {new : Nat} (hmutual : Mutual h new 0) : ∃ e, e ≠ new ∧
    (h.getNodeFast e).isSome = true ∧ h.GroundEdge new e ∧ h.GroundEdge e new := by
  obtain ⟨e, node, other, list, list', hne, hnode, hlist, hmem, hother, hlist', hmem'⟩ := hmutual
  have hsome : (h.getNodeFast e).isSome = true := by rw [hother, Option.isSome_some]
  have hnew : (h.getNodeFast new).isSome = true := by rw [hnode, Option.isSome_some]
  exact ⟨e, hne, hsome, ⟨node, list, hnode, hlist, hmem, hsome⟩,
    ⟨other, list', hother, hlist', hmem', hnew⟩⟩

/-- In an index without deletions the entry point is live as soon as there is a node. -/
theorem Woven.entry_live (hwoven : Woven h) {a : Nat} (ha : (h.getNodeFast a).isSome = true) :
    (h.getNode h.entry).isSome = true := by
  obtain ⟨node, hnode⟩ := Option.isSome_iff_exists.mp (hwoven.entered a ha)
  rw [getNode_eq_some.mpr ⟨hnode, hwoven.live h.entry node hnode⟩, Option.isSome_some]

/-- The first node is connected to itself, and every other one to the nodes that are there. -/
theorem Woven.connected_added (hwoven : Woven h) {id : Bytes} {vec : Vector} {after : Index}
    (hadded : Added p env h id vec (after, none))
    (hmutual : (h.getNode h.entry).isSome = true → Mutual after h.nextID 0) {a b : Nat}
    (ha : (after.getNodeFast a).isSome = true) (hb : (after.getNodeFast b).isSome = true) :
    Relation.ReflTransGen after.GroundEdge a b := by
  have hold : ∀ {a b}, (h.getNodeFast a).isSome = true → (h.getNodeFast b).isSome = true →
      Relation.ReflTransGen after.GroundEdge a b := fun ha hb =>
    (hwoven.connected _ _ ha hb).lift (fun x => x) fun _ _ hedge =>
      hadded.groundEdge hwoven.coherent.layered hedge
  rw [hadded.stored] at ha hb
  by_cases hfirst : (h.getNode h.entry).isSome = true
  · obtain ⟨e, hne, hsome, hto, hback⟩ := (hmutual hfirst).edges
    have he : (h.getNodeFast e).isSome = true :=
      ((hadded.stored e).mp hsome).resolve_left hne
    rcases ha with rfl | ha
    · rcases hb with rfl | hb
      · exact .refl
      · exact (hold he hb).head hto
    · rcases hb with rfl | hb
      · exact (hold ha he).tail hback
      · exact hold ha hb
  · have hnone : ∀ j, (h.getNodeFast j).isSome = true → False := fun j hj =>
      hfirst (hwoven.entry_live hj)
    obtain rfl := ha.resolve_right fun ha => hnone a ha
    obtain rfl := hb.resolve_right fun hb => hnone b hb
    exact .refl

/-- The entry point is the new node or stays. -/
theorem Added.entry {id : Bytes} {vec : Vector} {after : Index}
    (hadded : Added p env h id vec (after, none)) :
    after.entry = h.nextID ∨ after.entry = h.entry ∧ (h.getNode h.entry).isSome = true := by
  generalize hresult : (after, (none : Option AddError)) = result at hadded
  cases hadded with
  | refused err hreason => cases hresult
  | alone hdim hentry =>
      obtain ⟨rfl, _⟩ := Prod.mk.inj hresult
      exact Or.inl (drawnNode_id vec)
  | joined linked entry hdim hentry hlinked =>
      obtain ⟨rfl, _⟩ := Prod.mk.inj hresult
      split
      next => exact Or.inl (drawnNode_id vec)
      next =>
        have heq : linked.skeleton.entry = (h.inserted p env id vec).skeleton.entry := by
          rw [hlinked.skeleton]
        refine Or.inr ⟨heq.trans (inserted_entry id vec), ?_⟩
        rw [hentry, Option.isSome_some]

theorem Woven.added (hwoven : Woven h) (hnext : h.nextID + 1 < 2 ^ 32) {id : Bytes} {vec : Vector}
    {after : Index} (hid : h.idToUint32.lookup id = none)
    (hadded : Added p env h id vec (after, none))
    (hmutual : (h.getNode h.entry).isSome = true → Mutual after h.nextID 0) : Woven after := by
  obtain ⟨hcoherent, _, hcount, hnodes, _⟩ := hwoven.coherent.added hnext hid hadded
  constructor
  case coherent => exact hcoherent
  case live => exact hadded.allLive hwoven.live
  case undeleted => exact hnodes.trans hwoven.undeleted
  case count => exact hcount.trans hwoven.count
  case connected => exact fun a b => hwoven.connected_added hadded hmutual
  case entered =>
    intro _ _
    rw [hadded.stored]
    rcases hadded.entry with heq | ⟨heq, hentry⟩
    · exact Or.inl heq
    · obtain ⟨node, hnode⟩ := Option.isSome_iff_exists.mp hentry
      rw [heq, (getNode_eq_some.mp hnode).1]
      exact Or.inr rfl

/-- The distances that a new node is linked by. -/
theorem measured_inserted (hcoherent : Coherent h) (hlive : h.isNormalized = true ∨ h.AllLive)
    (hevent : ∀ node, event node) (hnext : h.nextID + 1 < 2 ^ 32) {id : Bytes} {vec : Vector}
    (hid : h.idToUint32.lookup id = none) (hdim : vec.length = h.dim) :
    Measured p (h.inserted p env id vec) ((h.inserted p env id vec).searchVec p vec)
      ((h.inserted p env id vec).maybeQuantizeQuery p ((h.inserted p env id vec).searchVec p vec))
      event fault := by
  have htables : Tables (h.inserted p env id vec) :=
    hcoherent.tables.inserted hcoherent.layered hnext hid hdim
  have hlength : ((h.inserted p env id vec).searchVec p vec).length =
      (h.inserted p env id vec).dim := by
    rw [length_searchVec, hdim, inserted_dim]
  refine measured_of_tables htables (hlive.imp (fun hnormalized => ?_) fun hlive =>
    allLive_inserted hlive id vec) hevent hlength
    fun stored hstored => (length_maybeQuantizeQuery hstored).trans hlength
  rw [htables.flags.isNormalized, inserted_config, ← hcoherent.tables.flags.isNormalized]
  exact hnormalized

/-- Adding a vector of the dimension under a new id, with the node store accepting it. -/
theorem Woven.addNoLock (hwoven : Woven h) (hevent : ∀ node, event node) (hm : 1 ≤ h.config.m)
    (hnext : h.nextID + 1 < 2 ^ 32) {id : Bytes} {vec : Vector}
    (hid : h.idToUint32.lookup id = none) (hdim : vec.length = h.dim)
    (hput : h.persistNode env h.nextID = true) :
    Traced.Keeps event fault
      (fun result => result.2 = none ∧ Added p env h id vec result ∧ Woven result.1)
      (addNoLock p env h id vec) := by
  refine (addNoLock_links (fun _ => measured_inserted hwoven.coherent (Or.inr hwoven.live) hevent hnext
    hid hdim) (fun hneg => by omega) hwoven.coherent.layered hnext).imp fun result hboth => ?_
  obtain ⟨hadded, hmutual⟩ := hboth
  obtain ⟨after, err⟩ := result
  have hnone : err = none := by
    generalize hresult : (after, err) = result at hadded
    cases hadded with
    | refused err' hreason =>
        cases hreason with
        | inl hlength => exact absurd hdim hlength
        | inr hrefused =>
            rw [hput] at hrefused
            cases hrefused
    | alone _ _
    | joined _ _ _ _ _ => exact (Prod.mk.inj hresult).2
  subst hnone
  exact ⟨rfl, hadded, hwoven.added hnext hid hadded fun hentry =>
    hmutual rfl hentry hwoven.live (by omega)⟩

/-- The loop of a rebuild over distinct new ids: no call is refused, and every entry can be read
back as it was where vectors are not normalised. -/
theorem Woven.addAll (hevent : ∀ node, event node) (entries : List (Bytes × Vector))
    (hwoven : Woven h) (hm : 1 ≤ h.config.m) (hnodup : (entries.map Prod.fst).Nodup)
    (hnew : ∀ id ∈ entries.map Prod.fst, h.idToUint32.lookup id = none)
    (hbound : h.nextID + entries.length < 2 ^ 32)
    (hdims : ∀ entry ∈ entries, entry.2.length = h.dim)
    (hput : ∀ n < h.nextID + entries.length, h.persistNode env n = true) :
    Traced.Keeps event fault
      (fun result => result.2 = none ∧ Woven result.1 ∧ (h.config.normalized = false →
        ∀ id vec, Holds h id vec ∨ (id, vec) ∈ entries → Holds result.1 id vec))
      (addAll p env entries h) := by
  induction entries generalizing h with
  | nil => exact Traced.Keeps.pure ⟨rfl, hwoven, fun _ id vec hholds => by simpa using hholds⟩
  | cons entry rest ih =>
      obtain ⟨id, vec⟩ := entry
      simp only [List.map_cons, List.nodup_cons, List.length_cons] at hnodup hbound hput
      have hid := hnew id List.mem_cons_self
      have hnext : h.nextID + 1 < 2 ^ 32 := by omega
      rw [Index.addAll]
      refine (hwoven.addNoLock hevent hm hnext hid (hdims (id, vec) List.mem_cons_self)
        (hput h.nextID (by omega))).bind fun result hresult => ?_
      obtain ⟨added, err⟩ := result
      obtain ⟨rfl, hadded, hwoven'⟩ := hresult
      obtain ⟨hconfig, hdim, _, hids⟩ := hadded.fields
      have hnextID := (hwoven.coherent.added hnext hid hadded).2.2.2.2
      have hpersist : added.persistNode env = h.persistNode env := by
        funext n
        unfold persistNode
        rw [hconfig]
      have hrest := ih hwoven' (by rw [hconfig]; exact hm) hnodup.2
        (fun id' hid' => by
          rw [hids, AList.lookup_insert_ne]
          · exact hnew id' (List.mem_cons_of_mem _ hid')
          · rintro rfl
            exact hnodup.1 hid')
        (by rw [hnextID]; omega)
        (fun entry hentry => by
          rw [hdim]
          exact hdims entry (List.mem_cons_of_mem _ hentry))
        (fun n hn => by
          rw [hpersist]
          rw [hnextID] at hn
          exact hput n (by omega))
      refine hrest.imp fun last hlast => ?_
      obtain ⟨hnone, hlastWoven, hlastHolds⟩ := hlast
      refine ⟨hnone, hlastWoven, fun hplain other vec' hholds => ?_⟩
      refine hlastHolds (by rw [hconfig]; exact hplain) other vec' ?_
      rcases hholds with hheld | hmem
      · exact Or.inl (hadded.holds_old hwoven.coherent.layered hid hheld)
      · rcases List.mem_cons.mp hmem with heq | hmem
        · obtain ⟨rfl, rfl⟩ := Prod.mk.inj heq
          exact Or.inl (hadded.holds_new hplain)
        · exact Or.inr hmem

/-! ## The whole rebuild -/

theorem Coherent.woven_reset (hcoherent : Coherent h) : Woven h.reset := by
  have hnone : ∀ i, h.reset.getNodeFast i = none := fun i => by
    rcases i with _ | i
    · rfl
    · rfl
  constructor
  case coherent => exact hcoherent.reset
  case live =>
    intro i node hnode
    rw [hnone] at hnode
    cases hnode
  case undeleted => rfl
  case count => rfl
  case connected =>
    intro a _ ha
    rw [hnone] at ha
    cases ha
  case entered =>
    intro a ha
    rw [hnone] at ha
    cases ha

/-- A vector that is held as floats is added again as it is. -/
theorem mem_liveVectors_of_holds (hcoherent : Coherent h) {id : Bytes} {vec : Vector}
    (hholds : Holds h id vec) : (id, vec) ∈ h.liveVectors p := by
  obtain ⟨n, node, hlookup, hnode, hvec⟩ := hholds
  have hid := (hcoherent.layered.node n node hnode).id
  have hlive : node.live = true := by simp [Node.live, hvec]
  have hmem : node ∈ h.liveNodes := by
    rw [mem_liveNodes hcoherent.layered, hid]
    exact getNode_eq_some.mpr ⟨hnode, hlive⟩
  have hfst : (h.relisted p node).1 = id :=
    (relisted_fst hcoherent hmem).mpr (by rw [hid]; exact hlookup)
  have hsnd : (h.relisted p node).2 = vec := by simp [relisted, nodeVector, hvec]
  rw [liveVectors_eq, ← hfst, ← hsnd]
  exact List.mem_map_of_mem hmem

/-- What a rebuild restores. -/
structure Rebuilt (h after : Index) : Prop where
  live : ∀ id, Live after id ↔ Live h id
  vectors : h.config.normalized = false → ∀ id vec, Holds h id vec → Holds after id vec
  deleted : after.deletedCount = 0
  count : after.nodeCount = Set.ncard {id | Live after id}
  reachable : ∀ id, Live after id → after.ReachableId id

theorem Woven.reachable (hwoven : Woven h) {id : Bytes} (hlive : Live h id) :
    h.ReachableId id := by
  obtain ⟨n, node, hlookup, hnode⟩ := hlive
  have hsome : (h.getNodeFast n).isSome = true := by
    rw [(getNode_eq_some.mp hnode).1, Option.isSome_some]
  refine ⟨n, hlookup, ?_, hwoven.connected h.entry n (hwoven.entered n hsome) hsome⟩
  rw [hnode, Option.isSome_some]

/-- Without deletions every node counted is that of a live id. -/
theorem Woven.nodeCount (hwoven : Woven h) (p : Platform) :
    h.nodeCount = Set.ncard {id | Live h id} := by
  have hlive : ∀ id, Live h id ↔ id ∈ ((h.liveVectors p).map Prod.fst).toFinset := fun id => by
    rw [List.mem_toFinset, mem_liveVectors_iff_live hwoven.coherent]
  have hsize := size_eq_card p hwoven.coherent hlive (by rw [hwoven.count, hwoven.undeleted]; rfl)
  have hset : {id | Live h id} = (((h.liveVectors p).map Prod.fst).toFinset : Set Bytes) :=
    Set.ext hlive
  rw [hset, Set.ncard_coe_finset, ← hsize, size, hwoven.count, Int.sub_zero]

/-- A rebuild returns, and with it everything live can be found again. -/
theorem rebuild_rebuilds (hcoherent : Coherent h) (hm : 1 ≤ h.config.m)
    (hput : ∀ n < h.nextID, h.persistNode env n = true) :
    ∃ after, (h.rebuild p env).outcome = .ok (after, none) ∧ Rebuilt h after := by
  have hlength : (h.liveVectors p).length < h.nextID := by
    rw [liveVectors_eq, List.length_map]
    exact liveNodes_length_lt hcoherent.layered
  have hbounded := hcoherent.bounded
  have hone : h.reset.nextID = 1 := rfl
  have hweaves := @Woven.addAll h.reset p env (fun _ => True) (fun _ => False) (fun _ => trivial)
    (h.liveVectors p) hcoherent.woven_reset hm (liveVectors_nodup hcoherent) (fun _ _ => rfl)
    (by omega) (fun entry hentry => liveVectors_dim hcoherent hentry)
    (fun n hn => hput n (by omega))
  obtain ⟨⟨after, err⟩, houtcome⟩ := returns_of_keeps (hweaves.imp fun _ _ => trivial)
  obtain ⟨rfl, hwoven, hholds⟩ := hweaves.value _ houtcome
  have hkeeps := @rebuild_keeps h p env (fun _ => True) (fun _ => True) (fun _ => trivial) trivial
    (fun _ => trivial) hcoherent
  obtain ⟨_, _, _, _, hdone, _⟩ := hkeeps.value _ houtcome
  refine ⟨after, houtcome, (hdone hput).2, fun hplain id vec hheld => ?_, hwoven.count,
    hwoven.nodeCount p, fun id => hwoven.reachable⟩
  exact hholds hplain id vec (Or.inr (mem_liveVectors_of_holds hcoherent hheld))

end Index

/-! ## In every run -/

end Vectron.Hnsw
