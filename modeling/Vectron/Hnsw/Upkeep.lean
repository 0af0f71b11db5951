import Vectron.Hnsw.Tables

/-! # Deleting, cleaning up, pruning and rebuilding

Each operation besides insertion, by what it does to the invariants of the graph and of the
tables, to the ids that are live, and to the number of deleted nodes that are still stored.
-/

namespace Vectron.Hnsw

open Foundation
open Worker (Vector)

namespace Index

/-- The invariants of an index as one. -/
structure Coherent (h : Index) : Prop where
  layered : Layered h
  tables : Tables h
  bounded : h.nextID < 2 ^ 32

/-- The deleted nodes that are still stored. -/
def deletedNodes (h : Index) : Nat := h.nodes.countP deletedSlot

variable {h : Index}

theorem coherent_new (dim : Nat) (config : Config) : Coherent (new dim config) :=
  ⟨layered_new dim config, tables_new dim config, by simp [new]⟩

theorem lt_length_of_getNode {n : Nat} {node : Node} (hnode : h.getNode n = some node) :
    n < h.nodes.length :=
  lt_length_of_getNodeFast (getNode_eq_some.mp hnode).1

section

variable {h' : Index} (hskeleton : h'.skeleton = h.skeleton)

include hskeleton

theorem deletedNodes_of_skeleton :
    h'.deletedNodes = h.deletedNodes := by
  have hbare : ∀ slot : Option Node, deletedSlot (slot.map Node.bare) = deletedSlot slot := by
    intro slot
    cases slot <;> rfl
  rw [deletedNodes, ← countP_skeleton deletedSlot hbare, hskeleton,
    countP_skeleton deletedSlot hbare, deletedNodes]

theorem deletedCount_of_skeleton :
    h'.deletedCount = h.deletedCount := by
  have hcount : h'.skeleton.deletedCount = h.skeleton.deletedCount := by rw [hskeleton]
  exact hcount

theorem nextID_of_skeleton :
    h'.nextID = h.nextID := by
  have hnext : h'.skeleton.nextID = h.skeleton.nextID := by rw [hskeleton]
  exact hnext

end

/-! ## Deletion -/

/-- Take the vector out of a node. -/
def emptied (h : Index) (n : Nat) (node : Node) : Index :=
  { h.setSlot n (some { node with vec := none, qvec := none }) with
    deletedCount := h.deletedCount + 1 }

/-- What is live without the node of an id. -/
theorem live_without (hcoherent : Coherent h) (h' : Index) {id : Bytes} {n : Nat}
    (hid : h.idToUint32.lookup id = some n)
    (hread : ∀ j, h'.getNode j = if j = n then none else h.getNode j)
    (hkept : ∀ id' ≠ id, h'.idToUint32.lookup id' = h.idToUint32.lookup id')
    (hgone : ∀ j, h'.idToUint32.lookup id = some j → j = n) (id' : Bytes) :
    Live h' id' ↔ id' ≠ id ∧ Live h id' := by
  constructor
  · rintro ⟨n', node', hlookup, hnode'⟩
    rw [hread] at hnode'
    split at hnode'
    next => cases hnode'
    next hn =>
      have hne : id' ≠ id := by
        rintro rfl
        exact hn (hgone n' hlookup)
      exact ⟨hne, n', node', (hkept id' hne).symm.trans hlookup, hnode'⟩
  · rintro ⟨hne, n', node', hlookup, hnode'⟩
    have hne' : n' ≠ n := by
      rintro rfl
      have hfirst := (hcoherent.tables.inverse id n').mp hid
      have hsecond := (hcoherent.tables.inverse id' n').mp hlookup
      rw [hfirst] at hsecond
      exact hne (Option.some.inj hsecond).symm
    exact ⟨n', node', (hkept id' hne).trans hlookup, by rw [hread, if_neg hne']; exact hnode'⟩

/-- A deletion finds nothing or empties the node of its id. -/
theorem deleteNoLock_cases (env : Env) (id : Bytes) :
    h.deleteNoLock env id = (h, true) ∧ ¬ Live h id ∨
      ∃ n node, h.idToUint32.lookup id = some n ∧ h.getNode n = some node ∧
        h.deleteNoLock env id = (h.emptied n node, h.persistNode env node.id) := by
  unfold deleteNoLock
  split
  next hnone =>
    refine Or.inl ⟨rfl, ?_⟩
    rintro ⟨n, node, hlookup, _⟩
    rw [hnone] at hlookup
    cases hlookup
  next n hsome =>
    split
    next hnone =>
      refine Or.inl ⟨rfl, ?_⟩
      rintro ⟨n', node, hlookup, hnode⟩
      rw [hsome] at hlookup
      obtain rfl := Option.some.inj hlookup
      rw [hnone] at hnode
      cases hnode
    next node hnode => exact Or.inr ⟨n, node, hsome, hnode, rfl⟩

section Emptied

variable {n : Nat} {node : Node}

theorem getNodeFast_emptied (hnode : h.getNode n = some node) (j : Nat) :
    (h.emptied n node).getNodeFast j =
      if j = n then some { node with vec := none, qvec := none } else h.getNodeFast j := by
  have hread : (h.emptied n node).getNodeFast j =
      (h.setSlot n (some { node with vec := none, qvec := none })).getNodeFast j := rfl
  rw [hread, getNodeFast_setSlot]
  simp [lt_length_of_getNode hnode]

theorem Layered.emptied (hlayered : Layered h) (hnode : h.getNode n = some node) :
    Layered (h.emptied n node) := by
  have hfast := (getNode_eq_some.mp hnode).1
  have hback : ∀ i node', (h.emptied n node).getNodeFast i = some node' →
      ∃ old, h.getNodeFast i = some old ∧ node'.id = old.id ∧ node'.layer = old.layer ∧
        node'.neighbors = old.neighbors := by
    intro i node' hnode'
    rw [getNodeFast_emptied hnode] at hnode'
    split at hnode'
    next hi =>
      subst hi
      cases hnode'
      exact ⟨node, hfast, rfl, rfl, rfl⟩
    next => exact ⟨node', hnode', rfl, rfl, rfl⟩
  refine hlayered.weaken rfl hlayered.entry_lt (fun i node' hnode' => ?_) fun node' hnode' => ?_
  · obtain ⟨old, hold, hid, hlayer, hlists⟩ := hback i node' hnode'
    exact ⟨old, hold, hid, hlayer, by rw [hlists],
      fun l list hlist => ⟨list, hlists ▸ hlist, List.Subset.refl _⟩⟩
  · obtain ⟨old, hold, _, hlayer, _⟩ := hback _ node' hnode'
    rw [hlayer]
    exact hlayered.entry old hold

theorem Tables.emptied (htables : Tables h) (hnode : h.getNode n = some node) :
    Tables (h.emptied n node) where
  flags := ⟨htables.flags.isCosine, htables.flags.isNormalized, htables.flags.useNorms,
    htables.flags.useQuantize, htables.flags.quantized⟩
  caches := by
    have hlength : (h.emptied n node).nodes.length = h.nodes.length := List.length_set
    exact htables.caches.trans hlength.symm
  inverse := htables.inverse
  handed := htables.handed
  node i node' hnode' := by
    rw [getNodeFast_emptied hnode] at hnode'
    split at hnode'
    next hi =>
      subst hi
      cases hnode'
      have hnamed := htables.node i node (getNode_eq_some.mp hnode).1
      exact ⟨hnamed.named, nofun, nofun, fun _ => rfl⟩
    next =>
      have hnamed := htables.node i node' hnode'
      exact ⟨hnamed.named, hnamed.vec, hnamed.qvec, hnamed.plain⟩
  count := by
    have hlt := lt_length_of_getNode hnode
    have hcount : ((h.emptied n node).nodes.countP Option.isSome : Int) =
        h.nodes.countP Option.isSome - 1 + 1 := by
      have hset := countP_setSlot Option.isSome hlt (some { node with vec := none, qvec := none })
      rw [(getNode_eq_some.mp hnode).1] at hset
      exact hset
    rw [hcount]
    have heq : (h.emptied n node).nodeCount = h.nodeCount := rfl
    rw [heq, htables.count]
    omega

theorem deletedNodes_emptied (hnode : h.getNode n = some node) :
    ((h.emptied n node).deletedNodes : Int) = h.deletedNodes + 1 := by
  have hset := countP_setSlot deletedSlot (lt_length_of_getNode hnode)
    (some { node with vec := none, qvec := none })
  obtain ⟨hfast, hlive⟩ := getNode_eq_some.mp hnode
  rw [hfast] at hset
  have hempty : deletedSlot (some { node with vec := none, qvec := none }) = true := rfl
  have hfull : deletedSlot (some node) = false := by simp [deletedSlot, hlive]
  rw [hempty, hfull] at hset
  simpa [deletedNodes, Index.emptied] using hset

theorem live_emptied (hcoherent : Coherent h) {id : Bytes}
    (hid : h.idToUint32.lookup id = some n) (hnode : h.getNode n = some node) (id' : Bytes) :
    Live (h.emptied n node) id' ↔ id' ≠ id ∧ Live h id' := by
  refine live_without hcoherent (h.emptied n node) hid (fun j => ?_) (fun _ _ => rfl)
    (fun j hj => (Option.some.inj (hid.symm.trans hj)).symm) id'
  rw [getNode, getNodeFast_emptied hnode]
  split
  next => rfl
  next => rfl

end Emptied

/-- What a deletion leaves. -/
theorem Coherent.delete (hcoherent : Coherent h) (env : Env) (id : Bytes) :
    Coherent (h.deleteNoLock env id).1 ∧
      (∀ id', Live (h.deleteNoLock env id).1 id' ↔ id' ≠ id ∧ Live h id') ∧
      (h.deleteNoLock env id).1.deletedCount - (h.deleteNoLock env id).1.deletedNodes =
        h.deletedCount - h.deletedNodes := by
  rcases @deleteNoLock_cases h env id with ⟨hsame, hdead⟩ | ⟨n, node, hid, hnode, hafter⟩
  · rw [hsame]
    refine ⟨hcoherent, fun id' => ⟨fun hlive => ⟨?_, hlive⟩, fun hboth => hboth.2⟩, rfl⟩
    rintro rfl
    exact hdead hlive
  · rw [hafter]
    refine ⟨⟨hcoherent.layered.emptied hnode, hcoherent.tables.emptied hnode, hcoherent.bounded⟩,
      live_emptied hcoherent hid hnode, ?_⟩
    have hdeleted := deletedNodes_emptied hnode
    have hcount : (h.emptied n node).deletedCount = h.deletedCount + 1 := rfl
    simp only
    omega

/-! ## Taking a node out of the table -/

/-- `h'` is `h` without the id `id` and its internal id `n`. -/
structure Removed (h : Index) (id : Bytes) (n : Nat) (h' : Index) : Prop where
  nodes : h'.nodes = h.nodes.set n none
  idToUint32 : h'.idToUint32 = h.idToUint32.erase id
  uint32ToID : h'.uint32ToID = h.uint32ToID.erase n
  caches : h'.extIDCache.length = h.extIDCache.length ∧
    ∀ i, i ≠ n → h'.extIDCache[i]? = h.extIDCache[i]?
  nodeCount : h'.nodeCount = h.nodeCount - if (h.getNodeFast n).isSome then 1 else 0
  config : h'.config = h.config
  dim : h'.dim = h.dim
  entry : h'.entry = h.entry
  maxLayer : h'.maxLayer = h.maxLayer
  nextID : h'.nextID = h.nextID
  flags : Flagged h → Flagged h'

theorem removed_dropNode (id : Bytes) (n : Nat) : Removed h id n (h.dropNode id n) where
  nodes := rfl
  idToUint32 := rfl
  uint32ToID := rfl
  caches := ⟨rfl, fun _ _ => rfl⟩
  nodeCount := by
    simp only [dropNode]
    split <;> simp
  config := rfl
  dim := rfl
  entry := rfl
  maxLayer := rfl
  nextID := rfl
  flags hflags := ⟨hflags.isCosine, hflags.isNormalized, hflags.useNorms, hflags.useQuantize,
    hflags.quantized⟩

theorem removed_removeDeleted {id : Bytes} {n : Nat} (hname : h.uint32ToID.lookup n = some id)
    (hstored : (h.getNodeFast n).isSome) : Removed h id n (h.removeDeleted n) where
  nodes := rfl
  idToUint32 := by simp only [removeDeleted, hname, Option.getD_some]
  uint32ToID := rfl
  caches := ⟨List.length_set, fun i hi => List.getElem?_set_ne (Ne.symm hi)⟩
  nodeCount := by rw [if_pos hstored, removeDeleted]
  config := rfl
  dim := rfl
  entry := rfl
  maxLayer := rfl
  nextID := rfl
  flags hflags := ⟨hflags.isCosine, hflags.isNormalized, hflags.useNorms, hflags.useQuantize,
    hflags.quantized⟩

namespace Removed

variable {h' : Index} {id : Bytes} {n : Nat}

section

variable (hremoved : Removed h id n h')

include hremoved

theorem getNodeFast (j : Nat) :
    h'.getNodeFast j = if j = n then none else h.getNodeFast j := by
  have hset : h'.getNodeFast j = (h.setSlot n none).getNodeFast j := by
    rw [Index.getNodeFast, hremoved.nodes]
    rfl
  rw [hset, getNodeFast_setSlot]
  by_cases hj : j = n
  · rw [if_pos hj]
    split
    next => rfl
    next hnot =>
      rw [Index.getNodeFast, List.getElem?_eq_none (by omega)]
      rfl
  · rw [if_neg hj, if_neg (fun hboth => hj hboth.1)]

theorem layered (hlayered : Layered h) : Layered h' := by
  have hback : ∀ i node', h'.getNodeFast i = some node' → h.getNodeFast i = some node' := by
    intro i node' hnode'
    rw [hremoved.getNodeFast] at hnode'
    split at hnode'
    next => cases hnode'
    next => exact hnode'
  refine hlayered.weaken hremoved.nextID (hremoved.entry ▸ hlayered.entry_lt)
    (fun i node' hnode' => ?_) fun node' hnode' => ?_
  · exact ⟨node', hback i node' hnode', rfl, rfl, rfl,
      fun l list hlist => ⟨list, hlist, List.Subset.refl _⟩⟩
  · rw [hremoved.entry] at hnode'
    rw [hremoved.maxLayer]
    exact hlayered.entry node' (hback _ node' hnode')

theorem count (q : Option Node → Bool) (hq : q none = false) :
    (h'.nodes.countP q : Int) =
      h.nodes.countP q - if q (h.getNodeFast n) then 1 else 0 := by
  rw [hremoved.nodes]
  by_cases hn : n < h.nodes.length
  · have hset := countP_setSlot q hn none
    rw [hq] at hset
    simpa [setSlot] using hset
  · have hnone : h.getNodeFast n = none := by
      rw [Index.getNodeFast, List.getElem?_eq_none (by omega)]
      rfl
    rw [List.set_eq_of_length_le (by omega), hnone, hq]
    simp

theorem tables (htables : Tables h) (hid : h.idToUint32.lookup id = some n) : Tables h' where
  flags := hremoved.flags htables.flags
  caches := by rw [hremoved.caches.1, hremoved.nodes, List.length_set, htables.caches]
  inverse id' n' := by
    have hname := (htables.inverse id n).mp hid
    rw [hremoved.idToUint32, hremoved.uint32ToID, GoMap.lookup_erase_if, GoMap.lookup_erase_if]
    by_cases hid' : id' = id
    · subst hid'
      rw [if_pos rfl]
      split
      next => simp
      next hn =>
        rw [← htables.inverse, hid]
        simp [Ne.symm hn]
    · rw [if_neg hid']
      split
      next hn =>
        subst hn
        rw [htables.inverse, hname]
        simp [Ne.symm hid']
      next => exact htables.inverse id' n'
  handed n' id' hname := by
    rw [hremoved.uint32ToID, GoMap.lookup_erase_if] at hname
    split at hname
    next => cases hname
    next =>
      rw [hremoved.nextID]
      exact htables.handed n' id' hname
  node i node hnode := by
    rw [hremoved.getNodeFast] at hnode
    split at hnode
    next => cases hnode
    next hi =>
      have hnamed := htables.node i node hnode
      obtain ⟨name, hname, hcache⟩ := hnamed.named
      refine ⟨⟨name, ?_, ?_⟩, ?_, ?_, ?_⟩
      · rw [hremoved.uint32ToID, GoMap.lookup_erase_if, if_neg hi]
        exact hname
      · rw [hremoved.caches.2 i hi]
        exact hcache
      · rw [hremoved.dim]
        exact hnamed.vec
      · rw [hremoved.dim]
        exact hnamed.qvec
      · rw [hremoved.config]
        exact hnamed.plain
  count := by
    rw [hremoved.nodeCount, htables.count, hremoved.count Option.isSome rfl]

section

variable (hcoherent : Coherent h) (hid : h.idToUint32.lookup id = some n)

include hcoherent hid

theorem coherent : Coherent h' :=
  ⟨hremoved.layered hcoherent.layered, hremoved.tables hcoherent.tables hid,
    hremoved.nextID ▸ hcoherent.bounded⟩

theorem live (id' : Bytes) :
    Live h' id' ↔ id' ≠ id ∧ Live h id' := by
  refine live_without hcoherent h' hid (fun j => ?_) (fun other hne => ?_) (fun j hj => ?_) id'
  · rw [getNode, hremoved.getNodeFast]
    split
    next => rfl
    next => rfl
  · rw [hremoved.idToUint32, GoMap.lookup_erase_if, if_neg hne]
  · rw [hremoved.idToUint32, GoMap.lookup_erase_if, if_pos rfl] at hj
    cases hj

end

theorem deletedNodes :
    (h'.deletedNodes : Int) = h.deletedNodes - if deletedSlot (h.getNodeFast n) then 1 else 0 :=
  hremoved.count deletedSlot rfl

end

end Removed

/-! ## Adding an id -/

/-- What `add` adds to: the index without the node its id had. -/
def evicted (env : Env) (h : Index) (id : Bytes) : Index :=
  match h.idToUint32.lookup id with
  | none => h
  | some n => (h.deleteNoLock env id).1.dropNode id n

/-- Whether a node, deleted or not, is stored under an id. -/
def storedUnder (h : Index) (id : Bytes) : Bool :=
  (h.idToUint32.lookup id).any fun n => (h.getNodeFast n).isSome

section

variable (env : Env) (id : Bytes)

theorem deleteNoLock_fields :
    (h.deleteNoLock env id).1.idToUint32 = h.idToUint32 ∧
      (h.deleteNoLock env id).1.nextID = h.nextID ∧
      (h.deleteNoLock env id).1.entry = h.entry ∧
      (h.deleteNoLock env id).1.maxLayer = h.maxLayer ∧
      (h.deleteNoLock env id).1.config = h.config ∧ (h.deleteNoLock env id).1.dim = h.dim := by
  rcases @deleteNoLock_cases h env id with ⟨hsame, _⟩ | ⟨n, node, _, _, hafter⟩
  · rw [hsame]
    exact ⟨rfl, rfl, rfl, rfl, rfl, rfl⟩
  · rw [hafter]
    exact ⟨rfl, rfl, rfl, rfl, rfl, rfl⟩

theorem evicted_fields :
    (h.evicted env id).nextID = h.nextID ∧ (h.evicted env id).entry = h.entry ∧
      (h.evicted env id).maxLayer = h.maxLayer ∧ (h.evicted env id).config = h.config ∧
      (h.evicted env id).dim = h.dim := by
  obtain ⟨_, hnext, hentry, hmax, hconfig, hdim⟩ := @deleteNoLock_fields h env id
  unfold evicted
  split
  next => exact ⟨rfl, rfl, rfl, rfl, rfl⟩
  next => exact ⟨hnext, hentry, hmax, hconfig, hdim⟩

/-- A deletion keeps every node in its slot, with its lists. -/
theorem getNodeFast_deleteNoLock (j : Nat) :
    ((h.deleteNoLock env id).1.getNodeFast j).isSome = (h.getNodeFast j).isSome ∧
      ∀ node', (h.deleteNoLock env id).1.getNodeFast j = some node' →
        ∃ node, h.getNodeFast j = some node ∧ node'.neighbors = node.neighbors ∧
          node'.layer = node.layer := by
  rcases @deleteNoLock_cases h env id with ⟨hsame, _⟩ | ⟨n, node, _, hnode, hafter⟩
  · rw [hsame]
    exact ⟨rfl, fun node' hnode' => ⟨node', hnode', rfl, rfl⟩⟩
  · rw [hafter]
    have hfast := (getNode_eq_some.mp hnode).1
    simp only [getNodeFast_emptied hnode]
    by_cases hj : j = n
    · subst hj
      rw [if_pos rfl, hfast]
      refine ⟨rfl, fun node' hnode' => ?_⟩
      cases hnode'
      exact ⟨node, rfl, rfl, rfl⟩
    · rw [if_neg hj]
      exact ⟨rfl, fun node' hnode' => ⟨node', hnode', rfl, rfl⟩⟩

theorem lookup_evicted :
    (h.evicted env id).idToUint32.lookup id = none := by
  unfold evicted
  split
  next hnone => exact hnone
  next n _ => simp [dropNode]

end

theorem Coherent.evicted (hcoherent : Coherent h) (env : Env) (id : Bytes) :
    Coherent (h.evicted env id) ∧
      (∀ id', Live (h.evicted env id) id' ↔ id' ≠ id ∧ Live h id') ∧
      (h.evicted env id).deletedCount - (h.evicted env id).deletedNodes =
        h.deletedCount - h.deletedNodes + if h.storedUnder id then 1 else 0 := by
  unfold Index.evicted storedUnder
  cases hid : h.idToUint32.lookup id with
  | none =>
      refine ⟨hcoherent, fun id' => ⟨fun hlive => ⟨?_, hlive⟩, fun hboth => hboth.2⟩, by simp⟩
      rintro rfl
      obtain ⟨n, node, hlookup, _⟩ := hlive
      rw [hid] at hlookup
      cases hlookup
  | some n =>
      obtain ⟨hdeleted, hlive, hdrift⟩ := hcoherent.delete env id
      have hid' : (h.deleteNoLock env id).1.idToUint32.lookup id = some n := by
        rw [(@deleteNoLock_fields h env id).1]
        exact hid
      have hremoved := @removed_dropNode (h.deleteNoLock env id).1 id n
      have hdead : (h.deleteNoLock env id).1.getNode n = none := by
        cases hnode : (h.deleteNoLock env id).1.getNode n with
        | none => rfl
        | some node => exact absurd rfl ((hlive id).mp ⟨n, node, hid', hnode⟩).1
      refine ⟨hremoved.coherent hdeleted hid', fun id' => ?_, ?_⟩
      · rw [hremoved.live hdeleted hid', hlive]
        tauto
      · have hcount : ((h.deleteNoLock env id).1.dropNode id n).deletedCount =
            (h.deleteNoLock env id).1.deletedCount := rfl
        have hnodes := hremoved.deletedNodes
        have hstored := (@getNodeFast_deleteNoLock h env id n).1
        -- what is dropped is a deleted node, if there is one
        have hslot : deletedSlot ((h.deleteNoLock env id).1.getNodeFast n) =
            (h.getNodeFast n).isSome := by
          rw [← hstored]
          cases hnode : (h.deleteNoLock env id).1.getNodeFast n with
          | none => rfl
          | some node =>
              have hlive := getNode_eq_none.mp hdead node hnode
              simp [deletedSlot, hlive]
        rw [hslot] at hnodes
        simp only [Option.any_some]
        rw [hcount, hnodes]
        omega

section Add

variable {p : Platform} {env : Env} {event : Node → Prop} {fault : Fault → Prop}

/-- `add` drops the node of its id and then inserts, unless the node store refuses the
deletion. -/
theorem add_keeps (hevent : ∀ node, event node) (hfault : fault .vectorOutOfRange)
    (hm : h.config.m < 0 → fault .makeSlice) (hcoherent : Coherent h)
    (hnext : h.nextID + 1 < 2 ^ 32) (id : Bytes) (vec : Vector) :
    Traced.Keeps event fault
      (fun result => result = ((h.deleteNoLock env id).1, some .store) ∧
          (h.deleteNoLock env id).2 = false ∨
        Added p env (h.evicted env id) id vec result)
      (add p env h id vec) := by
  have hfields := @evicted_fields h env id
  have hadd := @addNoLock_keeps (h.evicted env id) p env event fault hevent hfault
    (by rw [hfields.2.2.2.1]; exact hm) (hcoherent.evicted env id).1.layered
    (by rw [hfields.1]; exact hnext) id vec
  unfold add
  unfold evicted at hadd ⊢
  cases hid : h.idToUint32.lookup id with
  | none =>
      rw [hid] at hadd
      exact hadd.imp fun result hresult => Or.inr hresult
  | some n =>
      rw [hid] at hadd
      refine Traced.Keeps.ite (fun hok => ?_) (fun _ => ?_)
      · exact Traced.Keeps.pure (Or.inl ⟨rfl, (Bool.not_eq_true' _).mp hok⟩)
      · exact hadd.imp fun result hresult => Or.inr hresult

section

variable (hcoherent : Coherent h) (hnext : h.nextID + 1 < 2 ^ 32) {id : Bytes} {vec : Vector}
  {result : Index × Option AddError}

include hcoherent hnext

/-- Where `add` returns. -/
theorem add_cases (houtcome : (add p env h id vec).outcome = .ok result) :
    result = ((h.deleteNoLock env id).1, some .store) ∧ (h.deleteNoLock env id).2 = false ∨
      Added p env (h.evicted env id) id vec result :=
  (@add_keeps h p env (fun _ => True) (fun _ => True) (fun _ => trivial) trivial
    (fun _ => trivial) hcoherent hnext id vec).value result houtcome

theorem Coherent.added (hid : h.idToUint32.lookup id = none) (hadded : Added p env h id vec result) :
    Coherent result.1 ∧ (∀ id', Live result.1 id' ↔ id' = id ∧ result.2 = none ∨ Live h id') ∧
      result.1.deletedCount = h.deletedCount ∧ result.1.deletedNodes = h.deletedNodes ∧
      result.1.nextID = h.nextID + 1 := by
  obtain ⟨htables, hlive⟩ := hcoherent.tables.added hcoherent.layered hnext hid hadded
  have hlayered := hcoherent.layered.added hnext hadded
  have hinserted : ((h.inserted p env id vec).deletedNodes : Int) = h.deletedNodes := by
    have hgrown : ((h.assign id).ensureNodeCapacity h.nextID).nodes.countP deletedSlot =
        h.nodes.countP deletedSlot := countP_ensureNodeCapacity deletedSlot rfl h.nextID
    have hset := countP_setSlot deletedSlot
      (@lt_length_ensureNodeCapacity (h.assign id) h.nextID) (some (h.drawnNode p env vec))
    rw [getNodeFast_ensureNodeCapacity, hgrown] at hset
    have hempty : (h.assign id).getNodeFast h.nextID = none := hcoherent.layered.fresh le_rfl
    have hfull : deletedSlot (some (h.drawnNode p env vec)) = false := by
      simp [deletedSlot, drawnNode_live]
    rw [hempty, hfull] at hset
    simpa [deletedNodes, Index.inserted, place, setSlot, drawnNode_id, deletedSlot] using hset
  have hinserted : (h.inserted p env id vec).deletedNodes = h.deletedNodes := by omega
  have hfacts : result.1.deletedCount = h.deletedCount ∧
      result.1.deletedNodes = h.deletedNodes ∧ result.1.nextID = h.nextID + 1 := by
    cases hadded with
    | refused err hreason => exact ⟨rfl, rfl, Nat.mod_eq_of_lt hnext⟩
    | alone hdim hentry => exact ⟨inserted_deletedCount id vec, hinserted, inserted_nextID hnext id vec⟩
    | joined linked entry hdim hentry hlinked =>
        have hall : linked.deletedCount = h.deletedCount ∧
            linked.deletedNodes = h.deletedNodes ∧ linked.nextID = h.nextID + 1 :=
          ⟨(deletedCount_of_skeleton hlinked.skeleton).trans (inserted_deletedCount id vec),
            (deletedNodes_of_skeleton hlinked.skeleton).trans hinserted,
            (nextID_of_skeleton hlinked.skeleton).trans (inserted_nextID hnext id vec)⟩
        simp only
        split
        next => exact hall
        next => exact hall
  refine ⟨⟨hlayered, htables, ?_⟩, hlive, hfacts⟩
  rw [hfacts.2.2]
  exact hnext

end

end Add

end Index

end Vectron.Hnsw
