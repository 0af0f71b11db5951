import Vectron.Hnsw.Search

/-! # Changing an HNSW graph

`insert.go`, `prune.go` and the node management of `internal.go`: insertion with its linking
of layers, lazy deletion, the batch cleanup of deleted nodes, pruning and the rebuild. An
error is returned beside the index, which keeps what was written before it; a panic ends
the process.
-/

namespace Vectron.Hnsw

open Foundation
open Worker (Vector)

/-- What one operation takes from its surroundings: the draws of `rand.Float64() < 1/M` for
the node with an internal id, whether the node store accepts a node, and the order of the
loops over maps. -/
structure Env where
  grows : Nat → Nat → Bool
  put : Nat → Bool
  order : RangeOrder

/-- The errors of `Add` and `Rebuild`. -/
inductive AddError where
  | invalidDimension
  | store
deriving DecidableEq, Repr

/-- `randomLayer` with its draws, `room` levels below `MaxLevel`. -/
def randomLayer (draw : Nat → Bool) : Nat → Nat → Nat
  | 0, level => level
  | room + 1, level => if draw level then randomLayer draw room (level + 1) else level

/-- The doubled size of `ensureNodeCapacity`. -/
def grownSize (size id : Nat) : Nat :=
  if _h : 0 < size ∧ size ≤ id then grownSize (size * 2) id else size
termination_by id + 1 - size

namespace Index

/-! ## The node table -/

section Table

variable (h : Index)

/-- Write one slot of the node table. -/
def setSlot (id : Nat) (slot : Option Node) : Index := { h with nodes := h.nodes.set id slot }

/-- Change a node through a pointer to it. -/
def modifyNode (id : Nat) (f : Node → Node) : Index :=
  { h with nodes := h.nodes.modify id (Option.map f) }

/-- `node.Neighbors[l] = list`. -/
def setNeighbors (id l : Nat) (list : List Nat) : Index :=
  h.modifyNode id fun node => { node with neighbors := node.neighbors.set l list }

/-- `ensureNodeCapacity`. -/
def ensureNodeCapacity (id : Nat) : Index :=
  if id < h.nodes.length then h
  else
    let newSize := grownSize (max h.nodes.length 1) id
    { h with
      nodes := h.nodes ++ List.replicate (newSize - h.nodes.length) none
      extIDCache := h.extIDCache.take newSize ++
        List.replicate (newSize - h.extIDCache.length) [] }

/-- Whether `persistNode` returns no error. -/
def persistNode (env : Env) (id : Nat) : Bool :=
  !h.config.persistNodes || h.config.skipPersistNode || env.put id

/-- `markForPrune`. -/
def markForPrune (id : Nat) : Index :=
  if h.config.pruneEnabled then
    { h with pruneCandidates := h.pruneCandidates.insert id () }
  else h

end Table

/-! ## Deletion -/

/-- `deleteNoLock` and whether it returns no error. -/
def deleteNoLock (env : Env) (h : Index) (id : Bytes) : Index × Bool :=
  match h.idToUint32.lookup id with
  | none => (h, true)
  | some internalID =>
      match h.getNode internalID with
      | none => (h, true)
      | some node =>
          ({ h.setSlot internalID (some { node with vec := none, qvec := none }) with
              deletedCount := h.deletedCount + 1 },
            h.persistNode env node.id)

/-- What `add` does with an id it has already, once the node is marked as deleted. -/
def dropNode (h : Index) (id : Bytes) (internalID : Nat) : Index :=
  { h.setSlot internalID none with
    nodeCount := if (h.getNodeFast internalID).isSome then h.nodeCount - 1 else h.nodeCount
    idToUint32 := h.idToUint32.erase id
    uint32ToID := h.uint32ToID.erase internalID }

/-! ## Neighbour selection -/

section Select

variable (p : Platform) (h : Index)

/-- The diversity check: whether a selected node is nearer to the candidate than the
candidate to the query. -/
def tooClose (cand : Candidate) : List Nat → Probe Bool
  | [] => pure false
  | selectedID :: rest =>
      match (h.getNode selectedID).bind (nodeVector p), h.getNode cand.id with
      | some selectedVec, some candNode => do
          let d ← h.distanceToNode p selectedVec none (some candNode)
          if d < cand.dist then pure true else tooClose cand rest
      | _, _ => tooClose cand rest

/-- The first pass of `selectNeighborsHeuristic`. -/
def selectDiverse (m : Int) (result : List Nat) (cand : Candidate) : Probe (List Nat) :=
  if m ≤ result.length then pure result
  else if cand.id ∈ result then pure result
  else do
    let close ← h.tooClose p cand result
    if close then pure result else pure (result ++ [cand.id])

/-- The fallback of `selectNeighborsHeuristic`, which does not mark what it takes. -/
def fillNearest (m : Int) (used : List Nat) (result : List Nat) (cand : Candidate) : List Nat :=
  if m ≤ result.length then result
  else if cand.id ∈ used then result
  else result ++ [cand.id]

/-- `selectNeighborsHeuristic`: the candidates as it leaves them, and the selected ids. The
query is not used. -/
def selectNeighborsHeuristic (candidates : List Candidate) (m : Int) :
    Probe (List Candidate × List Nat) :=
  if candidates.isEmpty then pure ([], [])
  else if m < 0 then Traced.raise .makeSlice
  else do
    let sorted := p.sort candidates
    let result ← Traced.fold (h.selectDiverse p m) [] sorted
    pure (sorted, sorted.foldl (fillNearest m result) result)

/-- One id in `toCandidates`. -/
def toCandidate (query : Vector) (id : Nat) : Probe (Option Candidate) :=
  match h.getNode id with
  | none => pure none
  | some node => do
      let d ← h.distanceToNode p query none (some node)
      pure (some ⟨id, d, node⟩)

/-- `toCandidates`. -/
def toCandidates (ids : List Nat) (query : Vector) : Probe (List Candidate) := do
  let found ← Traced.each (h.toCandidate p query) ids
  pure (found.filterMap fun cand => cand)

end Select

/-! ## Insertion -/

section Insert

variable (p : Platform)

/-- The new node of `addNoLock`. -/
def newNode (h : Index) (internalID layer : Nat) (vec : Vector) : Node :=
  let empty : Node := ⟨internalID, none, none, (0 : Float32).toBits, layer,
    List.replicate (layer + 1) []⟩
  if h.config.normalized then
    let normed := p.normalize vec
    if h.config.quantizeVectors then
      { empty with
        qvec := some (p.quantize normed)
        vec := if h.config.keepFloatVectors then some normed else none
        norm := (1 : Float32).toBits }
    else { empty with vec := some normed, norm := (1 : Float32).toBits }
  else if h.config.cosine && h.config.enableNorms then
    { empty with vec := some vec, norm := vectorNorm p vec }
  else { empty with vec := some vec }

/-- Add the new node to the list of one of its neighbours. -/
def backlink (internalID l : Nat) (h : Index) (nid : Nat) : Probe Index :=
  match h.getNode nid with
  | none => pure h
  | some neighbor =>
      match neighbor.neighbors[l]? with
      | none => Traced.raise .layerOutOfRange
      | some list =>
          let linked := h.setNeighbors nid l (list ++ [internalID])
          pure (if h.config.m < (list ++ [internalID]).length then linked.markForPrune neighbor.id
            else linked)

/-- One round of the linking loop of `addNoLock`: the index and the id of the node the next
layer starts from. -/
def linkLayer (internalID : Nat) (searchVec : Vector) (qvec : Option Bytes) (l : Nat)
    (h : Index) (curr : Nat) : Probe (Index × Nat) := do
  let candidates ← h.searchLayer p searchVec qvec (h.getNodeFast curr) h.config.efConstruction l
  let (sorted, neighbors) ← h.selectNeighborsHeuristic p candidates h.config.m
  let linked ← Traced.fold (backlink internalID l) (h.setNeighbors internalID l neighbors)
    neighbors
  let next :=
    match sorted.head? with
    | some c => if (linked.getNode c.id).isSome then c.id else curr
    | none => curr
  pure (linked, next)

/-- The linking loop of `addNoLock` over the layers below a bound, from the top. -/
def linkLayers (internalID : Nat) (searchVec : Vector) (qvec : Option Bytes) :
    Nat → Index → Nat → Probe Index
  | 0, h, _ => pure h
  | l + 1, h, curr => do
      let (linked, next) ← linkLayer p internalID searchVec qvec l h curr
      linkLayers internalID searchVec qvec l linked next

/-- The ids `addNoLock` assigns before it looks at the vector. -/
def assign (h : Index) (id : Bytes) : Index :=
  { h with
    idToUint32 := h.idToUint32.insert id h.nextID
    uint32ToID := h.uint32ToID.insert h.nextID id
    nextID := (h.nextID + 1) % 2 ^ 32 }

/-- Put a new node into the table. -/
def place (h : Index) (id : Bytes) (node : Node) : Index :=
  let grown := h.ensureNodeCapacity node.id
  { grown.setSlot node.id (some node) with
    extIDCache := grown.extIDCache.set node.id id
    nodeCount :=
      if (grown.getNodeFast node.id).isNone then h.nodeCount + 1 else h.nodeCount }

/-- Make a node the entry point. -/
def enter (h : Index) (node : Node) : Index := { h with entry := node.id, maxLayer := node.layer }

/-- Steps 3 to 5 of `addNoLock`, for a node in the table and a live entry point. -/
def linkNode (h : Index) (node entry : Node) (searchVec : Vector) : Probe Index := do
  let qvec := h.maybeQuantizeQuery p searchVec
  let start ← h.descendLayers p searchVec qvec node.layer h.maxLayer (some entry)
  match start with
  | none => Traced.raise .nilDereference
  | some start => do
      let linked ← linkLayers p node.id searchVec qvec (min node.layer h.maxLayer + 1) h start.id
      pure (if h.maxLayer < node.layer then linked.enter node else linked)

/-- `addNoLock`. -/
def addNoLock (env : Env) (h : Index) (id : Bytes) (vec : Vector) :
    Probe (Index × Option AddError) :=
  let internalID := h.nextID
  let h := h.assign id
  if vec.length ≠ h.dim then pure (h, some .invalidDimension)
  else if h.config.m < 0 then Traced.raise .makeSlice
  else
    let layer := randomLayer (env.grows internalID) h.config.maxLevel.toNat 0
    let node := h.newNode p internalID layer vec
    if !h.persistNode env internalID then pure (h, some .store)
    else
      let h := h.place id node
      if h.entry = 0 then pure (h.enter node, none)
      else
        match h.getNode h.entry with
        | none => pure (h.enter node, none)
        | some entry => do
            let searchVec := if h.config.normalized then p.normalize vec else vec
            let linked ← h.linkNode p node entry searchVec
            pure (linked, none)

/-- `add`. -/
def add (env : Env) (h : Index) (id : Bytes) (vec : Vector) :
    Probe (Index × Option AddError) :=
  match h.idToUint32.lookup id with
  | none => addNoLock p env h id vec
  | some internalID =>
      let (deleted, ok) := h.deleteNoLock env id
      if !ok then pure (deleted, some .store)
      else addNoLock p env (deleted.dropNode id internalID) id vec

end Insert

/-! ## Cleanup -/

/-- The first live node of a layer. -/
def liveAt (h : Index) (l : Nat) : Option Node :=
  h.nodes.findSome? fun slot => slot.filter fun node => node.live && decide (node.layer = l)

/-- `maybeUpdateEntryPoint`. -/
def maybeUpdateEntryPoint (h : Index) : Index :=
  if h.entry = 0 ∨ (h.getNode h.entry).isSome then h
  else
    match (List.range (h.maxLayer + 1)).reverse.findSome? h.liveAt with
    | some node => { h with entry := node.id, maxLayer := node.layer }
    | none => { h with entry := 0, maxLayer := 0 }

/-- Take a deleted node out of the table. -/
def removeDeleted (h : Index) (id : Nat) : Index :=
  { h.setSlot id none with
    extIDCache := h.extIDCache.set id []
    nodeCount := h.nodeCount - 1
    idToUint32 := h.idToUint32.erase ((h.uint32ToID.lookup id).getD [])
    uint32ToID := h.uint32ToID.erase id
    deletedCount := h.deletedCount - 1 }

/-- Phase 1 of `performCleanup` over the slots from an index on: the index, how many nodes
were removed, and the neighbours they had. It reads through the pointer of every slot. -/
def cleanupLoop (batchSize : Int) : List Nat → Index × Nat × List Nat →
    Probe (Index × Nat × List Nat)
  | [], state => pure state
  | idx :: rest, (h, removed, affected) =>
      if batchSize ≤ removed then pure (h, removed, affected)
      else if idx = 0 then cleanupLoop batchSize rest (h, removed, affected)
      else
        match h.getNodeFast idx with
        | none => Traced.raise .nilDereference
        | some node =>
            if node.live then cleanupLoop batchSize rest (h, removed, affected)
            else
              cleanupLoop batchSize rest
                (h.removeDeleted idx, removed + 1, affected ++ node.neighbors.flatten)

/-- `filterDead` on every list of a node. -/
def filterDead (h : Index) (id : Nat) : Index :=
  match h.getNode id with
  | none => h
  | some _ => h.modifyNode id fun node =>
      { node with neighbors := node.neighbors.map (List.filter fun n => (h.getNode n).isSome) }

/-- `performCleanup`. The lists of one node are filtered without looking at those of
another, so the order of phase 2 is not observable. -/
def performCleanup (batchSize : Int) (h : Index) : Probe Index := do
  let (cleaned, removed, affected) ← cleanupLoop batchSize (List.range h.nodes.length) (h, 0, [])
  let filtered := affected.foldl filterDead cleaned
  pure (if 0 < removed then filtered.maybeUpdateEntryPoint else filtered)

/-! ## Pruning -/

section Prune

variable (p : Platform)

/-- One list in `pruneNodeLocked`. -/
def pruneList (h : Index) (vec : Vector) (list : List Nat) : Probe (List Nat) :=
  if list.isEmpty then pure list
  else do
    let candidates ← h.toCandidates p list vec
    let (_, pruned) ← h.selectNeighborsHeuristic p candidates h.config.m
    pure (if pruned.length ≠ list.length then pruned else list)

/-- `pruneNodeLocked`. -/
def pruneNodeLocked (h : Index) (id : Nat) : Probe (Index × Bool) :=
  match h.getNode id with
  | none => pure (h, false)
  | some node =>
      match nodeVector p node with
      | none => pure (h, false)
      | some vec => do
          let lists ← Traced.each (h.pruneList p vec) node.neighbors
          let changed := (List.zipWith (fun old new => decide (old.length ≠ new.length))
            node.neighbors lists).contains true
          pure (h.modifyNode id fun node => { node with neighbors := lists }, changed)

/-- Both loops of `PruneNeighbors`, which have one body. -/
def pruneLoop (maxNodes : Int) : List Nat → Index → Nat → Probe Index
  | [], h, _ => pure h
  | id :: rest, h, processed => do
      let (pruned, changed) ← h.pruneNodeLocked p id
      if changed then
        if 0 < maxNodes ∧ maxNodes ≤ (processed + 1 : Nat) then pure pruned
        else pruneLoop maxNodes rest pruned (processed + 1)
      else pruneLoop maxNodes rest pruned processed

/-- `takePruneCandidates`. -/
def takePruneCandidates (order : RangeOrder) (maxNodes : Int) (h : Index) :
    List Nat × Index :=
  let all := (order.range h.pruneCandidates).map Prod.fst
  let taken := if 0 < maxNodes ∧ maxNodes < all.length then all.take maxNodes.toNat else all
  (taken, { h with pruneCandidates := taken.foldl (fun m id => m.erase id) h.pruneCandidates })

/-- `PruneNeighbors`. -/
def pruneNeighbors (env : Env) (maxNodes : Int) (h : Index) : Probe Index :=
  if h.config.m ≤ 0 then pure h
  else
    let (candidates, h) := h.takePruneCandidates env.order maxNodes
    pruneLoop p maxNodes (candidates ++ (List.range h.nodes.length).drop 1) h 0

end Prune

/-! ## Rebuild -/

section Rebuild

variable (p : Platform)

/-- The live ids and their vectors, in the order of the table. -/
def liveVectors (h : Index) : List (Bytes × Vector) :=
  h.nodes.filterMap fun slot =>
    (slot.filter Node.live).bind fun node =>
      (nodeVector p node).map fun vec => ((h.uint32ToID.lookup node.id).getD [], vec)

/-- The state `Rebuild` starts from. -/
def reset (h : Index) : Index :=
  { h with
    nodes := [none]
    extIDCache := [[]]
    nodeCount := 0
    idToUint32 := ∅
    uint32ToID := ∅
    entry := 0
    maxLayer := 0
    deletedCount := 0
    nextID := 1 }

/-- The second loop of `Rebuild`, which returns at the first error. -/
def addAll (env : Env) : List (Bytes × Vector) → Index → Probe (Index × Option AddError)
  | [], h => pure (h, none)
  | (id, vec) :: rest, h => do
      let (added, err) ← addNoLock p env h id vec
      match err with
      | some err => pure (added, some err)
      | none => addAll env rest added

/-- `Rebuild`. -/
def rebuild (env : Env) (h : Index) : Probe (Index × Option AddError) :=
  addAll p env (h.liveVectors p) h.reset

end Rebuild

end Index

end Vectron.Hnsw
