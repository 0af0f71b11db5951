import Vectron.Segment.Mutable

/-! # The segment manager of a shard

The manager puts new vectors into a mutable segment, either at once or through a queue that
the index worker empties. A full segment is sealed and a new one takes its place, and a
loop in the background compacts the sealed ones. Deletions are remembered as tombstones. All
of this is read back when the shard is opened again.

The calls come from the state machine, which writes the primary storage first. Sealing and
compaction are single steps here; what they leave behind when they are interrupted is
looked at where crashes are. A seal takes the lock that the index worker needs: with
anything left in the queue it never ends, and the manager does not answer any more.
-/

namespace Vectron.Segment

open Foundation
open Worker (Hnsw Pebble Vector kept)

/-! ## The manager -/

/-- `ShardManifest`. -/
structure Manifest where
  mutableSegmentID : Option SegmentID
  immutableSegments : List SegmentID
  deriving DecidableEq, Repr

/-- `createDefaultManifest`. -/
def createDefaultManifest : Manifest := ⟨none, []⟩

/-- `ShardIndexManager`, with the operations the index worker has taken and those in the
channel. -/
structure Manager where
  mutable : MutableSegment
  immutables : GoMap SegmentID ImmutableSegment
  manifest : Manifest
  tombstones : GoMap Bytes Int
  buffer : List IndexOp
  channel : List IndexOp

namespace Manager

/-- What was handed over and is not applied yet. -/
def pending (m : Manager) : List IndexOp := m.buffer ++ m.channel

/-- Nothing is left to index. -/
def Drained (m : Manager) : Prop := m.pending = []

instance (m : Manager) : Decidable m.Drained := inferInstanceAs (Decidable (m.pending = []))

/-- `enqueueIndexOp` and `enqueueIndexBatch`: with a full channel the caller applies the
operation itself. -/
def enqueue (c : Config) (primary : GoMap Bytes Vector) (m : Manager) (op : IndexOp) : Manager :=
  if m.channel.length < c.queueSize then { m with channel := m.channel ++ [op] }
  else { m with mutable := applyIndexOp c primary m.mutable op }

/-- `Add` behind the lock. -/
def add (c : Config) (primary : GoMap Bytes Vector) (m : Manager) (id : Bytes) (vec : Vector) :
    Manager :=
  if c.asyncIndex then m.enqueue c primary ⟨.add, id, [], m.mutable.id⟩
  else { m with mutable := (m.mutable.add c id vec).1 }

/-- `AddBatch` behind the lock. -/
def addBatch (c : Config) (primary : GoMap Bytes Vector) (m : Manager)
    (docs : List (Bytes × Vector)) : Manager :=
  if c.asyncIndex then m.enqueue c primary ⟨.add, [], docs.map Prod.fst, m.mutable.id⟩
  else { m with mutable := (m.mutable.applyAddBatch c docs).1 }

/-- `Delete` up to the write of the tombstone. -/
def delete (c : Config) (primary : GoMap Bytes Vector) (m : Manager) (id : Bytes) (now : Instant) :
    Manager :=
  let m :=
    if c.asyncIndex then m.enqueue c primary ⟨.delete, id, [], m.mutable.id⟩
    else { m with mutable := m.mutable.delete id }
  { m with tombstones := m.tombstones.insert id now.nanos }

end Manager

/-! ## A shard -/

/-- A shard on a machine: its part of the database, its directories, and the process. -/
structure Shard where
  /-- the vectors in the primary storage -/
  primary : GoMap Bytes Vector
  /-- the keys of the tombstones -/
  tombstoneDb : Pebble
  /-- the manifest in the database -/
  saved : Option Manifest
  disk : Disk
  /-- the counter of `GenerateSegmentID` -/
  seq : Nat
  /-- when the shard was opened -/
  boot : Nat
  /-- what the clock showed last -/
  clock : Nat
  /-- the manager, while it answers -/
  mgr : Option Manager

/-- A shard that was never opened. -/
def Shard.fresh : Shard := ⟨∅, OrderedStore.empty, none, ∅, 0, 0, 0, none⟩

inductive Event where
  /-- `StoreVector` of the state machine: the primary storage, then `Add` -/
  | store (id : Bytes) (vec : Vector)
  /-- `StoreVectorBatch`: the primary storage, then `AddBatch` -/
  | storeBatch (docs : List (Bytes × Vector))
  /-- `DeleteVector`: the primary storage, then `Delete` -/
  | delete (id : Bytes) (now : Instant)
  /-- the index worker receives an operation -/
  | take
  /-- the index worker applies the first operation it has -/
  | apply
  /-- the end of `Add` and `AddBatch`: `ShouldSeal` and `triggerSeal` -/
  | triggerSeal (now : Instant)
  /-- a round of `compactionLoop` -/
  | runCompaction (now : Instant)
  /-- the process ends, and the shard is opened again: `NewShardIndexManager` -/
  | open_ (now : Instant)

namespace Shard

variable (c : Config)

/-- The checks of the storage on a vector that is stored by itself. -/
def accepts (vec : Vector) : Bool := decide (vec.length = c.index.dim)

/-- The checks of the storage on a batch. -/
def acceptsBatch (docs : List (Bytes × Vector)) : Bool :=
  docs.all fun doc => decide (doc.1 ≠ []) && accepts c doc.2

/-- The primary storage after documents are stored. -/
def storeAll (primary : GoMap Bytes Vector) (docs : List (Bytes × Vector)) : GoMap Bytes Vector :=
  docs.foldl (fun primary doc => primary.insert doc.1 (c.stored doc.2)) primary

/-- The documents `persistVectors` writes: those of the active ids that are still stored. -/
def persisted (primary : GoMap Bytes Vector) (m : MutableSegment) : List (Bytes × Vector) :=
  loadVectors primary m.activeIDs

/-- The steps of `Seal` on the disk. -/
def sealSteps (primary : GoMap Bytes Vector) (m : MutableSegment) (now : Nat) : List DiskStep :=
  .mkdir m.id ::
    (sealWrites m.hnsw (persisted primary m) ⟨m.createdAt, now⟩).map (DiskStep.write m.id)

/-- What `triggerSeal` does to a segment that is ready, when nothing is left in the queue. -/
def sealMutable (shard : Shard) (m : Manager) (now : Nat) : Shard :=
  let disk := shard.disk.applyAll (sealSteps shard.primary m.mutable now)
  let newID : SegmentID := ⟨now, shard.seq + 1⟩
  let manifest : Manifest := ⟨some newID, m.manifest.immutableSegments ++ [m.mutable.id]⟩
  { shard with
    disk := disk.apply (.mkdir newID)
    seq := shard.seq + 1
    saved := some manifest
    mgr := some
      { m with
        mutable := newMutableSegment c newID now
        immutables :=
          match loadImmutableSegment c disk m.mutable.id with
          | some seg => m.immutables.insert m.mutable.id seg
          | none => m.immutables
        manifest := manifest } }

/-- Load a segment unless it is loaded already. -/
def loadMissing (disk : Disk) (immutables : GoMap SegmentID ImmutableSegment) (segID : SegmentID) :
    GoMap SegmentID ImmutableSegment :=
  if (immutables.lookup segID).isSome then immutables
  else
    match loadImmutableSegment c disk segID with
    | some seg => immutables.insert segID seg
    | none => immutables

/-- The loaded segments after a compaction: those the manifest lists, as far as they can be
loaded, without those it listed before. -/
def reconcile (disk : Disk) (before after : List SegmentID)
    (immutables : GoMap SegmentID ImmutableSegment) : GoMap SegmentID ImmutableSegment :=
  before.foldl
    (fun immutables segID => if segID ∈ after then immutables else immutables.erase segID)
    (after.foldl (loadMissing c disk) immutables)

/-- `runCompaction` of the manager. -/
def compact (shard : Shard) (m : Manager) (now : Nat) : Shard :=
  let before := m.manifest.immutableSegments
  match runCompaction c shard.disk shard.tombstoneDb before ⟨now, shard.seq + 1⟩ now with
  | .idle =>
      { shard with
        saved := some m.manifest
        mgr := some { m with immutables := reconcile c shard.disk before before m.immutables } }
  | .panics => { shard with mgr := none }
  | .fails disk => { shard with disk := disk, seq := shard.seq + 1 }
  | .done disk after =>
      let manifest := { m.manifest with immutableSegments := after }
      { shard with
        disk := disk
        seq := shard.seq + 1
        saved := some manifest
        mgr := some
          { m with
            manifest := manifest
            immutables := reconcile c disk before after m.immutables } }

/-- The segments of a manifest that can be loaded. -/
def loadListed (disk : Disk) (segments : List SegmentID) : GoMap SegmentID ImmutableSegment :=
  segments.foldl
    (fun immutables segID =>
      match loadImmutableSegment c disk segID with
      | some seg => immutables.insert segID seg
      | none => immutables) ∅

/-- The ids of the loaded segments. -/
def sealedIDs (immutables : GoMap SegmentID ImmutableSegment) : List Bytes :=
  immutables.entries.flatMap fun entry => entry.2.ids

/-- What `LoadMutableSegment` adds to a new segment: the stored documents that have no
tombstone and are in no loaded segment. -/
def unsealedDocs (primary : GoMap Bytes Vector) (tombstones : GoMap Bytes Int)
    (immutables : GoMap SegmentID ImmutableSegment) : List (Bytes × Vector) :=
  loadVectors primary ((primary.keys.insertionSort (· ≤ ·)).filter fun id =>
    (tombstones.lookup id).isNone && decide (id ∉ sealedIDs immutables))

/-- `NewShardIndexManager`. -/
def openShard (shard : Shard) (now : Nat) : Shard :=
  let manifest := shard.saved.getD createDefaultManifest
  let tombstones := getTombstones c shard.tombstoneDb
  let immutables := loadListed c shard.disk manifest.immutableSegments
  match manifest.mutableSegmentID with
  | none =>
      let newID : SegmentID := ⟨now, 1⟩
      let manifest := { manifest with mutableSegmentID := some newID }
      { shard with
        disk := shard.disk.apply (.mkdir newID)
        seq := 1
        saved := some manifest
        mgr := some ⟨newMutableSegment c newID now, immutables, manifest, tombstones, [], []⟩ }
  | some segID =>
      let loaded := (newMutableSegment c segID now).applyAddBatch c
        (unsealedDocs shard.primary tombstones immutables)
      { shard with
        disk := shard.disk.apply (.mkdir segID)
        seq := 0
        mgr := if loaded.2 then some ⟨loaded.1, immutables, manifest, tombstones, [], []⟩ else none }

/-- A step of a manager that answers. -/
def serve (shard : Shard) (m : Manager) : Event → Shard
  | .store id vec =>
      if accepts c vec then
        let primary := storeAll c shard.primary [(id, vec)]
        { shard with
          primary := primary
          mgr := some (m.add c primary id vec) }
      else shard
  | .storeBatch docs =>
      if acceptsBatch c docs then
        let primary := storeAll c shard.primary docs
        { shard with
          primary := primary
          mgr := some (m.addBatch c primary docs) }
      else shard
  | .delete id now =>
      let primary := shard.primary.erase id
      { shard with
        primary := primary
        tombstoneDb := writeTombstone c shard.tombstoneDb id now
        clock := now.nanos
        mgr := some (m.delete c primary id now) }
  | .take =>
      match m.channel with
      | op :: rest => { shard with mgr := some { m with buffer := m.buffer ++ [op], channel := rest } }
      | [] => shard
  | .apply =>
      match m.buffer with
      | op :: rest =>
          { shard with
            mgr := some
              { m with mutable := applyIndexOp c shard.primary m.mutable op, buffer := rest } }
      | [] => shard
  | .triggerSeal now =>
      let shard := { shard with clock := now.nanos }
      if m.mutable.shouldSeal c now.nanos then
        if m.Drained then shard.sealMutable c m now.nanos else { shard with mgr := none }
      else shard
  | .runCompaction now => compact c { shard with clock := now.nanos } m now.nanos
  | .open_ _ => shard

/-- One step. Only opening the shard again helps a manager that does not answer. -/
def step (shard : Shard) (event : Event) : Shard :=
  match event with
  | .open_ now => openShard c { shard with boot := now.nanos, clock := now.nanos } now.nanos
  | event =>
      match shard.mgr with
      | none => shard
      | some m => shard.serve c m event

end Shard

end Vectron.Segment
