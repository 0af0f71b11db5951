import Vectron.Foundation.Run
import Vectron.Worker.Storage

/-! # The state machine of a shard

Raft hands the committed entries of a shard to `Update`, which decodes each of them and
runs it on the store of the shard. An error ends the call, and the replica with it: what
the entries before did stays, and no further entry is applied.

A shard indexes its vectors in the index of its store, in segments beside it, or, in
ingest mode, not at all. Of the segments the model has what they leave in the database, the
tombstones and their manifest. `Update` also adds each vector to them, and that call may not
return: an addition that seals a segment may wait for ever for the indexer
(`Segment.Deadlock`), and an entry is then not applied to its end. What is shown here is
about calls of `Update` that return.
-/

namespace Vectron.Worker

open Foundation OrderedStore

/-- What a shard is opened with. -/
structure ShardSettings extends Settings where
  shardID : UInt64
  legacy : LegacyDecoders
  /-- the vectors are indexed in segments, and `ExternalIndexEnabled` is set -/
  useSegments : Bool
  ingestMode : Bool

/-- `sm.Entry`. -/
structure Entry where
  index : Nat
  cmd : Bytes
  deriving Repr, DecidableEq

/-- An entry with what the clock shows while it is applied: to the store, and to the
segments. -/
structure TimedEntry where
  entry : Entry
  now : Nat
  segmentNow : Nat
  deriving Repr, DecidableEq

inductive UpdateError where
  /-- "failed to unmarshal command: %w" -/
  | unmarshal (cause : String)
  /-- "failed to store vector: %w" -/
  | storeVector (cause : StoreError)
  /-- "failed to store vector batch: %w" -/
  | storeVectorBatch (cause : StoreError)
  deriving Repr, DecidableEq

/-! ## Command types -/

namespace CommandType

def storeVector : Int := 0

def deleteVector : Int := 1

def storeVectorBatch : Int := 2

end CommandType

/-! ## Writes that leave the index alone -/

variable (m : ShardSettings)

def hnswIngestDirtyKey : Bytes :=
  ['_', 'h', 'n', 's', 'w', '_', 'i', 'n', 'g', 'e', 's', 't', '_', 'd', 'i', 'r', 't', 'y'].map
    Char.toUInt8

/-- What `markIngestDirtyBatch` adds to a batch in ingest mode. -/
def markIngestDirtyBatch : List (StoreOp Bytes Bytes) :=
  if m.ingestMode then [.set (nsKey m.ns hnswIngestDirtyKey) ['1'.toUInt8]] else []

/-- Whether the calls on the store leave its index alone. -/
def bypassesIndex : Bool := m.useSegments || m.ingestMode

namespace Shard

/-- `StoreVector`, also of a store that is indexed elsewhere or not at all. -/
def storeVector (now : Nat) (id : Bytes) (vector : Vector) (metadata : Bytes) (store : Store) :
    Except StoreError Unit × Store :=
  if bypassesIndex m then
    match encodeVector m.toSettings vector metadata with
    | .error err => (.error err, store)
    | .ok value =>
        (.ok (), { store with
          db := store.db.commit (storeVectorOps m.toSettings now id value ++
            markIngestDirtyBatch m) })
  else Worker.storeVector m.toSettings now id vector metadata store

/-- `StoreVectorBatch`, likewise. -/
def storeVectorBatch (now : Nat) (vectors : List VectorEntry) (store : Store) :
    Except StoreError Unit × Store :=
  if bypassesIndex m then
    if vectors = [] then (.ok (), store)
    else
      match vectors.mapM (encodeEntry m.toSettings) with
      | .error err => (.error err, store)
      | .ok pairs =>
          (.ok (), { store with
            db := store.db.commit (storeVectorBatchOps m.toSettings now pairs ++
              markIngestDirtyBatch m) })
  else Worker.storeVectorBatch m.toSettings now vectors store

/-- `DeleteVector`, likewise. -/
def deleteVector (now : Nat) (id : Bytes) (store : Store) : Store :=
  if bypassesIndex m then
    { store with
      db := store.db.commit (deleteVectorOps m.toSettings now id ++ markIngestDirtyBatch m) }
  else Worker.deleteVector m.toSettings now id store

/-! ## Segments -/

def segTombstonePrefix : Bytes :=
  ['s', 'e', 'g', '_', 't', 'o', 'm', 'b', 's', 't', 'o', 'n', 'e', '_'].map Char.toUInt8

def segManifestKey : Bytes :=
  ['s', 'e', 'g', '_', 'm', 'a', 'n', 'i', 'f', 'e', 's', 't'].map Char.toUInt8

/-- `SegmentTombstoneKey` without the namespace. -/
def segmentTombstoneKey (docID : Bytes) (epoch : Nat) : Bytes :=
  segTombstonePrefix ++ (decimal m.shardID.toNat ++ underscore ::
    (docID ++ underscore :: decimal epoch))

/-- `ManifestStore.key(ManifestKey())` without the namespace. -/
def manifestKey : Bytes :=
  ['s', 'e', 'g', '_', 's'].map Char.toUInt8 ++
    (decimal m.shardID.toNat ++ underscore :: segManifestKey)

/-- What `segmentMgr.Delete` writes: `WriteTombstone`. -/
def segmentDelete (now : Nat) (id : Bytes) (store : Store) : Store :=
  if m.useSegments then
    { store with db := store.db.set (nsKey m.ns (segmentTombstoneKey m id now)) ['1'.toUInt8] }
  else store

/-- `ManifestStore.Save`. -/
def saveManifest (manifest : Bytes) (store : Store) : Store :=
  if m.useSegments then
    { store with db := store.db.set (nsKey m.ns (manifestKey m)) manifest }
  else store

end Shard

/-! ## Update -/

/-- The switch of `Update`. A command of another type does nothing. -/
def applyCommand (timed : TimedEntry) (cmd : Command) (store : Store) :
    Except UpdateError Unit × Store :=
  if cmd.type = CommandType.storeVector then
    let stored := Shard.storeVector m timed.now cmd.id cmd.vector cmd.metadata store
    (stored.1.mapError .storeVector, stored.2)
  else if cmd.type = CommandType.storeVectorBatch then
    let stored := Shard.storeVectorBatch m timed.now cmd.vectors store
    (stored.1.mapError .storeVectorBatch, stored.2)
  else if cmd.type = CommandType.deleteVector then
    (.ok (), Shard.segmentDelete m timed.segmentNow cmd.id
      (Shard.deleteVector m timed.now cmd.id store))
  else (.ok (), store)

/-- One round of the loop of `Update`. -/
def applyEntry (timed : TimedEntry) (store : Store) : Except UpdateError Unit × Store :=
  match decodeCommand m.legacy timed.entry.cmd with
  | .error err => (.error (.unmarshal err), store)
  | .ok cmd => applyCommand m timed cmd store

/-- The loop of `Update`. -/
def applyEntries : List TimedEntry → Store → Except UpdateError Unit × Store
  | [], store => (.ok (), store)
  | timed :: rest, store =>
      match applyEntry m timed store with
      | (.error err, store) => (.error err, store)
      | (.ok (), store) => applyEntries rest store

/-- A replica of a shard. -/
structure Machine where
  store : Store
  lastApplied : Nat
  /-- the error with which `Update` has stopped the replica -/
  failure : Option UpdateError

/-- `Update`. -/
def update (entries : List TimedEntry) (machine : Machine) : Machine :=
  match applyEntries m entries machine.store with
  | (.error err, store) => { machine with store := store, failure := some err }
  | (.ok (), store) =>
      { machine with
        store := store
        lastApplied := entries.getLast?.elim machine.lastApplied fun last => last.entry.index }

/-- `NewStateMachine`. With segments, the index of the store is not loaded. -/
def newStateMachine (order : RangeOrder) (db : Pebble) (snapshot : Option Snapshot) : Machine where
  store :=
    if m.useSegments then ⟨db, snapshot, Hnsw.new m.config.index, false⟩
    else openStore m.toSettings order db snapshot
  lastApplied := 0
  failure := none

/-- What happens to a replica between two restarts. Next to `Update`, the background
loops save the index and the manifest of the segments. The indexer and the maintenance of
the index are not followed step by step: they may leave any index of the dimension. -/
inductive MachineEvent where
  | update (entries : List TimedEntry)
  | saveHNSW (now : Nat)
  | saveManifest (manifest : Bytes)
  | reindexed (index : Hnsw) (hdim : index.config.dim = m.config.index.dim)

namespace Machine

def step (machine : Machine) : MachineEvent m → Machine
  | .update entries =>
      match machine.failure with
      | some _ => machine
      | none => Worker.update m entries machine
  | .saveHNSW now => { machine with store := Worker.saveHNSW m.toSettings now machine.store }
  | .saveManifest manifest => { machine with store := Shard.saveManifest m manifest machine.store }
  | .reindexed index _ => { machine with store := { machine.store with index := index } }

end Machine

/-- `GetVector`. -/
def getVector (id : Bytes) (store : Store) : Except String (Option (Vector × Bytes)) :=
  match store.db.get (nsKey m.ns (vectorKey id)) with
  | none => .ok none
  | some value => (decodeVectorWithMeta m.arith value).map some

end Vectron.Worker
