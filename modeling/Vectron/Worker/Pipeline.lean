import Vectron.Foundation.Run
import Vectron.Worker.Storage

/-! # Writers, indexer and snapshots side by side

The calls on a store run in goroutines of their own. Between two accesses to what they
share, the database, the index, the queue of the indexer and the clock, any other
goroutine may run. A call in flight is where its goroutine stands; a step takes one
goroutine over its next access.

Besides the state of the store the model keeps a trace: which operations the index was
given in which order, the timestamps that were drawn, and which writes were committed
and acknowledged.
-/

namespace Vectron.Worker

open Foundation OrderedStore

/-- A store with the options of its indexer. -/
structure PipelineSettings extends Settings where
  asyncIndexingEnabled : Bool
  indexingQueueSize : Int

/-- One vector of a call and the value it is stored under. -/
structure Put where
  call : Nat
  place : Nat
  id : Bytes
  vector : Vector
  value : Bytes
  deriving Repr, DecidableEq

/-- An operation on the index and the call it comes from. -/
inductive IndexOp where
  | add (put : Put)
  | delete (call : Nat) (id : Bytes)
  deriving Repr, DecidableEq

namespace IndexOp

def id : IndexOp → Bytes
  | .add put => put.id
  | .delete _ id => id

/-- What the operation leaves under the id in the database. -/
def value : IndexOp → Option Bytes
  | .add put => some put.value
  | .delete _ _ => none

def run (arith : Arithmetic) (h : Hnsw) : IndexOp → Hnsw
  | .add put => (h.add arith put.id put.vector).1
  | .delete _ id => h.delete id

/-- The operation as it turned out. A vector the index refuses is only taken away. -/
def outcome (arith : Arithmetic) (h : Hnsw) : IndexOp → IndexOp
  | .add put => if (h.add arith put.id put.vector).2 then .add put else .delete put.call put.id
  | .delete call id => .delete call id

end IndexOp

/-- A write whose timestamp was drawn, and its record in the log. The vectors of a bulk
load have none. -/
structure Issued where
  op : IndexOp
  stamp : Nat
  record : Option WalRecord
  deriving Repr, DecidableEq

/-- A serialised index and the operations that made it. -/
structure Image where
  index : Hnsw
  covered : List IndexOp

/-- A saved image and the time it was saved at. -/
structure Persisted where
  image : Image
  ts : Nat

/-- Where the goroutine of a call stands. -/
inductive InFlight where
  /-- a store call that has passed its checks and encoded its vectors -/
  | checked (puts : List Put) (async : Bool)
  /-- its batch is filled -/
  | stamped (batch : List (StoreOp Bytes Bytes)) (writes : List Issued) (puts : List Put)
      (async : Bool)
  /-- its batch is committed -/
  | indexing (writes : List Issued) (puts : List Put) (async : Bool)
  /-- `DeleteVector` after the index -/
  | deleting (id : Bytes)
  | deleteStamped (ts : Nat) (id : Bytes)
  /-- `bulkLoadVectors` in its loop -/
  | bulkAdding (done : List Put) (rest : List VectorEntry)
  | rollingBack (ids : List Bytes)
  | bulkSerialized (image : Image) (done : List Put)
  | bulkStamped (ts : Nat) (image : Image) (done : List Put)
  /-- `saveHNSW` -/
  | saving
  | saveStamped (ts : Nat)
  | saveSerialized (ts : Nat) (image : Image)
  | saveCollected (ts : Nat) (image : Image) (keys : List Bytes)

/-- What the code does not keep. -/
structure Trace where
  applied : List IndexOp
  issued : List Issued
  committed : List Issued
  acked : List Issued
  clock : Nat

structure System where
  db : Pebble
  index : Hnsw
  /-- `indexerCh` -/
  queue : List Put
  /-- the operations `indexerLoop` has received and not applied -/
  ops : List Put
  calls : GoMap Nat InFlight
  nextCall : Nat
  persisted : Option Persisted
  snapshotLoaded : Bool
  trace : Trace

inductive Request where
  /-- `throttled` is what `shouldThrottleIndexing` says -/
  | storeVector (id : Bytes) (vector : Vector) (metadata : Bytes) (throttled : Bool)
  | storeVectorBatch (vectors : List VectorEntry) (throttled : Bool)
  | deleteVector (id : Bytes)
  | saveHNSW
  deriving Repr, DecidableEq

inductive Step where
  | call (request : Request)
  /-- a goroutine goes on; `now` is what it reads if it looks at the clock -/
  | advance (call now : Nat)
  | receive
  | flush
  deriving Repr, DecidableEq

/-! ## Steps -/

namespace System

def enter (sys : System) (call : Nat) (state : InFlight) : System :=
  { sys with calls := sys.calls.insert call state }

def leave (sys : System) (call : Nat) : System := { sys with calls := sys.calls.erase call }

/-- Give the index an operation. -/
def apply (arith : Arithmetic) (sys : System) (op : IndexOp) : System :=
  { sys with
    index := op.run arith sys.index
    trace := { sys.trace with applied := sys.trace.applied ++ [op.outcome arith sys.index] } }

/-- Draw a timestamp for writes that take up to `last`. -/
def issue (sys : System) (writes : List Issued) (last : Nat) : System :=
  { sys with trace := { sys.trace with issued := sys.trace.issued ++ writes, clock := last } }

def commit (sys : System) (batch : List (StoreOp Bytes Bytes)) (writes : List Issued) : System :=
  { sys with
    db := sys.db.commit batch
    trace := { sys.trace with committed := sys.trace.committed ++ writes } }

/-- A call returns without an error. -/
def ack (sys : System) (writes : List Issued) : System :=
  { sys with trace := { sys.trace with acked := sys.trace.acked ++ writes } }

def persist (sys : System) (image : Image) (ts : Nat) : System :=
  { sys with persisted := some ⟨image, ts⟩, snapshotLoaded := true }

end System

variable (s : PipelineSettings)

/-- The capacity of `indexerCh`. -/
def queueCapacity : Nat :=
  if s.indexingQueueSize ≤ 0 then 10000 else s.indexingQueueSize.toNat

def asyncIndex (throttled : Bool) : Bool := s.asyncIndexingEnabled && !throttled

/-- The vectors of a call with their values. -/
def putsOf (call : Nat) (vectors : List VectorEntry) (pairs : List (Bytes × Bytes)) : List Put :=
  (vectors.zip pairs).zipIdx.map fun item =>
    ⟨call, item.2, item.1.1.id, item.1.1.vector, item.1.2.2⟩

def pairsOf (puts : List Put) : List (Bytes × Bytes) := puts.map fun put => (put.id, put.value)

/-- The writes of a store call with this timestamp. -/
def writesOf (ts : Nat) (puts : List Put) : List Issued :=
  puts.zipIdx.map fun item =>
    if usesWalBatch s.toSettings puts.length then
      ⟨.add item.1, ts, some (.batch ts (pairsOf puts))⟩
    else ⟨.add item.1, ts + item.2, some (.add (ts + item.2) item.1.id item.1.value)⟩

namespace System

/-- A call up to its first access to the clock; `DeleteVector` changes the index before. -/
def begin (sys : System) : Request → System
  | .storeVector id vector metadata throttled =>
      match encodeVector s.toSettings vector metadata with
      | .error _ => sys
      | .ok value =>
          { sys.enter sys.nextCall
              (.checked [⟨sys.nextCall, 0, id, vector, value⟩] (asyncIndex s throttled)) with
            nextCall := sys.nextCall + 1 }
  | .storeVectorBatch vectors throttled =>
      if vectors = [] then sys
      else if shouldBulkLoad s.toSettings sys.snapshotLoaded sys.index vectors.length then
        { sys.enter sys.nextCall (.bulkAdding [] vectors) with nextCall := sys.nextCall + 1 }
      else
        match vectors.mapM (encodeEntry s.toSettings) with
        | .error _ => sys
        | .ok pairs =>
            { sys.enter sys.nextCall
                (.checked (putsOf sys.nextCall vectors pairs) (asyncIndex s throttled)) with
              nextCall := sys.nextCall + 1 }
  | .deleteVector id =>
      { (sys.apply s.arith (.delete sys.nextCall id)).enter sys.nextCall (.deleting id) with
        nextCall := sys.nextCall + 1 }
  | .saveHNSW => { sys.enter sys.nextCall .saving with nextCall := sys.nextCall + 1 }

/-- The next vector of a store call reaches the queue, or the index if the call is not
asynchronous or the queue is full. -/
def indexNext (sys : System) (call : Nat) (writes : List Issued) (put : Put) (rest : List Put)
    (async : Bool) : System :=
  if async && decide (sys.queue.length < queueCapacity s) then
    { sys with queue := sys.queue ++ [put] }.enter call (.indexing writes rest async)
  else if (sys.index.add s.arith put.id put.vector).2 then
    (sys.apply s.arith (.add put)).enter call (.indexing writes rest async)
  else (sys.apply s.arith (.add put)).leave call

/-- One round of the loop of `bulkLoadVectors`. -/
def bulkNext (sys : System) (call : Nat) (done : List Put) (entry : VectorEntry)
    (rest : List VectorEntry) : System :=
  if entry.id = [] ∨ entry.vector.length = 0 then
    sys.enter call (.rollingBack (done.map Put.id))
  else if (sys.index.add s.arith entry.id entry.vector).2 then
    match encodeValue s.toSettings entry.vector entry.metadata with
    | .error _ =>
        (sys.apply s.arith (.add ⟨call, done.length, entry.id, entry.vector, []⟩)).enter call
          (.rollingBack (done.map Put.id ++ [entry.id]))
    | .ok value =>
        (sys.apply s.arith (.add ⟨call, done.length, entry.id, entry.vector, value⟩)).enter call
          (.bulkAdding (done ++ [⟨call, done.length, entry.id, entry.vector, value⟩]) rest)
  else
    (sys.apply s.arith (.add ⟨call, done.length, entry.id, entry.vector, []⟩)).enter call
      (.rollingBack (done.map Put.id))

/-- A goroutine from one access to the next. -/
def proceed (sys : System) (call now : Nat) : InFlight → System
  | .checked puts async =>
      (sys.issue (writesOf s now puts) (now + (puts.length - 1))).enter call
        (.stamped (storeVectorBatchOps s.toSettings now (pairsOf puts)) (writesOf s now puts) puts
          async)
  | .stamped batch writes puts async =>
      (sys.commit batch writes).enter call (.indexing writes puts async)
  | .indexing writes [] _ => (sys.ack writes).leave call
  | .indexing writes (put :: rest) async => sys.indexNext s call writes put rest async
  | .deleting id =>
      (sys.issue [⟨.delete call id, now, some (.delete now id)⟩] now).enter call
        (.deleteStamped now id)
  | .deleteStamped ts id =>
      let write : Issued := ⟨.delete call id, ts, some (.delete ts id)⟩
      ((sys.commit (deleteVectorOps s.toSettings ts id) [write]).ack [write]).leave call
  | .bulkAdding done [] => sys.enter call (.bulkSerialized ⟨sys.index, sys.trace.applied⟩ done)
  | .bulkAdding done (entry :: rest) => sys.bulkNext s call done entry rest
  | .rollingBack [] => sys.leave call
  | .rollingBack (id :: ids) =>
      (sys.apply s.arith (.delete call id)).enter call (.rollingBack ids)
  | .bulkSerialized image done =>
      (sys.issue (done.map fun put => ⟨.add put, now, none⟩) now).enter call
        (.bulkStamped now image done)
  | .bulkStamped ts image done =>
      let writes : List Issued := done.map fun put => ⟨.add put, ts, none⟩
      (((sys.commit (bulkLoadOps s.toSettings (pairsOf done)) writes).persist image ts).ack
        writes).leave call
  | .saving => (sys.issue [] now).enter call (.saveStamped now)
  | .saveStamped ts => sys.enter call (.saveSerialized ts ⟨sys.index, sys.trace.applied⟩)
  | .saveSerialized ts image =>
      sys.enter call (.saveCollected ts image (coveredKeys s.ns ts sys.db))
  | .saveCollected ts image keys =>
      ((sys.commit (keys.map .delete) []).persist image ts).leave call

/-- One step of one goroutine. -/
def step (sys : System) : Step → System
  | .call request => sys.begin s request
  | .advance call now =>
      match sys.calls.lookup call with
      | none => sys
      | some state => sys.proceed s call now state
  | .receive =>
      match sys.queue with
      | [] => sys
      | put :: rest => { sys with queue := rest, ops := sys.ops ++ [put] }
  | .flush =>
      match sys.ops with
      | [] => sys
      | put :: rest => { sys with ops := rest }.apply s.arith (.add put)

/-- A store without calls in flight. -/
def opened (db : Pebble) (index : Hnsw) (snapshotLoaded : Bool) : System where
  db := db
  index := index
  queue := []
  ops := []
  calls := ∅
  nextCall := 0
  persisted := none
  snapshotLoaded := snapshotLoaded
  trace := ⟨[], [], [], [], 0⟩

end System

/-! ## The trace -/

/-- The vector an id has after a list of operations. -/
def itemAfter (arith : Arithmetic) (config : IndexConfig) (ops : List IndexOp) (id : Bytes) :
    Option Vector :=
  ops.foldl (fun item op =>
    if op.id = id then
      match op with
      | .add put => some (kept arith config put.vector)
      | .delete _ _ => none
    else item) none

/-- The vectors of an index are those its operations gave it. -/
def Agrees (arith : Arithmetic) (config : IndexConfig) (h : Hnsw) (ops : List IndexOp) : Prop :=
  h.config = config ∧ ∀ id, h.item arith id = itemAfter arith config ops id

variable {arith : Arithmetic} {config : IndexConfig} {h : Hnsw} {ops : List IndexOp}

theorem itemAfter_append (op : IndexOp) (id : Bytes) :
    itemAfter arith config (ops ++ [op]) id =
      if op.id = id then
        match op with
        | .add put => some (kept arith config put.vector)
        | .delete _ _ => none
      else itemAfter arith config ops id := by
  rw [itemAfter, List.foldl_append]
  rfl

theorem item_run (op : IndexOp) (id : Bytes) :
    (op.run arith h).item arith id =
      if op.id = id then
        match op.outcome arith h with
        | .add put => some (kept arith h.config put.vector)
        | .delete _ _ => none
      else h.item arith id := by
  cases op with
  | add put =>
      rw [IndexOp.run, IndexOp.outcome, IndexOp.id]
      by_cases hadd : (h.add arith put.id put.vector).2 = true
      · rw [Hnsw.item_add ((Hnsw.add_succeeds _ _).mp hadd), if_pos hadd]
        by_cases hid : put.id = id
        · rw [if_pos hid, if_pos hid.symm]
        · rw [if_neg hid, if_neg (Ne.symm hid)]
      · rw [Hnsw.item_add_of_ne (fun hdim => hadd ((Hnsw.add_succeeds _ _).mpr hdim)), if_neg hadd]
        by_cases hid : put.id = id
        · rw [if_pos hid, if_pos hid.symm]
        · rw [if_neg hid, if_neg (Ne.symm hid)]
  | delete call deleted =>
      rw [IndexOp.run, IndexOp.outcome, IndexOp.id, Hnsw.item_delete]
      by_cases hid : deleted = id
      · rw [if_pos hid, if_pos hid.symm]
      · rw [if_neg hid, if_neg (Ne.symm hid)]

@[simp] theorem config_run (op : IndexOp) : (op.run arith h).config = h.config := by
  cases op with
  | add put => exact Hnsw.config_add _ _
  | delete call id => exact Hnsw.config_delete _

@[simp] theorem id_outcome (op : IndexOp) : (op.outcome arith h).id = op.id := by
  cases op with
  | add put =>
      rw [IndexOp.outcome]
      split <;> rfl
  | delete call id => rfl

theorem Agrees.run (hagrees : Agrees arith config h ops) (op : IndexOp) :
    Agrees arith config (op.run arith h) (ops ++ [op.outcome arith h]) := by
  refine ⟨(config_run op).trans hagrees.1, ?_⟩
  intro id
  rw [item_run, itemAfter_append, id_outcome, hagrees.1, hagrees.2]

end Vectron.Worker
