import Vectron.Foundation.MapEdit
import Vectron.Foundation.Slices
import Vectron.Gateway.WorkerList
import Vectron.Placement.KeyRange

/-! # Upserts

How `Upsert` of `apigateway/cmd/apigateway/main.go` divides its points among shards, and the
requests that it sends of them. The routing entry, the resolve caches, the answers of the placement
driver and the order in which goroutines come to their end are given from outside, and so are the
answers of the workers, after which a batch may be sent again.
-/

namespace Vectron.Gateway

open Foundation Reranker

variable {D : Type}

structure Point (D : Type) where
  id : String
  vector : List UInt32
  payload : D

/-- Where a point goes. -/
structure Resolved where
  addr : String
  shardID : UInt64
  shardEpoch : UInt64
  leaseExpiryUnixMs : Int
deriving DecidableEq

structure ShardBatch (D : Type) where
  points : List (Point D)
  shardEpoch : UInt64
  leaseExpiryUnixMs : Int

/-- The batches by address and shard. -/
abbrev Assignments (D : Type) := GoMap String (GoMap UInt64 (ShardBatch D))

/-- What `Upsert` reads of a `collectionRoutingEntry`. -/
structure UpsertRouting where
  shards : List Placement.RoutingShard
  dimension : Int32

/-! ## Resolving a point -/

/-- How `resolveWorker` fails, each with the error it reports. -/
inductive ResolveFailure where
  /-- "could not get placement driver client: %v" -/
  | client (err : Text)
  /-- "could not get worker for collection %q: %v" -/
  | getWorker (err : PlacementError)
  /-- "could not update placement driver leader: %v" -/
  | updateLeader (err : Text)
  /-- "could not get worker for collection %q after leader update: %v" -/
  | getWorkerAgain (err : PlacementError)
  /-- "collection %q not found" -/
  | notFound

/-- What a call of `resolveWorker` meets with. -/
structure ResolveRun where
  now : Int
  /-- what the resolve caches hold for the point -/
  cached : Option Resolved
  getCollectionRouting : Except Text UpsertRouting
  getPlacementClient : Except Text Unit
  getWorker : Except PlacementError Placement.GetWorkerResponse
  updateLeader : Except Text Unit
  getWorkerAgain : Except PlacementError Placement.GetWorkerResponse

/-- `routingLeaseTTL`, in milliseconds. -/
def routingLeaseTTL : Int := 20000

def pickShardAddress (shard : Placement.RoutingShard) : String :=
  if shard.leaderAddr ≠ "" then shard.leaderAddr else shard.replicaAddrs.headD ""

def resolvedTo (now : Int) (route : Placement.RoutingShard) : Resolved :=
  ⟨pickShardAddress route, route.shardId, route.shardEpoch, now + routingLeaseTTL⟩

namespace ResolveRun

variable (run : ResolveRun)

/-- From a routing entry. -/
def fromRouting (vectorID : String) : Option Resolved :=
  match run.getCollectionRouting with
  | .error _ => none
  | .ok entry =>
      match Placement.pickShardFromRouting entry.shards vectorID with
      | none => none
      | some route => if pickShardAddress route ≠ "" then some (resolvedTo run.now route) else none

def ofResponse (resp : Placement.GetWorkerResponse) : Except ResolveFailure Resolved :=
  if resp.grpcAddress = "" then .error .notFound
  else
    .ok ⟨resp.grpcAddress, resp.shardId.toUInt64, resp.shardEpoch, resp.leaseExpiryUnixMs.toInt⟩

/-- From the placement driver. -/
def fromDriver : Except ResolveFailure Resolved :=
  match run.getPlacementClient with
  | .error err => .error (.client err)
  | .ok () =>
      match run.getWorker with
      | .ok resp => ofResponse resp
      | .error err =>
          if err.stale then
            match run.updateLeader with
            | .error err => .error (.updateLeader err)
            | .ok () =>
                match run.getWorkerAgain with
                | .ok resp => ofResponse resp
                | .error err => .error (.getWorkerAgain err)
          else .error (.getWorker err)

def resolveWorker (vectorID : String) (forceRefresh : Bool) : Except ResolveFailure Resolved :=
  match if vectorID ≠ "" ∧ forceRefresh = false then run.cached else none with
  | some resolved => .ok resolved
  | none =>
      match if vectorID ≠ "" then run.fromRouting vectorID else none with
      | some resolved => .ok resolved
      | none => run.fromDriver

/-- A point by the routing entry of the request. -/
def route (shards : List Placement.RoutingShard) (vectorID : String) :
    Except ResolveFailure Resolved :=
  match Placement.pickShardFromRouting shards vectorID with
  | none => run.resolveWorker vectorID true
  | some route =>
      if pickShardAddress route = "" ∨ route.shardId = 0 then run.resolveWorker vectorID true
      else .ok (resolvedTo run.now route)

end ResolveRun

/-! ## Dividing the points -/

inductive UpsertError where
  /-- "collection name cannot be empty" -/
  | emptyCollection
  /-- "at least one point is required for upsert" -/
  | noPoints
  /-- "point ID cannot be empty" -/
  | emptyId
  /-- "point vector cannot be empty" -/
  | emptyVector
  /-- "vector dimension %d does not match index dimension %d" -/
  | dimension (got expected : Int)
  | resolve (failure : ResolveFailure)

/-- An upsert and what it meets with. -/
structure UpsertRun (D : Type) where
  collection : String
  points : List (Point D)
  /-- the routing entry, if it is loaded -/
  routing : Option UpsertRouting
  resolve : Nat → ResolveRun
  /-- the order in which the goroutines of the points assign them -/
  order : List Nat
  perm : order.Perm (List.range points.length)

/-- Append a point to its batch. -/
def assign (assignments : Assignments D) (resolved : Resolved) (point : Point D) :
    Assignments D :=
  let shards := (assignments.lookup resolved.addr).getD ∅
  let batch := (shards.lookup resolved.shardID).getD
    ⟨[], resolved.shardEpoch, resolved.leaseExpiryUnixMs⟩
  assignments.insert resolved.addr (shards.insert resolved.shardID
    { points := batch.points ++ [point]
      shardEpoch := max batch.shardEpoch resolved.shardEpoch
      leaseExpiryUnixMs := max batch.leaseExpiryUnixMs resolved.leaseExpiryUnixMs })

namespace UpsertRun

variable (run : UpsertRun D)

/-- The shards that the points are routed by, if the entry has any. -/
def table : Option (List Placement.RoutingShard) :=
  match run.routing with
  | none => none
  | some entry => if entry.shards = [] then none else some entry.shards

/-- With a routing entry the points are assigned in a loop, and otherwise by goroutines. -/
def assignOrder : List Nat :=
  match run.table with
  | some _ => List.range run.points.length
  | none => run.order

def resolvePoint (i : Nat) (point : Point D) : Except ResolveFailure Resolved :=
  match run.table with
  | some shards => (run.resolve i).route shards point.id
  | none => (run.resolve i).resolveWorker point.id false

/-- Resolve a point and assign it. The first error is the one that is returned. -/
def assignPoint (assignments : Assignments D) (i : Nat) : Except UpsertError (Assignments D) :=
  match run.points[i]? with
  | none => .ok assignments
  | some point =>
      match run.resolvePoint i point with
      | .error failure => .error (.resolve failure)
      | .ok resolved => .ok (assign assignments resolved point)

/-- The error of the first point that is refused for its id or its vector. -/
def invalidPoint : Option UpsertError :=
  run.points.findSome? fun point =>
    if point.id = "" then some .emptyId else if point.vector = [] then some .emptyVector else none

def wrongDimension : Option UpsertError :=
  match run.routing with
  | none => none
  | some entry =>
      if 0 < entry.dimension then
        (run.points.find? fun point => (point.vector.length : Int) ≠ entry.dimension.toInt).map
          fun point => .dimension point.vector.length entry.dimension.toInt
      else none

/-- `Upsert` up to the batches that it sends. -/
def upsert : Except UpsertError (Assignments D) :=
  if run.collection = "" then .error .emptyCollection
  else if run.points = [] then .error .noPoints
  else
    match run.invalidPoint.or run.wrongDimension with
    | some err => .error err
    | none => run.assignOrder.foldlM run.assignPoint ∅

end UpsertRun

/-! ## Sending a batch -/

/-- `worker.BatchStoreVectorRequest` -/
structure BatchStoreRequest (M : Type) where
  shardID : UInt64
  shardEpoch : UInt64
  leaseExpiryUnixMs : Int
  vectors : List (String × List UInt32 × M)

/-- `ToWorkerBatchStoreVectorRequestFromPoints`, with the encoding of the payloads. -/
def toWorkerRequest {M : Type} (encode : D → M) (shardID : UInt64) (batch : ShardBatch D)
    (points : List (Point D)) : BatchStoreRequest M where
  shardID := shardID
  shardEpoch := batch.shardEpoch
  leaseExpiryUnixMs := batch.leaseExpiryUnixMs
  vectors := points.map fun point => (point.id, point.vector, encode point.payload)

/-- The size of a chunk, and that of a batch that is sent in chunks. -/
structure StreamSettings where
  chunkSize : Nat
  threshold : Nat
  chunkSize_pos : 0 < chunkSize

/-- The requests of a batch, while none fails. -/
def batchRequests {M : Type} (settings : StreamSettings) (encode : D → M) (shardID : UInt64)
    (batch : ShardBatch D) : List (BatchStoreRequest M) :=
  if settings.threshold ≤ batch.points.length then
    (streamChunks settings.chunkSize settings.chunkSize_pos batch.points 0).map
      (toWorkerRequest encode shardID batch)
  else [toWorkerRequest encode shardID batch batch.points]

/-- Cutting a batch into chunks changes nothing of what is sent. -/
theorem batchRequests_vectors {M : Type} (settings : StreamSettings) (encode : D → M)
    (shardID : UInt64) (batch : ShardBatch D) :
    (batchRequests settings encode shardID batch).flatMap BatchStoreRequest.vectors =
      (toWorkerRequest encode shardID batch batch.points).vectors := by
  unfold batchRequests
  split
  · have hmap : ∀ chunks : List (List (Point D)),
        (chunks.map (toWorkerRequest encode shardID batch)).flatMap BatchStoreRequest.vectors =
          (toWorkerRequest encode shardID batch chunks.flatten).vectors := by
      intro chunks
      induction chunks with
      | nil => rfl
      | cons chunk chunks ih =>
          rw [List.map_cons, List.flatMap_cons, ih]
          simp [toWorkerRequest]
    rw [hmap, flatten_streamChunks, List.drop_zero]
  · simp

/-! ## The batches -/

/-- The points of the batch of an address and a shard, if there is one. -/
def pointsAt (assignments : Assignments D) (addr : String) (shardID : UInt64) : List (Point D) :=
  (((assignments.lookup addr).bind fun shards => shards.lookup shardID).map
    ShardBatch.points).getD []

/-- The points of all batches. -/
def allPoints (assignments : Assignments D) : List (Point D) :=
  assignments.gathered fun shards => shards.gathered ShardBatch.points

section

variable (assignments : Assignments D) (resolved : Resolved) (point : Point D)

theorem pointsAt_assign (addr : String) (shardID : UInt64) :
    pointsAt (assign assignments resolved point) addr shardID =
      if resolved.addr = addr ∧ resolved.shardID = shardID then
        pointsAt assignments addr shardID ++ [point]
      else pointsAt assignments addr shardID := by
  rw [pointsAt, assign, GoMap.lookup_insert_if]
  by_cases haddr : addr = resolved.addr
  · subst haddr
    rw [if_pos rfl, Option.bind_some, GoMap.lookup_insert_if]
    by_cases hshard : shardID = resolved.shardID
    · subst hshard
      simp only [if_true, and_self, Option.map_some, Option.getD_some, pointsAt]
      cases assignments.lookup resolved.addr with
      | none => rfl
      | some shards => cases hbatch : shards.lookup resolved.shardID <;> simp [hbatch]
    · rw [if_neg hshard, if_neg (fun h => hshard h.2.symm), pointsAt]
      cases assignments.lookup resolved.addr <;> rfl
  · rw [if_neg haddr, if_neg (fun h => haddr h.1.symm), pointsAt]

theorem allPoints_assign :
    (allPoints (assign assignments resolved point)).Perm (allPoints assignments ++ [point]) := by
  let shards := (assignments.lookup resolved.addr).getD ∅
  let batch := (shards.lookup resolved.shardID).getD
    ⟨[], resolved.shardEpoch, resolved.leaseExpiryUnixMs⟩
  let after : ShardBatch D :=
    { points := batch.points ++ [point]
      shardEpoch := max batch.shardEpoch resolved.shardEpoch
      leaseExpiryUnixMs := max batch.leaseExpiryUnixMs resolved.leaseExpiryUnixMs }
  have hbatch : ((shards.lookup resolved.shardID).map ShardBatch.points).getD [] = batch.points := by
    change _ = ((shards.lookup resolved.shardID).getD _).points
    cases shards.lookup resolved.shardID <;> rfl
  have hshards : ((assignments.lookup resolved.addr).map fun shards =>
      shards.gathered ShardBatch.points).getD [] = shards.gathered ShardBatch.points := by
    change _ = ((assignments.lookup resolved.addr).getD _).gathered _
    cases assignments.lookup resolved.addr <;> rfl
  -- the point is added to its batch
  have hinner : (GoMap.gathered ShardBatch.points (shards.insert resolved.shardID after)).Perm
      (shards.gathered ShardBatch.points ++ [point]) := by
    have h := GoMap.gathered_insert ShardBatch.points shards resolved.shardID after
    rw [hbatch] at h
    refine (List.perm_append_right_iff batch.points).mp (h.trans ?_)
    rw [List.append_assoc]
    exact List.perm_append_comm.append_left _
  -- and with it to the batches of its address
  have houter := GoMap.gathered_insert
    (fun shards : GoMap UInt64 (ShardBatch D) => shards.gathered ShardBatch.points) assignments
    resolved.addr (shards.insert resolved.shardID after)
  rw [hshards] at houter
  refine (List.perm_append_right_iff (shards.gathered ShardBatch.points)).mp (houter.trans ?_)
  refine (hinner.append_left _).trans ?_
  rw [allPoints, List.append_assoc]
  exact List.perm_append_comm.append_left _

end

namespace UpsertRun

variable (run : UpsertRun D)

/-- The address and the shard of the point at a position. -/
def placeOf (i : Nat) : Option (String × UInt64) :=
  match run.points[i]? with
  | none => none
  | some point =>
      match run.resolvePoint i point with
      | .error _ => none
      | .ok resolved => some (resolved.addr, resolved.shardID)

/-- The points at some positions, in their order. -/
def pointsOf (positions : List Nat) : List (Point D) := positions.filterMap fun i => run.points[i]?

variable {run}

/-- What a loop over some positions leaves. -/
theorem foldlM_assignPoint {order : List Nat} {start assignments : Assignments D}
    (hin : ∀ i ∈ order, i < run.points.length)
    (hok : order.foldlM run.assignPoint start = .ok assignments) :
    (∀ i ∈ order, ∃ place, run.placeOf i = some place) ∧
      (∀ addr shardID, pointsAt assignments addr shardID = pointsAt start addr shardID ++
        run.pointsOf (order.filter fun i => run.placeOf i = some (addr, shardID))) ∧
      (allPoints assignments).Perm (allPoints start ++ run.pointsOf order) := by
  induction order generalizing start with
  | nil =>
      obtain rfl := Except.ok.inj hok
      simp [pointsOf]
  | cons i order ih =>
      have hi : i < run.points.length := hin i List.mem_cons_self
      have hpoint := List.getElem?_eq_getElem hi
      rw [List.foldlM_cons, assignPoint, hpoint] at hok
      cases hresolve : run.resolvePoint i run.points[i] with
      | error failure =>
          simp only [hresolve] at hok
          cases hok
      | ok resolved =>
          simp only [hresolve] at hok
          have hplace : run.placeOf i = some (resolved.addr, resolved.shardID) := by
            rw [placeOf, hpoint]
            simp only [hresolve]
          obtain ⟨hplaces, hbatches, hwhole⟩ :=
            ih (fun j hj => hin j (List.mem_cons_of_mem _ hj)) hok
          refine ⟨?_, ?_, ?_⟩
          · intro j hj
            obtain rfl | hj := List.mem_cons.mp hj
            · exact ⟨_, hplace⟩
            · exact hplaces j hj
          · intro addr shardID
            rw [hbatches, pointsAt_assign, List.filter_cons, hplace]
            by_cases hsame : resolved.addr = addr ∧ resolved.shardID = shardID
            · obtain ⟨rfl, rfl⟩ := hsame
              simp [pointsOf, hpoint]
            · have hother : ¬(resolved.addr, resolved.shardID) = (addr, shardID) :=
                fun heq => hsame (Prod.mk.inj heq)
              simp [hsame, hother]
          · refine hwhole.trans ?_
            have hcons : run.pointsOf (i :: order) = run.points[i] :: run.pointsOf order := by
              simp [pointsOf, hpoint]
            rw [hcons]
            refine ((allPoints_assign start resolved run.points[i]).append_right _).trans ?_
            rw [List.append_assoc]
            exact List.Perm.refl _

theorem filterMap_range {α : Type} (values : List α) :
    ((List.range values.length).filterMap fun i => values[i]?) = values := by
  induction values with
  | nil => rfl
  | cons value values ih =>
      rw [List.length_cons, List.range_succ_eq_map, List.filterMap_cons, List.filterMap_map]
      exact congrArg (value :: ·) ih

theorem assignOrder_perm (run : UpsertRun D) :
    run.assignOrder.Perm (List.range run.points.length) := by
  unfold assignOrder
  split
  · exact List.Perm.refl _
  · exact run.perm

/-- What a successful upsert went through. -/
theorem upsert_eq_ok {assignments : Assignments D} (hok : run.upsert = .ok assignments) :
    (∀ point ∈ run.points, point.id ≠ "") ∧
      run.assignOrder.foldlM run.assignPoint ∅ = .ok assignments := by
  unfold upsert at hok
  split at hok
  · cases hok
  · split at hok
    · cases hok
    · split at hok
      next => cases hok
      next hvalid =>
        refine ⟨?_, hok⟩
        intro point hmem hid
        have hnone := List.findSome?_eq_none_iff.mp (Option.or_eq_none_iff.mp hvalid).1 point hmem
        rw [if_pos hid] at hnone
        cases hnone

end UpsertRun

/-! ## The shard of a point -/

/-- Every hash is in the range of exactly one shard of the table. -/
def PartitionsHashes (table : List Placement.RoutingShard) : Prop :=
  ∀ hash, ∃! shard, shard ∈ table ∧ Placement.inRange hash shard.start shard.stop = true

/-- The shard has the id and the range of the other. -/
def SameShard (routed other : Placement.RoutingShard) : Prop :=
  routed.shardId = other.shardId ∧ routed.start = other.start ∧ routed.stop = other.stop

/-- Two tables of the same shards, which may have other epochs and addresses. -/
def SameTable (table other : List Placement.RoutingShard) : Prop :=
  (∀ shard ∈ table, ∃ routed ∈ other, SameShard shard routed) ∧
    ∀ routed ∈ other, ∃ shard ∈ table, SameShard shard routed

/-- The table has the shard of the placement driver, under the id that goes over the wire. -/
def Describes (table : List Placement.RoutingShard) (coll : Placement.Collection) : Prop :=
  ∀ id shard, coll.shards.lookup id = some shard → ∃ routed ∈ table,
    routed.shardId = shard.shardId.toUInt32.toUInt64 ∧ routed.start = shard.keyRangeStart ∧
      routed.stop = shard.keyRangeEnd

/-- The placement driver answers to the id, with the shards of the table. -/
def Served (table : List Placement.RoutingShard) (collection vectorID : String)
    (resp : Placement.GetWorkerResponse) : Prop :=
  ∃ env fsm coll, fsm.collections.lookup collection = some coll ∧ Describes table coll ∧
    Placement.getWorker env fsm ⟨collection, vectorID⟩ = .ok resp

section Table

variable {table : List Placement.RoutingShard} {vectorID : String}

theorem pickShardFromRouting_eq_some {routed : Placement.RoutingShard}
    (hpick : Placement.pickShardFromRouting table vectorID = some routed) :
    routed ∈ table ∧
      Placement.inRange (Placement.hashVectorId vectorID) routed.start routed.stop = true := by
  unfold Placement.pickShardFromRouting at hpick
  split at hpick
  · cases hpick
  · exact ⟨List.mem_of_find?_eq_some hpick, List.find?_some
      (p := fun shard : Placement.RoutingShard =>
        Placement.inRange (Placement.hashVectorId vectorID) shard.start shard.stop) hpick⟩

section

variable (hpartition : PartitionsHashes table) (hid : vectorID ≠ "")

include hpartition hid

/-- Whatever shard of the table has the hash of the id in its range is the one that is picked. -/
theorem PartitionsHashes.pick_eq {shard : Placement.RoutingShard} (hmem : shard ∈ table)
    (hrange : Placement.inRange (Placement.hashVectorId vectorID) shard.start shard.stop = true) :
    Placement.pickShardFromRouting table vectorID = some shard := by
  obtain ⟨owner, -, hunique⟩ := hpartition (Placement.hashVectorId vectorID)
  rw [Placement.pickShardFromRouting, if_neg hid, Placement.pickShardFromRoutingKey]
  refine find?_eq_some_of_forall hmem hrange ?_
  intro other hother hinRange
  rw [hunique other ⟨hother, hinRange⟩, hunique shard ⟨hmem, hrange⟩]

/-- The placement driver finds the shard that the table has for the id. -/
theorem Served.shardId_eq {collection : String} {resp : Placement.GetWorkerResponse}
    (hserved : Served table collection vectorID resp) :
    ∃ shard, Placement.pickShardFromRouting table vectorID = some shard ∧
      resp.shardId.toUInt64 = shard.shardId := by
  obtain ⟨env, fsm, coll, hcoll, hdescribes, hresp⟩ := hserved
  obtain ⟨coll', shard, worker, hcoll', htarget, -, -, hshardId, -⟩ :=
    Placement.getWorker_eq_ok hresp
  rw [hcoll] at hcoll'
  obtain rfl := Option.some.inj hcoll'
  rw [Placement.targetShard, if_pos hid, Placement.shardOfHash] at htarget
  obtain ⟨⟨id, found⟩, hfind, rfl⟩ := Option.map_eq_some_iff.mp htarget
  have hlookup := RangeOrder.mem_range.mp (List.mem_of_find?_eq_some hfind)
  have hrange := List.find?_some hfind
  obtain ⟨routed, hmem, hrouted, hstart, hstop⟩ := hdescribes id found hlookup
  refine ⟨routed, hpartition.pick_eq hid hmem ?_, ?_⟩
  · rw [hstart, hstop]
    exact hrange
  · rw [hshardId, hrouted]

/-- So does another table of the same shards. -/
theorem SameTable.shardId_eq {other : List Placement.RoutingShard} (hsame : SameTable table other)
    {routed : Placement.RoutingShard}
    (hpick : Placement.pickShardFromRouting other vectorID = some routed) :
    ∃ shard, Placement.pickShardFromRouting table vectorID = some shard ∧
      routed.shardId = shard.shardId := by
  obtain ⟨hmem, hrange⟩ := pickShardFromRouting_eq_some hpick
  obtain ⟨shard, hshard, hid', hstart, hstop⟩ := hsame.2 routed hmem
  refine ⟨shard, hpartition.pick_eq hid hshard ?_, hid'.symm⟩
  rw [hstart, hstop]
  exact hrange

end

end Table

namespace UpsertRun

variable {run : UpsertRun D}

/-- What the placement driver answers during the upsert has the shards of the table. -/
def Agrees (run : UpsertRun D) (table : List Placement.RoutingShard) : Prop :=
  ∀ (i : Nat) point, run.points[i]? = some point →
    (∀ entry, (run.resolve i).getCollectionRouting = .ok entry → SameTable table entry.shards) ∧
    ∀ resp, (run.resolve i).getWorker = .ok resp ∨ (run.resolve i).getWorkerAgain = .ok resp →
      Served table run.collection point.id resp

theorem fromDriver_eq_ok {resolve : ResolveRun} {resolved : Resolved}
    (hok : resolve.fromDriver = .ok resolved) :
    ∃ resp, (resolve.getWorker = .ok resp ∨ resolve.getWorkerAgain = .ok resp) ∧
      resolved.shardID = resp.shardId.toUInt64 := by
  have hresp : ∀ resp : Placement.GetWorkerResponse, ResolveRun.ofResponse resp = .ok resolved →
      resolved.shardID = resp.shardId.toUInt64 := by
    intro resp hresp
    unfold ResolveRun.ofResponse at hresp
    split at hresp
    · cases hresp
    · obtain rfl := Except.ok.inj hresp
      rfl
  unfold ResolveRun.fromDriver at hok
  split at hok
  · cases hok
  · split at hok
    next resp hgot => exact ⟨resp, .inl hgot, hresp resp hok⟩
    next =>
      split at hok
      · split at hok
        · cases hok
        · split at hok
          next resp hgot => exact ⟨resp, .inr hgot, hresp resp hok⟩
          next => cases hok
      · cases hok

/-- A refreshed resolution finds the shard of the table. -/
theorem resolveWorker_shard {table : List Placement.RoutingShard}
    (hpartition : PartitionsHashes table) (hagrees : run.Agrees table) {i : Nat} {point : Point D}
    (hpoint : run.points[i]? = some point) (hid : point.id ≠ "") {resolved : Resolved}
    (hok : (run.resolve i).resolveWorker point.id true = .ok resolved) :
    ∃ shard, Placement.pickShardFromRouting table point.id = some shard ∧
      resolved.shardID = shard.shardId := by
  obtain ⟨hrouting, hworker⟩ := hagrees i point hpoint
  unfold ResolveRun.resolveWorker at hok
  simp only [Bool.true_eq_false, and_false, if_false, if_pos hid] at hok
  split at hok
  next found hfound =>
    obtain rfl := Except.ok.inj hok
    unfold ResolveRun.fromRouting at hfound
    split at hfound
    · cases hfound
    next entry hentry =>
      split at hfound
      · cases hfound
      next route hpick =>
        split at hfound
        next =>
          obtain rfl := Option.some.inj hfound
          exact (hrouting entry hentry).shardId_eq hpartition hid hpick
        next => cases hfound
  next =>
    obtain ⟨resp, hgot, hshard⟩ := fromDriver_eq_ok hok
    obtain ⟨shard, hpick, hsame⟩ := (hworker resp hgot).shardId_eq hpartition hid
    exact ⟨shard, hpick, hshard.trans hsame⟩

/-- By the table, a point goes to the shard that the table has for it. -/
theorem resolvePoint_shard {table : List Placement.RoutingShard} (htable : run.table = some table)
    (hpartition : PartitionsHashes table) (hagrees : run.Agrees table) {i : Nat} {point : Point D}
    (hpoint : run.points[i]? = some point) (hid : point.id ≠ "") {resolved : Resolved}
    (hok : run.resolvePoint i point = .ok resolved) :
    ∃ shard, Placement.pickShardFromRouting table point.id = some shard ∧
      resolved.shardID = shard.shardId := by
  rw [resolvePoint, htable] at hok
  simp only [ResolveRun.route] at hok
  split at hok
  · exact resolveWorker_shard hpartition hagrees hpoint hid hok
  next route hpick =>
    split at hok
    · exact resolveWorker_shard hpartition hagrees hpoint hid hok
    · obtain rfl := Except.ok.inj hok
      exact ⟨route, hpick, rfl⟩

/-! ## The whole upsert -/

/-- How an upsert divides its points. -/
structure Divides (run : UpsertRun D) (assignments : Assignments D) : Prop where
  /-- each point has an address and a shard -/
  placed : ∀ i < run.points.length, ∃ place, run.placeOf i = some place
  /-- a batch has exactly the points of its address and shard, as they were assigned -/
  batches : ∀ addr shardID, pointsAt assignments addr shardID =
    run.pointsOf (run.assignOrder.filter fun i => run.placeOf i = some (addr, shardID))
  /-- the batches have every point once -/
  whole : (allPoints assignments).Perm run.points
  /-- by a routing table, in the order of the points -/
  ordered : ∀ table, run.table = some table →
    ∀ addr shardID, (pointsAt assignments addr shardID).Sublist run.points
  /-- and by a table that partitions the hashes, in the shard of the placement driver -/
  owned : ∀ table, run.table = some table → PartitionsHashes table → run.Agrees table →
    ∀ (i : Nat) point place, run.points[i]? = some point → run.placeOf i = some place →
      ∀ resp, Served table run.collection point.id resp → place.2 = resp.shardId.toUInt64

theorem upsert_divides (run : UpsertRun D) {assignments : Assignments D}
    (hok : run.upsert = .ok assignments) :
    run.Divides assignments ∧
      ∀ {M : Type} (settings : StreamSettings) (encode : D → M) (shardID : UInt64)
        (batch : ShardBatch D),
        (batchRequests settings encode shardID batch).flatMap BatchStoreRequest.vectors =
          (toWorkerRequest encode shardID batch batch.points).vectors := by
  obtain ⟨hids, hfold⟩ := upsert_eq_ok hok
  have hperm := run.assignOrder_perm
  obtain ⟨hplaced, hbatches, hwhole⟩ := foldlM_assignPoint
    (fun i hi => List.mem_range.mp (hperm.mem_iff.mp hi)) hfold
  have hstart : ∀ addr shardID, pointsAt (∅ : Assignments D) addr shardID = [] := fun _ _ => rfl
  refine ⟨⟨?_, ?_, ?_, ?_, ?_⟩, fun settings encode => batchRequests_vectors settings encode⟩
  · intro i hi
    exact hplaced i (hperm.mem_iff.mpr (List.mem_range.mpr hi))
  · intro addr shardID
    rw [hbatches, hstart, List.nil_append]
  · refine hwhole.trans ?_
    have hempty : allPoints (∅ : Assignments D) = [] := rfl
    rw [hempty, List.nil_append]
    have hpoints := hperm.filterMap fun i => run.points[i]?
    rwa [filterMap_range] at hpoints
  · intro table htable addr shardID
    rw [hbatches, hstart, List.nil_append, assignOrder, htable]
    have hsub := (List.filter_sublist
      (p := fun i => decide (run.placeOf i = some (addr, shardID)))
      (l := List.range run.points.length)).filterMap fun i => run.points[i]?
    rwa [filterMap_range] at hsub
  · intro table htable hpartition hagrees i point place hpoint hplace resp hserved
    have hid := hids point (List.mem_of_getElem? hpoint)
    rw [placeOf, hpoint] at hplace
    cases hresolve : run.resolvePoint i point with
    | error failure =>
        simp only [hresolve] at hplace
        cases hplace
    | ok resolved =>
        simp only [hresolve] at hplace
        obtain rfl := Option.some.inj hplace
        obtain ⟨shard, hpick, hshard⟩ :=
          resolvePoint_shard htable hpartition hagrees hpoint hid hresolve
        obtain ⟨shard', hpick', hsame⟩ := hserved.shardId_eq hpartition hid
        rw [hpick] at hpick'
        obtain rfl := Option.some.inj hpick'
        exact hshard.trans hsame.symm

/-- Two shards that divide the hashes. -/
def halves : List Placement.RoutingShard :=
  [⟨1, 0, 12638190000000000000, 1, "w1", ["w1"]⟩,
    ⟨2, 12638190000000000001, 18446744073709551615, 1, "w2", ["w2"]⟩]

theorem partitionsHashes_halves : PartitionsHashes halves := by
  intro hash
  simp only [ExistsUnique, halves, List.mem_cons, List.not_mem_nil, or_false,
    Placement.inRange, Bool.and_eq_true, decide_eq_true_eq]
  by_cases hfirst : hash ≤ 12638190000000000000
  · refine ⟨_, ⟨.inl rfl, UInt64.zero_le, hfirst⟩, ?_⟩
    rintro other ⟨rfl | rfl, hstart, _⟩
    · rfl
    · exact absurd (UInt64.le_trans hstart hfirst) (by decide)
  · refine ⟨_, ⟨.inr rfl, by grind, by grind⟩, ?_⟩
    rintro other ⟨rfl | rfl, _, hstop⟩
    · exact absurd hstop hfirst
    · rfl

/-- Two points of the first shard with one of the second between them. -/
def routedUpsert : UpsertRun Unit where
  collection := "docs"
  points := [⟨"a", [0], ()⟩, ⟨"b", [0], ()⟩, ⟨"c", [0], ()⟩]
  routing := some ⟨halves, 1⟩
  resolve _ :=
    { now := 0
      cached := none
      getCollectionRouting := .error []
      getPlacementClient := .error []
      getWorker := .error ⟨false, []⟩
      updateLeader := .ok ()
      getWorkerAgain := .error ⟨false, []⟩ }
  order := [0, 1, 2]
  perm := List.Perm.refl _

def routedBatches : Assignments Unit :=
  let first : Resolved := ⟨"w1", 1, 1, 20000⟩
  assign (assign (assign ∅ first ⟨"a", [0], ()⟩) ⟨"w2", 2, 1, 20000⟩ ⟨"b", [0], ()⟩)
    first ⟨"c", [0], ()⟩

theorem routedUpsert_upsert : routedUpsert.upsert = .ok routedBatches := by
  have ha : Placement.hashVectorId "a" = 12638187200555641996 := by decide +kernel
  have hb : Placement.hashVectorId "b" = 12638190499090526629 := by decide +kernel
  have hc : Placement.hashVectorId "c" = 12638189399578898418 := by decide +kernel
  simp [upsert, routedUpsert, invalidPoint, wrongDimension, assignOrder, table, halves,
    assignPoint, resolvePoint, ResolveRun.route, Placement.pickShardFromRouting, ha, hb, hc,
    Placement.pickShardFromRoutingKey, List.range, List.range.loop, List.foldlM]
  rfl

theorem upsert_divides_routed :
    PartitionsHashes halves ∧ routedUpsert.Divides routedBatches :=
  ⟨partitionsHashes_halves, (upsert_divides routedUpsert routedUpsert_upsert).1⟩

end UpsertRun

end Vectron.Gateway
