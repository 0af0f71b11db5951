import Vectron.Placement.Fsm

/-! # What the server reads from the state

The read paths of `placementdriver/internal/server/server.go` and of `health.go`:
worker health, routing a request with `GetWorker`, the status of a collection and
the shard assignments that a heartbeat answers. The gateway's side of routing, from
`apigateway/cmd/apigateway/main.go`, is at the end. Each read takes the state it
looks at as an argument, so that a request may read different states.
-/

namespace Vectron.Placement

open Foundation

/-- The readings of the local clock that a request can make. -/
inductive ServerClockSite where
  | leaderHealthy (shard : UInt64)
  | replicaHealthy (shard worker : UInt64)
  | searchOnlyHealthy (worker : UInt64)
  | healthyWorkers (worker : UInt64)
  | lease
deriving DecidableEq

/-- The `for range` loops over maps that a request can run. -/
inductive ServerRangeSite where
  | targetShard
  | workers
  | healthyWorkers
  | collections
  | shards (collection : String)
  | statusShards
deriving DecidableEq

/-- What one request takes from its node. -/
structure ServerEnv where
  clock : ServerClockSite → Time
  order : ServerRangeSite → RangeOrder

/-- The gRPC status codes in use. -/
inductive Code where
  | invalidArgument
  | notFound
  | internal
  | unavailable
deriving DecidableEq, Repr

/-- The error of a request. -/
structure Status where
  code : Code
  message : String
deriving DecidableEq, Repr

/-! ## Health -/

/-- The condition `health.go` repeats for a worker it has found. -/
def WorkerInfo.healthy (worker : WorkerInfo) (now : Time) : Bool :=
  worker.state == .ready && decide (now - worker.lastHeartbeat < workerTimeout)

def isWorkerHealthy (fsm : Fsm) (now : Time) (workerId : UInt64) : Bool :=
  match fsm.workers.lookup workerId with
  | none => false
  | some worker => worker.healthy now

def getHealthyWorkers (env : ServerEnv) (fsm : Fsm) : List WorkerInfo :=
  (((env.order .healthyWorkers).range fsm.workers).filter fun (id, worker) =>
    worker.healthy (env.clock (.healthyWorkers id))).map Prod.snd

def getWorkers (env : ServerEnv) (fsm : Fsm) : List WorkerInfo :=
  ((env.order .workers).range fsm.workers).map Prod.snd

def getCollections (env : ServerEnv) (fsm : Fsm) : List Collection :=
  ((env.order .collections).range fsm.collections).map Prod.snd

/-- The map from ids to workers that several requests build. -/
def workerMap (workers : List WorkerInfo) : GoMap UInt64 WorkerInfo :=
  workers.foldl (fun workerMap worker => workerMap.insert worker.id worker) ∅

/-! ## Routing -/

/-- The 64-bit FNV-1a hash of `hash/fnv`. -/
def fnv1a (bytes : List UInt8) : UInt64 :=
  bytes.foldl (fun hash byte => (hash ^^^ byte.toUInt64) * 1099511628211) 14695981039346656037

def hashVectorId (id : String) : UInt64 :=
  fnv1a id.toUTF8.toList

/-- The condition on a key range that both lookups use. -/
def inRange (hash start stop : UInt64) : Bool :=
  decide (hash ≥ start) && decide (hash ≤ stop)

structure GetWorkerRequest where
  collection : String
  vectorId : String := ""
deriving DecidableEq

structure GetWorkerResponse where
  grpcAddress : String
  shardId : UInt32
  shardEpoch : UInt64
  leaseExpiryUnixMs : Int64
deriving DecidableEq, Repr

/-- `shardLeaseTTL`, 20 seconds. -/
def shardLeaseTTL : Int := 20 * 1000000000

/-- The loop of `GetWorker` that looks for the shard of a hash. -/
def shardOfHash (env : ServerEnv) (collection : Collection) (hashValue : UInt64) :
    Option ShardInfo :=
  (((env.order .targetShard).range collection.shards).find? fun (_, shard) =>
    inRange hashValue shard.keyRangeStart shard.keyRangeEnd).map Prod.snd

/-- The shard `GetWorker` picks: by the hash of the vector id or, without one, the
shard with the smallest id. -/
def targetShard (env : ServerEnv) (collection : Collection) (vectorId : String) :
    Option ShardInfo :=
  if vectorId ≠ "" then shardOfHash env collection (hashVectorId vectorId)
  else collection.shards.keys.min?.bind fun key => collection.shards.lookup key

/-- A worker under a key, if it is registered and the worker it names is healthy. -/
def healthyWorker? (fsm : Fsm) (now : Time) (workerId : UInt64) : Option WorkerInfo :=
  (fsm.workers.lookup workerId).filter fun worker => isWorkerHealthy fsm now worker.id

/-- The worker `GetWorker` picks: the leader if known and healthy, else the first
healthy replica. -/
def targetWorker (env : ServerEnv) (fsm : Fsm) (shard : ShardInfo) : Option WorkerInfo :=
  let leader :=
    if shard.leaderId ≠ 0 then
      healthyWorker? fsm (env.clock (.leaderHealthy shard.shardId)) shard.leaderId
    else none
  match leader with
  | some worker => some worker
  | none => shard.replicas.findSome? fun replicaId =>
      healthyWorker? fsm (env.clock (.replicaHealthy shard.shardId replicaId)) replicaId

/-- `GetWorker`. -/
def getWorker (env : ServerEnv) (fsm : Fsm) (req : GetWorkerRequest) :
    Except Status GetWorkerResponse :=
  if req.collection = "" then
    .error ⟨.invalidArgument, "collection name is required"⟩
  else
    match fsm.collections.lookup req.collection with
    | none => .error ⟨.notFound, s!"collection '{req.collection}' not found"⟩
    | some collection =>
        if collection.shards.entries.length = 0 then
          .error ⟨.internal, s!"collection '{req.collection}' has no shards"⟩
        else
          match targetShard env collection req.vectorId with
          | none =>
              .error ⟨.notFound, s!"no suitable shard found for vector_id '{req.vectorId}'"⟩
          | some shard =>
              if shard.replicas.length = 0 then
                .error ⟨.internal, s!"shard '{shard.shardId}' has no replicas"⟩
              else
                match targetWorker env fsm shard with
                | none =>
                    .error ⟨.unavailable,
                      s!"no healthy replicas available for shard '{shard.shardId}'"⟩
                | some worker =>
                    .ok
                      { grpcAddress := worker.grpcAddress
                        shardId := shard.shardId.toUInt32
                        shardEpoch := shard.epoch
                        leaseExpiryUnixMs :=
                          .ofInt ((env.clock .lease + shardLeaseTTL).fdiv 1000000) }

theorem targetShard_eq_some {env : ServerEnv} {collection : Collection} {vectorId : String}
    {shard : ShardInfo} (htarget : targetShard env collection vectorId = some shard) :
    ∃ id, collection.shards.lookup id = some shard := by
  unfold targetShard at htarget
  split at htarget
  next =>
    rw [shardOfHash] at htarget
    obtain ⟨⟨id, found⟩, hfind, rfl⟩ := Option.map_eq_some_iff.mp htarget
    exact ⟨id, RangeOrder.mem_range.mp (List.mem_of_find?_eq_some hfind)⟩
  next =>
    obtain ⟨id, _, hlookup⟩ := Option.bind_eq_some_iff.mp htarget
    exact ⟨id, hlookup⟩

/-- What a successful `GetWorker` went through. -/
theorem getWorker_eq_ok {env : ServerEnv} {fsm : Fsm} {req : GetWorkerRequest}
    {resp : GetWorkerResponse} (hok : getWorker env fsm req = .ok resp) :
    ∃ collection shard worker, fsm.collections.lookup req.collection = some collection ∧
      targetShard env collection req.vectorId = some shard ∧
      targetWorker env fsm shard = some worker ∧
      resp.grpcAddress = worker.grpcAddress ∧ resp.shardId = shard.shardId.toUInt32 ∧
      resp.shardEpoch = shard.epoch := by
  unfold getWorker at hok
  split at hok
  · contradiction
  · split at hok
    next => contradiction
    next collection hcollection =>
      split at hok
      · contradiction
      · split at hok
        next => contradiction
        next shard hshard =>
          split at hok
          · contradiction
          · split at hok
            next => contradiction
            next worker hworker =>
              obtain rfl := Except.ok.inj hok
              exact ⟨collection, shard, worker, hcollection, hshard, hworker, rfl, rfl, rfl⟩

/-! ## Collection status -/

structure ShardStatus where
  shardId : UInt32
  replicas : List UInt64
  leaderId : UInt64
  ready : Bool
  keyRangeStart : UInt64
  keyRangeEnd : UInt64
  shardEpoch : UInt64
  leaderGrpcAddress : String
  replicaGrpcAddresses : List String
deriving DecidableEq

structure GetCollectionStatusResponse where
  name : String
  dimension : Int32
  distance : String
  shards : List ShardStatus
deriving DecidableEq

/-- The name of the collection of every shard id, the last collection visited
winning. -/
def shardToCollection (env : ServerEnv) (fsm : Fsm) : GoMap UInt64 String :=
  (getCollections env fsm).foldl
    (fun byShard coll =>
      ((env.order (.shards coll.name)).range coll.shards).foldl
        (fun byShard (_, shard) => byShard.insert shard.shardId coll.name) byShard)
    ∅

/-- The addresses of the healthy search-only workers that report a shard of the
collection as running, once for every report. -/
def searchOnlyAddrs (env : ServerEnv) (fsm : Fsm) (collection : Collection) (shardId : UInt64) :
    List String :=
  (getWorkers env fsm).flatMap fun worker =>
    if worker.role = "search_only" ∧
        isWorkerHealthy fsm (env.clock (.searchOnlyHealthy worker.id)) worker.id = true then
      (worker.runningShards.filter fun running =>
        running == shardId &&
          ((shardToCollection env fsm).lookup running).getD "" == collection.name).map
        fun _ => worker.grpcAddress
    else []

/-- Append the addresses that are not in the list yet, one after the other. -/
def appendNew (addrs : List String) (more : List String) : List String :=
  more.foldl (fun addrs addr => if addr ∈ addrs then addrs else addrs ++ [addr]) addrs

/-- The status of one shard. -/
def shardStatus (env : ServerEnv) (fsm : Fsm) (collection : Collection) (shard : ShardInfo) :
    ShardStatus :=
  let workers := workerMap (getWorkers env fsm)
  let address (now : Time) (workerId : UInt64) : Option String :=
    ((workers.lookup workerId).filter fun worker => isWorkerHealthy fsm now worker.id).map
      WorkerInfo.grpcAddress
  let leaderAddr :=
    if shard.leaderId ≠ 0 then
      (address (env.clock (.leaderHealthy shard.shardId)) shard.leaderId).getD ""
    else ""
  let replicaAddrs := appendNew [] (shard.replicas.filterMap fun replicaId =>
    address (env.clock (.replicaHealthy shard.shardId replicaId)) replicaId)
  { shardId := shard.shardId.toUInt32
    replicas := shard.replicas
    leaderId := shard.leaderId
    ready := decide (shard.leaderId > 0)
    keyRangeStart := shard.keyRangeStart
    keyRangeEnd := shard.keyRangeEnd
    shardEpoch := shard.epoch
    leaderGrpcAddress := leaderAddr
    replicaGrpcAddresses :=
      appendNew replicaAddrs (searchOnlyAddrs env fsm collection shard.shardId) }

/-- `GetCollectionStatus`. -/
def getCollectionStatus (env : ServerEnv) (fsm : Fsm) (name : String) :
    Except Status GetCollectionStatusResponse :=
  if name = "" then .error ⟨.invalidArgument, "collection name is required"⟩
  else
    match fsm.collections.lookup name with
    | none => .error ⟨.notFound, s!"collection '{name}' not found"⟩
    | some collection =>
        .ok
          { name := collection.name
            dimension := collection.dimension
            distance := collection.distance
            shards := ((env.order .statusShards).range collection.shards).map fun (_, shard) =>
              shardStatus env fsm collection shard }

/-! ## Heartbeat answers -/

structure ShardAssignment where
  shardInfo : ShardInfo
  initialMembers : GoMap UInt64 String
  bootstrap : Bool

/-- The role of the worker that sends the heartbeat, empty when it is unknown. -/
def workerRole (workers : List WorkerInfo) (workerId : UInt64) : String :=
  workers.foldl (fun role worker => if worker.id = workerId then worker.role else role) ""

/-- One iteration of the loop that fills `initialMembers`. -/
def addMember (workers : GoMap UInt64 WorkerInfo) (members : GoMap UInt64 String)
    (replicaId : UInt64) : GoMap UInt64 String :=
  match workers.lookup replicaId with
  | some worker => members.insert replicaId worker.raftAddress
  | none => members

/-- `initialMembers` of a replica's assignment. -/
def initialMembers (workers : GoMap UInt64 WorkerInfo) (shard : ShardInfo) :
    GoMap UInt64 String :=
  shard.replicas.foldl (addMember workers) ∅

/-- The assignment of one shard to the worker, if it gets one. -/
def shardAssignment (workers : List WorkerInfo) (workerId : UInt64) (shard : ShardInfo) :
    Option ShardAssignment :=
  if workerRole workers workerId ≠ "search_only" then
    if workerId ∈ shard.replicas then
      some
        { shardInfo := shard
          initialMembers := initialMembers (workerMap workers) shard
          bootstrap := !shard.bootstrapped && decide (workerId ∈ shard.bootstrapMembers) }
    else none
  else some { shardInfo := shard, initialMembers := ∅, bootstrap := false }

/-- The assignments in the answer to a heartbeat. The workers are read before the
collections, and commands may be applied in between. -/
def heartbeatAssignments (env : ServerEnv) (workersRead collectionsRead : Fsm)
    (workerId : UInt64) : List ShardAssignment :=
  (getCollections env collectionsRead).flatMap fun coll =>
    ((env.order (.shards coll.name)).range coll.shards).filterMap fun (_, shard) =>
      shardAssignment (getWorkers env workersRead) workerId shard

/-! ## The gateway -/

/-- `routingShard` of the gateway. -/
structure RoutingShard where
  shardId : UInt64
  start : UInt64
  stop : UInt64
  shardEpoch : UInt64
  leaderAddr : String
  replicaAddrs : List String
deriving DecidableEq

/-- The shards of the routing entry that `getCollectionRouting` builds from the
answer of the placement driver. -/
def routingShards (resp : GetCollectionStatusResponse) : List RoutingShard :=
  resp.shards.map fun shard =>
    { shardId := shard.shardId.toUInt64
      start := shard.keyRangeStart
      stop := shard.keyRangeEnd
      shardEpoch := shard.shardEpoch
      leaderAddr := shard.leaderGrpcAddress
      replicaAddrs := shard.replicaGrpcAddresses }

def pickShardFromRoutingKey (shards : List RoutingShard) (key : UInt64) : Option RoutingShard :=
  shards.find? fun shard => inRange key shard.start shard.stop

/-- `pickShardFromRouting`, which runs the loop of `pickShardFromRoutingKey` on the
hash of the id. -/
def pickShardFromRouting (shards : List RoutingShard) (vectorId : String) :
    Option RoutingShard :=
  if vectorId = "" then none
  else pickShardFromRoutingKey shards (hashVectorId vectorId)

end Vectron.Placement
