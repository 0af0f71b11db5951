import Vectron.Foundation.Fallible
import Vectron.Placement.Placement

/-! # The placement driver's state machine

The apply functions of `fsm.go` and the dispatch of `FSM.Update`. An application
runs in a monad whose state survives an error, so that what a function wrote
before it returned an error would be visible. `fmt.Printf` output is left out.
-/

namespace Vectron.Placement

open Foundation

/-- An apply function: it may write the state and then still return an error. -/
abbrev Apply (α : Type) := Fallible Fsm ApplyError α

namespace Fsm

/-- The shard of a collection, by the two map keys that lead to it. -/
def shard? (fsm : Fsm) (collection : String) (shardId : UInt64) : Option ShardInfo :=
  (fsm.collections.lookup collection).bind fun coll => coll.shards.lookup shardId

/-- A write through the pointer to a shard of a collection. -/
def setShard (fsm : Fsm) (collection : String) (shardId : UInt64) (shard : ShardInfo) : Fsm :=
  match fsm.collections.lookup collection with
  | none => fsm
  | some coll =>
      { fsm with
        collections := fsm.collections.insert collection
          { coll with shards := coll.shards.insert shardId shard } }

end Fsm

/-- The loop of the apply functions that looks for a shard in all collections. -/
def findShard (env : Env) (fsm : Fsm) (shardId : UInt64) : Option (String × ShardInfo) :=
  ((env.order .findShard).range fsm.collections).findSome? fun (name, coll) =>
    (coll.shards.lookup shardId).map fun shard => (name, shard)

def bumpAssignmentsEpochLocked : Apply Unit := do
  modify fun fsm => { fsm with assignmentsEpoch := fsm.assignmentsEpoch + 1 }
  -- 0 stands for no epoch, so a wrapped counter skips it
  if (← get).assignmentsEpoch = 0 then
    modify fun fsm => { fsm with assignmentsEpoch := 1 }

/-! ## Peers, workers and rerankers -/

def applyRegisterPeer (payload : RegisterPeerPayload) : Apply Unit :=
  modify fun fsm =>
    { fsm with
      peers := fsm.peers.insert payload.id
        { id := payload.id, raftAddr := payload.raftAddr, apiAddr := payload.apiAddr } }

/-- The normalized capacity score of a registration. -/
def capacityScore (cfg : Config) (cpuCores : Int32) (memoryBytes diskBytes : Int64) : Int64 :=
  let cpuScore := Float.ofInt cpuCores.toInt / 8.0 * 300.0
  let memScore := Float.ofInt memoryBytes.toInt / 34359738368.0 * 400.0
  let diskScore := Float.ofInt diskBytes.toInt / 536870912000.0 * 300.0
  let totalCapacity := cfg.int64OfFloat (cpuScore + memScore + diskScore)
  if totalCapacity < 100 then 100 else totalCapacity

/-- A known worker that registers again. -/
def WorkerInfo.reregister (env : Env) (payload : RegisterWorkerPayload) (info : WorkerInfo) :
    WorkerInfo :=
  { info with
    lastHeartbeat := env.clock .registerWorker
    role := if payload.role ≠ "" then payload.role else info.role }

/-- The record of a worker that registers for the first time. -/
def RegisterWorkerPayload.worker (payload : RegisterWorkerPayload) (cfg : Config) (env : Env)
    (workerId : UInt64) : WorkerInfo where
  id := workerId
  grpcAddress := payload.grpcAddress
  raftAddress := payload.raftAddress
  lastHeartbeat := env.clock .registerWorker
  state := .joining
  role := if payload.role = "" then "write" else payload.role
  cpuCores := payload.cpuCores
  totalMemory := payload.memoryBytes
  totalDisk := payload.diskBytes
  totalCapacity := capacityScore cfg payload.cpuCores payload.memoryBytes payload.diskBytes
  rack := payload.rack
  zone := payload.zone
  region := payload.region

/-- The loop condition that recognises a worker by its two addresses. -/
def RegisterWorkerPayload.matches (payload : RegisterWorkerPayload) (info : WorkerInfo) : Bool :=
  info.grpcAddress == payload.grpcAddress && info.raftAddress == payload.raftAddress

def applyRegisterWorker (cfg : Config) (env : Env) (payload : RegisterWorkerPayload) :
    Apply UInt64 := do
  let fsm ← get
  let existing := ((env.order .registerWorker).range fsm.workers).find? fun (_, info) =>
    payload.matches info
  match existing with
  | some (id, info) =>
      modify fun fsm => { fsm with workers := fsm.workers.insert id (info.reregister env payload) }
      return id
  | none =>
      let workerId := fsm.nextWorkerId
      modify fun fsm => { fsm with nextWorkerId := fsm.nextWorkerId + 1 }
      modify fun fsm =>
        { fsm with workers := fsm.workers.insert workerId (payload.worker cfg env workerId) }
      return workerId

/-- A known reranker that registers again. -/
def RerankerInfo.reregister (env : Env) (payload : RegisterRerankerPayload)
    (info : RerankerInfo) : RerankerInfo :=
  { info with
    lastHeartbeat := env.clock .registerReranker
    role := if payload.role ≠ "" then payload.role else info.role }

/-- The record of a reranker that registers for the first time. -/
def RegisterRerankerPayload.reranker (payload : RegisterRerankerPayload) (cfg : Config)
    (env : Env) (rerankerId : UInt64) : RerankerInfo where
  id := rerankerId
  grpcAddress := payload.grpcAddress
  lastHeartbeat := env.clock .registerReranker
  role := if payload.role = "" then "rerank" else payload.role
  cpuCores := payload.cpuCores
  totalMemory := payload.memoryBytes
  totalDisk := payload.diskBytes
  totalCapacity := capacityScore cfg payload.cpuCores payload.memoryBytes payload.diskBytes
  rack := payload.rack
  zone := payload.zone
  region := payload.region

/-- The loop condition that recognises a reranker by its address. -/
def RegisterRerankerPayload.matches (payload : RegisterRerankerPayload) (info : RerankerInfo) :
    Bool :=
  info.grpcAddress == payload.grpcAddress

def applyRegisterReranker (cfg : Config) (env : Env) (payload : RegisterRerankerPayload) :
    Apply UInt64 := do
  let fsm ← get
  let existing := ((env.order .registerReranker).range fsm.rerankers).find? fun (_, info) =>
    payload.matches info
  match existing with
  | some (id, info) =>
      modify fun fsm =>
        { fsm with rerankers := fsm.rerankers.insert id (info.reregister env payload) }
      return id
  | none =>
      let rerankerId := fsm.nextRerankerId
      modify fun fsm => { fsm with nextRerankerId := fsm.nextRerankerId + 1 }
      modify fun fsm =>
        { fsm with
          rerankers := fsm.rerankers.insert rerankerId (payload.reranker cfg env rerankerId) }
      return rerankerId

/-- Exponential smoothing with `loadMetricDecayFactor = 0.7`. -/
def decay (previous reported : Float) : Float :=
  previous * 0.7 + reported * 0.3

/-- A worker after its heartbeat. -/
def WorkerInfo.heartbeat (env : Env) (payload : UpdateWorkerHeartbeatPayload)
    (worker : WorkerInfo) : WorkerInfo :=
  { worker with
    lastHeartbeat := env.clock .updateWorkerHeartbeat
    state := if worker.state = .joining ∨ worker.state = .unknown then .ready else worker.state
    cpuUsagePercent := decay worker.cpuUsagePercent payload.cpuUsagePercent
    memoryUsagePercent := decay worker.memoryUsagePercent payload.memoryUsagePercent
    diskUsagePercent := decay worker.diskUsagePercent payload.diskUsagePercent
    queriesPerSecond := decay worker.queriesPerSecond payload.queriesPerSecond
    activeShards := payload.activeShards
    vectorCount := payload.vectorCount
    memoryBytes := payload.memoryBytes
    runningShards := payload.runningShards }

def applyUpdateWorkerHeartbeat (env : Env) (payload : UpdateWorkerHeartbeatPayload) :
    Apply Unit := do
  match (← get).workers.lookup payload.workerId with
  | none => return
  | some worker =>
      modify fun fsm =>
        { fsm with workers := fsm.workers.insert payload.workerId (worker.heartbeat env payload) }

/-- A reranker after its heartbeat. -/
def RerankerInfo.heartbeat (env : Env) (payload : UpdateRerankerHeartbeatPayload)
    (reranker : RerankerInfo) : RerankerInfo :=
  { reranker with
    lastHeartbeat := env.clock .updateRerankerHeartbeat
    cpuUsagePercent := decay reranker.cpuUsagePercent payload.cpuUsagePercent
    memoryUsagePercent := decay reranker.memoryUsagePercent payload.memoryUsagePercent
    diskUsagePercent := decay reranker.diskUsagePercent payload.diskUsagePercent
    queriesPerSecond := decay reranker.queriesPerSecond payload.queriesPerSecond }

def applyUpdateRerankerHeartbeat (env : Env) (payload : UpdateRerankerHeartbeatPayload) :
    Apply Unit := do
  match (← get).rerankers.lookup payload.rerankerId with
  | none => return
  | some reranker =>
      modify fun fsm =>
        { fsm with
          rerankers := fsm.rerankers.insert payload.rerankerId (reranker.heartbeat env payload) }

def applyUpdateWorkerState (payload : UpdateWorkerStatePayload) : Apply Unit := do
  match (← get).workers.lookup payload.workerId with
  | none => throw (.workerNotFound payload.workerId)
  | some worker =>
      modify fun fsm =>
        { fsm with
          workers := fsm.workers.insert payload.workerId { worker with state := payload.state } }

/-- The shard the nested loops of `applyRemoveWorker` report, if any. -/
def shardStillOn (env : Env) (fsm : Fsm) (workerId : UInt64) : Option UInt64 :=
  ((env.order .removeWorkerCollections).range fsm.collections).findSome? fun (name, coll) =>
    ((env.order (.removeWorkerShards name)).range coll.shards).findSome? fun (_, shard) =>
      if workerId ∈ shard.replicas then some shard.shardId else none

def applyRemoveWorker (env : Env) (payload : RemoveWorkerPayload) : Apply Unit := do
  let fsm ← get
  if (fsm.workers.lookup payload.workerId).isNone then
    throw (.workerNotFound payload.workerId)
  match shardStillOn env fsm payload.workerId with
  | some shardId => throw (.workerStillHasShard payload.workerId shardId)
  | none => modify fun fsm => { fsm with workers := fsm.workers.erase payload.workerId }

/-! ## Collections -/

/-- `shardRangeSize`: the constant `math.MaxUint64` is rounded to a `float64`
before the division. -/
def shardRangeSize (cfg : Config) (numShards : Int64) : UInt64 :=
  cfg.uint64OfFloat (18446744073709551615.0 / Float.ofInt numShards.toInt)

/-- What the shard loop of `applyCreateCollection` works with. -/
structure ShardSpec where
  payload : CreateCollectionPayload
  numShards : Nat
  rangeSize : UInt64
  workerIds : List UInt64
  actualReplication : Nat

/-- The shard built in iteration `i` of the loop. -/
def ShardSpec.shard (spec : ShardSpec) (workers : GoMap UInt64 WorkerInfo) (shardId : UInt64)
    (i : Nat) : ShardInfo :=
  let startKey := UInt64.ofNat i * spec.rangeSize
  let endKey := UInt64.ofNat (i + 1) * spec.rangeSize - 1
  -- the last shard takes whatever the rounding of the width has left
  let endKey := if i + 1 = spec.numShards then 18446744073709551615 else endKey
  let replicas := selectReplicasWithFailureDomain workers spec.actualReplication spec.workerIds
  { shardId := shardId
    collection := spec.payload.name
    keyRangeStart := startKey
    keyRangeEnd := endKey
    replicas := replicas
    epoch := 1
    bootstrapMembers := replicas
    dimension := spec.payload.dimension
    distance := spec.payload.distance }

/-- The shard loop, over the remaining loop indices. -/
def createShards (spec : ShardSpec) : List Nat → Collection → Apply Collection
  | [], collection => return collection
  | i :: rest, collection => do
      let shardId := (← get).nextShardId
      modify fun fsm => { fsm with nextShardId := fsm.nextShardId + 1 }
      let shard := spec.shard (← get).workers shardId i
      createShards spec rest
        { collection with shards := collection.shards.insert shardId shard }

/-- The number of eligible workers counted at the start of
`applyCreateCollection`. -/
def countEligible (env : Env) (fsm : Fsm) : Nat :=
  ((env.order .countEligible).range fsm.workers).countP fun (id, worker) =>
    isWorkerEligibleForPlacement (env.clock (.countEligible id)) worker

def numShards (payload : CreateCollectionPayload) : Int64 :=
  if payload.initialShards ≤ 0 then 1 else payload.initialShards

/-- `actualReplication`: fewer replicas than configured when there are too few
eligible workers. -/
def actualReplication (cfg : Config) (env : Env) (fsm : Fsm) : Nat :=
  if countEligible env fsm < replicationFactor cfg then countEligible env fsm
  else replicationFactor cfg

def createSpec (cfg : Config) (env : Env) (fsm : Fsm) (payload : CreateCollectionPayload) :
    ShardSpec where
  payload := payload
  numShards := (numShards payload).toNatClampNeg
  rangeSize := shardRangeSize cfg (numShards payload)
  workerIds := getWorkersSortedByLoad env fsm
  actualReplication := actualReplication cfg env fsm

/-- The collection before its shards are created. -/
def CreateCollectionPayload.emptyCollection (payload : CreateCollectionPayload) :
    Collection where
  name := payload.name
  dimension := payload.dimension
  distance := payload.distance
  shards := ∅

def applyCreateCollection (cfg : Config) (env : Env) (payload : CreateCollectionPayload) :
    Apply Unit := do
  let fsm ← get
  -- counted before the name is checked, so the clock is read even for a known name
  let eligibleWorkers := countEligible env fsm
  if (fsm.collections.lookup payload.name).isSome then
    throw (.collectionExists payload.name)
  if eligibleWorkers = 0 then
    throw .noEligibleWorkers
  let spec := createSpec cfg env fsm payload
  let collection ← createShards spec (List.range spec.numShards) payload.emptyCollection
  modify fun fsm =>
    { fsm with collections := fsm.collections.insert collection.name collection }
  bumpAssignmentsEpochLocked

def applyDeleteCollection (payload : DeleteCollectionPayload) : Apply Unit := do
  let fsm ← get
  if payload.name = "" then
    throw .collectionNameRequired
  if (fsm.collections.lookup payload.name).isNone then
    throw (.collectionNotFound payload.name)
  modify fun fsm => { fsm with collections := fsm.collections.erase payload.name }
  bumpAssignmentsEpochLocked

/-! ## Shards -/

/-- A shard whose leader was reported. The first real leader ends the bootstrap. -/
def ShardInfo.reportLeader (shard : ShardInfo) (leaderId : UInt64) : ShardInfo :=
  if leaderId > 0 then
    { shard with leaderId := leaderId, bootstrapped := true, bootstrapMembers := [] }
  else { shard with leaderId := leaderId }

def applyUpdateShardLeader (env : Env) (payload : UpdateShardLeaderPayload) : Apply Unit := do
  match findShard env (← get) payload.shardId with
  | none => return
  | some (name, shard) =>
      modify fun fsm =>
        fsm.setShard name payload.shardId (shard.reportLeader payload.leaderId)

/-- A shard whose metrics were reported. -/
def ShardInfo.reportMetrics (shard : ShardInfo) (cfg : Config) (env : Env)
    (payload : ShardMetricsPayload) : ShardInfo :=
  { shard with
    queriesPerSecond := decay shard.queriesPerSecond payload.queriesPerSecond
    avgLatencyMs := decay shard.avgLatencyMs payload.avgLatencyMs
    totalQueries := shard.totalQueries + cfg.int64OfFloat payload.queriesPerSecond
    lastUpdated := some (env.clock .updateShardMetrics) }

def applyUpdateShardMetrics (cfg : Config) (env : Env) (payload : ShardMetricsPayload) :
    Apply Unit := do
  match findShard env (← get) payload.shardId with
  | none => return
  | some (name, shard) =>
      modify fun fsm =>
        fsm.setShard name payload.shardId (shard.reportMetrics cfg env payload)

/-- A shard with a new replica list and the next epoch. -/
def ShardInfo.withReplicas (shard : ShardInfo) (replicas : List UInt64) : ShardInfo :=
  { shard with replicas := replicas, epoch := shard.epoch + 1 }

def applyAddShardReplica (env : Env) (payload : AddShardReplicaPayload) : Apply Unit := do
  let fsm ← get
  match findShard env fsm payload.shardId with
  | none => throw (.shardNotFound payload.shardId)
  | some (name, shard) =>
      match fsm.workers.lookup payload.replicaId with
      | none => throw (.workerNotFound payload.replicaId)
      | some worker =>
          if worker.state ≠ .ready then
            throw (.workerNotReady payload.replicaId)
          if env.clock .addShardReplica - worker.lastHeartbeat ≥ workerTimeout then
            throw (.workerUnhealthy payload.replicaId)
          -- adding a replica twice is no error, and does not raise the epochs
          if payload.replicaId ∈ shard.replicas then
            return
          if shard.replicas.length ≥ maxReplicationFactor then
            throw (.maxReplicas payload.shardId maxReplicationFactor)
          modify fun fsm => fsm.setShard name payload.shardId
            (shard.withReplicas (shard.replicas ++ [payload.replicaId]))
          bumpAssignmentsEpochLocked

/-- `minAllowed` of `applyRemoveShardReplica`. -/
def minAllowed (cfg : Config) (shard : ShardInfo) : Nat :=
  if shard.replicas.length < replicationFactor cfg then shard.replicas.length
  else replicationFactor cfg

def applyRemoveShardReplica (cfg : Config) (env : Env) (payload : RemoveShardReplicaPayload) :
    Apply Unit := do
  match findShard env (← get) payload.shardId with
  | none => throw (.shardNotFound payload.shardId)
  | some (name, shard) =>
      if payload.replicaId ∉ shard.replicas then
        throw (.replicaNotFound payload.replicaId payload.shardId)
      if shard.replicas.length - 1 < minAllowed cfg shard then
        throw (.minReplicas payload.replicaId payload.shardId (minAllowed cfg shard))
      modify fun fsm => fsm.setShard name payload.shardId
        (shard.withReplicas (shard.replicas.erase payload.replicaId))
      bumpAssignmentsEpochLocked

def applyMoveShard (env : Env) (payload : MoveShardPayload) : Apply Unit := do
  let fsm ← get
  match findShard env fsm payload.shardId with
  | none => throw (.shardNotFound payload.shardId)
  | some (name, shard) =>
      if payload.sourceWorkerId ∉ shard.replicas then
        throw (.sourceWithoutShard payload.sourceWorkerId payload.shardId)
      if (fsm.workers.lookup payload.targetWorkerId).isNone then
        throw (.targetWorkerNotFound payload.targetWorkerId)
      modify fun fsm => fsm.setShard name payload.shardId
        (shard.withReplicas
          (shard.replicas.replace payload.sourceWorkerId payload.targetWorkerId))
      bumpAssignmentsEpochLocked

/-! ## Dispatch -/

/-- What applying one command leaves: the state, `appErr` and the result value
handed back to the proposer. -/
structure Outcome where
  fsm : Fsm
  appErr : Option ApplyError := none
  result : UInt64 := 0

/-- The outcome of a finished apply function. The result stays 0 unless it
succeeded. -/
def Outcome.ofExec {α : Type} (result : α → UInt64) : Except ApplyError α × Fsm → Outcome
  | (.error err, fsm) => { fsm := fsm, appErr := some err }
  | (.ok value, fsm) => { fsm := fsm, result := result value }

/-- Decode the payload and call the apply function. -/
def dispatch {Payload α : Type} (command : String) (payload : Decoded Payload)
    (apply : Payload → Apply α) (result : α → UInt64) (fsm : Fsm) : Outcome :=
  match payload with
  | .error err => { fsm := fsm, appErr := some (.payload command err) }
  | .ok payload => Outcome.ofExec result ((apply payload).exec fsm)

/-- One iteration of the loop of `FSM.Update`, after the command is decoded. -/
def applyCommand (cfg : Config) (env : Env) : Command → Fsm → Outcome
  | .registerPeer payload =>
      dispatch "RegisterPeer" payload applyRegisterPeer fun _ => 0
  | .registerWorker payload =>
      dispatch "RegisterWorker" payload (applyRegisterWorker cfg env) id
  | .registerReranker payload =>
      dispatch "RegisterReranker" payload (applyRegisterReranker cfg env) id
  | .createCollection payload =>
      dispatch "CreateCollection" payload (applyCreateCollection cfg env) fun _ => 1
  | .deleteCollection payload =>
      dispatch "DeleteCollection" payload applyDeleteCollection fun _ => 1
  | .updateWorkerHeartbeat payload =>
      dispatch "UpdateWorkerHeartbeat" payload (applyUpdateWorkerHeartbeat env) fun _ => 0
  | .updateRerankerHeartbeat payload =>
      dispatch "UpdateRerankerHeartbeat" payload (applyUpdateRerankerHeartbeat env) fun _ => 0
  | .updateWorkerState payload =>
      dispatch "UpdateWorkerState" payload applyUpdateWorkerState fun _ => 0
  | .removeWorker payload =>
      dispatch "RemoveWorker" payload (applyRemoveWorker env) fun _ => 0
  | .updateShardLeader payload =>
      dispatch "UpdateShardLeader" payload (applyUpdateShardLeader env) fun _ => 0
  | .moveShard payload =>
      dispatch "MoveShard" payload (applyMoveShard env) fun _ => 1
  | .updateShardMetrics payload =>
      dispatch "ShardMetrics" payload (applyUpdateShardMetrics cfg env) fun _ => 0
  | .addShardReplica payload =>
      dispatch "AddShardReplica" payload (applyAddShardReplica env) fun _ => 0
  | .removeShardReplica payload =>
      dispatch "RemoveShardReplica" payload (applyRemoveShardReplica cfg env) fun _ => 0
  | .unknown type => fun fsm =>
      { fsm := fsm, appErr := some (.unknownCommandType type) }

end Vectron.Placement
