import Mathlib
import Vectron.Foundation.GoMap

/-! # Data model of the placement driver

The records of `placementdriver/internal/fsm/fsm.go`: the replicated state, the
commands of the Raft log with their payloads, and the errors an application can
end in. Go's fixed-width integers keep their widths and `float64` is `Float`;
a `time.Time` is the number of nanoseconds of its wall clock reading.
-/

namespace Vectron.Placement

open Foundation

/-- A wall clock reading in nanoseconds. -/
abbrev Time := Int

/-- The lifecycle states, with every other value a payload may carry. -/
inductive WorkerState where
  | unknown
  | joining
  | ready
  | draining
  | other (value : Int)
deriving DecidableEq, Repr

/-! ## Replicated state -/

structure PeerInfo where
  id : String
  raftAddr : String
  apiAddr : String
deriving DecidableEq

structure WorkerInfo where
  id : UInt64
  grpcAddress : String
  raftAddress : String
  lastHeartbeat : Time
  state : WorkerState
  runningShards : List UInt64 := []
  role : String
  cpuUsagePercent : Float := 0
  memoryUsagePercent : Float := 0
  diskUsagePercent : Float := 0
  queriesPerSecond : Float := 0
  activeShards : Int64 := 0
  vectorCount : Int64 := 0
  memoryBytes : Int64 := 0
  cpuCores : Int32
  totalMemory : Int64
  totalDisk : Int64
  totalCapacity : Int64
  rack : String
  zone : String
  region : String
deriving DecidableEq

structure RerankerInfo where
  id : UInt64
  grpcAddress : String
  lastHeartbeat : Time
  role : String
  cpuUsagePercent : Float := 0
  memoryUsagePercent : Float := 0
  diskUsagePercent : Float := 0
  queriesPerSecond : Float := 0
  cpuCores : Int32
  totalMemory : Int64
  totalDisk : Int64
  totalCapacity : Int64
  rack : String
  zone : String
  region : String
deriving DecidableEq

/-- `lastUpdated` is `none` for Go's zero time. -/
structure ShardInfo where
  shardId : UInt64
  collection : String
  keyRangeStart : UInt64
  keyRangeEnd : UInt64
  replicas : List UInt64
  leaderId : UInt64 := 0
  epoch : UInt64
  dimension : Int32
  distance : String
  bootstrapped : Bool := false
  bootstrapMembers : List UInt64
  queriesPerSecond : Float := 0
  totalQueries : Int64 := 0
  avgLatencyMs : Float := 0
  lastUpdated : Option Time := none
deriving DecidableEq

structure Collection where
  name : String
  dimension : Int32
  distance : String
  shards : GoMap UInt64 ShardInfo

/-- The replicated state of one placement driver node. -/
structure Fsm where
  peers : GoMap String PeerInfo
  workers : GoMap UInt64 WorkerInfo
  rerankers : GoMap UInt64 RerankerInfo
  collections : GoMap String Collection
  assignmentsEpoch : UInt64
  nextShardId : UInt64
  nextWorkerId : UInt64
  nextRerankerId : UInt64

/-- `NewFSM`: a new, empty state. -/
def newFsm : Fsm where
  peers := ∅
  workers := ∅
  rerankers := ∅
  collections := ∅
  assignmentsEpoch := 1
  nextShardId := 1
  nextWorkerId := 1
  nextRerankerId := 1

/-! ## Commands -/

structure RegisterPeerPayload where
  id : String
  raftAddr : String
  apiAddr : String
deriving DecidableEq

structure RegisterWorkerPayload where
  grpcAddress : String
  raftAddress : String
  role : String := ""
  cpuCores : Int32 := 0
  memoryBytes : Int64 := 0
  diskBytes : Int64 := 0
  rack : String := ""
  zone : String := ""
  region : String := ""
deriving DecidableEq

structure RegisterRerankerPayload where
  grpcAddress : String
  role : String := ""
  cpuCores : Int32 := 0
  memoryBytes : Int64 := 0
  diskBytes : Int64 := 0
  rack : String := ""
  zone : String := ""
  region : String := ""
deriving DecidableEq

structure UpdateWorkerStatePayload where
  workerId : UInt64
  state : WorkerState
deriving DecidableEq

structure RemoveWorkerPayload where
  workerId : UInt64
deriving DecidableEq

structure CreateCollectionPayload where
  name : String
  dimension : Int32 := 0
  distance : String := ""
  initialShards : Int64 := 0
deriving DecidableEq

structure DeleteCollectionPayload where
  name : String
deriving DecidableEq

structure UpdateWorkerHeartbeatPayload where
  workerId : UInt64
  cpuUsagePercent : Float := 0
  memoryUsagePercent : Float := 0
  diskUsagePercent : Float := 0
  queriesPerSecond : Float := 0
  activeShards : Int64 := 0
  vectorCount : Int64 := 0
  memoryBytes : Int64 := 0
  runningShards : List UInt64 := []
deriving DecidableEq

structure UpdateRerankerHeartbeatPayload where
  rerankerId : UInt64
  cpuUsagePercent : Float := 0
  memoryUsagePercent : Float := 0
  diskUsagePercent : Float := 0
  queriesPerSecond : Float := 0
deriving DecidableEq

structure UpdateShardLeaderPayload where
  shardId : UInt64
  leaderId : UInt64
deriving DecidableEq

structure MoveShardPayload where
  shardId : UInt64
  sourceWorkerId : UInt64
  targetWorkerId : UInt64
deriving DecidableEq

structure AddShardReplicaPayload where
  shardId : UInt64
  replicaId : UInt64
deriving DecidableEq

structure RemoveShardReplicaPayload where
  shardId : UInt64
  replicaId : UInt64
deriving DecidableEq

structure ShardMetricsPayload where
  workerId : UInt64
  shardId : UInt64
  queriesPerSecond : Float := 0
  vectorCount : Int64 := 0
  avgLatencyMs : Float := 0
deriving DecidableEq

/-- What `json.Unmarshal` makes of the payload bytes: a payload, or the text of
its error. -/
abbrev Decoded (Payload : Type) := Except String Payload

/-- A command of the log, one constructor for each `CommandType` in the order of
the source. Any other type number is `unknown`. -/
inductive Command where
  | registerPeer (payload : Decoded RegisterPeerPayload)
  | registerWorker (payload : Decoded RegisterWorkerPayload)
  | registerReranker (payload : Decoded RegisterRerankerPayload)
  | createCollection (payload : Decoded CreateCollectionPayload)
  | deleteCollection (payload : Decoded DeleteCollectionPayload)
  | updateWorkerHeartbeat (payload : Decoded UpdateWorkerHeartbeatPayload)
  | updateRerankerHeartbeat (payload : Decoded UpdateRerankerHeartbeatPayload)
  | updateWorkerState (payload : Decoded UpdateWorkerStatePayload)
  | removeWorker (payload : Decoded RemoveWorkerPayload)
  | updateShardLeader (payload : Decoded UpdateShardLeaderPayload)
  | moveShard (payload : Decoded MoveShardPayload)
  | updateShardMetrics (payload : Decoded ShardMetricsPayload)
  | addShardReplica (payload : Decoded AddShardReplicaPayload)
  | removeShardReplica (payload : Decoded RemoveShardReplicaPayload)
  | unknown (type : Int)

/-! ## Errors -/

/-- The errors of `FSM.Update` and of the apply functions it calls. -/
inductive ApplyError where
  | payload (command err : String)
  | unknownCommandType (type : Int)
  | collectionExists (name : String)
  | noEligibleWorkers
  | collectionNameRequired
  | collectionNotFound (name : String)
  | workerNotFound (worker : UInt64)
  | workerStillHasShard (worker shard : UInt64)
  | shardNotFound (shard : UInt64)
  | workerNotReady (worker : UInt64)
  | workerUnhealthy (worker : UInt64)
  | maxReplicas (shard : UInt64) (max : Nat)
  | replicaNotFound (replica shard : UInt64)
  | minReplicas (replica shard : UInt64) (minAllowed : Nat)
  | sourceWithoutShard (worker shard : UInt64)
  | targetWorkerNotFound (worker : UInt64)
deriving DecidableEq, Repr

/-! ## What an application reads from outside the state -/

/-- The readings of the local clock, one for each call of `time.Now` or
`time.Since` that applying a command can make. -/
inductive ClockSite where
  | registerWorker
  | registerReranker
  /-- The eligibility check of a worker while the eligible workers are counted. -/
  | countEligible (worker : UInt64)
  /-- The eligibility check of a worker while the workers are sorted by load. -/
  | sortEligible (worker : UInt64)
  | updateWorkerHeartbeat
  | updateRerankerHeartbeat
  | updateShardMetrics
  | addShardReplica
deriving DecidableEq

/-- The `for range` loops over maps that applying a command can run. -/
inductive RangeSite where
  | registerWorker
  | registerReranker
  | countEligible
  | sortEligible
  | removeWorkerCollections
  | removeWorkerShards (collection : String)
  | findShard
deriving DecidableEq

/-- What one application of a command takes from its node: the clock readings and
the map iteration orders. -/
structure Env where
  clock : ClockSite → Time
  order : RangeSite → RangeOrder

/-- What the process fixes: the value of `VECTRON_REPLICATION_FACTOR` and the
conversions from `float64`, which Go leaves to the implementation when the value
is out of range. -/
structure Config where
  replicationFactorVar : String
  uint64OfFloat : Float → UInt64
  int64OfFloat : Float → Int64

end Vectron.Placement
