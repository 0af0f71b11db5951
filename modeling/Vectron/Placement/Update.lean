import Vectron.Foundation.Run
import Vectron.Placement.Fsm

/-! # Applying the log

`FSM.Update` applies the entries of a batch in order, up to the first one that is not
a command. A snapshot is written from the state and read back into a state machine of
a later process. A node's history is a run of the steps defined here.
-/

namespace Vectron.Placement

open Foundation

/-- A committed command, with the configuration and the readings of the node that
applies it. -/
structure Applied where
  cfg : Config
  env : Env
  cmd : Command

def step (fsm : Fsm) (input : Applied) : Fsm :=
  (applyCommand input.cfg input.env input.cmd fsm).fsm

/-! ## Snapshots -/

/-- `fsmSnapshot`. -/
structure FsmSnapshot where
  peers : GoMap String PeerInfo
  workers : GoMap UInt64 WorkerInfo
  rerankers : GoMap UInt64 RerankerInfo
  collections : GoMap String Collection
  assignmentsEpoch : UInt64
  nextShardId : UInt64
  nextWorkerId : UInt64
  nextRerankerId : UInt64

/-- `encoding/json` refuses infinities and NaN. -/
def WorkerInfo.encodable (worker : WorkerInfo) : Bool :=
  worker.cpuUsagePercent.isFinite && worker.memoryUsagePercent.isFinite &&
    worker.diskUsagePercent.isFinite && worker.queriesPerSecond.isFinite

def RerankerInfo.encodable (reranker : RerankerInfo) : Bool :=
  reranker.cpuUsagePercent.isFinite && reranker.memoryUsagePercent.isFinite &&
    reranker.diskUsagePercent.isFinite && reranker.queriesPerSecond.isFinite

def ShardInfo.encodable (shard : ShardInfo) : Bool :=
  shard.queriesPerSecond.isFinite && shard.avgLatencyMs.isFinite

/-- `SaveSnapshot`: what a reader of the written JSON decodes, or `none` when the
encoder fails. -/
def saveSnapshot (fsm : Fsm) : Option FsmSnapshot :=
  if fsm.workers.entries.all (fun entry => entry.2.encodable) &&
      fsm.rerankers.entries.all (fun entry => entry.2.encodable) &&
      fsm.collections.entries.all (fun entry =>
        entry.2.shards.entries.all fun entry => entry.2.encodable) then
    some
      { peers := fsm.peers
        workers := fsm.workers
        rerankers := fsm.rerankers
        collections := fsm.collections
        assignmentsEpoch := fsm.assignmentsEpoch
        nextShardId := fsm.nextShardId
        nextWorkerId := fsm.nextWorkerId
        nextRerankerId := fsm.nextRerankerId }
  else none

/-- `RecoverFromSnapshot`, which overwrites the whole state. -/
def recoverFromSnapshot (data : FsmSnapshot) : Fsm where
  peers := data.peers
  workers := data.workers
  rerankers := data.rerankers
  collections := data.collections
  assignmentsEpoch := if data.assignmentsEpoch = 0 then 1 else data.assignmentsEpoch
  nextShardId := data.nextShardId
  nextWorkerId := if data.nextWorkerId = 0 then 1 else data.nextWorkerId
  nextRerankerId := if data.nextRerankerId = 0 then 1 else data.nextRerankerId

/-- An event in the life of the replicated state. A snapshot replaces the part of
the log it was taken from: it is recovered in place of the state it was saved
from. -/
inductive Event where
  | apply (input : Applied)
  | snapshot

def eventStep (fsm : Fsm) : Event → Fsm
  | .apply input => step fsm input
  | .snapshot =>
      match saveSnapshot fsm with
      | none => fsm
      | some data => recoverFromSnapshot data

/-! ## Concrete nodes -/

/-- A process whose conversions from `float64` are those of the IEEE model. -/
def modelConfig : Config where
  replicationFactorVar := ""
  uint64OfFloat := Float.toUInt64
  int64OfFloat x := x.toModel.toInt64

/-- A node whose clock stands at `now` while it applies a command, and whose maps
are visited as stored. -/
def envAt (now : Time) : Env where
  clock _ := now
  order _ := .stored

/-- The command applied on such a node. -/
def appliedAt (now : Time) (cmd : Command) : Applied :=
  ⟨modelConfig, envAt now, cmd⟩

/-- `count` workers that register one after the other and then send a heartbeat. -/
def startWorkers (count : Nat) : List Applied :=
  (List.range count).map (fun i =>
    appliedAt 0 (.registerWorker (.ok
      { grpcAddress := s!"grpc-{i + 1}", raftAddress := s!"raft-{i + 1}" }))) ++
  (List.range count).map (fun i =>
    appliedAt 0 (.updateWorkerHeartbeat (.ok { workerId := UInt64.ofNat (i + 1) })))

end Vectron.Placement
