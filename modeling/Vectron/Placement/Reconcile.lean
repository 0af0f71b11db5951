import Vectron.Placement.Server

/-! # Repairing under-replicated shards

The repair step of `placementdriver/internal/server/reconciliation.go`. A pass looks
at the under-replicated shards and proposes new replicas for them, taken from the
healthy workers. Whether Raft accepts a proposal is a parameter.
-/

namespace Vectron.Placement

open Foundation

/-- The number of healthy replicas of a shard, as `GetHealthReport` counts them. -/
def healthyReplicas (env : ServerEnv) (fsm : Fsm) (shard : ShardInfo) : Nat :=
  shard.replicas.countP fun replicaId =>
    isWorkerHealthy fsm (env.clock (.replicaHealthy shard.shardId replicaId)) replicaId

/-- `UnderReplicatedShards` of the health report. -/
def underReplicatedShards (cfg : Config) (env : ServerEnv) (fsm : Fsm) : List ShardInfo :=
  (getCollections env fsm).flatMap fun coll =>
    (((env.order (.shards coll.name)).range coll.shards).filter fun (_, shard) =>
      decide (healthyReplicas env fsm shard < replicationFactor cfg)).map Prod.snd

/-- The workers that are to get a replica of the shard. Go's signed differences are
at least 0 here wherever they are not tested to be positive first. -/
def newReplicas (cfg : Config) (healthyWorkers : List WorkerInfo) (shard : ShardInfo) :
    List UInt64 :=
  let healthyWorkerIds := healthyWorkers.map WorkerInfo.id
  let existingHealthyReplicas := shard.replicas.filter fun replicaId =>
    decide (replicaId ∈ healthyWorkerIds)
  let needed := replicationFactor cfg - existingHealthyReplicas.length
  let availableSlots := maxReplicationFactor - shard.replicas.length
  let candidates := healthyWorkerIds.filter fun workerId => decide (workerId ∉ shard.replicas)
  candidates.take (min needed availableSlots)

/-- `addShardReplicas`: the proposals that Raft accepts, up to the first one that it
does not accept, and whether all were accepted. -/
def addShardReplicas (accepted : Command → Bool) (shardId : UInt64) :
    List UInt64 → List Command × Bool
  | [] => ([], true)
  | replicaId :: rest =>
      let cmd := .addShardReplica (.ok { shardId := shardId, replicaId := replicaId })
      if accepted cmd then
        let (cmds, ok) := addShardReplicas accepted shardId rest
        (cmd :: cmds, ok)
      else ([], false)

/-- The loop over the under-replicated shards, after `repairedCount` repairs. -/
def repairShards (accepted : Command → Bool) (maxConcurrentRepairs : Nat) (cfg : Config)
    (healthyWorkers : List WorkerInfo) : Nat → List ShardInfo → List Command
  | _, [] => []
  | repairedCount, shard :: rest =>
      let replicas := newReplicas cfg healthyWorkers shard
      if replicas = [] then
        repairShards accepted maxConcurrentRepairs cfg healthyWorkers repairedCount rest
      else
        let (cmds, ok) := addShardReplicas accepted shard.shardId replicas
        let repairedCount := if ok then repairedCount + 1 else repairedCount
        if repairedCount ≥ maxConcurrentRepairs then cmds
        else
          cmds ++ repairShards accepted maxConcurrentRepairs cfg healthyWorkers repairedCount rest

/-- `repairUnderReplicatedShards`: the commands that a pass brings into the log. -/
def repairUnderReplicatedShards (accepted : Command → Bool) (maxConcurrentRepairs : Nat)
    (cfg : Config) (env : ServerEnv) (fsm : Fsm) : List Command :=
  repairShards accepted maxConcurrentRepairs cfg (getHealthyWorkers env fsm) 0
    (underReplicatedShards cfg env fsm)

/-! ## What a pass proposes -/

theorem mem_addShardReplicas {accepted : Command → Bool} {shardId : UInt64}
    {replicas : List UInt64} {cmd : Command}
    (hcmd : cmd ∈ (addShardReplicas accepted shardId replicas).1) :
    ∃ replicaId ∈ replicas,
      cmd = .addShardReplica (.ok { shardId := shardId, replicaId := replicaId }) := by
  induction replicas with
  | nil => simp [addShardReplicas] at hcmd
  | cons replicaId rest ih =>
      simp only [addShardReplicas] at hcmd
      split at hcmd
      next =>
        rcases List.mem_cons.mp hcmd with rfl | hrest
        · exact ⟨replicaId, List.mem_cons_self, rfl⟩
        · obtain ⟨other, hother, rfl⟩ := ih hrest
          exact ⟨other, List.mem_cons_of_mem _ hother, rfl⟩
      next => simp at hcmd

theorem mem_newReplicas {cfg : Config} {healthyWorkers : List WorkerInfo} {shard : ShardInfo}
    {replicaId : UInt64} (hreplica : replicaId ∈ newReplicas cfg healthyWorkers shard) :
    ∃ worker ∈ healthyWorkers, worker.id = replicaId ∧ replicaId ∉ shard.replicas := by
  have hcandidate := List.mem_of_mem_take hreplica
  rw [List.mem_filter, List.mem_map, decide_eq_true_iff] at hcandidate
  obtain ⟨⟨worker, hworker, hid⟩, habsent⟩ := hcandidate
  exact ⟨worker, hworker, hid, habsent⟩

/-- A command that adds one of the healthy workers to one of the shards that it is
not a replica of. -/
def AddsHealthyWorker (healthyWorkers : List WorkerInfo) (shards : List ShardInfo)
    (cmd : Command) : Prop :=
  ∃ shard ∈ shards, ∃ worker ∈ healthyWorkers, worker.id ∉ shard.replicas ∧
    cmd = .addShardReplica (.ok { shardId := shard.shardId, replicaId := worker.id })

theorem repairShards_adds {accepted : Command → Bool} {maxConcurrentRepairs : Nat}
    {cfg : Config} {healthyWorkers : List WorkerInfo} {repairedCount : Nat}
    {shards : List ShardInfo} {cmd : Command}
    (hcmd : cmd ∈ repairShards accepted maxConcurrentRepairs cfg healthyWorkers repairedCount
      shards) :
    AddsHealthyWorker healthyWorkers shards cmd := by
  induction shards generalizing repairedCount with
  | nil => simp [repairShards] at hcmd
  | cons shard rest ih =>
      have hhead : cmd ∈ (addShardReplicas accepted shard.shardId
          (newReplicas cfg healthyWorkers shard)).1 →
          AddsHealthyWorker healthyWorkers (shard :: rest) cmd := by
        intro hmem
        obtain ⟨replicaId, hreplica, hadd⟩ := mem_addShardReplicas hmem
        obtain ⟨worker, hworker, rfl, habsent⟩ := mem_newReplicas hreplica
        exact ⟨shard, List.mem_cons_self, worker, hworker, habsent, hadd⟩
      have hrest : ∀ count, cmd ∈ repairShards accepted maxConcurrentRepairs cfg healthyWorkers
          count rest → AddsHealthyWorker healthyWorkers (shard :: rest) cmd := by
        intro count hmem
        obtain ⟨found, hfound, hfacts⟩ := ih hmem
        exact ⟨found, List.mem_cons_of_mem _ hfound, hfacts⟩
      -- the number of repairs only decides whether the loop goes on
      have hloop : ∀ count, cmd ∈ (if count ≥ maxConcurrentRepairs then
            (addShardReplicas accepted shard.shardId (newReplicas cfg healthyWorkers shard)).1
          else
            (addShardReplicas accepted shard.shardId (newReplicas cfg healthyWorkers shard)).1 ++
              repairShards accepted maxConcurrentRepairs cfg healthyWorkers count rest) →
          AddsHealthyWorker healthyWorkers (shard :: rest) cmd := by
        intro count hmem
        split at hmem
        next => exact hhead hmem
        next =>
          rcases List.mem_append.mp hmem with hmem | hmem
          · exact hhead hmem
          · exact hrest count hmem
      rw [repairShards] at hcmd
      split at hcmd
      next => exact hrest _ hcmd
      next => exact hloop _ hcmd

theorem mem_getHealthyWorkers {env : ServerEnv} {fsm : Fsm} {worker : WorkerInfo} :
    worker ∈ getHealthyWorkers env fsm ↔
      ∃ id, fsm.workers.lookup id = some worker ∧
        worker.healthy (env.clock (.healthyWorkers id)) = true := by
  simp only [getHealthyWorkers, List.mem_map, List.mem_filter, Prod.exists, exists_eq_right,
    RangeOrder.mem_range]

end Vectron.Placement
