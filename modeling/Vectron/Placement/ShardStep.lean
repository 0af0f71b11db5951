import Vectron.Placement.Effect

/-! # What a command does to one shard and to one worker

The effects of a command seen from a single entry of the state. `ShardStep` lists
what can become of the shard under one pair of keys, `WorkerStep` what can become
of the worker under one key. Properties of single shards and workers are proved by
cases on these and need not look at the rest of the state.
-/

namespace Vectron.Placement

open Foundation

/-! ## One shard -/

theorem newFsm_shard? (name : String) (id : UInt64) : newFsm.shard? name id = none := rfl

section

variable (shard : ShardInfo)

@[simp] theorem ShardInfo.reportLeader_replicas (leaderId : UInt64) :
    (shard.reportLeader leaderId).replicas = shard.replicas := by
  unfold reportLeader
  split <;> rfl

@[simp] theorem ShardInfo.reportLeader_leaderId (leaderId : UInt64) :
    (shard.reportLeader leaderId).leaderId = leaderId := by
  unfold reportLeader
  split <;> rfl

@[simp] theorem ShardInfo.reportMetrics_replicas (cfg : Config) (env : Env)
    (payload : ShardMetricsPayload) :
    (shard.reportMetrics cfg env payload).replicas = shard.replicas := rfl

@[simp] theorem ShardInfo.withReplicas_replicas (replicas : List UInt64) :
    (shard.withReplicas replicas).replicas = replicas := rfl

end

/-- The shard under `name` and `id` before and after a command. -/
inductive ShardStep (cfg : Config) (env : Env) (fsm : Fsm) :
    Command → String → UInt64 → Option ShardInfo → Option ShardInfo → Prop where
  | same (cmd : Command) (name : String) (id : UInt64) (shard : Option ShardInfo) :
      ShardStep cfg env fsm cmd name id shard shard
  | created {payload : CreateCollectionPayload} {i : Nat}
      (hnew : fsm.collections.lookup payload.name = none)
      (heligible : countEligible env fsm ≠ 0)
      (hi : i < (createSpec cfg env fsm payload).numShards) :
      ShardStep cfg env fsm (.createCollection (.ok payload)) payload.name
        (fsm.nextShardId + UInt64.ofNat i) none
        (some ((createSpec cfg env fsm payload).shard fsm.workers
          (fsm.nextShardId + UInt64.ofNat i) i))
  | deleted {payload : DeleteCollectionPayload} (id : UInt64) (shard : Option ShardInfo) :
      ShardStep cfg env fsm (.deleteCollection (.ok payload)) payload.name id shard none
  | leader {payload : UpdateShardLeaderPayload} {name : String} {shard : ShardInfo}
      (hfind : findShard env fsm payload.shardId = some (name, shard)) :
      ShardStep cfg env fsm (.updateShardLeader (.ok payload)) name payload.shardId (some shard)
        (some (shard.reportLeader payload.leaderId))
  | metrics {payload : ShardMetricsPayload} {name : String} {shard : ShardInfo}
      (hfind : findShard env fsm payload.shardId = some (name, shard)) :
      ShardStep cfg env fsm (.updateShardMetrics (.ok payload)) name payload.shardId (some shard)
        (some (shard.reportMetrics cfg env payload))
  | added {payload : AddShardReplicaPayload} {name : String} {shard : ShardInfo}
      {worker : WorkerInfo}
      (hfind : findShard env fsm payload.shardId = some (name, shard))
      (hworker : fsm.workers.lookup payload.replicaId = some worker)
      (hready : worker.state = .ready)
      (hfresh : env.clock .addShardReplica - worker.lastHeartbeat < workerTimeout)
      (habsent : payload.replicaId ∉ shard.replicas)
      (hroom : shard.replicas.length < maxReplicationFactor) :
      ShardStep cfg env fsm (.addShardReplica (.ok payload)) name payload.shardId (some shard)
        (some (shard.withReplicas (shard.replicas ++ [payload.replicaId])))
  | removed {payload : RemoveShardReplicaPayload} {name : String} {shard : ShardInfo}
      (hfind : findShard env fsm payload.shardId = some (name, shard))
      (hreplica : payload.replicaId ∈ shard.replicas)
      (hspare : replicationFactor cfg < shard.replicas.length) :
      ShardStep cfg env fsm (.removeShardReplica (.ok payload)) name payload.shardId (some shard)
        (some (shard.withReplicas (shard.replicas.erase payload.replicaId)))
  | moved {payload : MoveShardPayload} {name : String} {shard : ShardInfo} {target : WorkerInfo}
      (hfind : findShard env fsm payload.shardId = some (name, shard))
      (hsource : payload.sourceWorkerId ∈ shard.replicas)
      (htarget : fsm.workers.lookup payload.targetWorkerId = some target) :
      ShardStep cfg env fsm (.moveShard (.ok payload)) name payload.shardId (some shard)
        (some (shard.withReplicas
          (shard.replicas.replace payload.sourceWorkerId payload.targetWorkerId)))

section

variable {cfg : Config} {env : Env} {fsm : Fsm} {cmd : Command}

/-- A write to one shard steps that shard and leaves the others alone. -/
theorem ShardStep.of_setShard {name : String} {id : UInt64} {old new : ShardInfo}
    (hold : fsm.shard? name id = some old)
    (hstep : ShardStep cfg env fsm cmd name id (some old) (some new)) (name' : String)
    (id' : UInt64) :
    ShardStep cfg env fsm cmd name' id' (fsm.shard? name' id')
      ((fsm.setShard name id new).shard? name' id') := by
  rw [Fsm.shard?_setShard hold]
  split
  next hkeys =>
    obtain ⟨rfl, rfl⟩ := hkeys
    rw [hold]
    exact hstep
  next => exact .same _ _ _ _

theorem shard?_insert_collection (name name' : String) (coll : Collection) (nextShardId : UInt64)
    (id : UInt64) :
    Fsm.shard? { fsm with
        collections := fsm.collections.insert name coll, nextShardId := nextShardId } name' id =
      if name' = name then coll.shards.lookup id else fsm.shard? name' id := by
  simp only [Fsm.shard?, GoMap.lookup_insert_if]
  split <;> rfl

theorem shard?_erase_collection (name name' : String) (id : UInt64) :
    Fsm.shard? { fsm with collections := fsm.collections.erase name } name' id =
      if name' = name then none else fsm.shard? name' id := by
  simp only [Fsm.shard?, GoMap.lookup_erase_if]
  split <;> rfl

theorem Effect.shardStep {outcome : Outcome} (heffect : Effect cfg env fsm cmd outcome)
    (name : String) (id : UInt64) :
    ShardStep cfg env fsm cmd name id (fsm.shard? name id) (outcome.fsm.shard? name id) := by
  cases heffect with
  | @createCollection payload hnew heligible =>
      rw [Fsm.bump_shard?, shard?_insert_collection]
      split
      next hname =>
        subst hname
        have hbefore : fsm.shard? payload.name id = none := by
          rw [Fsm.shard?, hnew, Option.bind_none]
        cases hlookup : (createdCollection cfg env fsm payload).shards.lookup id with
        | none =>
            rw [hbefore]
            exact .same _ _ _ _
        | some shard =>
            obtain ⟨i, hi, rfl, rfl⟩ := createdCollection_lookup hlookup
            rw [hbefore]
            exact .created hnew heligible hi
      next => exact .same _ _ _ _
  | @deleteCollection payload coll hcoll =>
      rw [Fsm.bump_shard?, shard?_erase_collection]
      split
      next hname =>
        subst hname
        exact .deleted id _
      next => exact .same _ _ _ _
  | shardLeader hfind => exact .of_setShard (findShard_eq_some hfind) (.leader hfind) name id
  | shardMetrics hfind => exact .of_setShard (findShard_eq_some hfind) (.metrics hfind) name id
  | addReplica hfind hworker hready hfresh habsent hroom =>
      exact .of_setShard (findShard_eq_some hfind)
        (.added hfind hworker hready hfresh habsent hroom) name id
  | removeReplica hfind hreplica hspare =>
      exact .of_setShard (findShard_eq_some hfind) (.removed hfind hreplica hspare) name id
  | moveShard hfind hsource htarget =>
      exact .of_setShard (findShard_eq_some hfind) (.moved hfind hsource htarget) name id
  | _ => exact .same _ _ _ _

theorem step_shardStep (fsm : Fsm) (input : Applied) (name : String) (id : UInt64) :
    ShardStep input.cfg input.env fsm input.cmd name id (fsm.shard? name id)
      ((step fsm input).shard? name id) :=
  (applyCommand_effect input.cfg input.env fsm input.cmd).shardStep name id

end

/-! ## One worker -/

/-- The worker under `id` before and after a command. -/
inductive WorkerStep (cfg : Config) (env : Env) (fsm : Fsm) :
    Command → UInt64 → Option WorkerInfo → Option WorkerInfo → Prop where
  | same (cmd : Command) (id : UInt64) (worker : Option WorkerInfo) :
      WorkerStep cfg env fsm cmd id worker worker
  | reregistered {payload : RegisterWorkerPayload} {worker : WorkerInfo} (id : UInt64)
      (hmatches : payload.matches worker = true) :
      WorkerStep cfg env fsm (.registerWorker (.ok payload)) id (some worker)
        (some (worker.reregister env payload))
  | registered {payload : RegisterWorkerPayload} (worker : Option WorkerInfo)
      (hnew : ∀ id worker, fsm.workers.lookup id = some worker →
        payload.matches worker = false) :
      WorkerStep cfg env fsm (.registerWorker (.ok payload)) fsm.nextWorkerId worker
        (some (payload.worker cfg env fsm.nextWorkerId))
  | heartbeat (payload : UpdateWorkerHeartbeatPayload) (worker : WorkerInfo) :
      WorkerStep cfg env fsm (.updateWorkerHeartbeat (.ok payload)) payload.workerId
        (some worker) (some (worker.heartbeat env payload))
  | state (payload : UpdateWorkerStatePayload) (worker : WorkerInfo) :
      WorkerStep cfg env fsm (.updateWorkerState (.ok payload)) payload.workerId
        (some worker) (some { worker with state := payload.state })
  | removed {payload : RemoveWorkerPayload} (worker : WorkerInfo)
      (hunused : ∀ name id shard, fsm.shard? name id = some shard →
        payload.workerId ∉ shard.replicas) :
      WorkerStep cfg env fsm (.removeWorker (.ok payload)) payload.workerId (some worker) none

section

variable {cfg : Config} {env : Env} {fsm : Fsm} {cmd : Command}

theorem WorkerStep.of_insert {id : UInt64} {new : WorkerInfo}
    (hstep : WorkerStep cfg env fsm cmd id (fsm.workers.lookup id) (some new)) (id' : UInt64) :
    WorkerStep cfg env fsm cmd id' (fsm.workers.lookup id')
      ((fsm.workers.insert id new).lookup id') := by
  rw [GoMap.lookup_insert_if]
  split
  next hid =>
    subst hid
    exact hstep
  next => exact .same _ _ _

theorem Effect.workerStep {outcome : Outcome} (heffect : Effect cfg env fsm cmd outcome)
    (id : UInt64) :
    WorkerStep cfg env fsm cmd id (fsm.workers.lookup id) (outcome.fsm.workers.lookup id) := by
  cases heffect with
  | reregisterWorker hworker hmatches =>
      refine .of_insert ?_ id
      rw [hworker]
      exact .reregistered _ hmatches
  | registerWorker hnew => exact .of_insert (.registered _ hnew) id
  | workerHeartbeat hworker =>
      refine .of_insert ?_ id
      rw [hworker]
      exact .heartbeat _ _
  | workerState hworker =>
      refine .of_insert ?_ id
      rw [hworker]
      exact .state _ _
  | @removeWorker payload worker hworker hunused =>
      rw [GoMap.lookup_erase_if]
      split
      next hid =>
        subst hid
        rw [hworker]
        exact .removed worker hunused
      next => exact .same _ _ _
  | shardLeader hfind
  | shardMetrics hfind =>
      rw [Fsm.setShard_workers]
      exact .same _ _ _
  | addReplica hfind hworker hready hfresh habsent hroom
  | removeReplica hfind hreplica hspare
  | moveShard hfind hsource htarget =>
      rw [Fsm.bump_workers, Fsm.setShard_workers]
      exact .same _ _ _
  | _ => exact .same _ _ _

theorem step_workerStep (fsm : Fsm) (input : Applied) (id : UInt64) :
    WorkerStep input.cfg input.env fsm input.cmd id (fsm.workers.lookup id)
      ((step fsm input).workers.lookup id) :=
  (applyCommand_effect input.cfg input.env fsm input.cmd).workerStep id

/-- Only a removal that finds no shard on the worker ends a registration. -/
theorem WorkerStep.isSome_or_removed {id : UInt64} {before after : Option WorkerInfo}
    (hstep : WorkerStep cfg env fsm cmd id before after) (hbefore : before.isSome = true) :
    after.isSome = true ∨
      (cmd = .removeWorker (.ok ⟨id⟩) ∧
        ∀ name shardId shard, fsm.shard? name shardId = some shard → id ∉ shard.replicas) := by
  cases hstep with
  | same => exact Or.inl hbefore
  | removed worker hunused => exact Or.inr ⟨rfl, hunused⟩
  | _ => exact Or.inl rfl

end

end Vectron.Placement
