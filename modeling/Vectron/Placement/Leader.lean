import Vectron.Foundation.Slices
import Vectron.Placement.Server
import Vectron.Placement.ShardStep

/-! # Shard leaders

`GetWorker` prefers the recorded leader of a shard and does not check that it is a
replica. No apply function relates the leader to the replica list either: a leader
report is stored as it comes, and a removal or a move of the leader leaves it
recorded. The condition below is what the commands have to bring with them.
-/

namespace Vectron.Placement

open Foundation

/-- The recorded leader of every shard is none or one of its replicas. -/
def LeadersHold (fsm : Fsm) : Prop :=
  ∀ name id shard, fsm.shard? name id = some shard →
    shard.leaderId = 0 ∨ shard.leaderId ∈ shard.replicas

/-- A leader report names no leader or a replica of the shard it finds. -/
def UpdateShardLeaderPayload.NamesReplica (payload : UpdateShardLeaderPayload) (env : Env)
    (fsm : Fsm) : Prop :=
  ∀ found ∈ findShard env fsm payload.shardId,
    payload.leaderId = 0 ∨ payload.leaderId ∈ found.2.replicas

/-- An accepted removal leaves the leader in the list: it takes another replica, or
one that is listed twice. -/
def RemoveShardReplicaPayload.SparesLeader (payload : RemoveShardReplicaPayload) (cfg : Config)
    (env : Env) (fsm : Fsm) : Prop :=
  ∀ found ∈ findShard env fsm payload.shardId,
    payload.replicaId ∈ found.2.replicas →
    replicationFactor cfg < found.2.replicas.length →
    found.2.leaderId = 0 ∨ payload.replicaId ≠ found.2.leaderId ∨
      1 < found.2.replicas.count payload.replicaId

/-- An accepted move leaves the leader in the list. -/
def MoveShardPayload.SparesLeader (payload : MoveShardPayload) (env : Env) (fsm : Fsm) : Prop :=
  ∀ found ∈ findShard env fsm payload.shardId,
    payload.sourceWorkerId ∈ found.2.replicas →
    (fsm.workers.lookup payload.targetWorkerId).isSome = true →
    found.2.leaderId = 0 ∨ payload.sourceWorkerId ≠ found.2.leaderId ∨
      payload.targetWorkerId = payload.sourceWorkerId ∨
      1 < found.2.replicas.count payload.sourceWorkerId

/-- What a command must bring with it for the leaders to stay replicas. -/
def SparesLeaders (fsm : Fsm) (input : Applied) : Prop :=
  match input.cmd with
  | .updateShardLeader (.ok payload) => payload.NamesReplica input.env fsm
  | .removeShardReplica (.ok payload) => payload.SparesLeader input.cfg input.env fsm
  | .moveShard (.ok payload) => payload.SparesLeader input.env fsm
  | _ => True

instance (payload : UpdateShardLeaderPayload) (env : Env) (fsm : Fsm) :
    Decidable (payload.NamesReplica env fsm) :=
  inferInstanceAs (Decidable (∀ found ∈ findShard env fsm payload.shardId, _))

instance (payload : RemoveShardReplicaPayload) (cfg : Config) (env : Env) (fsm : Fsm) :
    Decidable (payload.SparesLeader cfg env fsm) :=
  inferInstanceAs (Decidable (∀ found ∈ findShard env fsm payload.shardId, _ → _ → _))

instance (payload : MoveShardPayload) (env : Env) (fsm : Fsm) :
    Decidable (payload.SparesLeader env fsm) :=
  inferInstanceAs (Decidable (∀ found ∈ findShard env fsm payload.shardId, _ → _ → _))

instance (fsm : Fsm) (input : Applied) : Decidable (SparesLeaders fsm input) := by
  casesm* Applied, Command, Decoded _
  all_goals
    delta SparesLeaders
    infer_instance

/-! ## Leaders stay replicas -/

/-- An element that is not removed, or is there twice, survives a removal. -/
theorem mem_erase_of_spared {replicas : List UInt64} {leader removed : UInt64}
    (hleader : leader ∈ replicas) (hspared : removed ≠ leader ∨ 1 < replicas.count removed) :
    leader ∈ replicas.erase removed := by
  by_cases hsame : leader = removed
  · subst hsame
    have htwice := hspared.resolve_left fun hne => hne rfl
    apply List.count_pos_iff.mp
    rw [List.count_erase_self]
    omega
  · exact (List.mem_erase_of_ne hsame).mpr hleader

theorem ShardStep.leader_holds {fsm : Fsm} {input : Applied} (hspares : SparesLeaders fsm input)
    {name : String} {id : UInt64} {before : Option ShardInfo} {after : ShardInfo}
    (hstep : ShardStep input.cfg input.env fsm input.cmd name id before (some after))
    (hbefore : ∀ shard, before = some shard →
      shard.leaderId = 0 ∨ shard.leaderId ∈ shard.replicas) :
    after.leaderId = 0 ∨ after.leaderId ∈ after.replicas := by
  rcases input with ⟨cfg, env, cmd⟩
  cases hstep with
  | same => exact hbefore after rfl
  | created hnew heligible hi => exact Or.inl rfl
  | leader hfind =>
      rw [ShardInfo.reportLeader_leaderId, ShardInfo.reportLeader_replicas]
      exact hspares _ hfind
  | @metrics _ _ shard hfind => exact hbefore shard rfl
  | @added _ _ shard _ hfind hworker hready hfresh habsent hroom =>
      rcases hbefore shard rfl with hzero | hmem
      · exact Or.inl hzero
      · exact Or.inr (List.mem_append_left _ hmem)
  | @removed _ _ shard hfind hreplica hspare =>
      rcases hbefore shard rfl with hzero | hmem
      · exact Or.inl hzero
      · rcases hspares _ hfind hreplica hspare with hzero | hspared
        · exact Or.inl hzero
        · exact Or.inr (mem_erase_of_spared hmem hspared)
  | @moved payload _ shard _ hfind hsource htarget =>
      rcases hbefore shard rfl with hzero | hmem
      · exact Or.inl hzero
      · rcases hspares _ hfind hsource (Option.isSome_of_eq_some htarget) with
          hzero | hne | hself | htwice
        · exact Or.inl hzero
        · exact Or.inr ((mem_replace hsource).mpr
            (Or.inr (mem_erase_of_spared hmem (Or.inl hne))))
        · refine Or.inr ((mem_replace hsource).mpr ?_)
          by_cases hleader : shard.leaderId = payload.sourceWorkerId
          · exact Or.inl (hleader.trans hself.symm)
          · exact Or.inr (mem_erase_of_spared hmem (Or.inl (Ne.symm hleader)))
        · exact Or.inr ((mem_replace hsource).mpr
            (Or.inr (mem_erase_of_spared hmem (Or.inr htwice))))

theorem step_leadersHold (fsm : Fsm) (input : Applied) (hspares : SparesLeaders fsm input)
    (hholds : LeadersHold fsm) : LeadersHold (step fsm input) := by
  intro name id after hafter
  have hstep := step_shardStep fsm input name id
  rw [hafter] at hstep
  exact hstep.leader_holds hspares fun shard hshard => hholds name id shard hshard

/-! ## Routing -/

theorem healthyWorker?_eq_some {fsm : Fsm} {now : Time} {workerId : UInt64} {worker : WorkerInfo}
    (hhealthy : healthyWorker? fsm now workerId = some worker) :
    fsm.workers.lookup workerId = some worker := by
  rw [healthyWorker?, Option.filter_eq_some_iff] at hhealthy
  exact hhealthy.1

/-- The worker a shard is routed to is its leader or one of its replicas. -/
theorem targetWorker_eq_some {env : ServerEnv} {fsm : Fsm} {shard : ShardInfo}
    {worker : WorkerInfo} (htarget : targetWorker env fsm shard = some worker) :
    ∃ id, fsm.workers.lookup id = some worker ∧
      ((id = shard.leaderId ∧ shard.leaderId ≠ 0) ∨ id ∈ shard.replicas) := by
  simp only [targetWorker] at htarget
  split at htarget
  next leader hleader =>
    obtain rfl := Option.some.inj htarget
    split at hleader
    next hnonzero =>
      exact ⟨shard.leaderId, healthyWorker?_eq_some hleader, Or.inl ⟨rfl, hnonzero⟩⟩
    next => contradiction
  next =>
    obtain ⟨id, hid, hhealthy⟩ := List.exists_of_findSome?_eq_some htarget
    exact ⟨id, healthyWorker?_eq_some hhealthy, Or.inr hid⟩

/-- A request is routed to a registered worker that is a replica of the shard. -/
def RoutesToReplica (fsm : Fsm) : Prop :=
  ∀ env req resp, getWorker env fsm req = .ok resp →
    ∃ id shard replica worker, fsm.shard? req.collection id = some shard ∧
      replica ∈ shard.replicas ∧ fsm.workers.lookup replica = some worker ∧
      resp.grpcAddress = worker.grpcAddress ∧ resp.shardId = shard.shardId.toUInt32

theorem LeadersHold.routes {fsm : Fsm} (hholds : LeadersHold fsm) : RoutesToReplica fsm := by
  intro env req resp hok
  obtain ⟨collection, shard, worker, hcollection, htarget, hworker, haddress, hid, _⟩ :=
    getWorker_eq_ok hok
  obtain ⟨id, hlookup⟩ := targetShard_eq_some htarget
  obtain ⟨replica, hreplica, hrole⟩ := targetWorker_eq_some hworker
  have hshard : fsm.shard? req.collection id = some shard :=
    Fsm.shard?_eq_some.mpr ⟨collection, hcollection, hlookup⟩
  refine ⟨id, shard, replica, worker, hshard, ?_, hreplica, haddress, hid⟩
  rcases hrole with ⟨rfl, hnonzero⟩ | hmem
  · exact (hholds _ _ _ hshard).resolve_left hnonzero
  · exact hmem

/-- In every run whose leader reports name replicas and whose removals and moves
spare the leader, every leader is a replica of its shard, and requests are routed to
replicas only. -/
theorem run_leadersHold (inputs : List Applied)
    (hinputs : Run.Meets step SparesLeaders newFsm inputs) :
    LeadersHold (Run.run step newFsm inputs) ∧ RoutesToReplica (Run.run step newFsm inputs) := by
  have hholds : LeadersHold (Run.run step newFsm inputs) := by
    refine Run.run_invariant step_leadersHold hinputs ?_
    intro name id shard hshard
    contradiction
  exact ⟨hholds, hholds.routes⟩

/-- A shard on worker 2 gets a second replica and a leader, and then one of its
replicas is removed, under a replication factor of 1. -/
def removeAfterElection (replica : UInt64) : List Applied :=
  startWorkers 2 ++
    ([ .createCollection (.ok { name := "docs" }),
       .addShardReplica (.ok { shardId := 1, replicaId := 1 }),
       .updateShardLeader (.ok { shardId := 1, leaderId := 2 }),
       .removeShardReplica (.ok { shardId := 1, replicaId := replica }) ] : List Command).map
      fun cmd => ⟨{ modelConfig with replicationFactorVar := "1" }, envAt 0, cmd⟩

theorem run_leadersHold_removeFollower :
    Run.Meets step SparesLeaders newFsm (removeAfterElection 1) ∧
      LeadersHold (Run.run step newFsm (removeAfterElection 1)) := by
  have hmeets : Run.Meets step SparesLeaders newFsm (removeAfterElection 1) := by
    decide +kernel
  exact ⟨hmeets, (run_leadersHold (removeAfterElection 1) hmeets).1⟩

/-- Without its leader worker 2, the shard is still led by it, and requests go there. -/
theorem removed_leader_routed :
    let fsm := Run.run step newFsm (removeAfterElection 2)
    let env : ServerEnv := ⟨fun _ => 0, fun _ => .stored⟩
    (fsm.shard? "docs" 1).map (fun shard => (shard.leaderId, shard.replicas)) = some (2, [1]) ∧
      getWorker env fsm { collection := "docs" } = .ok ⟨"grpc-2", 1, 3, 20000⟩ ∧
      ¬ LeadersHold fsm := by
  intro fsm env
  have hshard : (fsm.shard? "docs" 1).map (fun shard => (shard.leaderId, shard.replicas)) =
      some (2, [1]) := by
    decide +kernel
  refine ⟨hshard, by decide +kernel, ?_⟩
  intro hholds
  obtain ⟨shard, hfound, heq⟩ := Option.map_eq_some_iff.mp hshard
  obtain ⟨hleader, hreplicas⟩ := Prod.mk.inj heq
  have hmember := hholds "docs" 1 shard hfound
  rw [hleader, hreplicas] at hmember
  exact absurd hmember (by decide)

end Vectron.Placement
