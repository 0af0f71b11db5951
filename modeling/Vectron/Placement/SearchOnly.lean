import Vectron.Placement.Identifiers
import Vectron.Placement.Reconcile
import Vectron.Placement.Replicas

/-! # Search-only workers

New collections are placed on workers that are not search-only, but no other writer
of a replica list looks at the role: additions and moves take any worker, the repair
pass proposes any healthy one, and a worker that holds shards can register again as
search-only. The condition below is what the commands have to bring with them.
-/

namespace Vectron.Placement

open Foundation

/-- No search-only worker is a replica of any shard. -/
def SearchOnlyIsolated (fsm : Fsm) : Prop :=
  ∀ name id shard replica worker, fsm.shard? name id = some shard → replica ∈ shard.replicas →
    fsm.workers.lookup replica = some worker → worker.role ≠ "search_only"

/-- An addition that takes effect is not one of a search-only worker. -/
def AddShardReplicaPayload.AddsOther (payload : AddShardReplicaPayload) (env : Env) (fsm : Fsm) :
    Prop :=
  ∀ found ∈ findShard env fsm payload.shardId,
    ∀ worker ∈ fsm.workers.lookup payload.replicaId,
      worker.state = .ready →
      env.clock .addShardReplica - worker.lastHeartbeat < workerTimeout →
      payload.replicaId ∉ found.2.replicas →
      found.2.replicas.length < maxReplicationFactor → worker.role ≠ "search_only"

/-- An accepted move does not go to a search-only worker. -/
def MoveShardPayload.MovesToOther (payload : MoveShardPayload) (env : Env) (fsm : Fsm) : Prop :=
  ∀ found ∈ findShard env fsm payload.shardId,
    payload.sourceWorkerId ∈ found.2.replicas →
    ∀ worker ∈ fsm.workers.lookup payload.targetWorkerId, worker.role ≠ "search_only"

/-- No shard has the worker as a replica. -/
def holdsNoShard (fsm : Fsm) (workerId : UInt64) : Bool :=
  fsm.collections.entries.all fun coll =>
    coll.2.shards.entries.all fun shard => decide (workerId ∉ shard.2.replicas)

/-- A registration as search-only is not that of a worker with shards: neither of a
known worker with these addresses nor, under a reused id, of a new one. -/
def RegisterWorkerPayload.RegistersFree (payload : RegisterWorkerPayload) (fsm : Fsm) : Prop :=
  payload.role = "search_only" →
    (∀ entry ∈ fsm.workers.entries, payload.matches entry.2 = true →
        holdsNoShard fsm entry.1 = true) ∧
      ((∀ entry ∈ fsm.workers.entries, payload.matches entry.2 = false) →
        holdsNoShard fsm fsm.nextWorkerId = true)

/-- What a command must bring with it for the search-only workers to stay isolated. -/
def Isolates (fsm : Fsm) (input : Applied) : Prop :=
  match input.cmd with
  | .addShardReplica (.ok payload) => payload.AddsOther input.env fsm
  | .moveShard (.ok payload) => payload.MovesToOther input.env fsm
  | .registerWorker (.ok payload) => payload.RegistersFree fsm
  | _ => True

instance (payload : AddShardReplicaPayload) (env : Env) (fsm : Fsm) :
    Decidable (payload.AddsOther env fsm) :=
  inferInstanceAs (Decidable (∀ found ∈ findShard env fsm payload.shardId,
    ∀ worker ∈ fsm.workers.lookup payload.replicaId, _ → _ → _ → _ → _))

instance (payload : MoveShardPayload) (env : Env) (fsm : Fsm) :
    Decidable (payload.MovesToOther env fsm) :=
  inferInstanceAs (Decidable (∀ found ∈ findShard env fsm payload.shardId, _ →
    ∀ worker ∈ fsm.workers.lookup payload.targetWorkerId, _))

instance (payload : RegisterWorkerPayload) (fsm : Fsm) : Decidable (payload.RegistersFree fsm) :=
  inferInstanceAs (Decidable (_ → (∀ entry ∈ fsm.workers.entries, _ → _) ∧
    ((∀ entry ∈ fsm.workers.entries, _) → _)))

instance (fsm : Fsm) (input : Applied) : Decidable (Isolates fsm input) := by
  casesm* Applied, Command, Decoded _
  all_goals
    delta Isolates
    infer_instance

/-! ## Isolation is kept -/

theorem holdsNoShard_iff {fsm : Fsm} {workerId : UInt64} :
    holdsNoShard fsm workerId = true ↔
      ∀ name id shard, fsm.shard? name id = some shard → workerId ∉ shard.replicas := by
  simp only [holdsNoShard, List.all_eq_true, decide_eq_true_eq]
  constructor
  · intro hall name id shard hshard
    obtain ⟨coll, hcoll, hlookup⟩ := Fsm.shard?_eq_some.mp hshard
    exact hall ⟨name, coll⟩ (AList.mem_lookup_iff.mp hcoll) ⟨id, shard⟩
      (AList.mem_lookup_iff.mp hlookup)
  · rintro hnone ⟨name, coll⟩ hcoll ⟨id, shard⟩ hshard
    exact hnone name id shard (Fsm.shard?_eq_some.mpr
      ⟨coll, AList.mem_lookup_iff.mpr hcoll, AList.mem_lookup_iff.mpr hshard⟩)

/-- A worker keeps its role unless it registers, and a registration makes it
search-only only if it holds no shard. -/
theorem WorkerStep.role {fsm : Fsm} {input : Applied} (hisolates : Isolates fsm input)
    {id : UInt64} {before : Option WorkerInfo} {after : WorkerInfo}
    (hstep : WorkerStep input.cfg input.env fsm input.cmd id before (some after))
    (hcurrent : fsm.workers.lookup id = before) (hrole : after.role = "search_only") :
    (∃ worker, before = some worker ∧ worker.role = "search_only") ∨
      holdsNoShard fsm id = true := by
  rcases input with ⟨cfg, env, cmd⟩
  cases hstep with
  | same => exact Or.inl ⟨after, rfl, hrole⟩
  | @reregistered payload worker id hmatches =>
      simp only [WorkerInfo.reregister] at hrole
      split at hrole
      next =>
        have hentry := AList.mem_lookup_iff.mp hcurrent
        exact Or.inr ((hisolates hrole).1 ⟨id, worker⟩ hentry hmatches)
      next => exact Or.inl ⟨worker, rfl, hrole⟩
  | @registered payload worker hnew =>
      simp only [RegisterWorkerPayload.worker] at hrole
      split at hrole
      next => simp at hrole
      next =>
        refine Or.inr ((hisolates hrole).2 ?_)
        rintro ⟨id, worker⟩ hentry
        exact hnew id worker (AList.mem_lookup_iff.mpr hentry)
  | heartbeat payload worker
  | state payload worker => exact Or.inl ⟨worker, rfl, hrole⟩

/-- The commands that bring a worker into a replica list. -/
def Command.placesReplicas : Command → Bool
  | .createCollection _ => true
  | .addShardReplica _ => true
  | .moveShard _ => true
  | _ => false

/-- Such a command leaves the workers alone. -/
theorem WorkerStep.eq_of_placesReplicas {cfg : Config} {env : Env} {fsm : Fsm} {cmd : Command}
    {id : UInt64} {before after : Option WorkerInfo}
    (hstep : WorkerStep cfg env fsm cmd id before after) (hcmd : cmd.placesReplicas = true) :
    after = before := by
  cases hstep with
  | same => rfl
  | _ => simp [Command.placesReplicas] at hcmd

/-- A replica of a shard after the command was one before, or the command brings in
a worker that is not search-only. -/
theorem ShardStep.replica_role {fsm : Fsm} {input : Applied} (hisolates : Isolates fsm input)
    {name : String} {id : UInt64} {before : Option ShardInfo} {after : ShardInfo}
    (hstep : ShardStep input.cfg input.env fsm input.cmd name id before (some after))
    {replica : UInt64} (hreplica : replica ∈ after.replicas) :
    (∃ shard, before = some shard ∧ replica ∈ shard.replicas) ∨
      (input.cmd.placesReplicas = true ∧
        ∀ worker, fsm.workers.lookup replica = some worker → worker.role ≠ "search_only") := by
  rcases input with ⟨cfg, env, cmd⟩
  cases hstep with
  | same => exact Or.inl ⟨after, rfl, hreplica⟩
  | created hnew heligible hi =>
      obtain ⟨chosen, hchosen, hplaced⟩ := eligible_of_mem_createSpec heligible hreplica
      refine Or.inr ⟨rfl, ?_⟩
      intro worker hworker
      rw [hchosen] at hworker
      obtain rfl := Option.some.inj hworker
      exact role_ne_of_eligible hplaced
  | @leader _ _ shard hfind =>
      rw [ShardInfo.reportLeader_replicas] at hreplica
      exact Or.inl ⟨shard, rfl, hreplica⟩
  | @metrics _ _ shard hfind => exact Or.inl ⟨shard, rfl, hreplica⟩
  | @added payload _ shard worker hfind hworker hready hfresh habsent hroom =>
      rcases List.mem_append.mp hreplica with hbefore | hnew
      · exact Or.inl ⟨shard, rfl, hbefore⟩
      · obtain rfl := List.mem_singleton.mp hnew
        refine Or.inr ⟨rfl, ?_⟩
        intro worker' hworker'
        rw [hworker] at hworker'
        obtain rfl := Option.some.inj hworker'
        exact hisolates _ hfind worker hworker hready hfresh habsent hroom
  | @removed _ _ shard hfind hmem hspare =>
      exact Or.inl ⟨shard, rfl, List.mem_of_mem_erase hreplica⟩
  | @moved payload _ shard _ hfind hsource htarget =>
      rcases mem_of_mem_replace hsource hreplica with rfl | hbefore
      · exact Or.inr ⟨rfl, fun worker hworker => hisolates _ hfind hsource worker hworker⟩
      · exact Or.inl ⟨shard, rfl, hbefore⟩

theorem step_searchOnlyIsolated (fsm : Fsm) (input : Applied) (hisolates : Isolates fsm input)
    (hisolated : SearchOnlyIsolated fsm) : SearchOnlyIsolated (step fsm input) := by
  intro name id after replica worker hafter hreplica hworker hrole
  have hshard := step_shardStep fsm input name id
  have hstep := step_workerStep fsm input replica
  rw [hafter] at hshard
  rw [hworker] at hstep
  -- the replica was there before, and then its role may be new, or it is new itself
  rcases hshard.replica_role hisolates hreplica with ⟨shard, hbefore, hmem⟩ | ⟨hplaces, hother⟩
  · rcases hstep.role hisolates rfl hrole with ⟨old, hold, hold_role⟩ | hfree
    · exact hisolated name id shard replica old hbefore hmem hold hold_role
    · exact holdsNoShard_iff.mp hfree name id shard hbefore hmem
  · exact hother worker (hstep.eq_of_placesReplicas hplaces).symm hrole

/-! ## The repair pass -/

/-- While no healthy worker is search-only, the repair pass proposes nothing that
would break the isolation. -/
theorem repair_isolates {fsm : Fsm} (hmatch : KeysMatch fsm) {env : ServerEnv}
    (hhealthy : ∀ worker ∈ getHealthyWorkers env fsm, worker.role ≠ "search_only")
    {accepted : Command → Bool} {maxConcurrentRepairs : Nat} {cfg : Config} {cmd : Command}
    (hcmd : cmd ∈ repairUnderReplicatedShards accepted maxConcurrentRepairs cfg env fsm)
    (cfg' : Config) (env' : Env) : Isolates fsm ⟨cfg', env', cmd⟩ := by
  obtain ⟨shard, _, worker, hworker, _, rfl⟩ := repairShards_adds hcmd
  intro found _ other hother _ _ _ _
  obtain ⟨id, hlookup, _⟩ := mem_getHealthyWorkers.mp hworker
  rw [hmatch.worker id worker hlookup] at hother
  rw [hlookup] at hother
  obtain rfl := Option.some.inj hother
  exact hhealthy worker hworker

/-- In every run whose additions and moves take no search-only worker, and in which
no worker with shards registers as search-only, no search-only worker is a replica.
In the states of such a run the repair pass keeps to this as long as none of the
healthy workers is search-only. -/
theorem run_searchOnlyIsolated (inputs : List Applied)
    (hinputs : Run.Meets step Isolates newFsm inputs) :
    SearchOnlyIsolated (Run.run step newFsm inputs) ∧
      ∀ accepted maxConcurrentRepairs cfg env,
        (∀ worker ∈ getHealthyWorkers env (Run.run step newFsm inputs),
          worker.role ≠ "search_only") →
        ∀ cmd ∈ repairUnderReplicatedShards accepted maxConcurrentRepairs cfg env
          (Run.run step newFsm inputs),
        ∀ cfg' env', Isolates (Run.run step newFsm inputs) ⟨cfg', env', cmd⟩ := by
  refine ⟨?_, ?_⟩
  · refine Run.run_invariant step_searchOnlyIsolated hinputs ?_
    intro name id shard replica worker hshard
    contradiction
  · intro accepted maxConcurrentRepairs cfg env hhealthy cmd hcmd cfg' env'
    exact repair_isolates (keysMatch_run inputs) hhealthy hcmd cfg' env'

/-- A worker for writes and one for searches, and a collection. -/
def searchOnlyCluster : List Applied :=
  startWorkers 1 ++
    [ appliedAt 0 (.registerWorker (.ok
        { grpcAddress := "grpc-2", raftAddress := "raft-2", role := "search_only" })),
      appliedAt 0 (.updateWorkerHeartbeat (.ok { workerId := 2 })),
      appliedAt 0 (.createCollection (.ok { name := "docs" })) ]

theorem run_searchOnlyIsolated_cluster :
    Run.Meets step Isolates newFsm searchOnlyCluster ∧
      SearchOnlyIsolated (Run.run step newFsm searchOnlyCluster) := by
  have hmeets : Run.Meets step Isolates newFsm searchOnlyCluster := by
    decide +kernel
  exact ⟨hmeets, (run_searchOnlyIsolated searchOnlyCluster hmeets).1⟩

/-- The repair pass gives the shard a replica on the search-only worker. -/
theorem repair_places_searchOnly :
    let fsm := Run.run step newFsm searchOnlyCluster
    let env : ServerEnv := ⟨fun _ => 0, fun _ => .stored⟩
    let proposed := repairUnderReplicatedShards (fun _ => true) 3 modelConfig env fsm
    ¬ SearchOnlyIsolated (Run.run step fsm (proposed.map (appliedAt 0))) := by
  intro fsm env proposed hisolated
  have hreplicas : ((Run.run step fsm (proposed.map (appliedAt 0))).shard? "docs" 1).map
      ShardInfo.replicas = some [1, 2] := by
    decide +kernel
  have hrole : ((Run.run step fsm (proposed.map (appliedAt 0))).workers.lookup 2).map
      WorkerInfo.role = some "search_only" := by
    decide +kernel
  obtain ⟨shard, hshard, heq⟩ := Option.map_eq_some_iff.mp hreplicas
  obtain ⟨worker, hworker, hsearch⟩ := Option.map_eq_some_iff.mp hrole
  exact hisolated "docs" 1 shard 2 worker hshard (by rw [heq]; decide) hworker hsearch

end Vectron.Placement
