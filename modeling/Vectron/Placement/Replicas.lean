import Vectron.Foundation.Slices
import Vectron.Placement.Selection
import Vectron.Placement.ShardStep

/-! # Replica lists

Which replica lists the state machine keeps: without duplicates, on registered
workers, not empty and bounded. `applyMoveShard` does not look whether its target
is a replica already, and `applyCreateCollection` counts the eligible workers and
sorts them under different clock readings, so both need a condition. The number of
replicas needs none: only deleting a collection takes it below the replication
factor.
-/

namespace Vectron.Placement

open Foundation

/-! ## Well-formed replica lists -/

/-- A well-formed replica list, given the registered workers. -/
structure ReplicaSet (workers : GoMap UInt64 WorkerInfo) (replicas : List UInt64) : Prop where
  nonempty : replicas ≠ []
  nodup : replicas.Nodup
  registered : ∀ replica ∈ replicas, (workers.lookup replica).isSome = true
  bounded : replicas.length ≤ maxReplicationFactor

/-- Every shard has a well-formed replica list. -/
def ReplicaSets (fsm : Fsm) : Prop :=
  ∀ name id shard, fsm.shard? name id = some shard → ReplicaSet fsm.workers shard.replicas

/-- The shard a move finds goes to a worker that does not have it yet. -/
def MoveShardPayload.GoesApart (payload : MoveShardPayload) (env : Env) (fsm : Fsm) : Prop :=
  ∀ found ∈ findShard env fsm payload.shardId,
    payload.sourceWorkerId ∈ found.2.replicas →
    (fsm.workers.lookup payload.targetWorkerId).isSome = true →
    payload.targetWorkerId = payload.sourceWorkerId ∨
      payload.targetWorkerId ∉ found.2.replicas

/-- Some worker is eligible when the workers are sorted by load. -/
def SortsEligible (env : Env) (fsm : Fsm) : Prop :=
  ∃ entry ∈ fsm.workers.entries,
    isWorkerEligibleForPlacement (env.clock (.sortEligible entry.1)) entry.2 = true

/-- What a command must bring with it for the replica lists to stay well-formed. -/
def PlacesApart (fsm : Fsm) (input : Applied) : Prop :=
  match input.cmd with
  | .moveShard (.ok payload) => payload.GoesApart input.env fsm
  | .createCollection (.ok payload) =>
      fsm.collections.lookup payload.name = none → countEligible input.env fsm ≠ 0 →
        SortsEligible input.env fsm
  | _ => True

instance (payload : MoveShardPayload) (env : Env) (fsm : Fsm) :
    Decidable (payload.GoesApart env fsm) :=
  inferInstanceAs (Decidable (∀ found ∈ findShard env fsm payload.shardId, _ → _ → _))

instance (env : Env) (fsm : Fsm) : Decidable (SortsEligible env fsm) :=
  inferInstanceAs (Decidable (∃ entry ∈ fsm.workers.entries, _))

instance (fsm : Fsm) (input : Applied) : Decidable (PlacesApart fsm input) := by
  casesm* Applied, Command, Decoded _
  all_goals
    delta PlacesApart
    infer_instance

theorem actualReplication_bounds (cfg : Config) {env : Env} {fsm : Fsm}
    (heligible : countEligible env fsm ≠ 0) :
    0 < actualReplication cfg env fsm ∧ actualReplication cfg env fsm ≤ maxReplicationFactor := by
  have hbounds := replicationFactor_bounds cfg
  have hmin : minReplicationFactor = 1 := rfl
  unfold actualReplication
  split <;> omega

theorem createSpec_shard_replicas (cfg : Config) (env : Env) (fsm : Fsm)
    (payload : CreateCollectionPayload) (shardId : UInt64) (i : Nat) :
    ((createSpec cfg env fsm payload).shard fsm.workers shardId i).replicas =
      selectReplicasWithFailureDomain fsm.workers (actualReplication cfg env fsm)
        (getWorkersSortedByLoad env fsm) := by
  simp only [ShardSpec.shard, createSpec]

/-- The replicas of a new shard are eligible workers. -/
theorem eligible_of_mem_createSpec {cfg : Config} {env : Env} {fsm : Fsm}
    {payload : CreateCollectionPayload} (heligible : countEligible env fsm ≠ 0)
    {shardId : UInt64} {i : Nat} {replica : UInt64}
    (hreplica : replica ∈
      ((createSpec cfg env fsm payload).shard fsm.workers shardId i).replicas) :
    ∃ worker, fsm.workers.lookup replica = some worker ∧
      isWorkerEligibleForPlacement (env.clock (.sortEligible replica)) worker = true := by
  rw [createSpec_shard_replicas] at hreplica
  obtain ⟨_, hsubset, _⟩ := selectReplicasWithFailureDomain_sound
    (actualReplication_bounds cfg heligible).1 (getWorkersSortedByLoad_nodup env fsm)
  exact mem_getWorkersSortedByLoad.mp (hsubset replica hreplica)

/-- The replicas chosen for a new shard. -/
theorem createSpec_replicaSet (cfg : Config) {env : Env} {fsm : Fsm}
    (payload : CreateCollectionPayload) (heligible : countEligible env fsm ≠ 0)
    (hsorted : SortsEligible env fsm) (shardId : UInt64) (i : Nat) :
    ReplicaSet fsm.workers
      ((createSpec cfg env fsm payload).shard fsm.workers shardId i).replicas := by
  have hbounds := actualReplication_bounds cfg heligible
  have hne : getWorkersSortedByLoad env fsm ≠ [] := by
    obtain ⟨⟨id, worker⟩, hentry, hsorted⟩ := hsorted
    exact List.ne_nil_of_mem (mem_getWorkersSortedByLoad.mpr
      ⟨worker, AList.mem_lookup_iff.mpr hentry, hsorted⟩)
  obtain ⟨hnodup, _, hbounded⟩ := selectReplicasWithFailureDomain_sound hbounds.1
    (getWorkersSortedByLoad_nodup env fsm)
  rw [createSpec_shard_replicas]
  refine ⟨selectReplicasWithFailureDomain_ne_nil hne, hnodup, ?_, le_trans hbounded hbounds.2⟩
  intro replica hreplica
  rw [← createSpec_shard_replicas cfg env fsm payload shardId i] at hreplica
  obtain ⟨chosen, hchosen, _⟩ := eligible_of_mem_createSpec heligible hreplica
  rw [hchosen]
  rfl

section

variable {workers : GoMap UInt64 WorkerInfo} {replicas : List UInt64}
  (hset : ReplicaSet workers replicas)

include hset

theorem ReplicaSet.append {replica : UInt64} (habsent : replica ∉ replicas)
    (hregistered : (workers.lookup replica).isSome = true)
    (hroom : replicas.length < maxReplicationFactor) :
    ReplicaSet workers (replicas ++ [replica]) where
  nonempty := by simp
  nodup := by
    rw [← List.concat_eq_append]
    exact hset.nodup.concat habsent
  registered := by
    intro other hother
    rcases List.mem_append.mp hother with hother | hother
    · exact hset.registered other hother
    · rw [List.mem_singleton.mp hother]
      exact hregistered
  bounded := by
    rw [List.length_append, List.length_singleton]
    exact hroom

theorem ReplicaSet.erase {replica : UInt64} (hreplica : replica ∈ replicas)
    (hspare : minReplicationFactor < replicas.length) :
    ReplicaSet workers (replicas.erase replica) := by
  have hmin : minReplicationFactor = 1 := rfl
  have hlength := List.length_erase_of_mem hreplica
  refine ⟨?_, hset.nodup.erase replica, ?_, ?_⟩
  · apply List.ne_nil_of_length_pos
    omega
  · intro other hother
    exact hset.registered other (List.mem_of_mem_erase hother)
  · have hbounded := hset.bounded
    omega

theorem ReplicaSet.replace {source target : UInt64} (hsource : source ∈ replicas)
    (hregistered : (workers.lookup target).isSome = true)
    (hfresh : target = source ∨ target ∉ replicas) :
    ReplicaSet workers (replicas.replace source target) := by
  refine ⟨?_, nodup_replace hsource hset.nodup hfresh, ?_, ?_⟩
  · apply List.ne_nil_of_length_pos
    rw [List.length_replace]
    exact List.length_pos_of_mem hsource
  · intro other hother
    rcases mem_of_mem_replace hsource hother with rfl | hother
    · exact hregistered
    · exact hset.registered other hother
  · rw [List.length_replace]
    exact hset.bounded

end

/-- One shard, seen with the workers from before the command. -/
theorem ShardStep.replicaSet {fsm : Fsm} {input : Applied} (hapart : PlacesApart fsm input)
    {name : String} {id : UInt64} {before : Option ShardInfo} {after : ShardInfo}
    (hstep : ShardStep input.cfg input.env fsm input.cmd name id before (some after))
    (hbefore : ∀ shard, before = some shard → ReplicaSet fsm.workers shard.replicas) :
    ReplicaSet fsm.workers after.replicas := by
  rcases input with ⟨cfg, env, cmd⟩
  cases hstep with
  | same => exact hbefore after rfl
  | created hnew heligible hi =>
      exact createSpec_replicaSet cfg _ heligible (hapart hnew heligible) _ _
  | leader hfind =>
      rw [ShardInfo.reportLeader_replicas]
      exact hbefore _ rfl
  | metrics hfind =>
      rw [ShardInfo.reportMetrics_replicas]
      exact hbefore _ rfl
  | added hfind hworker hready hfresh habsent hroom =>
      exact (hbefore _ rfl).append habsent (by rw [hworker]; rfl) hroom
  | removed hfind hreplica hspare =>
      exact (hbefore _ rfl).erase hreplica
        (lt_of_le_of_lt (replicationFactor_bounds cfg).1 hspare)
  | moved hfind hsource htarget =>
      have hregistered := Option.isSome_of_eq_some htarget
      exact (hbefore _ rfl).replace hsource hregistered
        (hapart _ hfind hsource hregistered)

/-- The replicas a shard has after a command stay registered. -/
theorem registered_step {fsm : Fsm} {input : Applied} {name : String} {id : UInt64}
    {after : ShardInfo} (hafter : (step fsm input).shard? name id = some after)
    {replica : UInt64} (hreplica : replica ∈ after.replicas)
    (hregistered : (fsm.workers.lookup replica).isSome = true) :
    ((step fsm input).workers.lookup replica).isSome = true := by
  rcases (step_workerStep fsm input replica).isSome_or_removed hregistered with
    hkept | ⟨hcmd, hunused⟩
  · exact hkept
  · -- a removal does not touch the shard, and it found the shard without the replica
    have hstep := step_shardStep fsm input name id
    rw [hafter, hcmd] at hstep
    generalize hbefore : fsm.shard? name id = before at hstep
    cases hstep with
    | same => exact absurd hreplica (hunused name id after hbefore)

theorem step_replicaSets (fsm : Fsm) (input : Applied) (hapart : PlacesApart fsm input)
    (hsets : ReplicaSets fsm) : ReplicaSets (step fsm input) := by
  intro name id after hafter
  have hstep := step_shardStep fsm input name id
  rw [hafter] at hstep
  have hset := hstep.replicaSet hapart (fun shard hshard => hsets name id shard hshard)
  refine ⟨hset.nonempty, hset.nodup, ?_, hset.bounded⟩
  intro replica hreplica
  exact registered_step hafter hreplica (hset.registered replica hreplica)

/-- In every run whose moves go to workers without the shard and whose creations
still find an eligible worker, all replica lists are well-formed. -/
theorem run_replicaSets (inputs : List Applied)
    (hinputs : Run.Meets step PlacesApart newFsm inputs) :
    ReplicaSets (Run.run step newFsm inputs) := by
  refine Run.run_invariant step_replicaSets hinputs ?_
  intro name id shard hshard
  rw [newFsm_shard?] at hshard
  contradiction

/-- A collection on the first two of three workers, then a move of its shard. -/
def moveAfterCreate (target : UInt64) : List Applied :=
  startWorkers 3 ++
    [ appliedAt 0 (.updateWorkerState (.ok { workerId := 3, state := .draining })),
      appliedAt 0 (.createCollection (.ok { name := "docs" })),
      appliedAt 0 (.moveShard (.ok
        { shardId := 1, sourceWorkerId := 1, targetWorkerId := target })) ]

theorem moveAfterCreate_replicaSets :
    Run.Meets step PlacesApart newFsm (moveAfterCreate 3) ∧
      ReplicaSets (Run.run step newFsm (moveAfterCreate 3)) := by
  have hmeets : Run.Meets step PlacesApart newFsm (moveAfterCreate 3) := by
    decide +kernel
  exact ⟨hmeets, run_replicaSets (moveAfterCreate 3) hmeets⟩

/-- A move onto the other replica leaves that worker in the list twice. -/
theorem moveAfterCreate_duplicates :
    ¬ ReplicaSets (Run.run step newFsm (moveAfterCreate 2)) := by
  have hreplicas : ((Run.run step newFsm (moveAfterCreate 2)).shard? "docs" 1).map
      ShardInfo.replicas = some [2, 2] := by
    decide +kernel
  intro hsets
  obtain ⟨shard, hshard, heq⟩ := Option.map_eq_some_iff.mp hreplicas
  have hnodup := (hsets "docs" 1 shard hshard).nodup
  rw [heq] at hnodup
  exact absurd hnodup (by decide)

/-! ## The number of replicas -/

/-- A command that deletes no collection. -/
def Command.keepsCollections : Command → Bool
  | .deleteCollection (.ok _) => false
  | _ => true

/-- A shard is left with at least the replication factor of replicas, or with as
many as it had. -/
theorem ShardStep.replica_floor {cfg : Config} {env : Env} {fsm : Fsm} {cmd : Command}
    {name : String} {id : UInt64} {before : ShardInfo} {after : Option ShardInfo}
    (hstep : ShardStep cfg env fsm cmd name id (some before) after)
    (hcmd : cmd.keepsCollections = true) :
    ∃ shard, after = some shard ∧
      min (replicationFactor cfg) before.replicas.length ≤ shard.replicas.length := by
  cases hstep with
  | same => exact ⟨before, rfl, Nat.min_le_right _ _⟩
  | deleted => simp [Command.keepsCollections] at hcmd
  | leader hfind =>
      refine ⟨_, rfl, ?_⟩
      rw [ShardInfo.reportLeader_replicas]
      exact Nat.min_le_right _ _
  | metrics hfind => exact ⟨_, rfl, Nat.min_le_right _ _⟩
  | added hfind hworker hready hfresh habsent hroom =>
      refine ⟨_, rfl, ?_⟩
      rw [ShardInfo.withReplicas_replicas, List.length_append]
      omega
  | removed hfind hreplica hspare =>
      refine ⟨_, rfl, ?_⟩
      rw [ShardInfo.withReplicas_replicas, List.length_erase_of_mem hreplica]
      omega
  | moved hfind hsource htarget =>
      refine ⟨_, rfl, ?_⟩
      rw [ShardInfo.withReplicas_replicas, List.length_replace]
      exact Nat.min_le_right _ _

theorem step_replica_floor {fsm : Fsm} {input : Applied} {name : String} {id : UInt64}
    {shard : ShardInfo} (hcmd : input.cmd.keepsCollections = true)
    (hshard : fsm.shard? name id = some shard) :
    ∃ next, (step fsm input).shard? name id = some next ∧
      min (replicationFactor input.cfg) shard.replicas.length ≤ next.replicas.length := by
  have hstep := step_shardStep fsm input name id
  rw [hshard] at hstep
  exact hstep.replica_floor hcmd

theorem run_replica_floor {factor : Nat} {inputs : List Applied}
    (hinputs : ∀ input ∈ inputs, replicationFactor input.cfg = factor ∧
      input.cmd.keepsCollections = true)
    {fsm : Fsm} {name : String} {id : UInt64} {shard : ShardInfo}
    (hshard : fsm.shard? name id = some shard) (hfull : factor ≤ shard.replicas.length) :
    ∃ later, (Run.run step fsm inputs).shard? name id = some later ∧
      factor ≤ later.replicas.length := by
  induction inputs generalizing fsm shard with
  | nil => exact ⟨shard, hshard, hfull⟩
  | cons input rest ih =>
      obtain ⟨hfactor, hcmd⟩ := hinputs input List.mem_cons_self
      obtain ⟨next, hnext, hfloor⟩ := step_replica_floor hcmd hshard
      rw [hfactor, Nat.min_eq_left hfull] at hfloor
      exact ih (fun other hother => hinputs other (List.mem_cons_of_mem _ hother)) hnext hfloor

/-- Under a fixed replication factor, no command but the deletion of a collection
lowers a shard's number of replicas below the replication factor or, where it is
lower already, at all. A shard that has reached the replication factor therefore
keeps that many replicas over every later run. -/
theorem replicas_keep_floor (factor : Nat) (fsm : Fsm) (name : String) (id : UInt64)
    (shard : ShardInfo) (hshard : fsm.shard? name id = some shard) :
    (∀ input : Applied, replicationFactor input.cfg = factor →
        input.cmd.keepsCollections = true →
        ∃ next, (step fsm input).shard? name id = some next ∧
          min factor shard.replicas.length ≤ next.replicas.length) ∧
      (∀ inputs : List Applied,
        (∀ input ∈ inputs, replicationFactor input.cfg = factor ∧
          input.cmd.keepsCollections = true) →
        factor ≤ shard.replicas.length →
        ∃ later, (Run.run step fsm inputs).shard? name id = some later ∧
          factor ≤ later.replicas.length) := by
  refine ⟨?_, ?_⟩
  · rintro input rfl hcmd
    exact step_replica_floor hcmd hshard
  · intro inputs hinputs hfull
    exact run_replica_floor hinputs hshard hfull

/-- A shard on three workers, a refused removal and a move. -/
theorem replicas_keep_floor_three :
    let fsm := Run.run step newFsm
      (startWorkers 4 ++ [appliedAt 0 (.createCollection (.ok { name := "docs" }))])
    let inputs := [
      appliedAt 0 (.removeShardReplica (.ok { shardId := 1, replicaId := 4 })),
      appliedAt 0 (.moveShard (.ok { shardId := 1, sourceWorkerId := 4, targetWorkerId := 1 })) ]
    ∃ later, (Run.run step fsm inputs).shard? "docs" 1 = some later ∧
      3 ≤ later.replicas.length := by
  intro fsm inputs
  have hcount : (fsm.shard? "docs" 1).map (fun shard => shard.replicas.length) = some 3 := by
    decide +kernel
  have hinputs : ∀ input ∈ inputs, replicationFactor input.cfg = 3 ∧
      input.cmd.keepsCollections = true := by
    decide +kernel
  obtain ⟨shard, hshard, hthree⟩ := Option.map_eq_some_iff.mp hcount
  have hfull : 3 ≤ shard.replicas.length := Nat.le_of_eq hthree.symm
  -- from here on the values of the run do not matter, and looking at them is slow
  clear_value fsm inputs
  exact (replicas_keep_floor 3 fsm "docs" 1 shard hshard).2 inputs hinputs hfull

end Vectron.Placement
