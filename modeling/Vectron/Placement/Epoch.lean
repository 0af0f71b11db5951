import Vectron.Foundation.Slices
import Vectron.Placement.ShardStep

/-! # Epochs

The assignments epoch counts the commands that change the placement, and the epoch
of a shard counts the changes of its replica list. Both are 64-bit counters:
`bumpAssignmentsEpochLocked` skips 0 when it wraps around, so the epochs order the
states of a run as long as fewer than `2 ^ 64 - 1` bumps occur.
-/

namespace Vectron.Placement

open Foundation

/-- The replica list of every shard, by the two keys of the shard. -/
def replicaMap (fsm : Fsm) (name : String) (id : UInt64) : Option (List UInt64) :=
  (fsm.shard? name id).map ShardInfo.replicas

/-- The same with the epoch of every shard. -/
def epochMap (fsm : Fsm) (name : String) (id : UInt64) : Option (List UInt64 × UInt64) :=
  (fsm.shard? name id).map fun shard => (shard.replicas, shard.epoch)

theorem replicaMap_eq_of_epochMap_eq {first second : Fsm}
    (hmap : epochMap first = epochMap second) : replicaMap first = replicaMap second := by
  have hfst : ∀ fsm, replicaMap fsm = fun name id => (epochMap fsm name id).map Prod.fst := by
    intro fsm
    funext name id
    rw [epochMap, Option.map_map]
    rfl
  rw [hfst, hfst, hmap]

/-- A command that bumps the assignments epoch. -/
def bumpsEpoch (fsm : Fsm) (input : Applied) : Bool :=
  (step fsm input).assignmentsEpoch != fsm.assignmentsEpoch

/-- The number of epoch bumps in a run. -/
def epochBumps (fsm : Fsm) (inputs : List Applied) : Nat :=
  Run.countSteps step bumpsEpoch fsm inputs

/-! ## One command -/

section OneCommand

variable {cfg : Config} {env : Env} {fsm : Fsm} {cmd : Command}

theorem epochMap_setShard {name : String} {id : UInt64} {old new : ShardInfo}
    (hold : fsm.shard? name id = some old) (hreplicas : new.replicas = old.replicas)
    (hepoch : new.epoch = old.epoch) :
    epochMap (fsm.setShard name id new) = epochMap fsm := by
  funext name' id'
  simp only [epochMap, Fsm.shard?_setShard hold]
  split
  next hkeys =>
    obtain ⟨rfl, rfl⟩ := hkeys
    rw [hold, Option.map_some, Option.map_some, hreplicas, hepoch]
  next => rfl

@[simp] theorem ShardInfo.reportLeader_epoch (shard : ShardInfo) (leaderId : UInt64) :
    (shard.reportLeader leaderId).epoch = shard.epoch := by
  unfold reportLeader
  split <;> rfl

/-- A command either bumps the epoch or leaves the epoch and every replica list
with its epoch as they are. -/
theorem Effect.bump_or_same {outcome : Outcome} (heffect : Effect cfg env fsm cmd outcome) :
    outcome.fsm.assignmentsEpoch = fsm.bump.assignmentsEpoch ∨
      (outcome.fsm.assignmentsEpoch = fsm.assignmentsEpoch ∧
        epochMap outcome.fsm = epochMap fsm) := by
  cases heffect with
  | createCollection hnew heligible => exact Or.inl rfl
  | deleteCollection hcoll => exact Or.inl rfl
  | addReplica hfind hworker hready hfresh habsent hroom =>
      exact Or.inl (by simp [Fsm.bump])
  | removeReplica hfind hreplica hspare
  | moveShard hfind hsource htarget => exact Or.inl (by simp [Fsm.bump])
  | shardLeader hfind =>
      refine Or.inr ⟨by simp, ?_⟩
      exact epochMap_setShard (findShard_eq_some hfind) (ShardInfo.reportLeader_replicas _ _)
        (ShardInfo.reportLeader_epoch _ _)
  | shardMetrics hfind =>
      refine Or.inr ⟨by simp, ?_⟩
      exact epochMap_setShard (findShard_eq_some hfind) rfl rfl
  | _ => exact Or.inr ⟨rfl, rfl⟩

/-- A surviving shard keeps its replica list and epoch, or gets a new list with the
next epoch. -/
theorem ShardStep.epoch {name : String} {id : UInt64} {old new : ShardInfo}
    (hstep : ShardStep cfg env fsm cmd name id (some old) (some new)) :
    (new.replicas = old.replicas ∧ new.epoch = old.epoch) ∨ new.epoch = old.epoch + 1 := by
  cases hstep with
  | same
  | metrics hfind => exact Or.inl ⟨rfl, rfl⟩
  | leader hfind =>
      exact Or.inl ⟨ShardInfo.reportLeader_replicas _ _, ShardInfo.reportLeader_epoch _ _⟩
  | added hfind hworker hready hfresh habsent hroom
  | removed hfind hreplica hspare
  | moved hfind hsource htarget => exact Or.inr rfl

theorem ShardStep.epoch_of_new {name : String} {id : UInt64} {new : ShardInfo}
    (hstep : ShardStep cfg env fsm cmd name id none (some new)) : new.epoch = 1 := by
  cases hstep with
  | created hnew heligible hi => rfl

end OneCommand

theorem bump_epoch_ne (fsm : Fsm) : fsm.bump.assignmentsEpoch ≠ fsm.assignmentsEpoch := by
  unfold Fsm.bump
  split
  next hwrap =>
    intro heq
    have htwo : (1 : UInt64) + 1 = 0 := by
      rw [← hwrap]
      exact congrArg (· + 1) heq
    exact absurd htwo (by decide)
  next => simp

theorem step_bump_or_same (fsm : Fsm) (input : Applied) :
    (bumpsEpoch fsm input = true ∧
        (step fsm input).assignmentsEpoch = fsm.bump.assignmentsEpoch) ∨
      (bumpsEpoch fsm input = false ∧
        (step fsm input).assignmentsEpoch = fsm.assignmentsEpoch ∧
        epochMap (step fsm input) = epochMap fsm) := by
  rcases (applyCommand_effect input.cfg input.env fsm input.cmd).bump_or_same with
    hepoch | ⟨hepoch, hmap⟩
  · refine Or.inl ⟨?_, hepoch⟩
    rw [bumpsEpoch, bne_iff_ne, step, hepoch]
    exact bump_epoch_ne fsm
  · refine Or.inr ⟨?_, hepoch, hmap⟩
    rw [bumpsEpoch, step, hepoch, bne_self_eq_false]

/-- A bump below the wrap-around adds one. -/
theorem bump_toNat {fsm : Fsm} (hroom : fsm.assignmentsEpoch.toNat + 1 < 2 ^ 64) :
    fsm.bump.assignmentsEpoch.toNat = fsm.assignmentsEpoch.toNat + 1 := by
  have hsum : (fsm.assignmentsEpoch + 1).toNat = fsm.assignmentsEpoch.toNat + 1 := by
    rw [UInt64.toNat_add]
    exact Nat.mod_eq_of_lt hroom
  unfold Fsm.bump
  split
  next hwrap =>
    rw [hwrap] at hsum
    simp at hsum
  next => exact hsum

theorem step_epoch_toNat {fsm : Fsm} {input : Applied}
    (hroom : fsm.assignmentsEpoch.toNat + (if bumpsEpoch fsm input then 1 else 0) < 2 ^ 64) :
    (step fsm input).assignmentsEpoch.toNat =
      fsm.assignmentsEpoch.toNat + (if bumpsEpoch fsm input then 1 else 0) := by
  rcases step_bump_or_same fsm input with ⟨hbumps, hepoch⟩ | ⟨hbumps, hepoch, _⟩
  · rw [hbumps, if_pos rfl] at hroom ⊢
    rw [hepoch, bump_toNat hroom]
  · rw [hepoch, hbumps, if_neg Bool.false_ne_true, Nat.add_zero]

/-! ## Runs -/

/-- Until it wraps around, the epoch counts the bumps. -/
theorem run_epoch_toNat {fsm : Fsm} {inputs : List Applied}
    (hroom : fsm.assignmentsEpoch.toNat + epochBumps fsm inputs < 2 ^ 64) :
    (Run.run step fsm inputs).assignmentsEpoch.toNat =
      fsm.assignmentsEpoch.toNat + epochBumps fsm inputs := by
  induction inputs generalizing fsm with
  | nil => rfl
  | cons input rest ih =>
      simp only [epochBumps, Run.countSteps] at hroom ⊢
      have hstep : (step fsm input).assignmentsEpoch.toNat = _ :=
        step_epoch_toNat (by omega)
      rw [Run.run_cons, ih (by rw [epochBumps, hstep]; omega), epochBumps, hstep]
      omega

theorem replicaMap_run_of_no_bumps {fsm : Fsm} {inputs : List Applied}
    (hbumps : epochBumps fsm inputs = 0) :
    replicaMap (Run.run step fsm inputs) = replicaMap fsm := by
  induction inputs generalizing fsm with
  | nil => rfl
  | cons input rest ih =>
      simp only [epochBumps, Run.countSteps] at hbumps
      rcases step_bump_or_same fsm input with ⟨hbump, _⟩ | ⟨_, _, hmap⟩
      · rw [hbump, if_pos rfl] at hbumps
        omega
      · rw [Run.run_cons, ih (by rw [epochBumps]; omega), replicaMap_eq_of_epochMap_eq hmap]

/-- No shard is ahead of the assignments epoch. -/
def EpochsBounded (fsm : Fsm) : Prop :=
  ∀ name id shard, fsm.shard? name id = some shard →
    shard.epoch.toNat ≤ fsm.assignmentsEpoch.toNat

section

variable {fsm : Fsm} {input : Applied} (hbounded : EpochsBounded fsm)
  (hroom : fsm.assignmentsEpoch.toNat + (if bumpsEpoch fsm input then 1 else 0) < 2 ^ 64)

include hbounded hroom

/-- What one command does to a surviving shard when the epochs have room. -/
theorem step_shard_epoch {name : String} {id : UInt64} {old new : ShardInfo}
    (hold : fsm.shard? name id = some old) (hnew : (step fsm input).shard? name id = some new) :
    (new.replicas = old.replicas ∧ new.epoch = old.epoch) ∨
      (bumpsEpoch fsm input = true ∧ new.epoch.toNat = old.epoch.toNat + 1) := by
  rcases step_bump_or_same fsm input with ⟨hbumps, _⟩ | ⟨_, _, hmap⟩
  · have hstep := step_shardStep fsm input name id
    rw [hold, hnew] at hstep
    rcases hstep.epoch with hsame | hnext
    · exact Or.inl hsame
    · refine Or.inr ⟨hbumps, ?_⟩
      have hle := hbounded name id old hold
      rw [hbumps, if_pos rfl] at hroom
      rw [hnext, UInt64.toNat_add]
      exact Nat.mod_eq_of_lt (lt_of_le_of_lt (Nat.add_le_add_right hle 1) hroom)
  · have hentry := congrFun (congrFun hmap name) id
    rw [epochMap, epochMap, hold, hnew] at hentry
    obtain ⟨hreplicas, hepoch⟩ := Prod.mk.inj (Option.some.inj hentry)
    exact Or.inl ⟨hreplicas, hepoch⟩

theorem step_epochsBounded :
    EpochsBounded (step fsm input) := by
  intro name id new hnew
  have hepoch := step_epoch_toNat hroom
  cases hold : fsm.shard? name id with
  | some old =>
      have hle := hbounded name id old hold
      rcases step_shard_epoch hbounded hroom hold hnew with ⟨_, hsame⟩ | ⟨hbumps, hnext⟩
      · rw [hsame, hepoch]
        omega
      · rw [hnext, hepoch, hbumps, if_pos rfl]
        omega
  | none =>
      -- a new shard starts at epoch 1, and the creation has bumped the counter
      rcases step_bump_or_same fsm input with ⟨hbumps, _⟩ | ⟨_, _, hmap⟩
      · have hstep := step_shardStep fsm input name id
        rw [hold, hnew] at hstep
        rw [hstep.epoch_of_new, hepoch, hbumps, if_pos rfl]
        exact Nat.le_add_left _ _
      · have hentry := congrFun (congrFun hmap name) id
        rw [epochMap, epochMap, hold, hnew] at hentry
        contradiction

end

theorem run_epochsBounded {fsm : Fsm} {inputs : List Applied} (hbounded : EpochsBounded fsm)
    (hroom : fsm.assignmentsEpoch.toNat + epochBumps fsm inputs < 2 ^ 64) :
    EpochsBounded (Run.run step fsm inputs) := by
  induction inputs generalizing fsm with
  | nil => exact hbounded
  | cons input rest ih =>
      simp only [epochBumps, Run.countSteps] at hroom
      have hstep : (step fsm input).assignmentsEpoch.toNat = _ :=
        step_epoch_toNat (by omega)
      refine ih (step_epochsBounded hbounded (by omega)) ?_
      rw [hstep, epochBumps]
      omega

theorem epochsBounded_newFsm : EpochsBounded newFsm := by
  intro name id shard hshard
  contradiction

theorem epochBumps_append (fsm : Fsm) (first second : List Applied) :
    epochBumps fsm (first ++ second) =
      epochBumps fsm first + epochBumps (Run.run step fsm first) second :=
  Run.countSteps_append _ _ _ _

/-- States of a run between which the epoch does not change have the same replica
lists. -/
theorem replicaMap_eq_of_epoch_eq {fsm : Fsm} {first later : List Applied}
    (hroom : fsm.assignmentsEpoch.toNat + epochBumps fsm (first ++ later) < 2 ^ 64)
    (hepoch : (Run.run step fsm first).assignmentsEpoch =
      (Run.run step fsm (first ++ later)).assignmentsEpoch) :
    replicaMap (Run.run step fsm first) = replicaMap (Run.run step fsm (first ++ later)) := by
  have hnat := congrArg UInt64.toNat hepoch
  have hbumps := epochBumps_append fsm first later
  rw [run_epoch_toNat hroom, run_epoch_toNat (by omega)] at hnat
  have hnone : epochBumps (Run.run step fsm first) later = 0 := by omega
  rw [Run.run_append]
  exact (replicaMap_run_of_no_bumps hnone).symm

/-- What the epochs say about one step of a run. -/
structure EpochStep (before after : Fsm) : Prop where
  epoch_le : before.assignmentsEpoch ≤ after.assignmentsEpoch
  epoch_lt : replicaMap before ≠ replicaMap after →
    before.assignmentsEpoch < after.assignmentsEpoch
  shard_epoch_le : ∀ name id old new, before.shard? name id = some old →
    after.shard? name id = some new → old.epoch ≤ new.epoch
  shard_epoch_lt : ∀ name id old new, before.shard? name id = some old →
    after.shard? name id = some new → old.replicas ≠ new.replicas → old.epoch < new.epoch

theorem epochStep_of_room {fsm : Fsm} {input : Applied} (hbounded : EpochsBounded fsm)
    (hroom : fsm.assignmentsEpoch.toNat + (if bumpsEpoch fsm input then 1 else 0) < 2 ^ 64) :
    EpochStep fsm (step fsm input) := by
  have hepoch := step_epoch_toNat hroom
  refine ⟨?_, ?_, ?_, ?_⟩
  · rw [UInt64.le_iff_toNat_le, hepoch]
    exact Nat.le_add_right _ _
  · intro hne
    rcases step_bump_or_same fsm input with ⟨hbumps, _⟩ | ⟨_, _, hmap⟩
    · rw [UInt64.lt_iff_toNat_lt, hepoch, hbumps, if_pos rfl]
      exact Nat.lt_succ_self _
    · exact absurd (replicaMap_eq_of_epochMap_eq hmap).symm hne
  · intro name id old new hold hnew
    rw [UInt64.le_iff_toNat_le]
    rcases step_shard_epoch hbounded hroom hold hnew with ⟨_, hsame⟩ | ⟨_, hnext⟩
    · rw [hsame]
    · omega
  · intro name id old new hold hnew hne
    rw [UInt64.lt_iff_toNat_lt]
    rcases step_shard_epoch hbounded hroom hold hnew with ⟨hreplicas, _⟩ | ⟨_, hnext⟩
    · exact absurd hreplicas.symm hne
    · omega

/-- In every run with fewer than `2 ^ 64 - 1` epoch bumps, no epoch decreases, every
change of the placement raises the assignments epoch, every change of a surviving
shard's replicas raises the epoch of the shard, and states with equal assignments
epochs have the same shards with the same replica lists. -/
theorem epochs_order_run (inputs : List Applied)
    (hbumps : epochBumps newFsm inputs < 2 ^ 64 - 1) :
    (∀ first input rest, inputs = first ++ input :: rest →
        EpochStep (Run.run step newFsm first) (step (Run.run step newFsm first) input)) ∧
      (∀ first second, first <+: inputs → second <+: inputs →
        (Run.run step newFsm first).assignmentsEpoch =
          (Run.run step newFsm second).assignmentsEpoch →
        replicaMap (Run.run step newFsm first) = replicaMap (Run.run step newFsm second)) := by
  have hone : newFsm.assignmentsEpoch.toNat = 1 := rfl
  refine ⟨?_, ?_⟩
  · rintro first input rest rfl
    have hsplit := epochBumps_append newFsm first (input :: rest)
    have hfirst : newFsm.assignmentsEpoch.toNat + epochBumps newFsm first < 2 ^ 64 := by omega
    refine epochStep_of_room (run_epochsBounded epochsBounded_newFsm hfirst) ?_
    rw [run_epoch_toNat hfirst]
    simp only [epochBumps, Run.countSteps] at hsplit hbumps ⊢
    omega
  · intro first second hfirst hsecond hepoch
    have hroom : ∀ part, part <+: inputs →
        newFsm.assignmentsEpoch.toNat + epochBumps newFsm part < 2 ^ 64 := by
      rintro part ⟨rest, rfl⟩
      have hsplit := epochBumps_append newFsm part rest
      omega
    rcases List.prefix_or_prefix_of_prefix hfirst hsecond with ⟨later, rfl⟩ | ⟨later, rfl⟩
    · exact replicaMap_eq_of_epoch_eq (hroom _ hsecond) hepoch
    · exact (replicaMap_eq_of_epoch_eq (hroom _ hfirst) hepoch.symm).symm

/-- A collection on one worker. A second worker registers, and the shard moves there. -/
theorem epochs_order_run_move :
    let created := startWorkers 1 ++ [appliedAt 0 (.createCollection (.ok { name := "docs" }))]
    let registered := created ++ [appliedAt 0 (.registerWorker (.ok
      { grpcAddress := "grpc-2", raftAddress := "raft-2" }))]
    let move := appliedAt 0 (.moveShard (.ok
      { shardId := 1, sourceWorkerId := 1, targetWorkerId := 2 }))
    epochBumps newFsm (registered ++ [move]) = 2 ∧
      EpochStep (Run.run step newFsm registered)
        (step (Run.run step newFsm registered) move) := by
  intro created registered move
  have hbumps : epochBumps newFsm (registered ++ [move]) = 2 := by
    decide +kernel
  refine ⟨hbumps, ?_⟩
  exact (epochs_order_run (registered ++ [move]) (by rw [hbumps]; decide)).1 registered move [] rfl

/-! ## The wrap-around -/

/-- A move of shard 1 from worker 1 to itself: accepted, and without any change but
that of the epochs. -/
def selfMove : Applied :=
  appliedAt 0 (.moveShard (.ok { shardId := 1, sourceWorkerId := 1, targetWorkerId := 1 }))

/-- States that accept `selfMove`. -/
structure SelfMovable (fsm : Fsm) : Prop where
  found : ∃ name shard, fsm.shard? name 1 = some shard
  holds : ∀ name shard, fsm.shard? name 1 = some shard → 1 ∈ shard.replicas
  registered : (fsm.workers.lookup 1).isSome = true

section

variable {fsm : Fsm} (hmovable : SelfMovable fsm)

include hmovable

theorem step_selfMove :
    ∃ name shard, fsm.shard? name 1 = some shard ∧
      step fsm selfMove =
        (fsm.setShard name 1 (shard.withReplicas (shard.replicas.replace 1 1))).bump := by
  obtain ⟨target, htarget⟩ := Option.isSome_iff_exists.mp hmovable.registered
  cases hfind : findShard (envAt 0) fsm 1 with
  | none =>
      obtain ⟨name, shard, hshard⟩ := hmovable.found
      rw [findShard_eq_none hfind name] at hshard
      contradiction
  | some found =>
      rcases found with ⟨name, shard⟩
      have hshard := findShard_eq_some hfind
      have hsource := hmovable.holds name shard hshard
      refine ⟨name, shard, hshard, ?_⟩
      simp only [step, selfMove, appliedAt, applyCommand, dispatch, applyMoveShard,
        Fallible.exec_get_bind, hfind, hsource, htarget, not_true_eq_false, Option.isNone_some,
        Bool.false_eq_true, ↓reduceIte, Fallible.exec_modify_bind,
        exec_bumpAssignmentsEpochLocked, Outcome.ofExec]

theorem SelfMovable.step :
    SelfMovable (step fsm selfMove) := by
  obtain ⟨name, shard, hshard, hstep⟩ := step_selfMove hmovable
  rw [hstep]
  refine ⟨⟨name, shard.withReplicas (shard.replicas.replace 1 1), ?_⟩, ?_, ?_⟩
  · rw [Fsm.bump_shard?, Fsm.shard?_setShard hshard, if_pos ⟨rfl, rfl⟩]
  · intro name' shard' hshard'
    rw [Fsm.bump_shard?, Fsm.shard?_setShard hshard] at hshard'
    split at hshard'
    next =>
      obtain rfl := Option.some.inj hshard'
      exact (mem_replace (hmovable.holds name shard hshard)).mpr (Or.inl rfl)
    next => exact hmovable.holds name' shard' hshard'
  · rw [Fsm.bump_workers, Fsm.setShard_workers]
    exact hmovable.registered

theorem SelfMovable.step_epoch :
    (Placement.step fsm selfMove).assignmentsEpoch = fsm.bump.assignmentsEpoch := by
  obtain ⟨name, shard, _, hstep⟩ := step_selfMove hmovable
  rw [hstep]
  simp [Fsm.bump]

theorem SelfMovable.bumpsEpoch :
    bumpsEpoch fsm selfMove = true := by
  rcases step_bump_or_same fsm selfMove with ⟨hbumps, _⟩ | ⟨_, hepoch, _⟩
  · exact hbumps
  · rw [hmovable.step_epoch] at hepoch
    exact absurd hepoch (bump_epoch_ne fsm)

theorem SelfMovable.run (count : Nat) :
    SelfMovable (Run.run Placement.step fsm (List.replicate count selfMove)) ∧
      epochBumps fsm (List.replicate count selfMove) = count := by
  induction count generalizing fsm with
  | zero => exact ⟨hmovable, rfl⟩
  | succ count ih =>
      obtain ⟨hlast, hbumps⟩ := ih hmovable.step
      rw [List.replicate_succ, Run.run_cons]
      refine ⟨hlast, ?_⟩
      rw [epochBumps] at hbumps ⊢
      rw [Run.countSteps, hmovable.bumpsEpoch, hbumps, if_pos rfl, Nat.add_comm]

end

/-- A collection with one shard on one worker. -/
def oneShard : List Applied :=
  startWorkers 1 ++ [appliedAt 0 (.createCollection (.ok { name := "docs" }))]

theorem selfMovable_oneShard : SelfMovable (Run.run step newFsm oneShard) := by
  have hshards : ∀ entry ∈ (Run.run step newFsm oneShard).collections.entries,
      ∀ shard ∈ entry.2.shards.lookup 1, 1 ∈ shard.replicas := by
    decide +kernel
  have hfound : ((Run.run step newFsm oneShard).shard? "docs" 1).isSome = true := by
    decide +kernel
  refine ⟨⟨"docs", Option.isSome_iff_exists.mp hfound⟩, ?_, by decide +kernel⟩
  intro name shard hshard
  obtain ⟨coll, hcoll, hlookup⟩ := Fsm.shard?_eq_some.mp hshard
  exact hshards ⟨name, coll⟩ (AList.mem_lookup_iff.mp hcoll) shard hlookup

/-- The bump number `2 ^ 64 - 1` takes the epoch from its maximum back to 1. -/
theorem epoch_wraps_around :
    ∃ first : List Applied,
      epochBumps newFsm (first ++ [selfMove]) < 2 ^ 64 ∧
        (step (Run.run step newFsm first) selfMove).assignmentsEpoch <
          (Run.run step newFsm first).assignmentsEpoch := by
  -- the number of moves stays a variable, so that nothing tries to build the run
  obtain ⟨count, hcount⟩ : ∃ count, count = 2 ^ 64 - 3 := ⟨_, rfl⟩
  obtain ⟨hlast, hbumps⟩ := selfMovable_oneShard.run count
  have hstart : (Run.run step newFsm oneShard).assignmentsEpoch.toNat = 2 := by
    decide +kernel
  have hfirst : epochBumps newFsm oneShard = 1 := by
    decide +kernel
  have hmax := run_epoch_toNat (by rw [hstart, hbumps]; omega :
    (Run.run step newFsm oneShard).assignmentsEpoch.toNat +
      epochBumps _ (List.replicate count selfMove) < 2 ^ 64)
  rw [hstart, hbumps, ← Run.run_append] at hmax
  rw [← Run.run_append] at hlast
  refine ⟨oneShard ++ List.replicate count selfMove, ?_, ?_⟩
  · rw [epochBumps_append, epochBumps_append, hfirst, hbumps]
    have hone : epochBumps _ [selfMove] = 1 := (hlast.run 1).2
    rw [hone]
    omega
  · have hzero : (Run.run step newFsm (oneShard ++ List.replicate count selfMove)).assignmentsEpoch
        + 1 = 0 := by
      rw [← UInt64.toNat_inj, UInt64.toNat_add, hmax, hcount]
      rfl
    rw [hlast.step_epoch, Fsm.bump, if_pos hzero, UInt64.lt_iff_toNat_lt, hmax, hcount]
    decide

end Vectron.Placement
