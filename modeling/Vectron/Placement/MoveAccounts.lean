import Vectron.Placement.MoveSafety

/-! # Accounts of moves

The two halves of a move are proposals whose rejection by the state machine the manager
does not see. An account of every change of the replica list since the look that started
the move, with who made it, says what the move itself contributed when it completes.
-/

namespace Vectron.Placement

open Foundation

/-! ## Accounts -/

/-- A change of a replica list, made by the move or by someone else. -/
structure ReplicaChange where
  own : Bool
  before : List UInt64
  after : List UInt64
deriving DecidableEq

/-- The changes of the replicas of a shard since its last move was started. -/
structure Account where
  serial : Nat := 0
  start : List UInt64 := []
  changes : List ReplicaChange := []
deriving DecidableEq

namespace Account

variable (account : Account)

def ownChanges : List ReplicaChange := account.changes.filter ReplicaChange.own

/-- What the changes of everyone else add to a measure of the list. -/
def others (measure : List UInt64 → Int) : Int :=
  ((account.changes.filter fun change => !change.own).map fun change =>
    measure change.after - measure change.before).sum

/-- An account after a step that may have changed the replica list. -/
def record (own : Bool) (before after : List UInt64) : Account :=
  if after = before then account
  else { account with changes := account.changes ++ [⟨own, before, after⟩] }

end Account

/-- The replicas of the shard under an id. -/
def replicasOf (fsm : Fsm) (shardId : UInt64) : List UInt64 :=
  ((shardsUnder fsm shardId).head?.map ShardInfo.replicas).getD []

namespace Driver

variable (driver : Driver)

/-- The move that a step starts, with the shard it was started for. -/
def starting? : DriverInput → Option (RebalanceMove × ShardInfo)
  | .execute orders =>
      if driver.waiting.isSome ∨ driver.slots = 0 then none
      else
        (driver.planned.head?.filter fun move =>
          (driver.inflightMoves.lookup move.shardId).isNone).bind fun move =>
            match executeMove (driver.env orders) driver.fsm driver.clock move with
            | .error _ => none
            | .ok shard => some (move, shard)
  | _ => none

/-- The proposal whose command a step applies. -/
def applying? : DriverInput → Option Pending
  | .settle (.applied _ _) => driver.waiting
  | .lateApply position _ _ => driver.late[position]?
  | _ => none

/-- The move that a step completes. -/
def completed? : DriverInput → Option InflightMove
  | .advance cfg orders shardId =>
      if driver.waiting.isSome then none
      else
        (driver.inflightMoves.lookup shardId).filter fun inflight =>
          match (driver.view cfg orders).advanceMove shardId inflight with
          | .complete => true
          | _ => false
  | _ => none

end Driver

/-- A driver with an account for every shard. -/
structure Tracked where
  driver : Driver
  account : UInt64 → Account

namespace Tracked

variable (tracked : Tracked)

/-- The step applies a proposal of the move of a shard. -/
def owns (input : DriverInput) (shardId : UInt64) : Bool :=
  (tracked.driver.applying? input).any fun pending =>
    pending.shardId == shardId && pending.serial == (tracked.account shardId).serial

/-- The account of a shard goes on with a change, or starts anew with a move. -/
def nextAccount (input : DriverInput) (shardId : UInt64) : Account :=
  let before := replicasOf tracked.driver.fsm shardId
  match tracked.driver.starting? input with
  | some (move, _) =>
      if move.shardId = shardId then { serial := tracked.driver.nextSerial, start := before }
      else tracked.account shardId
  | none =>
      (tracked.account shardId).record (tracked.owns input shardId) before
        (replicasOf (tracked.driver.step input).fsm shardId)

def step (input : DriverInput) : Tracked where
  driver := tracked.driver.step input
  account := tracked.nextAccount input

end Tracked

/-- A new driver, with empty accounts. -/
def newTracked : Tracked where
  driver := newDriver
  account _ := {}

/-! ## Conservation -/

/-- How often a worker stands in a replica list. -/
def occurrences (workerId : UInt64) (replicas : List UInt64) : Int := replicas.count workerId

/-- The source was replaced by the target, up to the changes of others: every worker
stands in the list as often as at the start, but for the source and the target. -/
structure Replaced (account : Account) (replicas : List UInt64) (move : RebalanceMove) :
    Prop where
  exactly : ∀ workerId, occurrences workerId replicas =
    occurrences workerId account.start + (if workerId = move.targetWorkerId then 1 else 0) -
      (if workerId = move.sourceWorkerId then 1 else 0) + account.others (occurrences workerId)
  count : (replicas.length : Int) =
    account.start.length + account.others fun list => list.length
  absent : account.start.Nodup → account.others (occurrences move.sourceWorkerId) ≤ 0 →
    move.sourceWorkerId ∉ replicas
  present : 0 ≤ account.others (occurrences move.targetWorkerId) → move.targetWorkerId ∈ replicas

/-- A move that a step completes has replaced its source by its target. -/
def Conserves (tracked : Tracked) (input : DriverInput) : Prop :=
  ∀ inflight ∈ tracked.driver.completed? input,
    Replaced (tracked.account inflight.move.shardId)
      (replicasOf tracked.driver.fsm inflight.move.shardId) inflight.move

/-- The removal is performed, unless the move has removed its source already: then the
command finds nothing to remove. -/
def RemovesOnce (account : Account) (cfg : Config) (env : Env) (fsm : Fsm)
    (shardId sourceId : UInt64) : Prop :=
  if account.ownChanges.length = 1 then
    performed cfg env (Repair.removeReplica shardId sourceId).command fsm = true
  else sourceId ∉ replicasOf fsm shardId

/-- What a proposal of a move must find where it is applied. -/
def Pending.Effective (pending : Pending) (account : Account) (cfg : Config) (env : Env)
    (fsm : Fsm) : Prop :=
  match pending.purpose, pending.repair with
  | .start _ _, .addReplica shardId targetId =>
      performed cfg env (Repair.addReplica shardId targetId).command fsm = true ∧
        targetId ∉ replicasOf fsm shardId
  | .remove, .removeReplica shardId sourceId =>
      RemovesOnce account cfg env fsm shardId sourceId
  | _, _ => True

/-- A step in which no half of a move gets lost: a move is started for a target that is
no replica, its proposals are performed where they are applied, and a look that finds the
source gone finds it removed by the move. -/
def Effective (tracked : Tracked) (input : DriverInput) : Prop :=
  (∀ applied ∈ tracked.driver.applied? input, IdsAdvance tracked.driver.fsm applied) ∧
  (∀ started ∈ tracked.driver.starting? input,
    started.1.targetWorkerId ∉ started.2.replicas) ∧
  match input with
  | .settle (.applied cfg env) => ∀ pending ∈ tracked.driver.waiting,
      pending.Effective (tracked.account pending.shardId) cfg env tracked.driver.fsm
  | .lateApply position cfg env => ∀ pending ∈ tracked.driver.late[position]?,
      ∀ inflight ∈ tracked.driver.inflightMoves.lookup pending.shardId,
        inflight.serial = pending.serial →
          pending.Effective (tracked.account pending.shardId) cfg env tracked.driver.fsm
  | .advance _ _ shardId => ∀ inflight ∈ tracked.driver.inflightMoves.lookup shardId,
      inflight.phase = .remove →
        inflight.move.sourceWorkerId ∉ replicasOf tracked.driver.fsm shardId →
          (tracked.account shardId).ownChanges.length = 2
  | _ => True

instance (account : Account) (cfg : Config) (env : Env) (fsm : Fsm) (shardId sourceId : UInt64) :
    Decidable (RemovesOnce account cfg env fsm shardId sourceId) := by
  delta RemovesOnce
  infer_instance

instance (pending : Pending) (account : Account) (cfg : Config) (env : Env) (fsm : Fsm) :
    Decidable (pending.Effective account cfg env fsm) := by
  rcases pending with ⟨serial, shardId, purpose, repair⟩
  cases purpose <;> cases repair
  all_goals
    delta Pending.Effective
    infer_instance

instance (tracked : Tracked) (input : DriverInput) : Decidable (Effective tracked input) := by
  casesm* DriverInput, Settlement
  all_goals
    delta Effective
    infer_instance

/-! ## Reading the accounts -/

/-- The changes lead from the first list to the last. -/
def Linked : List UInt64 → List ReplicaChange → List UInt64 → Prop
  | start, [], now => start = now
  | start, change :: rest, now => change.before = start ∧ Linked change.after rest now

theorem Linked.append {start now : List UInt64} {changes : List ReplicaChange}
    (hlinked : Linked start changes now) (own : Bool) (after : List UInt64) :
    Linked start (changes ++ [⟨own, now, after⟩]) after := by
  induction changes generalizing start with
  | nil => exact ⟨hlinked.symm, rfl⟩
  | cons change rest ih => exact ⟨hlinked.1, ih hlinked.2⟩

section

variable (account : Account) (own : Bool) (before after : List UInt64)

@[simp] theorem Account.record_serial :
    (account.record own before after).serial = account.serial := by
  unfold record
  split <;> rfl

theorem Account.record_ownChanges :
    (account.record own before after).ownChanges =
      if own = true ∧ after ≠ before then account.ownChanges ++ [⟨own, before, after⟩]
      else account.ownChanges := by
  unfold record ownChanges
  by_cases hsame : after = before
  · rw [if_pos hsame, if_neg fun hboth => hboth.2 hsame]
  · rw [if_neg hsame, List.filter_append]
    cases own with
    | false => simp
    | true => simp [hsame]

theorem Account.record_linked {account : Account} {own : Bool} {before after : List UInt64}
    (hlinked : Linked account.start account.changes before) :
    Linked (account.record own before after).start (account.record own before after).changes
      after := by
  unfold record
  split
  next hsame =>
    rw [hsame]
    exact hlinked
  next => exact hlinked.append own after

end

/-- The move has added its target and nothing else. -/
def Added (account : Account) (move : RebalanceMove) : Prop :=
  ∃ first, account.ownChanges = [first] ∧
    first.after = first.before ++ [move.targetWorkerId] ∧ move.targetWorkerId ∉ first.before

/-- The move has added its target and then removed its source. -/
def Swapped (account : Account) (move : RebalanceMove) : Prop :=
  ∃ first second, account.ownChanges = [first, second] ∧
    first.after = first.before ++ [move.targetWorkerId] ∧
    second.after = second.before.erase move.sourceWorkerId ∧
    move.sourceWorkerId ∈ second.before

/-- A measure of the list adds up along the changes. -/
theorem Linked.sum {start now : List UInt64} {changes : List ReplicaChange}
    (hlinked : Linked start changes now) (measure : List UInt64 → Int) :
    measure now = measure start +
      (changes.map fun change => measure change.after - measure change.before).sum := by
  induction changes generalizing start with
  | nil =>
      obtain rfl : start = now := hlinked
      simp
  | cons change rest ih =>
      obtain ⟨rfl, hrest⟩ := hlinked
      rw [ih hrest, List.map_cons, List.sum_cons]
      omega

/-- The changes are those of the move and those of the others. -/
theorem Account.sum_changes (account : Account) (measure : List UInt64 → Int) :
    (account.changes.map fun change => measure change.after - measure change.before).sum =
      (account.ownChanges.map fun change => measure change.after - measure change.before).sum +
        account.others measure := by
  unfold ownChanges others
  induction account.changes with
  | nil => rfl
  | cons change rest ih =>
      cases hown : change.own with
      | true =>
          rw [List.filter_cons_of_pos hown, List.filter_cons_of_neg (by simp [hown])]
          simp only [List.map_cons, List.sum_cons]
          omega
      | false =>
          rw [List.filter_cons_of_neg (by simp [hown]), List.filter_cons_of_pos (by simp [hown])]
          simp only [List.map_cons, List.sum_cons]
          omega

theorem Swapped.measure {account : Account} {move : RebalanceMove} {replicas : List UInt64}
    (hswapped : Swapped account move) (hlinked : Linked account.start account.changes replicas)
    (measure : List UInt64 → Int) :
    ∃ first second : List UInt64, move.sourceWorkerId ∈ second ∧
      measure replicas = measure account.start +
        (measure (first ++ [move.targetWorkerId]) - measure first) +
        (measure (second.erase move.sourceWorkerId) - measure second) +
          account.others measure := by
  obtain ⟨first, second, hown, hfirst, hsecond, hsource⟩ := hswapped
  refine ⟨first.before, second.before, hsource, ?_⟩
  rw [hlinked.sum measure, account.sum_changes measure, hown, ← hfirst, ← hsecond]
  simp only [List.map_cons, List.map_nil, List.sum_cons, List.sum_nil]
  omega

theorem occurrences_append (workerId targetId : UInt64) (replicas : List UInt64) :
    occurrences workerId (replicas ++ [targetId]) - occurrences workerId replicas =
      if workerId = targetId then 1 else 0 := by
  unfold occurrences
  rw [List.count_append, List.count_singleton]
  by_cases heq : workerId = targetId
  · simp [heq]
  · simp [heq, Ne.symm heq]

theorem occurrences_erase (workerId : UInt64) {sourceId : UInt64} {replicas : List UInt64}
    (hsource : sourceId ∈ replicas) :
    occurrences workerId (replicas.erase sourceId) - occurrences workerId replicas =
      - if workerId = sourceId then 1 else 0 := by
  unfold occurrences
  by_cases heq : workerId = sourceId
  · subst heq
    have hpositive := List.count_pos_iff.mpr hsource
    rw [List.count_erase_self, if_pos rfl]
    omega
  · rw [List.count_erase_of_ne heq, if_neg heq]
    omega

/-- A completed swap, read off the list. -/
theorem Swapped.replaced {account : Account} {move : RebalanceMove} {replicas : List UInt64}
    (hswapped : Swapped account move) (hlinked : Linked account.start account.changes replicas)
    (hdistinct : move.sourceWorkerId ≠ move.targetWorkerId) : Replaced account replicas move := by
  have hexactly : ∀ workerId, occurrences workerId replicas =
      occurrences workerId account.start + (if workerId = move.targetWorkerId then 1 else 0) -
        (if workerId = move.sourceWorkerId then 1 else 0) +
          account.others (occurrences workerId) := by
    intro workerId
    obtain ⟨first, second, hsource, hsum⟩ := hswapped.measure hlinked (occurrences workerId)
    rw [occurrences_append, occurrences_erase workerId hsource] at hsum
    omega
  refine ⟨hexactly, ?_, ?_, ?_⟩
  · obtain ⟨first, second, hsource, hsum⟩ :=
      hswapped.measure hlinked fun list => (list.length : Int)
    have hpositive := List.length_pos_of_mem hsource
    simp only [List.length_append, List.length_singleton, List.length_erase_of_mem hsource] at hsum
    omega
  · intro hnodup hothers
    have hsource := hexactly move.sourceWorkerId
    rw [if_neg hdistinct, if_pos rfl] at hsource
    have honce : occurrences move.sourceWorkerId account.start ≤ 1 := by
      unfold occurrences
      exact_mod_cast List.nodup_iff_count_le_one.mp hnodup move.sourceWorkerId
    unfold occurrences at hsource honce hothers
    rw [← List.count_eq_zero]
    omega
  · intro hothers
    have htarget := hexactly move.targetWorkerId
    rw [if_pos rfl, if_neg hdistinct.symm] at htarget
    unfold occurrences at htarget hothers
    rw [← List.count_pos_iff]
    omega

/-! ## What the proposals of a move do to the list -/

theorem replicasOf_eq {fsm : Fsm} {issued : List (String × UInt64)}
    (hledger : ShardLedger fsm issued) {shardId : UInt64} {shard : ShardInfo}
    (hshard : shard ∈ shardsUnder fsm shardId) : replicasOf fsm shardId = shard.replicas := by
  unfold replicasOf
  cases hshards : shardsUnder fsm shardId with
  | nil =>
      rw [hshards] at hshard
      cases hshard
  | cons head rest =>
      have hhead : head ∈ shardsUnder fsm shardId := by
        rw [hshards]
        exact List.mem_cons_self
      rw [eq_of_mem_shardsUnder hledger hshard hhead]
      rfl

theorem mem_shardsUnder_of_findShard {env : Env} {fsm : Fsm} {shardId : UInt64} {name : String}
    {shard : ShardInfo} (hfind : findShard env fsm shardId = some (name, shard)) :
    shard ∈ shardsUnder fsm shardId :=
  mem_shardsUnder.mpr ⟨name, findShard_eq_some hfind⟩

section

variable {cfg : Config} {env : Env} {fsm : Fsm} {issued issued' : List (String × UInt64)}
  {shardId replicaId : UInt64}

section

variable (hledger : ShardLedger fsm issued)

include hledger

theorem step_addReplica
    (hledger' : ShardLedger (step fsm ⟨cfg, env, (Repair.addReplica shardId replicaId).command⟩) issued')
    (hperformed : performed cfg env (Repair.addReplica shardId replicaId).command fsm = true)
    (habsent : replicaId ∉ replicasOf fsm shardId) :
    replicasOf (step fsm ⟨cfg, env, (Repair.addReplica shardId replicaId).command⟩) shardId =
      replicasOf fsm shardId ++ [replicaId] := by
  obtain ⟨name, shard, worker, hfind, hworker, hready, hfresh, hroom⟩ :=
    (performed_addReplica cfg env fsm shardId replicaId).mp hperformed
  have hreplicas := replicasOf_eq hledger (mem_shardsUnder_of_findShard hfind)
  rw [hreplicas] at habsent ⊢
  have hroom' : shard.replicas.length < maxReplicationFactor := hroom.resolve_left habsent
  have hstep : step fsm ⟨cfg, env, (Repair.addReplica shardId replicaId).command⟩ =
      (fsm.setShard name shardId
        (shard.withReplicas (shard.replicas ++ [replicaId]))).bump := by
    simp [step, Repair.command, applyCommand, dispatch, applyAddShardReplica,
      Fallible.exec_get_bind, hfind, hworker, hready, not_le.mpr hfresh, habsent,
      not_le.mpr hroom', Outcome.ofExec, exec_bumpAssignmentsEpochLocked]
  rw [hstep] at hledger' ⊢
  have hmem : shard.withReplicas (shard.replicas ++ [replicaId]) ∈ shardsUnder
      (fsm.setShard name shardId (shard.withReplicas (shard.replicas ++ [replicaId]))).bump
        shardId := by
    refine mem_shardsUnder.mpr ⟨name, ?_⟩
    rw [Fsm.bump_shard?, Fsm.shard?_setShard (findShard_eq_some hfind)]
    exact if_pos ⟨rfl, rfl⟩
  exact replicasOf_eq hledger' hmem

theorem step_removeReplica
    (hledger' : ShardLedger (step fsm ⟨cfg, env,
      (Repair.removeReplica shardId replicaId).command⟩) issued')
    (hperformed : performed cfg env (Repair.removeReplica shardId replicaId).command fsm = true) :
    replicaId ∈ replicasOf fsm shardId ∧
      replicasOf (step fsm ⟨cfg, env, (Repair.removeReplica shardId replicaId).command⟩) shardId =
        (replicasOf fsm shardId).erase replicaId := by
  obtain ⟨name, shard, hfind, hreplica, hspare⟩ :=
    (performed_removeReplica cfg env fsm shardId replicaId).mp hperformed
  rw [replicasOf_eq hledger (mem_shardsUnder_of_findShard hfind)]
  have hmin : ¬ shard.replicas.length - 1 < minAllowed cfg shard := fun hlt =>
    absurd hspare (not_lt.mpr ((minAllowed_le_iff cfg hreplica).mp hlt))
  have hstep : step fsm ⟨cfg, env, (Repair.removeReplica shardId replicaId).command⟩ =
      (fsm.setShard name shardId
        (shard.withReplicas (shard.replicas.erase replicaId))).bump := by
    simp [step, Repair.command, applyCommand, dispatch, applyRemoveShardReplica,
      Fallible.exec_get_bind, hfind, hreplica, hmin, Outcome.ofExec,
      exec_bumpAssignmentsEpochLocked]
  rw [hstep] at hledger' ⊢
  have hmem : shard.withReplicas (shard.replicas.erase replicaId) ∈ shardsUnder
      (fsm.setShard name shardId (shard.withReplicas (shard.replicas.erase replicaId))).bump
        shardId := by
    refine mem_shardsUnder.mpr ⟨name, ?_⟩
    rw [Fsm.bump_shard?, Fsm.shard?_setShard (findShard_eq_some hfind)]
    exact if_pos ⟨rfl, rfl⟩
  exact ⟨hreplica, replicasOf_eq hledger' hmem⟩

/-- A replica that is not there is not removed. -/
theorem step_removeReplica_of_absent (habsent : replicaId ∉ replicasOf fsm shardId) :
    replicasOf (step fsm ⟨cfg, env, (Repair.removeReplica shardId replicaId).command⟩) shardId =
      replicasOf fsm shardId := by
  have hstep : step fsm ⟨cfg, env, (Repair.removeReplica shardId replicaId).command⟩ = fsm := by
    cases hfind : findShard env fsm shardId with
    | none =>
        simp [step, Repair.command, applyCommand, dispatch, applyRemoveShardReplica,
          Fallible.exec_get_bind, hfind, Outcome.ofExec]
    | some found =>
        rcases found with ⟨name, shard⟩
        rw [replicasOf_eq hledger (mem_shardsUnder_of_findShard hfind)] at habsent
        simp [step, Repair.command, applyCommand, dispatch, applyRemoveShardReplica,
          Fallible.exec_get_bind, hfind, habsent, Outcome.ofExec]
  rw [hstep]

end

end

/-! ## The accounts along a step -/

namespace Tracked

variable {tracked : Tracked} {input : DriverInput}

section

variable {applied : Applied} (happlied : tracked.driver.applied? input = some applied)

include happlied

theorem starting?_of_applied :
    tracked.driver.starting? input = none := by
  cases input with
  | execute orders => cases happlied
  | _ => rfl

theorem fsm_of_applied :
    (tracked.step input).driver.fsm = Placement.step tracked.driver.fsm applied := by
  have hfsm := (tracked.driver.step_world input).fsm
  rw [happlied] at hfsm
  exact hfsm

end

theorem fsm_of_unapplied (happlied : tracked.driver.applied? input = none) :
    (tracked.step input).driver.fsm = tracked.driver.fsm := by
  have hfsm := (tracked.driver.step_world input).fsm
  rw [happlied] at hfsm
  exact hfsm

theorem account_of_applied {applied : Applied}
    (happlied : tracked.driver.applied? input = some applied) (shardId : UInt64) :
    (tracked.step input).account shardId =
      (tracked.account shardId).record (tracked.owns input shardId)
        (replicasOf tracked.driver.fsm shardId)
        (replicasOf (Placement.step tracked.driver.fsm applied) shardId) := by
  have hfsm : (tracked.driver.step input).fsm = Placement.step tracked.driver.fsm applied :=
    fsm_of_applied happlied
  simp only [step, nextAccount, starting?_of_applied happlied, hfsm]

theorem account_of_quiet (happlied : tracked.driver.applied? input = none)
    (hstarting : tracked.driver.starting? input = none) (shardId : UInt64) :
    (tracked.step input).account shardId = tracked.account shardId := by
  have hfsm : (tracked.driver.step input).fsm = tracked.driver.fsm := fsm_of_unapplied happlied
  simp only [step, nextAccount, hstarting, hfsm, Account.record, if_true]

theorem serial_of_unstarted (hstarting : tracked.driver.starting? input = none)
    (shardId : UInt64) :
    ((tracked.step input).account shardId).serial = (tracked.account shardId).serial := by
  simp only [step, nextAccount, hstarting, Account.record_serial]

theorem ownChanges_of_unowned (hstarting : tracked.driver.starting? input = none)
    {shardId : UInt64} (howns : tracked.owns input shardId = false) :
    ((tracked.step input).account shardId).ownChanges =
      (tracked.account shardId).ownChanges := by
  simp only [step, nextAccount, hstarting, howns, Account.record_ownChanges]
  exact if_neg fun hboth => Bool.false_ne_true hboth.1

/-- The account follows the replica list. -/
def Follows (tracked : Tracked) : Prop :=
  ∀ shardId, Linked (tracked.account shardId).start (tracked.account shardId).changes
    (replicasOf tracked.driver.fsm shardId)

theorem Follows.step (hfollows : Follows tracked) (input : DriverInput) :
    Follows (tracked.step input) := by
  intro shardId
  show Linked (tracked.nextAccount input shardId).start
    (tracked.nextAccount input shardId).changes (replicasOf (tracked.driver.step input).fsm shardId)
  unfold nextAccount
  simp only
  cases hstarting : tracked.driver.starting? input with
  | none => exact Account.record_linked (hfollows shardId)
  | some started =>
      have happlied : tracked.driver.applied? input = none := by
        cases input with
        | execute orders => rfl
        | _ => cases hstarting
      have hfsm : (tracked.driver.step input).fsm = tracked.driver.fsm := fsm_of_unapplied happlied
      rw [hfsm]
      simp only
      split
      next => exact rfl
      next => exact hfollows shardId

end Tracked

end Vectron.Placement
