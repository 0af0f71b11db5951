import Vectron.Placement.Identifiers
import Vectron.Placement.Rebalance

/-! # What a step does to a move

A step of the placement driver seen from the record of one move in flight. `MoveStep`
lists what can become of the record, `Consistent` says what the manager waits for, and
the state and the tables change by commands and reports only. The properties of moves
are proved by cases on these lists.
-/

namespace Vectron.Placement

open Foundation

namespace Driver

/-! ## The record of one shard -/

section

variable (driver : Driver)

theorem revise_lookup (shardId : UInt64) (change : InflightMove → InflightMove)
    (other : UInt64) :
    (driver.revise shardId change).inflightMoves.lookup other =
      if other = shardId then (driver.inflightMoves.lookup shardId).map change
      else driver.inflightMoves.lookup other := by
  unfold revise
  cases hlookup : driver.inflightMoves.lookup shardId with
  | none =>
      by_cases hother : other = shardId
      · subst hother
        simp [hlookup]
      · simp [hother]
  | some inflight => simp [GoMap.lookup_insert_if]

theorem forget_lookup (shardId other : UInt64) :
    (driver.forget shardId).inflightMoves.lookup other =
      if other = shardId then none else driver.inflightMoves.lookup other :=
  GoMap.lookup_erase_if _ _ _

theorem begin_lookup (serial : Nat) (move : RebalanceMove) (shard : ShardInfo)
    (addedByMove : Bool) (other : UInt64) :
    (driver.begin serial move shard addedByMove).inflightMoves.lookup other =
      if other = move.shardId then some (driver.newMove serial move shard addedByMove)
      else driver.inflightMoves.lookup other :=
  GoMap.lookup_insert_if _ _ _ _

/-- The manager writes its own records only. -/
structure SameWorld (driver next : Driver) : Prop where
  fsm : next.fsm = driver.fsm
  tables : next.tables = driver.tables
  clock : next.clock = driver.clock
  passStart : next.passStart = driver.passStart

variable {driver} in
theorem SameWorld.trans {next last : Driver} (hfirst : SameWorld driver next)
    (hsecond : SameWorld next last) : SameWorld driver last where
  fsm := hsecond.fsm.trans hfirst.fsm
  tables := hsecond.tables.trans hfirst.tables
  clock := hsecond.clock.trans hfirst.clock
  passStart := hsecond.passStart.trans hfirst.passStart

theorem revise_sameWorld (shardId : UInt64) (change : InflightMove → InflightMove) :
    SameWorld driver (driver.revise shardId change) := by
  unfold revise
  split <;> exact ⟨rfl, rfl, rfl, rfl⟩

theorem acknowledge_sameWorld (pending : Pending) :
    SameWorld driver (driver.acknowledge pending) := by
  unfold acknowledge
  split
  next => exact ⟨rfl, rfl, rfl, rfl⟩
  next => exact driver.revise_sameWorld _ _
  next => exact driver.revise_sameWorld _ _
  next => exact ⟨rfl, rfl, rfl, rfl⟩

theorem giveUp_sameWorld (pending : Pending) : SameWorld driver (driver.giveUp pending) := by
  unfold giveUp
  split
  next => exact ⟨rfl, rfl, rfl, rfl⟩
  next => exact driver.revise_sameWorld _ _

theorem advance_sameWorld (cfg : Config) (orders : Orders) (shardId : UInt64) :
    SameWorld driver (driver.advance cfg orders shardId) := by
  unfold advance
  split
  next => exact ⟨rfl, rfl, rfl, rfl⟩
  next inflight _ =>
    split
    next inflight' _ => exact driver.revise_sameWorld _ _
    next purpose repair inflight' _ =>
      exact (driver.revise_sameWorld shardId fun _ => inflight').trans ⟨rfl, rfl, rfl, rfl⟩
    next => exact ⟨rfl, rfl, rfl, rfl⟩
    next => exact ⟨rfl, rfl, rfl, rfl⟩

theorem execute_sameWorld (orders : Orders) : SameWorld driver (driver.execute orders) := by
  unfold execute
  split
  next => exact ⟨rfl, rfl, rfl, rfl⟩
  next move rest _ =>
    split
    next => exact ⟨rfl, rfl, rfl, rfl⟩
    next =>
      split
      next => exact ⟨rfl, rfl, rfl, rfl⟩
      next =>
        split
        next => exact ⟨rfl, rfl, rfl, rfl⟩
        next =>
          simp only
          split <;> exact ⟨rfl, rfl, rfl, rfl⟩

@[simp] theorem revise_waiting (shardId : UInt64) (change : InflightMove → InflightMove) :
    (driver.revise shardId change).waiting = driver.waiting := by
  unfold revise
  split <;> rfl

theorem acknowledge_waiting (pending : Pending) :
    (driver.acknowledge pending).waiting = driver.waiting := by
  unfold acknowledge
  split
  next => rfl
  next => exact driver.revise_waiting _ _
  next => exact driver.revise_waiting _ _
  next => rfl

theorem giveUp_waiting (pending : Pending) : (driver.giveUp pending).waiting = driver.waiting := by
  unfold giveUp
  split
  next => rfl
  next => exact driver.revise_waiting _ _

/-- The command that a step applies to the state, if it applies one. -/
def applied? : DriverInput → Option Applied
  | .command applied => some applied
  | .settle (.applied cfg env) =>
      driver.waiting.map fun pending => ⟨cfg, env, pending.repair.command⟩
  | .lateApply position cfg env =>
      driver.late[position]?.map fun pending => ⟨cfg, env, pending.repair.command⟩
  | _ => none

/-- What a step changes outside the records of the manager. -/
structure WorldStep (input : DriverInput) : Prop where
  fsm : (driver.step input).fsm =
    (driver.applied? input).elim driver.fsm (Placement.step driver.fsm)
  /-- Only the handler of a heartbeat writes the tables. -/
  tables : (driver.step input).tables =
    match input with
    | .report orders req => driver.tables.record (driver.env orders) driver.fsm driver.clock req
    | _ => driver.tables
  clock : driver.clock ≤ (driver.step input).clock
  passStart : (driver.step input).passStart = driver.passStart ∨
    (driver.step input).passStart = driver.clock

variable {driver} in
/-- A step that applies no command and is no report. -/
theorem WorldStep.of_sameWorld {input : DriverInput}
    (hsame : SameWorld driver (driver.step input)) (happlied : driver.applied? input = none)
    (hreport : ∀ orders req, input ≠ .report orders req) : WorldStep driver input where
  fsm := by
    rw [happlied]
    exact hsame.fsm
  tables := by
    cases input with
    | report orders req => exact absurd rfl (hreport orders req)
    | _ => exact hsame.tables
  clock := hsame.clock.ge
  passStart := Or.inl hsame.passStart

theorem step_world (input : DriverInput) : WorldStep driver input := by
  cases input with
  | command applied
  | report orders req => exact ⟨rfl, rfl, le_rfl, Or.inl rfl⟩
  | wait elapsed => exact ⟨rfl, rfl, Int.le_add_of_nonneg_right (Int.natCast_nonneg _), Or.inl rfl⟩
  | startPass =>
      cases hwaiting : driver.waiting with
      | none =>
          have hstep : driver.step .startPass = { driver with passStart := driver.clock } := by
            simp [step, hwaiting]
          constructor <;> simp [hstep, applied?]
      | some pending =>
          refine .of_sameWorld ?_ rfl fun _ _ => by simp
          simp only [step, hwaiting, Option.isSome_some, if_true]
          exact ⟨rfl, rfl, rfl, rfl⟩
  | advance cfg orders shardId =>
      refine .of_sameWorld ?_ rfl fun _ _ => by simp
      rw [step]
      split
      next => exact ⟨rfl, rfl, rfl, rfl⟩
      next => exact driver.advance_sameWorld cfg orders shardId
  | plan cfg config orders =>
      refine .of_sameWorld ?_ rfl fun _ _ => by simp
      rw [step]
      split <;> exact ⟨rfl, rfl, rfl, rfl⟩
  | execute orders =>
      refine .of_sameWorld ?_ rfl fun _ _ => by simp
      rw [step]
      split
      next => exact ⟨rfl, rfl, rfl, rfl⟩
      next => exact driver.execute_sameWorld orders
  | settle settlement =>
      cases hwaiting : driver.waiting with
      | none =>
          have hstep : driver.step (.settle settlement) = driver := by
            simp [step, hwaiting]
          refine .of_sameWorld ?_ ?_ fun _ _ => by simp
          · rw [hstep]
            exact ⟨rfl, rfl, rfl, rfl⟩
          · cases settlement <;> simp [applied?, hwaiting]
      | some pending =>
          cases settlement with
          | applied cfg env =>
              have hsame := ({ driver with waiting := none }.apply
                ⟨cfg, env, pending.repair.command⟩).acknowledge_sameWorld pending
              refine ⟨?_, ?_, ?_, ?_⟩
              · simp only [step, applied?, hwaiting, Option.map_some, Option.elim_some]
                exact hsame.fsm
              · simp only [step, hwaiting]
                exact hsame.tables
              · simp only [step, hwaiting]
                exact hsame.clock.ge
              · simp only [step, hwaiting]
                exact Or.inl hsame.passStart
          | failed =>
              refine .of_sameWorld ?_ rfl fun _ _ => by simp
              simp only [step, hwaiting]
              have hsame := giveUp_sameWorld
                { driver with waiting := none, late := driver.late ++ [pending] } pending
              exact ⟨hsame.fsm, hsame.tables, hsame.clock, hsame.passStart⟩
  | lateApply position cfg env =>
      cases hlate : driver.late[position]? with
      | none =>
          refine .of_sameWorld ?_ ?_ fun _ _ => by simp
          · simp only [step, hlate]
            exact ⟨rfl, rfl, rfl, rfl⟩
          · simp [applied?, hlate]
      | some pending =>
          refine ⟨?_, ?_, ?_, ?_⟩
          · simp only [step, applied?, hlate, Option.map_some, Option.elim_some]
            rfl
          · simp only [step, hlate]
            rfl
          · simp only [step, hlate]
            exact le_rfl
          · simp only [step, hlate]
            exact Or.inl rfl

end

end Driver

/-- The record of the move of a shard before and after a step. -/
inductive MoveStep (driver : Driver) :
    DriverInput → UInt64 → Option InflightMove → Option InflightMove → Prop where
  | same (input : DriverInput) (shardId : UInt64) (before : Option InflightMove) :
      MoveStep driver input shardId before before
  | begun {orders : Orders} {move : RebalanceMove} {shard : ShardInfo}
      (hidle : driver.waiting = none)
      (hchecks : executeMove (driver.env orders) driver.fsm driver.clock move = .ok shard)
      (hmember : move.targetWorkerId ∈ shard.replicas) :
      MoveStep driver (.execute orders) move.shardId none
        (some (driver.newMove driver.nextSerial move shard false))
  | started {cfg : Config} {env : Env} {pending : Pending} {move : RebalanceMove}
      {shard : ShardInfo} (before : Option InflightMove)
      (hwaiting : driver.waiting = some pending) (hpurpose : pending.purpose = .start move shard) :
      MoveStep driver (.settle (.applied cfg env)) move.shardId before
        (some ((driver.apply ⟨cfg, env, pending.repair.command⟩).newMove pending.serial move
          shard true))
  | kept {cfg : Config} {orders : Orders} {shardId : UInt64} {inflight inflight' : InflightMove}
      (hidle : driver.waiting = none)
      (haction : (driver.view cfg orders).advanceMove shardId inflight = .keep inflight') :
      MoveStep driver (.advance cfg orders shardId) shardId (some inflight) (some inflight')
  | proposed {cfg : Config} {orders : Orders} {shardId : UInt64}
      {inflight inflight' : InflightMove} {purpose : Purpose} {repair : Repair}
      (hidle : driver.waiting = none)
      (haction : (driver.view cfg orders).advanceMove shardId inflight =
        .propose purpose repair inflight') :
      MoveStep driver (.advance cfg orders shardId) shardId (some inflight) (some inflight')
  | dropped {cfg : Config} {orders : Orders} {shardId : UInt64} {inflight : InflightMove}
      (hidle : driver.waiting = none)
      (haction : (driver.view cfg orders).advanceMove shardId inflight = .drop) :
      MoveStep driver (.advance cfg orders shardId) shardId (some inflight) none
  | completed {cfg : Config} {orders : Orders} {shardId : UInt64} {inflight : InflightMove}
      (hidle : driver.waiting = none)
      (haction : (driver.view cfg orders).advanceMove shardId inflight = .complete) :
      MoveStep driver (.advance cfg orders shardId) shardId (some inflight) none
  | added {cfg : Config} {env : Env} {pending : Pending} (inflight : InflightMove)
      (hwaiting : driver.waiting = some pending) (hpurpose : pending.purpose = .add) :
      MoveStep driver (.settle (.applied cfg env)) pending.shardId (some inflight)
        (some (advanceMovePhase inflight .waitTarget driver.passStart))
  | removed {cfg : Config} {env : Env} {pending : Pending} (inflight : InflightMove)
      (hwaiting : driver.waiting = some pending) (hpurpose : pending.purpose = .remove) :
      MoveStep driver (.settle (.applied cfg env)) pending.shardId (some inflight)
        (some (advanceMovePhase inflight .waitRemoval driver.passStart))
  | rolledBack {cfg : Config} {env : Env} {pending : Pending} (before : Option InflightMove)
      (hwaiting : driver.waiting = some pending) (hpurpose : pending.purpose = .rollback) :
      MoveStep driver (.settle (.applied cfg env)) pending.shardId before none
  | failed {pending : Pending} (inflight : InflightMove)
      (hwaiting : driver.waiting = some pending)
      (hpurpose : ∀ move shard, pending.purpose ≠ .start move shard) :
      MoveStep driver (.settle .failed) pending.shardId (some inflight)
        (some (scheduleRetry inflight driver.passStart))

section

variable {driver : Driver}

/-- A rewrite of the record of one shard steps that record and leaves the others. -/
theorem MoveStep.of_revise {next : Driver} {input : DriverInput} {shardId : UInt64}
    {change : InflightMove → InflightMove}
    (hsame : ∀ other, next.inflightMoves.lookup other = driver.inflightMoves.lookup other)
    (hstep : ∀ inflight, driver.inflightMoves.lookup shardId = some inflight →
      MoveStep driver input shardId (some inflight) (some (change inflight))) (other : UInt64) :
    MoveStep driver input other (driver.inflightMoves.lookup other)
      ((next.revise shardId change).inflightMoves.lookup other) := by
  rw [Driver.revise_lookup, hsame, hsame]
  split
  next hother =>
    subst hother
    cases hlookup : driver.inflightMoves.lookup other with
    | none => exact .same _ _ _
    | some inflight => exact hstep inflight hlookup
  next => exact .same _ _ _

theorem MoveStep.of_forget {next : Driver} {input : DriverInput} {shardId : UInt64}
    (hsame : ∀ other, next.inflightMoves.lookup other = driver.inflightMoves.lookup other)
    (hstep : MoveStep driver input shardId (driver.inflightMoves.lookup shardId) none)
    (other : UInt64) :
    MoveStep driver input other (driver.inflightMoves.lookup other)
      ((next.forget shardId).inflightMoves.lookup other) := by
  rw [Driver.forget_lookup, hsame]
  split
  next hother =>
    subst hother
    exact hstep
  next => exact .same _ _ _

theorem advance_moveStep (hidle : driver.waiting = none) (cfg : Config) (orders : Orders)
    (shardId other : UInt64) :
    MoveStep driver (.advance cfg orders shardId) other (driver.inflightMoves.lookup other)
      ((driver.advance cfg orders shardId).inflightMoves.lookup other) := by
  unfold Driver.advance
  cases hlookup : driver.inflightMoves.lookup shardId with
  | none => exact .same _ _ _
  | some inflight =>
      simp only
      cases haction : (driver.view cfg orders).advanceMove shardId inflight with
      | keep inflight' =>
          refine MoveStep.of_revise (fun _ => rfl) ?_ other
          intro found hfound
          obtain rfl := Option.some.inj (hlookup.symm.trans hfound)
          exact .kept hidle haction
      | propose purpose repair inflight' =>
          refine MoveStep.of_revise (fun _ => rfl) ?_ other
          intro found hfound
          obtain rfl := Option.some.inj (hlookup.symm.trans hfound)
          exact .proposed hidle haction
      | drop =>
          refine MoveStep.of_forget (fun _ => rfl) ?_ other
          rw [hlookup]
          exact .dropped hidle haction
      | complete =>
          refine MoveStep.of_forget (fun _ => rfl) ?_ other
          rw [hlookup]
          exact .completed hidle haction

theorem execute_moveStep (hidle : driver.waiting = none) (orders : Orders) (other : UInt64) :
    MoveStep driver (.execute orders) other (driver.inflightMoves.lookup other)
      ((driver.execute orders).inflightMoves.lookup other) := by
  unfold Driver.execute
  split
  next => exact .same _ _ _
  next move rest hplanned =>
    split
    next => exact .same _ _ _
    next =>
      split
      next => exact .same _ _ _
      next hfree =>
        split
        next => exact .same _ _ _
        next shard hchecks =>
          simp only
          split
          next hmember =>
            rw [Driver.begin_lookup]
            split
            next hother =>
              subst hother
              rw [Option.not_isSome_iff_eq_none.mp hfree]
              exact .begun hidle hchecks hmember
            next => exact .same _ _ _
          next => exact .same _ _ _

section

variable {pending : Pending} (hwaiting : driver.waiting = some pending)

include hwaiting

theorem acknowledge_moveStep (cfg : Config) (env : Env) (other : UInt64) :
    MoveStep driver (.settle (.applied cfg env)) other (driver.inflightMoves.lookup other)
      ((({ driver with waiting := none }.apply
        ⟨cfg, env, pending.repair.command⟩).acknowledge pending).inflightMoves.lookup other) := by
  unfold Driver.acknowledge
  cases hpurpose : pending.purpose with
  | start move shard =>
      simp only
      rw [Driver.begin_lookup]
      split
      next hother =>
        subst hother
        exact .started _ hwaiting hpurpose
      next => exact .same _ _ _
  | add =>
      simp only
      refine MoveStep.of_revise ?_ ?_ other
      · exact fun _ => rfl
      · exact fun inflight _ => .added inflight hwaiting hpurpose
  | remove =>
      simp only
      refine MoveStep.of_revise ?_ ?_ other
      · exact fun _ => rfl
      · exact fun inflight _ => .removed inflight hwaiting hpurpose
  | rollback =>
      simp only
      refine MoveStep.of_forget ?_ ?_ other
      · exact fun _ => rfl
      · exact .rolledBack _ hwaiting hpurpose

theorem giveUp_moveStep (other : UInt64) :
    MoveStep driver (.settle .failed) other (driver.inflightMoves.lookup other)
      (({ driver with waiting := none, late := driver.late ++ [pending] }.giveUp
        pending).inflightMoves.lookup other) := by
  unfold Driver.giveUp
  split
  next => exact .same _ _ _
  next hpurpose =>
    refine MoveStep.of_revise ?_ ?_ other
    · exact fun _ => rfl
    · exact fun inflight _ => .failed inflight hwaiting hpurpose

end

theorem step_moveStep (driver : Driver) (input : DriverInput) (shardId : UInt64) :
    MoveStep driver input shardId (driver.inflightMoves.lookup shardId)
      ((driver.step input).inflightMoves.lookup shardId) := by
  cases input with
  | command applied
  | report orders req
  | wait elapsed => exact .same _ _ _
  | startPass
  | plan cfg config orders
  | lateApply position cfg env =>
      rw [Driver.step]
      split <;> exact .same _ _ _
  | advance cfg orders id =>
      rw [Driver.step]
      split
      next => exact .same _ _ _
      next hidle => exact advance_moveStep (Option.not_isSome_iff_eq_none.mp hidle) _ _ _ _
  | execute orders =>
      rw [Driver.step]
      split
      next => exact .same _ _ _
      next hidle => exact execute_moveStep (Option.not_isSome_iff_eq_none.mp hidle) _ _
  | settle settlement =>
      cases hwaiting : driver.waiting with
      | none =>
          simp only [Driver.step, hwaiting]
          exact .same _ _ _
      | some pending =>
          cases settlement with
          | applied cfg env =>
              simp only [Driver.step, hwaiting]
              exact acknowledge_moveStep hwaiting cfg env shardId
          | failed =>
              simp only [Driver.step, hwaiting]
              exact giveUp_moveStep hwaiting shardId

end

/-! ## A look at a move -/

/-- The parts of a record that never change. -/
structure SameRecord (before after : InflightMove) : Prop where
  serial : after.serial = before.serial
  move : after.move = before.move
  startedAt : after.startedAt = before.startedAt
  addedByMove : after.addedByMove = before.addedByMove

/-- The parts that a retry leaves as they are. -/
structure SameMove (before after : InflightMove) : Prop extends SameRecord before after where
  phase : after.phase = before.phase
  waitLeaderTransferAck : after.waitLeaderTransferAck = before.waitLeaderTransferAck

theorem SameRecord.refl (inflight : InflightMove) : SameRecord inflight inflight :=
  ⟨rfl, rfl, rfl, rfl⟩

theorem SameRecord.trans {first second third : InflightMove} (hfirst : SameRecord first second)
    (hsecond : SameRecord second third) : SameRecord first third where
  serial := hsecond.serial.trans hfirst.serial
  move := hsecond.move.trans hfirst.move
  startedAt := hsecond.startedAt.trans hfirst.startedAt
  addedByMove := hsecond.addedByMove.trans hfirst.addedByMove

theorem SameMove.refl (inflight : InflightMove) : SameMove inflight inflight :=
  ⟨.refl inflight, rfl, rfl⟩

theorem advanceMovePhase_sameRecord (inflight : InflightMove) (phase : MovePhase) (now : Time) :
    SameRecord inflight (advanceMovePhase inflight phase now) :=
  ⟨rfl, rfl, rfl, rfl⟩

theorem scheduleRetry_sameMove (inflight : InflightMove) (now : Time) :
    SameMove inflight (scheduleRetry inflight now) :=
  ⟨⟨rfl, rfl, rfl, rfl⟩, rfl, rfl⟩

theorem SameMove.trans {first second third : InflightMove} (hfirst : SameMove first second)
    (hsecond : SameMove second third) : SameMove first third where
  toSameRecord := hfirst.toSameRecord.trans hsecond.toSameRecord
  phase := hsecond.phase.trans hfirst.phase
  waitLeaderTransferAck := hsecond.waitLeaderTransferAck.trans hfirst.waitLeaderTransferAck

theorem raiseEpoch_sameMove (inflight : InflightMove) (shard : ShardInfo) :
    SameMove inflight (inflight.raiseEpoch shard) := by
  unfold InflightMove.raiseEpoch
  split <;> exact ⟨⟨rfl, rfl, rfl, rfl⟩, rfl, rfl⟩

theorem fixIndex_sameMove (inflight : InflightMove) (progress : ShardProgressSnapshot) :
    SameMove inflight (inflight.fixIndex progress) := by
  unfold InflightMove.fixIndex
  split <;> exact ⟨⟨rfl, rfl, rfl, rfl⟩, rfl, rfl⟩

theorem demandAck_sameRecord (inflight : InflightMove) (shard : ShardInfo) :
    SameRecord inflight (inflight.demandAck shard) := by
  unfold InflightMove.demandAck
  split <;> exact ⟨rfl, rfl, rfl, rfl⟩

theorem noteConfig_sameMove (view : MoveView) (shardId : UInt64) (inflight : InflightMove) :
    SameMove inflight (view.noteConfig shardId inflight) := by
  unfold MoveView.noteConfig
  split
  next =>
    split <;> exact ⟨⟨rfl, rfl, rfl, rfl⟩, rfl, rfl⟩
  next => exact .refl inflight

/-- The ways a look at a move can end, with what it found. -/
inductive Look (view : MoveView) (shardId : UInt64) (inflight : InflightMove) :
    MoveAction → Prop where
  | gone (hfind : getShardById view.env view.fsm shardId = none) :
      Look view shardId inflight .drop
  | retried {inflight' : InflightMove} (hsame : SameMove inflight inflight') :
      Look view shardId inflight (.keep inflight')
  | abandoned {shard : ShardInfo}
      (hfind : getShardById view.env view.fsm shardId = some shard)
      (hlate : view.now - inflight.startedAt > moveOverallTimeout) :
      Look view shardId inflight .drop
  | rollback {shard : ShardInfo}
      (hfind : getShardById view.env view.fsm shardId = some shard)
      (hlate : view.now - inflight.startedAt > moveOverallTimeout) :
      Look view shardId inflight
        (.propose .rollback (.removeReplica shard.shardId inflight.move.targetWorkerId) inflight)
  | targetPresent (hphase : inflight.phase = .add) :
      Look view shardId inflight (.keep (advanceMovePhase inflight .waitTarget view.now))
  | adding (hphase : inflight.phase = .add) :
      Look view shardId inflight
        (.propose .add (.addReplica shardId inflight.move.targetWorkerId) inflight)
  | admitted {shard : ShardInfo} {leaderProgress targetProgress : ShardProgressSnapshot}
      (hphase : inflight.phase = .waitTarget)
      (hfind : getShardById view.env view.fsm shardId = some shard)
      (hhealthy : isWorkerHealthy view.fsm view.clock inflight.move.targetWorkerId = true)
      (hrunning : isShardRunningOnWorker view.fsm inflight.move.targetWorkerId shardId = true)
      (hleader : view.progressAt shardId shard.leaderId (inflight.raiseEpoch shard).requiredEpoch =
        some leaderProgress)
      (htarget : view.progressAt shardId inflight.move.targetWorkerId
        (inflight.raiseEpoch shard).requiredEpoch = some targetProgress)
      (hindex : ((inflight.raiseEpoch shard).fixIndex leaderProgress).requiredAppliedIndex ≤
        targetProgress.appliedIndex) :
      Look view shardId inflight
        (.keep (advanceMovePhase ((inflight.raiseEpoch shard).fixIndex leaderProgress) .remove
          view.now))
  | sourceGone {shard : ShardInfo} (hphase : inflight.phase = .remove)
      (hfind : getShardById view.env view.fsm shardId = some shard)
      (hsource : inflight.move.sourceWorkerId ∉ shard.replicas) :
      Look view shardId inflight (.keep (advanceMovePhase inflight .waitRemoval view.now))
  | removing {shard : ShardInfo} (hphase : inflight.phase = .remove)
      (hfind : getShardById view.env view.fsm shardId = some shard)
      (hsource : inflight.move.sourceWorkerId ∈ shard.replicas) :
      Look view shardId inflight
        (.propose .remove (.removeReplica shardId inflight.move.sourceWorkerId)
          (view.noteConfig shardId (inflight.demandAck shard)))
  | completed {shard : ShardInfo} (hphase : inflight.phase = .waitRemoval)
      (hfind : getShardById view.env view.fsm shardId = some shard)
      (hintime : view.now - inflight.startedAt ≤ moveOverallTimeout)
      (hack : view.ackArrived shardId inflight = true) :
      Look view shardId inflight .complete

section

variable (view : MoveView) (shardId : UInt64) {shard : ShardInfo} (inflight : InflightMove)

theorem retry_look {inflight inflight' : InflightMove} (hsame : SameMove inflight inflight') :
    Look view shardId inflight (view.retry inflight') :=
  .retried (hsame.trans (scheduleRetry_sameMove inflight' view.now))

section

variable (hphase : inflight.phase = .waitTarget)
  (hfind : getShardById view.env view.fsm shardId = some shard)

include hphase hfind

theorem awaitProgress_look
    (hhealthy : isWorkerHealthy view.fsm view.clock inflight.move.targetWorkerId = true)
    (hrunning : isShardRunningOnWorker view.fsm inflight.move.targetWorkerId shardId = true) :
    Look view shardId inflight (view.awaitProgress shardId shard inflight) := by
  have hraised := raiseEpoch_sameMove inflight shard
  rw [MoveView.awaitProgress]
  split
  next => exact retry_look view shardId hraised
  next =>
    split
    next => exact retry_look view shardId hraised
    next leaderProgress hleader =>
      have hfixed := hraised.trans (fixIndex_sameMove _ leaderProgress)
      have hepoch : ((inflight.raiseEpoch shard).fixIndex leaderProgress).requiredEpoch =
          (inflight.raiseEpoch shard).requiredEpoch := by
        unfold InflightMove.fixIndex
        split <;> rfl
      simp only
      split
      next => exact retry_look view shardId hfixed
      next targetProgress htarget =>
        rw [hfixed.move, hepoch] at htarget
        split
        next => exact retry_look view shardId hfixed
        next hindex =>
          exact .admitted hphase hfind hhealthy hrunning hleader htarget
            (UInt64.not_lt.mp hindex)

theorem advanceWaitTarget_look :
    Look view shardId inflight (view.advanceWaitTarget shardId shard inflight) := by
  rw [MoveView.advanceWaitTarget]
  split
  next => exact .retried (.refl inflight)
  next hhealthy =>
    split
    next => exact .retried (.refl inflight)
    next hrunning =>
      split
      next => exact retry_look view shardId (.refl inflight)
      next snap _ =>
        split
        next => exact retry_look view shardId (.refl inflight)
        next =>
          split
          next => exact retry_look view shardId (.refl inflight)
          next =>
            exact awaitProgress_look view shardId inflight hphase hfind
              (by simpa using hhealthy) (by simpa using hrunning)

end

theorem advanceWaitRemoval_look (hphase : inflight.phase = .waitRemoval)
    (hfind : getShardById view.env view.fsm shardId = some shard)
    (hintime : view.now - inflight.startedAt ≤ moveOverallTimeout) :
    Look view shardId inflight (view.advanceWaitRemoval shardId shard inflight) := by
  rw [MoveView.advanceWaitRemoval]
  split
  next => exact retry_look view shardId (.refl inflight)
  next snap _ =>
    split
    next => exact retry_look view shardId (.refl inflight)
    next =>
      split
      next => exact retry_look view shardId (.refl inflight)
      next =>
        split
        next => exact retry_look view shardId (.refl inflight)
        next hack =>
          split
          next => exact retry_look view shardId (.refl inflight)
          next => exact .completed hphase hfind hintime (by simpa using hack)

theorem tryRollbackMove_look
    (hfind : getShardById view.env view.fsm shardId = some shard)
    (hlate : view.now - inflight.startedAt > moveOverallTimeout) :
    Look view shardId inflight (view.tryRollbackMove shard inflight) := by
  rw [MoveView.tryRollbackMove]
  split
  next => exact .abandoned hfind hlate
  next =>
    split
    next => exact .abandoned hfind hlate
    next =>
      split
      next => exact .abandoned hfind hlate
      next =>
        split
        next => exact .abandoned hfind hlate
        next => exact .rollback hfind hlate

theorem advanceMove_look : Look view shardId inflight (view.advanceMove shardId inflight) := by
  rw [MoveView.advanceMove]
  split
  next hfind => exact .gone hfind
  next shard hfind =>
    split
    next hlate =>
      split
      next => exact .retried (.refl inflight)
      next => exact tryRollbackMove_look view shardId inflight hfind hlate
    next hintime =>
      split
      next => exact .retried (.refl inflight)
      next =>
        split
        next hphase =>
          rw [MoveView.advanceAdd]
          split
          next => exact .targetPresent hphase
          next => exact .adding hphase
        next hphase => exact advanceWaitTarget_look view shardId inflight hphase hfind
        next hphase =>
          rw [MoveView.advanceRemove]
          split
          next hsource => exact .sourceGone hphase hfind hsource
          next hsource => exact .removing hphase hfind (not_not.mp hsource)
        next hphase =>
          exact advanceWaitRemoval_look view shardId inflight hphase hfind (not_lt.mp hintime)

end

/-! ## What stays of a record -/

/-- A look keeps the fixed parts of the record. -/
theorem Look.record {view : MoveView} {shardId : UInt64} {inflight inflight' : InflightMove}
    {action : MoveAction} (hlook : Look view shardId inflight action)
    (haction : action = .keep inflight' ∨
      ∃ purpose repair, action = .propose purpose repair inflight') :
    SameRecord inflight inflight' := by
  cases hlook with
  | retried hsame =>
      obtain rfl : _ = inflight' := by simpa using haction
      exact hsame.toSameRecord
  | rollback hfind hlate
  | adding hphase =>
      obtain rfl : inflight = inflight' := by simpa using haction
      exact .refl _
  | targetPresent hphase
  | sourceGone hphase hfind hsource =>
      obtain rfl : _ = inflight' := by simpa using haction
      exact advanceMovePhase_sameRecord _ _ _
  | @admitted shard leaderProgress _ _ _ _ _ _ _ _ =>
      obtain rfl : _ = inflight' := by simpa using haction
      exact ((raiseEpoch_sameMove inflight shard).trans
        (fixIndex_sameMove _ leaderProgress)).toSameRecord.trans
          (advanceMovePhase_sameRecord _ _ _)
  | @removing shard _ _ _ =>
      obtain rfl : _ = inflight' := by simpa using haction
      exact (demandAck_sameRecord inflight shard).trans
        (noteConfig_sameMove view shardId _).toSameRecord
  | _ => simp at haction

section

variable {driver : Driver} {input : DriverInput} {shardId : UInt64}

/-- A record stays the record of its move, unless a proposal to start a move replaces it. -/
theorem MoveStep.record {inflight inflight' : InflightMove}
    (hstep : MoveStep driver input shardId (some inflight) (some inflight')) :
    SameRecord inflight inflight' ∨
      ∃ pending move shard, driver.waiting = some pending ∧
        pending.purpose = .start move shard ∧ move.shardId = shardId ∧ inflight'.move = move := by
  cases hstep with
  | same => exact Or.inl (.refl inflight)
  | started _ hwaiting hpurpose => exact Or.inr ⟨_, _, _, hwaiting, hpurpose, rfl, rfl⟩
  | kept hidle haction =>
      exact Or.inl ((haction ▸ advanceMove_look _ _ _ : Look _ _ _ _).record (Or.inl rfl))
  | proposed hidle haction =>
      exact Or.inl ((haction ▸ advanceMove_look _ _ _ : Look _ _ _ _).record
        (Or.inr ⟨_, _, rfl⟩))
  | added
  | removed => exact Or.inl (advanceMovePhase_sameRecord _ _ _)
  | failed => exact Or.inl (scheduleRetry_sameMove _ _).toSameRecord

/-- A move comes to its remove phase by the look that admits its target, and then stays
the same move. -/
theorem MoveStep.toRemove {before : Option InflightMove} {inflight' : InflightMove}
    (hstep : MoveStep driver input shardId before (some inflight'))
    (hphase' : inflight'.phase = .remove) :
    ∃ inflight, before = some inflight ∧ SameRecord inflight inflight' ∧
      (inflight.phase = .remove ∨ ∃ cfg orders, input = .advance cfg orders shardId ∧
        inflight.phase = .waitTarget ∧
        Look (driver.view cfg orders) shardId inflight (.keep inflight')) := by
  cases hstep with
  | same => exact ⟨inflight', rfl, .refl _, Or.inl hphase'⟩
  | begun
  | started
  | added
  | removed => cases hphase'
  | @kept cfg orders _ inflight _ hidle haction =>
      have hlook : Look (driver.view cfg orders) shardId inflight (.keep inflight') :=
        haction ▸ advanceMove_look _ _ _
      refine ⟨inflight, rfl, hlook.record (Or.inl rfl), ?_⟩
      cases hlook with
      | retried hsame => exact Or.inl (hsame.phase.symm.trans hphase')
      | targetPresent => cases hphase'
      | admitted hphase hfind hhealthy hrunning hleader htarget hindex =>
          exact Or.inr ⟨cfg, orders, rfl, hphase,
            .admitted hphase hfind hhealthy hrunning hleader htarget hindex⟩
      | sourceGone => cases hphase'
  | @proposed cfg orders _ inflight _ purpose repair hidle haction =>
      have hlook : Look (driver.view cfg orders) shardId inflight
          (.propose purpose repair inflight') := haction ▸ advanceMove_look _ _ _
      refine ⟨inflight, rfl, hlook.record (Or.inr ⟨_, _, rfl⟩), ?_⟩
      cases hlook with
      | rollback => exact Or.inl hphase'
      | adding => exact Or.inl hphase'
      | removing hphase => exact Or.inl hphase
  | failed inflight =>
      exact ⟨inflight, rfl, (scheduleRetry_sameMove inflight _).toSameRecord, Or.inl hphase'⟩

end

end Vectron.Placement
