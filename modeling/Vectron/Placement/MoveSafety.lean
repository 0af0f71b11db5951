import Vectron.Placement.MoveStep

/-! # When a move removes its source

The manager checks once that the target of a move is healthy and has caught up, and
then tries to remove the source for as long as it takes. The removal is proposed for a
target that is still ready as long as nothing sets the target back in between.
-/

namespace Vectron.Placement

open Foundation

/-! ## Ready targets -/

/-- The shards that stand under an id, in whichever collection. -/
def shardsUnder (fsm : Fsm) (shardId : UInt64) : List ShardInfo :=
  fsm.collections.entries.filterMap fun entry => entry.2.shards.lookup shardId

theorem mem_shardsUnder {fsm : Fsm} {shardId : UInt64} {shard : ShardInfo} :
    shard ∈ shardsUnder fsm shardId ↔ ∃ name, fsm.shard? name shardId = some shard := by
  simp only [shardsUnder, List.mem_filterMap, Fsm.shard?_eq_some]
  constructor
  · rintro ⟨⟨name, coll⟩, hentry, hlookup⟩
    exact ⟨name, coll, AList.mem_lookup_iff.mpr hentry, hlookup⟩
  · rintro ⟨name, coll, hcoll, hlookup⟩
    exact ⟨⟨name, coll⟩, AList.mem_lookup_iff.mp hcoll, hlookup⟩

/-- The target has reported an index that is not behind the one the leader has reported,
and at an epoch that is not behind the shard's. -/
def CaughtUp (tables : Tables) (targetId : UInt64) (shardId : UInt64) (shard : ShardInfo) :
    Prop :=
  ∃ target ∈ nested? tables.shardProgress shardId targetId,
    ∃ leader ∈ nested? tables.shardProgress shardId shard.leaderId,
      shard.epoch ≤ target.shardEpoch ∧ leader.appliedIndex ≤ target.appliedIndex

/-- The target of a move is a replica, healthy and caught up. -/
structure TargetReady (driver : Driver) (move : RebalanceMove) : Prop where
  member : ∀ shard ∈ shardsUnder driver.fsm move.shardId, move.targetWorkerId ∈ shard.replicas
  healthy : isWorkerHealthy driver.fsm driver.clock move.targetWorkerId = true
  caughtUp : ∀ shard ∈ shardsUnder driver.fsm move.shardId,
    CaughtUp driver.tables move.targetWorkerId move.shardId shard

/-- The move whose source a step proposes to remove, if it proposes a removal. -/
def Driver.removalProposed (driver : Driver) : DriverInput → Option InflightMove
  | .advance cfg orders shardId =>
      if driver.waiting.isSome then none
      else
        (driver.inflightMoves.lookup shardId).filter fun inflight =>
          match (driver.view cfg orders).advanceMove shardId inflight with
          | .propose .remove _ _ => true
          | _ => false
  | _ => none

/-- A step removes the source of a move only if the target is ready. -/
def RemovesWhenReady (driver : Driver) (input : DriverInput) : Prop :=
  ∀ inflight ∈ driver.removalProposed input, TargetReady driver inflight.move

/-! ## Steps that set no target back -/

/-- A command leaves the epoch and the leader of the shard, the target among its
replicas and the worker ready, unless the source goes. -/
def Undisturbed (before after : Fsm) (move : RebalanceMove) : Prop :=
  (∀ shard' ∈ shardsUnder after move.shardId, move.sourceWorkerId ∈ shard'.replicas →
    ∃ shard ∈ shardsUnder before move.shardId, move.sourceWorkerId ∈ shard.replicas ∧
      shard'.epoch = shard.epoch ∧ shard'.leaderId = shard.leaderId ∧
      (move.targetWorkerId ∈ shard.replicas → move.targetWorkerId ∈ shard'.replicas)) ∧
  ∀ worker ∈ before.workers.lookup move.targetWorkerId, worker.state = .ready →
    ∃ worker' ∈ after.workers.lookup move.targetWorkerId, worker'.state = .ready

/-- The reports of the target do not go back, and those of the leader do not pass the
last one of the target. -/
def InStep (driver : Driver) (req : HeartbeatRequest) (move : RebalanceMove) : Prop :=
  ∀ info ∈ req.shardProgress, info.shardId = move.shardId →
    ∀ target ∈ nested? driver.tables.shardProgress move.shardId move.targetWorkerId,
      (req.workerId = move.targetWorkerId →
        target.appliedIndex ≤ info.appliedIndex ∧ target.shardEpoch ≤ info.shardEpoch) ∧
      ∀ shard ∈ shardsUnder driver.fsm move.shardId, req.workerId = shard.leaderId →
        req.workerId ≠ move.targetWorkerId → info.appliedIndex ≤ target.appliedIndex

/-- The leader has not reported past a target that has reached the required index. -/
def NotOvertaken (tables : Tables) (inflight : InflightMove) (shard : ShardInfo) : Prop :=
  inflight.requiredAppliedIndex ≠ 0 → shard.epoch ≤ inflight.requiredEpoch →
    ∀ leader ∈ nested? tables.shardProgress inflight.move.shardId shard.leaderId,
    ∀ target ∈ nested? tables.shardProgress inflight.move.shardId inflight.move.targetWorkerId,
      inflight.requiredAppliedIndex ≤ target.appliedIndex →
        leader.appliedIndex ≤ target.appliedIndex

/-- A look finds a target that runs the shard among its replicas and not overtaken, and
comes before the heartbeat of the target runs out when the source is to go. -/
def Timely (driver : Driver) (inflight : InflightMove) : Prop :=
  match inflight.phase with
  | .waitTarget =>
      isShardRunningOnWorker driver.fsm inflight.move.targetWorkerId inflight.move.shardId = true →
        ∀ shard ∈ shardsUnder driver.fsm inflight.move.shardId,
          inflight.move.targetWorkerId ∈ shard.replicas ∧
            NotOvertaken driver.tables inflight shard
  | .remove =>
      ∀ worker ∈ driver.fsm.workers.lookup inflight.move.targetWorkerId,
        driver.clock - worker.lastHeartbeat < workerTimeout
  | _ => True

/-- A step that sets no target back whose source is about to be removed. -/
def Steady (driver : Driver) (input : DriverInput) : Prop :=
  (∀ applied ∈ driver.applied? input, IdsAdvance driver.fsm applied ∧
    ∀ entry ∈ driver.inflightMoves.entries, entry.2.phase = .remove →
      Undisturbed driver.fsm (step driver.fsm applied) entry.2.move) ∧
  match input with
  | .report _ req =>
      ∀ entry ∈ driver.inflightMoves.entries, entry.2.phase = .remove →
        InStep driver req entry.2.move
  | .advance _ _ shardId => ∀ inflight ∈ driver.inflightMoves.lookup shardId, Timely driver inflight
  | _ => True

instance (tables : Tables) (targetId shardId : UInt64) (shard : ShardInfo) :
    Decidable (CaughtUp tables targetId shardId shard) := by
  delta CaughtUp
  infer_instance

instance (before after : Fsm) (move : RebalanceMove) : Decidable (Undisturbed before after move) :=
  inferInstanceAs (Decidable (_ ∧ _))

instance (driver : Driver) (req : HeartbeatRequest) (move : RebalanceMove) :
    Decidable (InStep driver req move) := by
  delta InStep
  infer_instance

instance (tables : Tables) (inflight : InflightMove) (shard : ShardInfo) :
    Decidable (NotOvertaken tables inflight shard) := by
  delta NotOvertaken
  infer_instance

instance (driver : Driver) (inflight : InflightMove) : Decidable (Timely driver inflight) := by
  rcases inflight with ⟨_, _, _, _, _, _, phase⟩
  cases phase
  all_goals
    delta Timely
    infer_instance

instance (driver : Driver) (input : DriverInput) : Decidable (Steady driver input) := by
  cases input
  all_goals
    delta Steady
    infer_instance

/-! ## Readiness from the look that admits to the removal -/

theorem mem_shardsUnder_of_getShardById {env : ServerEnv} {fsm : Fsm} {shardId : UInt64}
    {shard : ShardInfo} (hfind : getShardById env fsm shardId = some shard) :
    shard ∈ shardsUnder fsm shardId := by
  obtain ⟨name, coll, hcoll, hlookup⟩ := getShardById_eq_some hfind
  exact mem_shardsUnder.mpr ⟨name, Fsm.shard?_eq_some.mpr ⟨coll, hcoll, hlookup⟩⟩

/-- Ids that were never given out twice name one shard. -/
theorem eq_of_mem_shardsUnder {fsm : Fsm} {issued : List (String × UInt64)}
    (hledger : ShardLedger fsm issued) {shardId : UInt64} {shard shard' : ShardInfo}
    (hshard : shard ∈ shardsUnder fsm shardId) (hshard' : shard' ∈ shardsUnder fsm shardId) :
    shard = shard' := by
  obtain ⟨name, hfound⟩ := mem_shardsUnder.mp hshard
  obtain ⟨name', hfound'⟩ := mem_shardsUnder.mp hshard'
  have hkey : (name, shardId) = (name', shardId) :=
    hledger.eq_of_id_eq (mem_shardKeys.mpr (Option.isSome_of_eq_some hfound))
      (mem_shardKeys.mpr (Option.isSome_of_eq_some hfound')) rfl
  obtain ⟨rfl, _⟩ := Prod.mk.inj hkey
  exact Option.some.inj (hfound.symm.trans hfound')

/-- The target of a move stands ready for the removal, up to the age of its heartbeat. -/
structure Standing (fsm : Fsm) (tables : Tables) (move : RebalanceMove) (shard : ShardInfo) :
    Prop where
  member : move.targetWorkerId ∈ shard.replicas
  registered : ∃ worker ∈ fsm.workers.lookup move.targetWorkerId, worker.state = .ready
  caughtUp : CaughtUp tables move.targetWorkerId move.shardId shard

/-- Every move about to remove a source that is there has a target that stands ready. -/
def Settled (driver : Driver) : Prop :=
  ∀ shardId inflight, driver.inflightMoves.lookup shardId = some inflight →
    inflight.phase = .remove → ∀ shard ∈ shardsUnder driver.fsm inflight.move.shardId,
      inflight.move.sourceWorkerId ∈ shard.replicas →
        Standing driver.fsm driver.tables inflight.move shard

/-- The records stand under the ids of their shards. -/
def Keyed (driver : Driver) : Prop :=
  ∀ shardId inflight, driver.inflightMoves.lookup shardId = some inflight →
    inflight.move.shardId = shardId

/-- What a step leaves of the record of a move, or of the one that replaces it. -/
theorem step_keyed (driver : Driver) (input : DriverInput) (hkeyed : Keyed driver) :
    Keyed (driver.step input) := by
  intro shardId inflight' hlookup'
  have hstep := step_moveStep driver input shardId
  rw [hlookup'] at hstep
  have hmove : (∃ inflight, driver.inflightMoves.lookup shardId = some inflight ∧
      inflight'.move = inflight.move) ∨ inflight'.move.shardId = shardId := by
    cases hlookup : driver.inflightMoves.lookup shardId with
    | none =>
        rw [hlookup] at hstep
        cases hstep with
        | begun => exact Or.inr rfl
        | started => exact Or.inr rfl
    | some inflight =>
        rw [hlookup] at hstep
        rcases hstep.record with hsame | ⟨_, _, _, _, _, hshard, rfl⟩
        · exact Or.inl ⟨inflight, rfl, hsame.move⟩
        · exact Or.inr hshard
  rcases hmove with ⟨inflight, hlookup, heq⟩ | hshard
  · rw [heq]
    exact hkeyed shardId inflight hlookup
  · exact hshard

/-- An index between the last reports of the leader and of the target. -/
structure Between (targetId shardId : UInt64) (shard : ShardInfo) (index : UInt64)
    (tables : Tables) : Prop where
  target : ∃ target ∈ nested? tables.shardProgress shardId targetId,
    index ≤ target.appliedIndex ∧ shard.epoch ≤ target.shardEpoch
  leader : shard.leaderId ≠ targetId →
    ∃ leader ∈ nested? tables.shardProgress shardId shard.leaderId, leader.appliedIndex ≤ index

theorem Between.caughtUp {tables : Tables} {targetId shardId index : UInt64} {shard : ShardInfo}
    (hbetween : Between targetId shardId shard index tables) :
    CaughtUp tables targetId shardId shard := by
  obtain ⟨target, htarget, hindex, hepoch⟩ := hbetween.target
  by_cases hleads : shard.leaderId = targetId
  · refine ⟨target, htarget, target, ?_, hepoch, UInt64.le_refl _⟩
    rw [hleads]
    exact htarget
  · obtain ⟨leader, hleader, hbehind⟩ := hbetween.leader hleads
    exact ⟨target, htarget, leader, hleader, hepoch, UInt64.le_trans hbehind hindex⟩

/-- One progress report in step with a move. -/
theorem Between.recordProgress {env : ServerEnv} {fsm : Fsm} {now : Time} {workerId : UInt64}
    {tables : Tables} {targetId shardId index : UInt64} {shard : ShardInfo}
    {info : ShardProgressInfo} (hbetween : Between targetId shardId shard index tables)
    (htarget : info.shardId = shardId → workerId = targetId →
      index ≤ info.appliedIndex ∧ shard.epoch ≤ info.shardEpoch)
    (hleader : info.shardId = shardId → workerId = shard.leaderId → workerId ≠ targetId →
      info.appliedIndex ≤ index) :
    Between targetId shardId shard index (recordProgress env fsm now workerId tables info) := by
  refine ⟨?_, ?_⟩
  · rw [recordProgress_nested?]
    split
    next hwritten =>
      obtain ⟨_, hshard, hworker⟩ := hwritten
      exact ⟨_, rfl, htarget hshard.symm hworker.symm⟩
    next => exact hbetween.target
  · intro hleads
    rw [recordProgress_nested?]
    split
    next hwritten =>
      obtain ⟨_, hshard, hworker⟩ := hwritten
      refine ⟨_, rfl, hleader hshard.symm hworker.symm ?_⟩
      rw [← hworker]
      exact hleads
    next => exact hbetween.leader hleads

/-- A report in step with a move keeps its target caught up. -/
theorem InStep.caughtUp {driver : Driver} {orders : Orders} {req : HeartbeatRequest}
    {move : RebalanceMove} {shard : ShardInfo} (hinstep : InStep driver req move)
    (hshard : shard ∈ shardsUnder driver.fsm move.shardId)
    (hcaught : CaughtUp driver.tables move.targetWorkerId move.shardId shard) :
    CaughtUp (driver.tables.record (driver.env orders) driver.fsm driver.clock req)
      move.targetWorkerId move.shardId shard := by
  obtain ⟨target, htarget, leader, hleader, hepoch, hindex⟩ := hcaught
  refine (Tables.record_invariant
    (Between move.targetWorkerId move.shardId shard target.appliedIndex)
    ?_ ?_ ?_ ⟨⟨target, htarget, UInt64.le_refl _, hepoch⟩, fun _ => ⟨leader, hleader, hindex⟩⟩).caughtUp
  · intro tables info hbetween
    refine ⟨?_, ?_⟩
    · rw [recordMembership_shardProgress]
      exact hbetween.target
    · rw [recordMembership_shardProgress]
      exact hbetween.leader
  · intro tables info hinfo hbetween
    refine hbetween.recordProgress ?_ ?_
    · intro hid hworker
      obtain ⟨hforward, hepoch'⟩ := (hinstep info hinfo hid target htarget).1 hworker
      exact ⟨hforward, UInt64.le_trans hepoch hepoch'⟩
    · intro hid hworker hother
      exact (hinstep info hinfo hid target htarget).2 shard hshard hworker hother
  · intro tables ack _ hbetween
    refine ⟨?_, ?_⟩
    · rw [recordAck_shardProgress]
      exact hbetween.target
    · rw [recordAck_shardProgress]
      exact hbetween.leader

theorem progressAt_eq_some {view : MoveView} {shardId workerId epoch : UInt64}
    {progress : ShardProgressSnapshot}
    (hprogress : view.progressAt shardId workerId epoch = some progress) :
    nested? view.tables.shardProgress shardId workerId = some progress ∧
      epoch ≤ progress.shardEpoch := by
  rw [MoveView.progressAt, Option.filter_eq_some_iff, decide_eq_true_iff, getShardProgress,
    fresh_eq_some] at hprogress
  exact ⟨hprogress.1.1, hprogress.2⟩

theorem le_raiseEpoch (inflight : InflightMove) (shard : ShardInfo) :
    shard.epoch ≤ (inflight.raiseEpoch shard).requiredEpoch := by
  unfold InflightMove.raiseEpoch
  split
  next => exact UInt64.le_refl _
  next hnot => exact UInt64.not_lt.mp fun hlt => hnot (Or.inr hlt)

/-- A required index that is compared is the leader's last report, or was fixed earlier
at an epoch that still counts. -/
theorem leader_le_of_required {inflight : InflightMove} {shard : ShardInfo}
    {leader target : ShardProgressSnapshot}
    (hindex : ((inflight.raiseEpoch shard).fixIndex leader).requiredAppliedIndex ≤
      target.appliedIndex)
    (hovertaken : inflight.requiredAppliedIndex ≠ 0 → shard.epoch ≤ inflight.requiredEpoch →
      inflight.requiredAppliedIndex ≤ target.appliedIndex →
        leader.appliedIndex ≤ target.appliedIndex) :
    leader.appliedIndex ≤ target.appliedIndex := by
  unfold InflightMove.fixIndex at hindex
  split at hindex
  next => exact hindex
  next hfixed =>
    unfold InflightMove.raiseEpoch at hindex hfixed
    split at hindex
    next hraise =>
      rw [if_pos hraise] at hfixed
      exact absurd rfl hfixed
    next hraise =>
      rw [if_neg hraise] at hfixed
      refine hovertaken hfixed ?_ hindex
      exact UInt64.not_lt.mp fun hlt => hraise (Or.inr hlt)

/-- The look that admits a target finds it ready for the removal. -/
theorem Look.standing {driver : Driver} {cfg : Config} {orders : Orders} {shardId : UInt64}
    {inflight inflight' : InflightMove} {issued : List (String × UInt64)}
    (hlook : Look (driver.view cfg orders) shardId inflight (.keep inflight'))
    (hphase : inflight.phase = .waitTarget) (hphase' : inflight'.phase = .remove)
    (hkey : inflight.move.shardId = shardId) (htimely : Timely driver inflight)
    (hledger : ShardLedger driver.fsm issued) {shard : ShardInfo}
    (hshard : shard ∈ shardsUnder driver.fsm inflight.move.shardId) :
    Standing driver.fsm driver.tables inflight.move shard := by
  cases hlook with
  | retried hsame =>
      rw [hsame.phase, hphase] at hphase'
      cases hphase'
  | targetPresent => cases hphase'
  | sourceGone => cases hphase'
  | @admitted found leader target _ hfind hhealthy hrunning hleader htarget hindex =>
      subst hkey
      obtain rfl := eq_of_mem_shardsUnder hledger hshard (mem_shardsUnder_of_getShardById hfind)
      obtain ⟨hleader, _⟩ := progressAt_eq_some hleader
      obtain ⟨htarget, hepoch⟩ := progressAt_eq_some htarget
      rw [Timely, hphase] at htimely
      obtain ⟨hmember, hovertaken⟩ := htimely hrunning shard hshard
      refine ⟨hmember, ?_, target, htarget, leader, hleader, ?_, ?_⟩
      · unfold isWorkerHealthy at hhealthy
        split at hhealthy
        next => cases hhealthy
        next worker hworker =>
          rw [WorkerInfo.healthy, Bool.and_eq_true, beq_iff_eq] at hhealthy
          exact ⟨worker, hworker, hhealthy.1⟩
      · exact UInt64.le_trans (le_raiseEpoch inflight shard) hepoch
      · exact leader_le_of_required hindex fun hfixed hcounts hreached =>
          hovertaken hfixed hcounts leader hleader target htarget hreached

/-- A steady step leaves a move about to remove its source ready to. -/
theorem Steady.standing {driver : Driver} {input : DriverInput} (hsteady : Steady driver input)
    (hsettled : Settled driver) {shardId : UInt64} {inflight : InflightMove}
    (hlookup : driver.inflightMoves.lookup shardId = some inflight)
    (hphase : inflight.phase = .remove) {shard' : ShardInfo}
    (hshard' : shard' ∈ shardsUnder (driver.step input).fsm inflight.move.shardId)
    (hsource' : inflight.move.sourceWorkerId ∈ shard'.replicas) :
    Standing (driver.step input).fsm (driver.step input).tables inflight.move shard' := by
  have hworld := driver.step_world input
  have hentry : (⟨shardId, inflight⟩ : Σ _ : UInt64, InflightMove) ∈
      driver.inflightMoves.entries := AList.mem_lookup_iff.mp hlookup
  cases happlied : driver.applied? input with
  | none =>
      have hfsm : (driver.step input).fsm = driver.fsm := by
        rw [hworld.fsm, happlied]
        rfl
      rw [hfsm] at hshard' ⊢
      have hstands := hsettled shardId inflight hlookup hphase shard' hshard' hsource'
      refine ⟨hstands.member, hstands.registered, ?_⟩
      rw [hworld.tables]
      cases input with
      | report orders req =>
          exact (hsteady.2 _ hentry hphase).caughtUp hshard' hstands.caughtUp
      | _ => exact hstands.caughtUp
  | some applied =>
      have hfsm : (driver.step input).fsm = step driver.fsm applied := by
        rw [hworld.fsm, happlied]
        rfl
      have htables : (driver.step input).tables = driver.tables := by
        rw [hworld.tables]
        cases input with
        | report orders req => cases happlied
        | _ => rfl
      obtain ⟨hshards, hworker⟩ := (hsteady.1 applied happlied).2 _ hentry hphase
      rw [hfsm] at hshard' ⊢
      rw [htables]
      obtain ⟨shard, hshard, hsource, hepoch, hleader, hmember⟩ := hshards shard' hshard' hsource'
      have hstands := hsettled shardId inflight hlookup hphase shard hshard hsource
      obtain ⟨worker, hfound, hready⟩ := hstands.registered
      refine ⟨hmember hstands.member, hworker worker hfound hready, ?_⟩
      rw [CaughtUp, hepoch, hleader]
      exact hstands.caughtUp

/-- What holds along a run of steady steps. -/
structure Prepared (driver : Driver) : Prop where
  ledger : ∃ issued, ShardLedger driver.fsm issued
  keyed : Keyed driver
  settled : Settled driver

theorem ledger_step {driver : Driver} {input : DriverInput}
    (hids : ∀ applied ∈ driver.applied? input, IdsAdvance driver.fsm applied)
    (hledger : ∃ issued, ShardLedger driver.fsm issued) :
    ∃ issued, ShardLedger (driver.step input).fsm issued := by
  obtain ⟨issued, hledger⟩ := hledger
  rw [(driver.step_world input).fsm]
  cases happlied : driver.applied? input with
  | none => exact ⟨issued, hledger⟩
  | some applied =>
      exact ⟨_, step_shardLedger driver.fsm (.apply applied) issued (hids applied happlied) hledger⟩

theorem step_prepared (driver : Driver) (input : DriverInput) (hsteady : Steady driver input)
    (hprepared : Prepared driver) : Prepared (driver.step input) := by
  obtain ⟨hledger, hkeyed, hsettled⟩ := hprepared
  have hworld := driver.step_world input
  refine ⟨?_, step_keyed driver input hkeyed, ?_⟩
  · exact ledger_step (fun applied happlied => (hsteady.1 applied happlied).1) hledger
  · obtain ⟨issued, hledger⟩ := hledger
    intro shardId inflight' hlookup' hphase' shard' hshard' hsource'
    have hstep := step_moveStep driver input shardId
    rw [hlookup'] at hstep
    obtain ⟨inflight, hlookup, hsame, hcase⟩ := hstep.toRemove hphase'
    rw [hsame.move] at hshard' hsource' ⊢
    rcases hcase with hphase | ⟨cfg, orders, rfl, hphase, hlook⟩
    · exact hsteady.standing hsettled hlookup hphase hshard' hsource'
    · have hfsm : (driver.step (.advance cfg orders shardId)).fsm = driver.fsm := hworld.fsm
      have htables : (driver.step (.advance cfg orders shardId)).tables = driver.tables :=
        hworld.tables
      rw [hfsm] at hshard' ⊢
      rw [htables]
      exact hlook.standing hphase hphase' (hkeyed shardId inflight hlookup)
        (hsteady.2 inflight hlookup) hledger hshard'

theorem prepared_newDriver : Prepared newDriver := by
  refine ⟨⟨[], Ledger.empty _⟩, ?_, ?_⟩
  · intro shardId inflight hlookup
    cases hlookup
  · intro shardId inflight hlookup
    cases hlookup

/-- In a prepared state a steady step removes only when the target is ready. -/
theorem Prepared.removesWhenReady {driver : Driver} {input : DriverInput}
    (hprepared : Prepared driver) (hsteady : Steady driver input) :
    RemovesWhenReady driver input := by
  obtain ⟨⟨issued, hledger⟩, hkeyed, hsettled⟩ := hprepared
  intro inflight hproposed
  cases input with
  | advance cfg orders shardId =>
      simp only [Driver.removalProposed] at hproposed
      split at hproposed
      next => cases hproposed
      next =>
        obtain ⟨hlookup, hremoves⟩ := Option.filter_eq_some_iff.mp hproposed
        obtain rfl := hkeyed shardId inflight hlookup
        have hlook := advanceMove_look (driver.view cfg orders) inflight.move.shardId inflight
        split at hremoves
        next repair inflight' haction =>
          rw [haction] at hlook
          cases hlook with
          | removing hphase hfind hsource =>
              have hfound := mem_shardsUnder_of_getShardById hfind
              have hstands := hsettled _ inflight hlookup hphase _ hfound hsource
              have hone : ∀ shard ∈ shardsUnder driver.fsm inflight.move.shardId, shard = _ :=
                fun shard hshard => eq_of_mem_shardsUnder hledger hshard hfound
              obtain ⟨worker, hworker, hready⟩ := hstands.registered
              refine ⟨?_, ?_, ?_⟩
              · intro shard hshard
                rw [hone shard hshard]
                exact hstands.member
              · have htimely := hsteady.2 inflight hlookup
                rw [Timely, hphase] at htimely
                rw [isWorkerHealthy, hworker]
                simp [WorkerInfo.healthy, hready, htimely worker hworker]
              · intro shard hshard
                rw [hone shard hshard]
                exact hstands.caughtUp
        next => cases hremoves
  | _ => cases hproposed

def storedOrders : Orders := fun _ => .stored

/-- A node that keeps one replica of a shard. -/
def singleReplica : Config := { modelConfig with replicationFactorVar := "1" }

def commandInput (cmd : Command) : DriverInput :=
  .command ⟨singleReplica, envAt 0, cmd⟩

/-- Shard 1 is on worker 1, which leads it, and workers 2 and 3 are idle. -/
def ledShard : List Command :=
  [ .registerWorker (.ok { grpcAddress := "grpc-1", raftAddress := "raft-1" }),
    .updateWorkerHeartbeat (.ok { workerId := 1 }),
    .createCollection (.ok { name := "docs" }),
    .registerWorker (.ok { grpcAddress := "grpc-2", raftAddress := "raft-2" }),
    .registerWorker (.ok { grpcAddress := "grpc-3", raftAddress := "raft-3" }),
    .updateWorkerHeartbeat (.ok { workerId := 2 }),
    .updateWorkerHeartbeat (.ok { workerId := 3 }),
    .updateShardLeader (.ok { shardId := 1, leaderId := 1 }) ]

/-- Worker 1 is drained. -/
def drainedShard : List DriverInput :=
  ledShard.map commandInput ++
    [commandInput (.updateWorkerState (.ok { workerId := 1, state := .draining }))]

/-- The manager plans the move of the shard to worker 3 and starts it. -/
def moveStarted : List DriverInput :=
  [ .plan singleReplica defaultRebalanceConfig fun _ => storedOrders,
    .execute storedOrders,
    .settle (.applied singleReplica (envAt 0)) ]

def lookInput : DriverInput := .advance singleReplica storedOrders 1

/-- Both workers report index 10 at the epoch of the shard, and a look admits worker 3. -/
def targetAdmitted : List DriverInput :=
  [ commandInput (.updateWorkerHeartbeat (.ok { workerId := 3, runningShards := [1] })),
    .report storedOrders
      { load := { workerId := 1, runningShards := [1] }
        shardLeaderInfo := [⟨1, 1⟩]
        shardMembership := [⟨1, 7, [1, 3]⟩]
        shardProgress := [⟨1, 10, 2⟩] },
    .report storedOrders
      { load := { workerId := 3, runningShards := [1] }
        shardProgress := [⟨1, 10, 2⟩] },
    lookInput ]

end Vectron.Placement
