import Vectron.Placement.MoveAccounts

/-! # What a completed move did

Along a run in which no half of a move gets lost, a move in flight has done what its
phase says, and its proposals that are still open are to remove the source. A move that
completes has then replaced its source by its target.
-/

namespace Vectron.Placement

open Foundation

/-! ## Moves on course -/

/-- The proposals that are not applied yet. -/
def Driver.proposals (driver : Driver) : List Pending := driver.waiting.toList ++ driver.late

/-- A move that is only to be rolled back. -/
def Driver.Expired (driver : Driver) (inflight : InflightMove) : Prop :=
  driver.passStart - inflight.startedAt > moveOverallTimeout

/-- What a move has done when it is in a phase. -/
def History (account : Account) (inflight : InflightMove) : Prop :=
  match inflight.phase with
  | .add => False
  | .waitTarget => Added account inflight.move
  | .remove => Added account inflight.move ∨ Swapped account inflight.move
  | .waitRemoval => Swapped account inflight.move

/-- A proposal to remove the source of a move. -/
structure RemovesSource (shardId : UInt64) (inflight : InflightMove) (pending : Pending) :
    Prop where
  purpose : pending.purpose = .remove
  repair : pending.repair = .removeReplica shardId inflight.move.sourceWorkerId
  phase : inflight.phase = .remove ∨ inflight.phase = .waitRemoval

/-- A move that can still complete has done what its phase says, and its open proposals
are to remove the source. -/
structure OnCourse (tracked : Tracked) (shardId : UInt64) (inflight : InflightMove) : Prop where
  history : History (tracked.account shardId) inflight
  proposals : ∀ pending ∈ tracked.driver.proposals, pending.shardId = shardId →
    pending.serial = inflight.serial → RemovesSource shardId inflight pending

structure Recorded (tracked : Tracked) (shardId : UInt64) (inflight : InflightMove) : Prop where
  keyed : inflight.move.shardId = shardId
  distinct : inflight.move.sourceWorkerId ≠ inflight.move.targetWorkerId
  serial : inflight.serial = (tracked.account shardId).serial
  course : ¬ tracked.driver.Expired inflight → OnCourse tracked shardId inflight

/-- A proposal to start a move that has done nothing yet. -/
structure Opening (tracked : Tracked) (pending : Pending) (move : RebalanceMove) : Prop where
  shardId : pending.shardId = move.shardId
  repair : pending.repair = .addReplica move.shardId move.targetWorkerId
  distinct : move.sourceWorkerId ≠ move.targetWorkerId
  serial : pending.serial = (tracked.account move.shardId).serial
  unchanged : (tracked.account move.shardId).ownChanges = []
  free : tracked.driver.inflightMoves.lookup move.shardId = none
  fresh : ∀ other ∈ tracked.driver.late, other.serial ≠ pending.serial

/-- The manager waits for a proposal to start a move, or for one of a move in flight. -/
def Attended (tracked : Tracked) (pending : Pending) : Prop :=
  match pending.purpose with
  | .start move _ => Opening tracked pending move
  | _ => ∀ inflight ∈ tracked.driver.inflightMoves.lookup pending.shardId,
      inflight.serial = pending.serial

/-- What holds along a run of effective steps. -/
structure Audited (tracked : Tracked) : Prop where
  ledger : ∃ issued, ShardLedger tracked.driver.fsm issued
  follows : tracked.Follows
  passes : tracked.driver.passStart ≤ tracked.driver.clock
  issued : ∀ shardId, (tracked.account shardId).serial < tracked.driver.nextSerial
  known : ∀ pending ∈ tracked.driver.proposals, pending.serial < tracked.driver.nextSerial
  recorded : ∀ shardId inflight, tracked.driver.inflightMoves.lookup shardId = some inflight →
    Recorded tracked shardId inflight
  attended : ∀ pending ∈ tracked.driver.waiting, Attended tracked pending

theorem History.congr {account account' : Account} {inflight : InflightMove}
    (hhistory : History account inflight) (hown : account'.ownChanges = account.ownChanges) :
    History account' inflight := by
  unfold History Added Swapped at hhistory ⊢
  rw [hown]
  exact hhistory

theorem History.added_or_swapped {account : Account} {inflight : InflightMove}
    (hhistory : History account inflight) :
    Added account inflight.move ∨ Swapped account inflight.move := by
  unfold History at hhistory
  split at hhistory
  next => exact hhistory.elim
  next => exact Or.inl hhistory
  next => exact hhistory
  next => exact Or.inr hhistory

theorem History.of_swapped {account : Account} {inflight : InflightMove}
    (hswapped : Swapped account inflight.move)
    (hphase : inflight.phase = .remove ∨ inflight.phase = .waitRemoval) :
    History account inflight := by
  unfold History
  rcases hphase with hphase | hphase
  · rw [hphase]
    exact Or.inr hswapped
  · rw [hphase]
    exact hswapped

/-- The removal of the source, at most once. -/
theorem swapped_record {account : Account} {move : RebalanceMove} {cfg : Config} {env : Env}
    {fsm : Fsm} {issued issued' : List (String × UInt64)} {shardId : UInt64}
    (hhistory : Added account move ∨ Swapped account move)
    (hledger : ShardLedger fsm issued)
    (hledger' : ShardLedger
      (step fsm ⟨cfg, env, (Repair.removeReplica shardId move.sourceWorkerId).command⟩) issued')
    (honce : RemovesOnce account cfg env fsm shardId move.sourceWorkerId) :
    Swapped (account.record true (replicasOf fsm shardId)
      (replicasOf
        (step fsm ⟨cfg, env, (Repair.removeReplica shardId move.sourceWorkerId).command⟩)
        shardId)) move := by
  unfold RemovesOnce at honce
  rcases hhistory with ⟨first, hown, hfirst, _⟩ | hswapped
  · rw [hown, List.length_singleton, if_pos rfl] at honce
    obtain ⟨hsource, hremoved⟩ := step_removeReplica hledger hledger' honce
    have hchanged : (replicasOf fsm shardId).erase move.sourceWorkerId ≠
        replicasOf fsm shardId := by
      intro hsame
      have hlength := List.length_erase_of_mem hsource
      have hpositive := List.length_pos_of_mem hsource
      rw [hsame] at hlength
      omega
    rw [hremoved]
    refine ⟨first, ⟨true, _, (replicasOf fsm shardId).erase move.sourceWorkerId⟩, ?_, hfirst, rfl,
      hsource⟩
    rw [Account.record_ownChanges, if_pos ⟨rfl, hchanged⟩, hown]
    rfl
  · have htwo : account.ownChanges.length ≠ 1 := by
      obtain ⟨first, second, hown, _⟩ := hswapped
      simp [hown]
    rw [if_neg htwo] at honce
    rw [step_removeReplica_of_absent hledger honce, Account.record, if_pos rfl]
    exact hswapped

namespace Tracked

variable {tracked : Tracked} {input : DriverInput}

theorem mem_proposals_of_applying {driver : Driver} {pending : Pending}
    (happlying : driver.applying? input = some pending) : pending ∈ driver.proposals := by
  unfold Driver.proposals
  cases input with
  | settle settlement =>
      cases settlement with
      | applied cfg env =>
          have hwaiting : driver.waiting = some pending := happlying
          rw [hwaiting]
          exact List.mem_append_left _ List.mem_cons_self
      | failed => cases happlying
  | lateApply position cfg env =>
      exact List.mem_append_right _ (List.mem_of_getElem? happlying)
  | _ => cases happlying

/-- The proposal of a move in flight that an effective step applies. -/
theorem effective_of_applying (heffective : Effective tracked input) {pending : Pending}
    (happlying : tracked.driver.applying? input = some pending) {inflight : InflightMove}
    (hlookup : tracked.driver.inflightMoves.lookup pending.shardId = some inflight)
    (hserial : inflight.serial = pending.serial) :
    ∃ cfg env, tracked.driver.applied? input = some ⟨cfg, env, pending.repair.command⟩ ∧
      pending.Effective (tracked.account pending.shardId) cfg env tracked.driver.fsm := by
  cases input with
  | settle settlement =>
      cases settlement with
      | applied cfg env =>
          have hwaiting : tracked.driver.waiting = some pending := happlying
          refine ⟨cfg, env, ?_, heffective.2.2 pending hwaiting⟩
          simp only [Driver.applied?, hwaiting, Option.map_some]
      | failed => cases happlying
  | lateApply position cfg env =>
      have hlate : tracked.driver.late[position]? = some pending := happlying
      refine ⟨cfg, env, ?_, heffective.2.2 pending hlate inflight hlookup hserial⟩
      simp only [Driver.applied?, hlate, Option.map_some]
  | _ => cases happlying

theorem owns_eq_true {shardId : UInt64} (howns : tracked.owns input shardId = true) :
    ∃ pending, tracked.driver.applying? input = some pending ∧ pending.shardId = shardId ∧
      pending.serial = (tracked.account shardId).serial := by
  unfold owns at howns
  rw [Option.any_eq_true] at howns
  obtain ⟨pending, happlying, howns⟩ := howns
  rw [Bool.and_eq_true, beq_iff_eq, beq_iff_eq] at howns
  exact ⟨pending, happlying, howns⟩

end Tracked

/-- The account of a move on course after a step that starts no move: the move has done
what its phase says, and is through once one of its proposals was applied. -/
theorem OnCourse.account_step {tracked : Tracked} {input : DriverInput} {shardId : UInt64}
    {inflight : InflightMove} (hcourse : OnCourse tracked shardId inflight)
    (hledger : ∃ issued, ShardLedger tracked.driver.fsm issued)
    (hledger' : ∃ issued, ShardLedger (tracked.step input).driver.fsm issued)
    (hlookup : tracked.driver.inflightMoves.lookup shardId = some inflight)
    (hserial : inflight.serial = (tracked.account shardId).serial)
    (heffective : Effective tracked input)
    (hstarting : tracked.driver.starting? input = none) :
    History ((tracked.step input).account shardId) inflight ∧
      (tracked.owns input shardId = true →
        Swapped ((tracked.step input).account shardId) inflight.move) := by
  obtain ⟨issued, hledger⟩ := hledger
  obtain ⟨issued', hledger'⟩ := hledger'
  cases howns : tracked.owns input shardId with
  | false =>
      exact ⟨hcourse.history.congr (Tracked.ownChanges_of_unowned hstarting howns),
        fun hfalse => by cases hfalse⟩
  | true =>
      obtain ⟨pending, happlying, rfl, hsame⟩ := Tracked.owns_eq_true howns
      have hremoves := hcourse.proposals pending (Tracked.mem_proposals_of_applying happlying) rfl
        (hsame.trans hserial.symm)
      obtain ⟨cfg, env, happlied, heffect⟩ := Tracked.effective_of_applying heffective happlying
        hlookup (hserial.trans hsame.symm)
      have honce : RemovesOnce (tracked.account pending.shardId) cfg env tracked.driver.fsm
          pending.shardId inflight.move.sourceWorkerId := by
        unfold Pending.Effective at heffect
        rw [hremoves.purpose, hremoves.repair] at heffect
        exact heffect
      have hswapped : Swapped ((tracked.step input).account pending.shardId) inflight.move := by
        rw [Tracked.fsm_of_applied happlied, hremoves.repair] at hledger'
        rw [Tracked.account_of_applied happlied, howns, hremoves.repair]
        exact swapped_record hcourse.history.added_or_swapped hledger hledger' honce
      exact ⟨.of_swapped hswapped hremoves.phase, fun _ => hswapped⟩

/-! ## One step -/

section

variable {tracked : Tracked} {input : DriverInput}

theorem Driver.not_expired_of_step {driver : Driver} {input : DriverInput}
    (hpasses : driver.passStart ≤ driver.clock) {inflight inflight' : InflightMove}
    (hstarted : inflight'.startedAt = inflight.startedAt)
    (hexpired' : ¬ (driver.step input).Expired inflight') : ¬ driver.Expired inflight := by
  have hforward : driver.passStart ≤ (driver.step input).passStart := by
    rcases (driver.step_world input).passStart with hsame | hclock
    · exact hsame.ge
    · exact hpasses.trans hclock.ge
  intro hlate
  refine hexpired' (lt_of_lt_of_le hlate ?_)
  rw [hstarted]
  exact Int.sub_le_sub_right hforward _

/-- A step of the others, in which the manager does nothing. -/
structure Idle (driver : Driver) (input : DriverInput) : Prop where
  inflightMoves : (driver.step input).inflightMoves = driver.inflightMoves
  waiting : (driver.step input).waiting = driver.waiting
  late : (driver.step input).late ⊆ driver.late
  nextSerial : (driver.step input).nextSerial = driver.nextSerial
  starting : driver.starting? input = none
  applying : ∀ pending ∈ driver.applying? input, pending ∈ driver.late

/-- What every step keeps. -/
theorem Audited.of_step (haudited : Audited tracked) (heffective : Effective tracked input)
    (hserial : tracked.driver.nextSerial ≤ (tracked.step input).driver.nextSerial)
    (hstarts : ∀ started, tracked.driver.starting? input = some started →
      tracked.driver.nextSerial < (tracked.step input).driver.nextSerial)
    (hknown : ∀ pending ∈ (tracked.step input).driver.proposals,
      pending.serial < (tracked.step input).driver.nextSerial)
    (hrecorded : ∀ shardId inflight,
      (tracked.step input).driver.inflightMoves.lookup shardId = some inflight →
        Recorded (tracked.step input) shardId inflight)
    (hattended : ∀ pending ∈ (tracked.step input).driver.waiting,
      Attended (tracked.step input) pending) : Audited (tracked.step input) := by
  have hworld := tracked.driver.step_world input
  refine ⟨ledger_step heffective.1 haudited.ledger, haudited.follows.step input, ?_, ?_, hknown,
    hrecorded, hattended⟩
  · show (tracked.driver.step input).passStart ≤ (tracked.driver.step input).clock
    rcases hworld.passStart with hsame | hsame
    · rw [hsame]
      exact haudited.passes.trans hworld.clock
    · rw [hsame]
      exact hworld.clock
  · intro shardId
    have hissued := haudited.issued shardId
    show (tracked.nextAccount input shardId).serial < _
    unfold Tracked.nextAccount
    simp only
    split
    next move shard hstarting =>
      split
      next => exact hstarts _ hstarting
      next => exact hissued.trans_le hserial
    next =>
      rw [Account.record_serial]
      exact hissued.trans_le hserial

/-- A record that stays the record of its move, with what it is on course. -/
theorem Audited.recorded_of (haudited : Audited tracked)
    (hstarting : tracked.driver.starting? input = none) {shardId : UInt64}
    {inflight inflight' : InflightMove}
    (hlookup : tracked.driver.inflightMoves.lookup shardId = some inflight)
    (hrecord : SameRecord inflight inflight')
    (hcourse : ¬ tracked.driver.Expired inflight → OnCourse tracked shardId inflight →
      OnCourse (tracked.step input) shardId inflight') :
    Recorded (tracked.step input) shardId inflight' := by
  have hrecorded := haudited.recorded shardId inflight hlookup
  refine ⟨hrecord.move ▸ hrecorded.keyed, hrecord.move ▸ hrecorded.distinct, ?_, ?_⟩
  · rw [Tracked.serial_of_unstarted hstarting, hrecord.serial]
    exact hrecorded.serial
  · intro hexpired'
    have hexpired : ¬ tracked.driver.Expired inflight :=
      Driver.not_expired_of_step haudited.passes hrecord.startedAt hexpired'
    exact hcourse hexpired (hrecorded.course hexpired)

/-- A record whose phase does not change. -/
theorem Audited.recorded_sameMove (haudited : Audited tracked)
    (heffective : Effective tracked input) (hstarting : tracked.driver.starting? input = none)
    (hproposals : (tracked.step input).driver.proposals ⊆ tracked.driver.proposals)
    {shardId : UInt64} {inflight inflight' : InflightMove}
    (hlookup : tracked.driver.inflightMoves.lookup shardId = some inflight)
    (hsame : SameMove inflight inflight') : Recorded (tracked.step input) shardId inflight' := by
  refine haudited.recorded_of hstarting hlookup hsame.toSameRecord fun _ hcourse => ⟨?_, ?_⟩
  · have hhistory := (hcourse.account_step haudited.ledger
      (ledger_step heffective.1 haudited.ledger) hlookup
      (haudited.recorded shardId inflight hlookup).serial heffective hstarting).1
    unfold History at hhistory ⊢
    rw [hsame.phase, hsame.move]
    exact hhistory
  · intro pending hpending hshard hserial
    have hremoves := hcourse.proposals pending (hproposals hpending) hshard
      (hserial.trans hsame.serial)
    refine ⟨hremoves.purpose, ?_, ?_⟩
    · rw [hsame.move]
      exact hremoves.repair
    · rw [hsame.phase]
      exact hremoves.phase

/-- A step that changes the state and the tables, and nothing of the manager. -/
theorem Idle.of_rest {driver : Driver}
    (hinflight : (driver.step input).inflightMoves = driver.inflightMoves)
    (hwaiting : (driver.step input).waiting = driver.waiting)
    (hlate : (driver.step input).late = driver.late)
    (hserial : (driver.step input).nextSerial = driver.nextSerial)
    (hstarting : driver.starting? input = none) (happlying : driver.applying? input = none) :
    Idle driver input := by
  refine ⟨hinflight, hwaiting, ?_, hserial, hstarting, ?_⟩
  · rw [hlate]
    exact List.Subset.refl _
  · intro pending hpending
    rw [happlying] at hpending
    cases hpending

theorem Idle.of_same {driver : Driver} (hstep : driver.step input = driver)
    (hstarting : driver.starting? input = none) (happlying : driver.applying? input = none) :
    Idle driver input := by
  apply Idle.of_rest
  all_goals first | rw [hstep] | assumption

theorem Idle.proposals {driver : Driver} (hidle : Idle driver input) :
    (driver.step input).proposals ⊆ driver.proposals := by
  unfold Driver.proposals
  rw [hidle.waiting]
  exact List.append_subset.mpr ⟨List.subset_append_left _ _,
    List.Subset.trans hidle.late (List.subset_append_right _ _)⟩

/-- An opening is not touched while the manager waits for it. -/
theorem Opening.idle {pending : Pending} {move : RebalanceMove}
    (hopening : Opening tracked pending move) (hidle : Idle tracked.driver input) :
    Opening (tracked.step input) pending move := by
  have howns : tracked.owns input move.shardId = false := by
    rw [Bool.eq_false_iff]
    intro howns
    obtain ⟨other, happlying, _, hserial⟩ := Tracked.owns_eq_true howns
    exact hopening.fresh other (hidle.applying other happlying)
      (hserial.trans hopening.serial.symm)
  refine ⟨hopening.shardId, hopening.repair, hopening.distinct, ?_, ?_, ?_, ?_⟩
  · rw [Tracked.serial_of_unstarted hidle.starting]
    exact hopening.serial
  · rw [Tracked.ownChanges_of_unowned hidle.starting howns]
    exact hopening.unchanged
  · show (tracked.driver.step input).inflightMoves.lookup move.shardId = none
    rw [hidle.inflightMoves]
    exact hopening.free
  · intro other hother
    exact hopening.fresh other (hidle.late hother)

theorem Audited.idle (haudited : Audited tracked) (heffective : Effective tracked input)
    (hidle : Idle tracked.driver input) : Audited (tracked.step input) := by
  have hstarting := hidle.starting
  refine haudited.of_step heffective hidle.nextSerial.ge ?_ ?_ ?_ ?_
  · intro started hstarted
    rw [hstarting] at hstarted
    cases hstarted
  · intro pending hpending
    exact (haudited.known pending (hidle.proposals hpending)).trans_le hidle.nextSerial.ge
  · intro shardId inflight hlookup'
    have hlookup : tracked.driver.inflightMoves.lookup shardId = some inflight := by
      rw [← hidle.inflightMoves]
      exact hlookup'
    exact haudited.recorded_sameMove heffective hstarting hidle.proposals hlookup (.refl inflight)
  · intro pending hpending
    have hwaiting : pending ∈ tracked.driver.waiting := by
      rw [← hidle.waiting]
      exact hpending
    have hattended := haudited.attended pending hwaiting
    unfold Attended at hattended ⊢
    split at hattended
    next move shard hpurpose => exact hattended.idle hidle
    next =>
      show ∀ inflight ∈ (tracked.driver.step input).inflightMoves.lookup pending.shardId, _
      rw [hidle.inflightMoves]
      exact hattended

theorem demandAck_phase (inflight : InflightMove) (shard : ShardInfo) :
    (inflight.demandAck shard).phase = inflight.phase := by
  unfold InflightMove.demandAck
  split <;> rfl

section

variable {view : MoveView} {shardId : UInt64} {inflight inflight' : InflightMove}

/-- A look that keeps a move on course leaves it on course, if the source it finds gone
was removed by the move. -/
theorem Look.kept_history {account : Account} (hlook : Look view shardId inflight (.keep inflight'))
    (hhistory : History account inflight)
    (hgone : inflight.phase = .remove → ∀ shard, getShardById view.env view.fsm shardId =
      some shard → inflight.move.sourceWorkerId ∉ shard.replicas → account.ownChanges.length = 2) :
    History account inflight' ∧
      (inflight.phase = .remove ∨ inflight.phase = .waitRemoval →
        inflight'.phase = .remove ∨ inflight'.phase = .waitRemoval) := by
  cases hlook with
  | retried hsame =>
      unfold History at hhistory ⊢
      rw [hsame.phase, hsame.move]
      exact ⟨hhistory, fun hphase => hphase⟩
  | targetPresent hphase =>
      rw [History, hphase] at hhistory
      exact hhistory.elim
  | @admitted shard leaderProgress _ hphase _ _ _ _ _ _ =>
      have hmove : ((inflight.raiseEpoch shard).fixIndex leaderProgress).move = inflight.move :=
        ((raiseEpoch_sameMove inflight shard).trans (fixIndex_sameMove _ leaderProgress)).move
      rw [History, hphase] at hhistory
      refine ⟨Or.inl ?_, fun _ => Or.inl rfl⟩
      show Added account ((inflight.raiseEpoch shard).fixIndex leaderProgress).move
      rw [hmove]
      exact hhistory
  | @sourceGone shard hphase hfind hsource =>
      refine ⟨?_, fun _ => Or.inr rfl⟩
      show Swapped account inflight.move
      have htwo := hgone hphase shard hfind hsource
      rw [History, hphase] at hhistory
      rcases hhistory with ⟨first, hown, _⟩ | hswapped
      · rw [hown] at htwo
        cases htwo
      · exact hswapped

/-- A look at a move on course proposes to remove the source and nothing else. -/
theorem Look.proposed_history {purpose : Purpose} {repair : Repair} {account : Account}
    (hlook : Look view shardId inflight (.propose purpose repair inflight'))
    (hhistory : History account inflight)
    (hintime : ¬ view.now - inflight.startedAt > moveOverallTimeout) :
    History account inflight' ∧ inflight'.phase = .remove ∧ purpose = .remove ∧
      repair = .removeReplica shardId inflight'.move.sourceWorkerId := by
  cases hlook with
  | rollback _ hlate => exact absurd hlate hintime
  | adding hphase =>
      rw [History, hphase] at hhistory
      exact hhistory.elim
  | @removing shard hphase _ _ =>
      have hmove : (view.noteConfig shardId (inflight.demandAck shard)).move = inflight.move :=
        ((demandAck_sameRecord inflight shard).trans
          (noteConfig_sameMove view shardId _).toSameRecord).move
      have hphase' : (view.noteConfig shardId (inflight.demandAck shard)).phase = .remove :=
        ((noteConfig_sameMove view shardId _).phase.trans (demandAck_phase inflight shard)).trans
          hphase
      rw [hmove]
      refine ⟨?_, hphase', rfl, rfl⟩
      rw [History, hphase] at hhistory
      rw [History, hphase', hmove]
      exact hhistory

end

/-- A look changes the record it looks at, and may leave a proposal. -/
theorem Driver.advance_proposals {driver : Driver} (hidle : driver.waiting = none) (cfg : Config)
    (orders : Orders) (shardId : UInt64) :
    (driver.advance cfg orders shardId).late = driver.late ∧
      (driver.advance cfg orders shardId).nextSerial = driver.nextSerial ∧
      ∀ pending ∈ (driver.advance cfg orders shardId).waiting,
        ∃ inflight inflight', driver.inflightMoves.lookup shardId = some inflight ∧
          (driver.advance cfg orders shardId).inflightMoves.lookup shardId = some inflight' ∧
          pending.shardId = shardId ∧ pending.serial = inflight'.serial ∧
          Look (driver.view cfg orders) shardId inflight
            (.propose pending.purpose pending.repair inflight') := by
  have hnone : ∀ pending ∈ driver.waiting, False := by
    intro pending hpending
    rw [hidle] at hpending
    cases hpending
  unfold advance
  cases hlookup : driver.inflightMoves.lookup shardId with
  | none => exact ⟨rfl, rfl, fun pending hpending => (hnone pending hpending).elim⟩
  | some inflight =>
      simp only
      cases haction : (driver.view cfg orders).advanceMove shardId inflight with
      | keep inflight' =>
          simp only [revise, hlookup]
          exact ⟨trivial, trivial, fun pending hpending => (hnone pending hpending).elim⟩
      | propose purpose repair inflight' =>
          simp only [revise, hlookup]
          refine ⟨trivial, trivial, fun pending hpending => ?_⟩
          obtain rfl := Option.some.inj hpending
          refine ⟨inflight, inflight', rfl, AList.lookup_insert _, rfl, rfl, ?_⟩
          rw [← haction]
          exact advanceMove_look _ _ _
      | drop
      | complete => exact ⟨rfl, rfl, fun pending hpending => (hnone pending hpending).elim⟩

section

variable (haudited : Audited tracked) {cfg : Config} {orders : Orders} {shardId : UInt64}
  (heffective : Effective tracked (.advance cfg orders shardId))

include haudited heffective

/-- The record that a look leaves, if it is on course. -/
theorem Audited.look {inflight inflight' : InflightMove}
    (hlookup : tracked.driver.inflightMoves.lookup shardId = some inflight)
    (hexpired : ¬ tracked.driver.Expired inflight)
    (hlook : Look (tracked.driver.view cfg orders) shardId inflight (.keep inflight') ∨
      ∃ purpose repair, Look (tracked.driver.view cfg orders) shardId inflight
      (.propose purpose repair inflight')) :
    History (tracked.account shardId) inflight' ∧
      ∀ pending, RemovesSource shardId inflight pending →
        RemovesSource shardId inflight' pending := by
  have hrecorded := haudited.recorded shardId inflight hlookup
  have hhistory := (hrecorded.course hexpired).history
  obtain ⟨issued, hledger⟩ := haudited.ledger
  rcases hlook with hlook | ⟨purpose, repair, hlook⟩
  · have hmove := (hlook.record (Or.inl rfl)).move
    obtain ⟨hhistory', hphase⟩ := hlook.kept_history hhistory fun hphase shard hfind hsource => by
      refine heffective.2.2 inflight hlookup hphase ?_
      rw [replicasOf_eq hledger (mem_shardsUnder_of_getShardById hfind)]
      exact hsource
    refine ⟨hhistory', fun pending hremoves => ⟨hremoves.purpose, ?_, hphase hremoves.phase⟩⟩
    rw [hmove]
    exact hremoves.repair
  · have hmove := (hlook.record (Or.inr ⟨purpose, repair, rfl⟩)).move
    obtain ⟨hhistory', hphase, _⟩ := hlook.proposed_history hhistory hexpired
    refine ⟨hhistory', fun pending hremoves => ⟨hremoves.purpose, ?_, Or.inl hphase⟩⟩
    rw [hmove]
    exact hremoves.repair

/-- Every record after a look was there before, and a look keeps it on course. -/
theorem Audited.advance_record (hidle : tracked.driver.waiting = none) {other : UInt64}
    {inflight' : InflightMove}
    (hlookup' : (tracked.driver.advance cfg orders shardId).inflightMoves.lookup other =
      some inflight') :
    ∃ inflight, tracked.driver.inflightMoves.lookup other = some inflight ∧
      SameRecord inflight inflight' ∧
      (¬ tracked.driver.Expired inflight → History (tracked.account other) inflight' ∧
        ∀ pending, RemovesSource other inflight pending →
          RemovesSource other inflight' pending) := by
  have hlook : ∀ {inflight action}, (tracked.driver.view cfg orders).advanceMove shardId inflight =
      action → Look (tracked.driver.view cfg orders) shardId inflight action := by
    intro inflight action haction
    rw [← haction]
    exact advanceMove_look _ _ _
  have hmove := advance_moveStep hidle cfg orders shardId other
  rw [hlookup'] at hmove
  generalize hbefore : tracked.driver.inflightMoves.lookup other = before at hmove
  cases hmove with
  | same =>
      refine ⟨inflight', rfl, .refl _, fun hexpired => ⟨?_, fun _ hremoves => hremoves⟩⟩
      exact ((haudited.recorded other inflight' hbefore).course hexpired).history
  | kept _ haction =>
      exact ⟨_, rfl, (hlook haction).record (Or.inl rfl), fun hexpired =>
        haudited.look heffective hbefore hexpired (Or.inl (hlook haction))⟩
  | proposed _ haction =>
      exact ⟨_, rfl, (hlook haction).record (Or.inr ⟨_, _, rfl⟩), fun hexpired =>
        haudited.look heffective hbefore hexpired (Or.inr ⟨_, _, hlook haction⟩)⟩

theorem Audited.advance (hidle : tracked.driver.waiting = none) :
    Audited (tracked.step (.advance cfg orders shardId)) := by
  have hstep : (tracked.step (.advance cfg orders shardId)).driver =
      tracked.driver.advance cfg orders shardId := by
    simp [Tracked.step, Driver.step, hidle]
  obtain ⟨hlate, hserial, hwaiting⟩ := Driver.advance_proposals hidle cfg orders shardId
  have haccount : ∀ other, (tracked.step (.advance cfg orders shardId)).account other =
      tracked.account other := Tracked.account_of_quiet rfl rfl
  refine haudited.of_step heffective ?_ (fun started hstarted => by cases hstarted) ?_ ?_ ?_
  · rw [hstep, hserial]
  · rw [hstep, hserial, Driver.proposals, hlate]
    intro pending hpending
    rcases List.mem_append.mp hpending with hpending | hpending
    · obtain ⟨inflight, inflight', hlookup, _, _, hsame, hlook⟩ :=
        hwaiting pending (Option.mem_toList.mp hpending)
      rw [hsame, (hlook.record (Or.inr ⟨_, _, rfl⟩)).serial,
        (haudited.recorded shardId inflight hlookup).serial]
      exact haudited.issued shardId
    · exact haudited.known pending (List.mem_append_right _ hpending)
  · rw [hstep]
    intro other inflight' hlookup'
    obtain ⟨inflight, hlookup, hrecord, hkept⟩ :=
      haudited.advance_record heffective hidle hlookup'
    refine haudited.recorded_of rfl hlookup hrecord fun hexpired hcourse => ?_
    obtain ⟨hhistory, hremoves⟩ := hkept hexpired
    refine ⟨?_, ?_⟩
    · rw [haccount]
      exact hhistory
    · rw [hstep, Driver.proposals, hlate]
      intro pending hpending hshard hsame
      rcases List.mem_append.mp hpending with hpending | hpending
      -- the proposal that the look leaves belongs to the record it leaves
      · obtain ⟨found, found', hfound, hfound', hown, _, hlook⟩ :=
          hwaiting pending (Option.mem_toList.mp hpending)
        obtain rfl : other = shardId := hshard.symm.trans hown
        obtain rfl := Option.some.inj (hlookup.symm.trans hfound)
        obtain rfl := Option.some.inj (hlookup'.symm.trans hfound')
        obtain ⟨_, hphase, hpurpose, hrepair⟩ := hlook.proposed_history hcourse.history hexpired
        exact ⟨hpurpose, hrepair, Or.inl hphase⟩
      · refine hremoves pending (hcourse.proposals pending (List.mem_append_right _ hpending)
          hshard ?_)
        rw [hsame, hrecord.serial]
  · rw [hstep]
    intro pending hpending
    obtain ⟨inflight, inflight', _, hlookup', hshard, hsame, hlook⟩ := hwaiting pending hpending
    unfold Attended
    rw [hshard, hstep]
    split
    next move shard hpurpose =>
      rw [hpurpose] at hlook
      cases hlook
    next =>
      intro found hfound
      obtain rfl := Option.some.inj (hlookup'.symm.trans hfound)
      exact hsame.symm

end

/-- A step that opens a move with a proposal. -/
structure Opens (driver : Driver) (input : DriverInput) (move : RebalanceMove)
    (shard : ShardInfo) : Prop where
  starting : driver.starting? input = some (move, shard)
  applied : driver.applied? input = none
  distinct : move.sourceWorkerId ≠ move.targetWorkerId
  free : driver.inflightMoves.lookup move.shardId = none
  inflightMoves : (driver.step input).inflightMoves = driver.inflightMoves
  waiting : (driver.step input).waiting =
    some ⟨driver.nextSerial, move.shardId, .start move shard,
      .addReplica move.shardId move.targetWorkerId⟩
  late : (driver.step input).late = driver.late
  nextSerial : (driver.step input).nextSerial = driver.nextSerial + 1

theorem executeMove_distinct {env : ServerEnv} {fsm : Fsm} {clock : Time} {move : RebalanceMove}
    {shard : ShardInfo} (hchecks : executeMove env fsm clock move = .ok shard) :
    move.sourceWorkerId ≠ move.targetWorkerId := by
  intro hsame
  rw [executeMove, if_pos hsame] at hchecks
  cases hchecks

theorem Driver.execute_cases (driver : Driver) (orders : Orders)
    (habsent : ∀ started ∈ driver.starting? (.execute orders),
      started.1.targetWorkerId ∉ started.2.replicas) :
    Idle driver (.execute orders) ∨
      ∃ move shard, Opens driver (.execute orders) move shard := by
  have hnothing : ∀ planned, driver.step (.execute orders) = { driver with planned := planned } →
      driver.starting? (.execute orders) = none → Idle driver (.execute orders) := by
    intro planned hstep hstarting
    refine .of_rest ?_ ?_ ?_ ?_ hstarting rfl
    all_goals rw [hstep]
  cases hwaiting : driver.waiting with
  | some pending =>
      refine Or.inl (.of_same ?_ ?_ rfl)
      · simp [step, hwaiting]
      · simp [starting?, hwaiting]
  | none =>
      cases hplanned : driver.planned with
      | nil =>
          refine Or.inl (.of_same ?_ ?_ rfl)
          · simp [step, hwaiting, execute, hplanned]
          · simp [starting?, hwaiting, hplanned]
      | cons move rest =>
          by_cases hslots : driver.slots = 0
          · refine Or.inl (hnothing [] ?_ ?_)
            · simp [step, hwaiting, execute, hplanned, hslots]
            · simp [starting?, hslots]
          · cases hlookup : driver.inflightMoves.lookup move.shardId with
            | some inflight =>
                refine Or.inl (hnothing rest ?_ ?_)
                · simp [step, hwaiting, execute, hplanned, hslots, hlookup]
                · simp [starting?, hwaiting, hplanned, hslots, hlookup]
            | none =>
                cases hchecks : executeMove (driver.env orders) driver.fsm driver.clock move with
                | error message =>
                    refine Or.inl (hnothing rest ?_ ?_)
                    · simp [step, hwaiting, execute, hplanned, hslots, hlookup, hchecks]
                    · simp [starting?, hwaiting, hplanned, hslots, hlookup, hchecks,
                        Option.filter]
                | ok shard =>
                    have hstarting : driver.starting? (.execute orders) = some (move, shard) := by
                      simp [starting?, hwaiting, hplanned, hslots, hlookup, hchecks,
                        Option.filter]
                    have hmember := habsent (move, shard) hstarting
                    refine Or.inr ⟨move, shard, hstarting, rfl, executeMove_distinct hchecks,
                      hlookup, ?_, ?_, ?_, ?_⟩
                    all_goals
                      simp [step, hwaiting, execute, hplanned, hslots, hlookup, hchecks, hmember]

theorem Audited.opens (haudited : Audited tracked) (heffective : Effective tracked input)
    {move : RebalanceMove} {shard : ShardInfo} (hopens : Opens tracked.driver input move shard) :
    Audited (tracked.step input) := by
  have hserial : (tracked.step input).driver.nextSerial = tracked.driver.nextSerial + 1 :=
    hopens.nextSerial
  have hopened : (tracked.step input).account move.shardId =
      { serial := tracked.driver.nextSerial
        start := replicasOf tracked.driver.fsm move.shardId } := by
    simp only [Tracked.step, Tracked.nextAccount, hopens.starting, if_true]
  have hothers : ∀ other, other ≠ move.shardId →
      (tracked.step input).account other = tracked.account other := by
    intro other hother
    simp only [Tracked.step, Tracked.nextAccount, hopens.starting, if_neg hother.symm]
  have hproposals : (tracked.step input).driver.proposals =
      ⟨tracked.driver.nextSerial, move.shardId, .start move shard,
        .addReplica move.shardId move.targetWorkerId⟩ :: tracked.driver.late := by
    show (tracked.driver.step input).proposals = _
    rw [Driver.proposals, hopens.waiting, hopens.late]
    rfl
  refine haudited.of_step heffective (by omega) (fun _ _ => by omega) ?_ ?_ ?_
  · rw [hproposals, hserial]
    intro pending hpending
    rcases List.mem_cons.mp hpending with rfl | hlate
    · exact Nat.lt_succ_self _
    · exact (haudited.known pending (List.mem_append_right _ hlate)).trans (Nat.lt_succ_self _)
  · intro other inflight hlookup'
    have hlookup : tracked.driver.inflightMoves.lookup other = some inflight := by
      rw [← hopens.inflightMoves]
      exact hlookup'
    have hother : other ≠ move.shardId := by
      rintro rfl
      rw [hopens.free] at hlookup
      cases hlookup
    have hrecorded := haudited.recorded other inflight hlookup
    refine ⟨hrecorded.keyed, hrecorded.distinct, ?_, ?_⟩
    · rw [hothers other hother]
      exact hrecorded.serial
    · intro hexpired'
      have hcourse := hrecorded.course
        (Driver.not_expired_of_step haudited.passes rfl hexpired')
      refine ⟨?_, ?_⟩
      · rw [hothers other hother]
        exact hcourse.history
      · rw [hproposals]
        intro pending hpending hshard hsame
        rcases List.mem_cons.mp hpending with rfl | hlate
        · exact absurd hshard.symm hother
        · exact hcourse.proposals pending (List.mem_append_right _ hlate) hshard hsame
  · intro pending hpending
    obtain rfl := Option.some.inj (hopens.waiting.symm.trans hpending)
    refine ⟨rfl, rfl, hopens.distinct, ?_, ?_, ?_, ?_⟩
    · rw [hopened]
    · rw [hopened]
      rfl
    · show (tracked.driver.step input).inflightMoves.lookup move.shardId = none
      rw [hopens.inflightMoves]
      exact hopens.free
    · show ∀ other ∈ (tracked.driver.step input).late, _
      rw [hopens.late]
      intro other hlate
      exact (haudited.known other (List.mem_append_right _ hlate)).ne

theorem Driver.acknowledge_kept (driver : Driver) (pending : Pending) :
    (driver.acknowledge pending).late = driver.late ∧
      (driver.acknowledge pending).nextSerial = driver.nextSerial := by
  unfold acknowledge revise
  split
  next => exact ⟨rfl, rfl⟩
  next => split <;> exact ⟨rfl, rfl⟩
  next => split <;> exact ⟨rfl, rfl⟩
  next => exact ⟨rfl, rfl⟩

theorem Driver.giveUp_kept (driver : Driver) (pending : Pending) :
    (driver.giveUp pending).late = driver.late ∧
      (driver.giveUp pending).nextSerial = driver.nextSerial := by
  unfold giveUp revise
  split
  next => exact ⟨rfl, rfl⟩
  next => split <;> exact ⟨rfl, rfl⟩

/-- A proposal is answered, and the manager waits for nothing. -/
theorem Audited.answered (haudited : Audited tracked) (heffective : Effective tracked input)
    (hstarting : tracked.driver.starting? input = none)
    (hserial : (tracked.driver.step input).nextSerial = tracked.driver.nextSerial)
    (hwaiting : (tracked.driver.step input).waiting = none)
    (hproposals : (tracked.driver.step input).proposals ⊆ tracked.driver.proposals)
    (hrecorded : ∀ shardId inflight,
      (tracked.driver.step input).inflightMoves.lookup shardId = some inflight →
        Recorded (tracked.step input) shardId inflight) : Audited (tracked.step input) := by
  refine haudited.of_step heffective hserial.ge ?_ ?_ hrecorded ?_
  · intro started hstarted
    rw [hstarting] at hstarted
    cases hstarted
  · intro pending hpending
    exact (haudited.known pending (hproposals hpending)).trans_le hserial.ge
  · intro pending hpending
    have hnone : (tracked.driver.step input).waiting = some pending := hpending
    rw [hwaiting] at hnone
    cases hnone

theorem Audited.failed (haudited : Audited tracked)
    (heffective : Effective tracked (.settle .failed)) {pending : Pending}
    (hwaiting : tracked.driver.waiting = some pending) :
    Audited (tracked.step (.settle .failed)) := by
  have hstep : tracked.driver.step (.settle .failed) =
      { tracked.driver with waiting := none, late := tracked.driver.late ++ [pending] }.giveUp
        pending := by
    simp [Driver.step, hwaiting]
  obtain ⟨hlate, hserial⟩ := Driver.giveUp_kept
    { tracked.driver with waiting := none, late := tracked.driver.late ++ [pending] } pending
  have hnone : (tracked.driver.step (.settle .failed)).waiting = none := by
    rw [hstep, Driver.giveUp_waiting]
  have hproposals : (tracked.driver.step (.settle .failed)).proposals ⊆
      tracked.driver.proposals := by
    rw [Driver.proposals, hnone, hstep, hlate, Driver.proposals, hwaiting]
    intro other hother
    rcases List.mem_append.mp hother with hother | hother
    · cases hother
    · rcases List.mem_append.mp hother with hother | hother
      · exact List.mem_append_right _ hother
      · exact List.mem_append_left _ hother
  refine haudited.answered heffective rfl (by rw [hstep, hserial]) hnone hproposals ?_
  intro shardId inflight' hlookup'
  have hmove := step_moveStep tracked.driver (.settle .failed) shardId
  rw [hlookup'] at hmove
  generalize hbefore : tracked.driver.inflightMoves.lookup shardId = before at hmove
  cases hmove with
  | same => exact haudited.recorded_sameMove heffective rfl hproposals hbefore (.refl inflight')
  | failed inflight =>
      exact haudited.recorded_sameMove heffective rfl hproposals hbefore
        (scheduleRetry_sameMove inflight _)

/-- A move whose proposal to start it was performed has added its target. -/
theorem Opening.added {cfg : Config} {env : Env} {pending : Pending} {move : RebalanceMove}
    {shard : ShardInfo} (hopening : Opening tracked pending move)
    (hledger : ∃ issued, ShardLedger tracked.driver.fsm issued)
    (heffective : Effective tracked (.settle (.applied cfg env)))
    (hwaiting : tracked.driver.waiting = some pending)
    (hpurpose : pending.purpose = .start move shard) :
    Added ((tracked.step (.settle (.applied cfg env))).account move.shardId) move := by
  have happlied : tracked.driver.applied? (.settle (.applied cfg env)) =
      some ⟨cfg, env, pending.repair.command⟩ := by
    simp only [Driver.applied?, hwaiting, Option.map_some]
  obtain ⟨issued', hledger'⟩ := ledger_step heffective.1 hledger
  obtain ⟨issued, hledger⟩ := hledger
  have heffect := heffective.2.2 pending hwaiting
  rw [Pending.Effective, hpurpose, hopening.repair] at heffect
  obtain ⟨hperformed, habsent⟩ := heffect
  have hledger' : ShardLedger (step tracked.driver.fsm
      ⟨cfg, env, (Repair.addReplica move.shardId move.targetWorkerId).command⟩) issued' := by
    rw [← hopening.repair, ← Tracked.fsm_of_applied happlied]
    exact hledger'
  have howns : tracked.owns (.settle (.applied cfg env)) move.shardId = true := by
    unfold Tracked.owns
    simp [Driver.applying?, hwaiting, hopening.shardId, hopening.serial]
  have hadded := step_addReplica hledger hledger' hperformed habsent
  rw [Tracked.account_of_applied happlied, howns, hopening.repair, hadded]
  refine ⟨⟨true, _, replicasOf tracked.driver.fsm move.shardId ++ [move.targetWorkerId]⟩, ?_,
    rfl, habsent⟩
  rw [Account.record_ownChanges, if_pos ⟨rfl, by simp⟩, hopening.unchanged]
  rfl

theorem Audited.applied (haudited : Audited tracked) {cfg : Config} {env : Env}
    (heffective : Effective tracked (.settle (.applied cfg env))) {pending : Pending}
    (hwaiting : tracked.driver.waiting = some pending) :
    Audited (tracked.step (.settle (.applied cfg env))) := by
  have hstep : tracked.driver.step (.settle (.applied cfg env)) =
      ({ tracked.driver with waiting := none }.apply
        ⟨cfg, env, pending.repair.command⟩).acknowledge pending := by
    simp [Driver.step, hwaiting]
  obtain ⟨hlate, hserial⟩ := Driver.acknowledge_kept
    ({ tracked.driver with waiting := none }.apply ⟨cfg, env, pending.repair.command⟩) pending
  have hnone : (tracked.driver.step (.settle (.applied cfg env))).waiting = none := by
    rw [hstep, Driver.acknowledge_waiting]
    rfl
  have hopen : (tracked.driver.step (.settle (.applied cfg env))).proposals =
      tracked.driver.late := by
    rw [Driver.proposals, hnone, hstep, hlate]
    rfl
  have hproposals : (tracked.driver.step (.settle (.applied cfg env))).proposals ⊆
      tracked.driver.proposals := by
    rw [hopen]
    exact List.subset_append_right _ _
  have hattended := haudited.attended pending hwaiting
  have hmine : pending ∈ tracked.driver.proposals :=
    List.mem_append_left _ (Option.mem_toList.mpr hwaiting)
  refine haudited.answered heffective rfl (by rw [hstep, hserial]; rfl) hnone hproposals ?_
  intro shardId inflight' hlookup'
  have hmove := step_moveStep tracked.driver (.settle (.applied cfg env)) shardId
  rw [hlookup'] at hmove
  generalize hbefore : tracked.driver.inflightMoves.lookup shardId = before at hmove
  cases hmove with
  | same => exact haudited.recorded_sameMove heffective rfl hproposals hbefore (.refl inflight')
  | @started _ _ found move shard _ hfound hpurpose =>
      obtain rfl := Option.some.inj (hwaiting.symm.trans hfound)
      rw [Attended, hpurpose] at hattended
      refine ⟨rfl, hattended.distinct, ?_, fun _ => ⟨?_, ?_⟩⟩
      · rw [Tracked.serial_of_unstarted rfl]
        exact hattended.serial
      · exact hattended.added haudited.ledger heffective hwaiting hpurpose
      · intro other hother _ hsame
        have hin : other ∈ tracked.driver.late := by
          rw [← hopen]
          exact hother
        exact absurd hsame (hattended.fresh other hin)
  | @added _ _ found inflight hfound hpurpose =>
      obtain rfl := Option.some.inj (hwaiting.symm.trans hfound)
      rw [Attended, hpurpose] at hattended
      refine haudited.recorded_of rfl hbefore (advanceMovePhase_sameRecord _ _ _) ?_
      intro _ hcourse
      have hremoves := hcourse.proposals pending hmine rfl (hattended inflight hbefore).symm
      have hfalse := hpurpose.symm.trans hremoves.purpose
      cases hfalse
  | @removed _ _ found inflight hfound hpurpose =>
      obtain rfl := Option.some.inj (hwaiting.symm.trans hfound)
      rw [Attended, hpurpose] at hattended
      have hrecorded := haudited.recorded _ inflight hbefore
      have howns : tracked.owns (.settle (.applied cfg env)) pending.shardId = true := by
        unfold Tracked.owns
        simp [Driver.applying?, hwaiting, ← hrecorded.serial, hattended inflight hbefore]
      refine haudited.recorded_of rfl hbefore (advanceMovePhase_sameRecord _ _ _) ?_
      intro _ hcourse
      refine ⟨?_, ?_⟩
      · exact (hcourse.account_step haudited.ledger (ledger_step heffective.1 haudited.ledger)
          hbefore hrecorded.serial heffective rfl).2 howns
      · intro other hother hshard hsame
        have hremoves := hcourse.proposals other (hproposals hother) hshard hsame
        exact ⟨hremoves.purpose, hremoves.repair, Or.inr rfl⟩

theorem Driver.lateApply_idle (driver : Driver) (position : Nat) (cfg : Config) (env : Env) :
    Idle driver (.lateApply position cfg env) := by
  cases hlate : driver.late[position]? with
  | none =>
      refine .of_same ?_ rfl hlate
      simp only [step, hlate]
  | some pending =>
      have hstep : driver.step (.lateApply position cfg env) =
          { driver with late := driver.late.eraseIdx position }.apply
            ⟨cfg, env, pending.repair.command⟩ := by
        simp only [step, hlate]
      refine ⟨?_, ?_, ?_, ?_, rfl, ?_⟩
      · rw [hstep]
        rfl
      · rw [hstep]
        rfl
      · rw [hstep]
        exact (List.eraseIdx_sublist _ _).subset
      · rw [hstep]
        rfl
      · intro other hother
        exact List.mem_of_getElem? hother

theorem step_audited (tracked : Tracked) (input : DriverInput)
    (heffective : Effective tracked input) (haudited : Audited tracked) :
    Audited (tracked.step input) := by
  cases input with
  | command applied
  | report orders req
  | wait elapsed => exact haudited.idle heffective (.of_rest rfl rfl rfl rfl rfl rfl)
  | startPass
  | plan cfg config orders =>
      refine haudited.idle heffective (.of_rest ?_ ?_ ?_ ?_ rfl rfl)
      all_goals
        rw [Driver.step]
        split <;> rfl
  | advance cfg orders shardId =>
      cases hwaiting : tracked.driver.waiting with
      | none => exact haudited.advance heffective hwaiting
      | some pending =>
          refine haudited.idle heffective (.of_same ?_ rfl rfl)
          simp [Driver.step, hwaiting]
  | execute orders =>
      rcases tracked.driver.execute_cases orders heffective.2.1 with hidle | ⟨move, shard, hopens⟩
      · exact haudited.idle heffective hidle
      · exact haudited.opens heffective hopens
  | settle settlement =>
      cases hwaiting : tracked.driver.waiting with
      | none =>
          refine haudited.idle heffective (.of_same ?_ rfl ?_)
          · simp [Driver.step, hwaiting]
          · cases settlement with
            | applied cfg env => exact hwaiting
            | failed => rfl
      | some pending =>
          cases settlement with
          | applied cfg env => exact haudited.applied heffective hwaiting
          | failed => exact haudited.failed heffective hwaiting
  | lateApply position cfg env =>
      exact haudited.idle heffective (tracked.driver.lateApply_idle position cfg env)

theorem audited_newTracked : Audited newTracked := by
  refine ⟨⟨[], Ledger.empty _⟩, fun _ => rfl, le_rfl, fun _ => Nat.one_pos, ?_, ?_, ?_⟩
  · intro pending hpending
    cases hpending
  · intro shardId inflight hlookup
    cases hlookup
  · intro pending hpending
    cases hpending

/-- A move that completes in an audited state has replaced its source. -/
theorem Audited.conserves (haudited : Audited tracked) (input : DriverInput) :
    Conserves tracked input := by
  intro inflight hcompleted
  cases input with
  | advance cfg orders shardId =>
      simp only [Driver.completed?] at hcompleted
      split at hcompleted
      next => cases hcompleted
      next =>
        obtain ⟨hlookup, hcomplete⟩ := Option.filter_eq_some_iff.mp hcompleted
        have hrecorded := haudited.recorded shardId inflight hlookup
        have hlook := advanceMove_look (tracked.driver.view cfg orders) shardId inflight
        split at hcomplete
        next haction =>
          rw [haction] at hlook
          cases hlook with
          | completed hphase _ hintime _ =>
              have hhistory := (hrecorded.course (not_lt.mpr hintime)).history
              rw [History, hphase] at hhistory
              obtain rfl := hrecorded.keyed
              exact hhistory.replaced (haudited.follows _) hrecorded.distinct
        next => cases hcomplete
  | _ => cases hcompleted

/-- Along every run of effective steps, a move that completes has replaced its source by
its target. -/
theorem moves_conserved (inputs : List DriverInput)
    (heffective : Run.Meets Tracked.step Effective newTracked inputs) :
    Run.Meets Tracked.step Conserves newTracked inputs :=
  Run.Meets.of_invariant step_audited
    (fun _ input _ haudited => haudited.conserves input) heffective audited_newTracked

end

/-! ## A shard is moved off a drained worker, and a hot shard is moved -/

/-- Worker 3 leads the shard, worker 1 is removed, and the membership shows it. -/
def sourceRemoved : List DriverInput :=
  [ commandInput (.updateShardLeader (.ok { shardId := 1, leaderId := 3 })),
    lookInput,
    .settle (.applied singleReplica (envAt 0)),
    .report storedOrders
      { load := { workerId := 3, runningShards := [1] }
        shardLeaderInfo := [⟨1, 3⟩]
        shardMembership := [⟨1, 8, [3]⟩] } ]

theorem moves_conserved_drainedShard :
    let inputs := drainedShard ++ moveStarted ++ targetAdmitted ++ sourceRemoved
    Run.Meets Tracked.step Conserves newTracked (inputs ++ [lookInput]) ∧
      ((Run.run Tracked.step newTracked inputs).driver.completed? lookInput).isSome = true := by
  intro inputs
  have heffective : Run.Meets Tracked.step Effective newTracked (inputs ++ [lookInput]) := by
    decide +kernel
  exact ⟨moves_conserved (inputs ++ [lookInput]) heffective, by decide +kernel⟩

/-- Shard 1 was moved from worker 1 to worker 2, is still led by worker 1 as far as the
state knows, and is hot. -/
def hotShard : List DriverInput :=
  ledShard.map commandInput ++
    ([ .addShardReplica (.ok { shardId := 1, replicaId := 2 }),
       .removeShardReplica (.ok { shardId := 1, replicaId := 1 }),
       .updateShardMetrics (.ok { workerId := 2, shardId := 1, queriesPerSecond := 20000 }) ] :
      List Command).map commandInput

/-- Worker 2 reports itself as the leader, and two looks find worker 3 caught up and the
source, worker 1, gone. -/
def hotTargetAdmitted : List DriverInput :=
  [ commandInput (.updateShardLeader (.ok { shardId := 1, leaderId := 2 })),
    commandInput (.updateWorkerHeartbeat (.ok { workerId := 3, runningShards := [1] })),
    .report storedOrders
      { load := { workerId := 2, runningShards := [1] }
        shardLeaderInfo := [⟨1, 2⟩]
        shardMembership := [⟨1, 7, [2, 3]⟩]
        shardProgress := [⟨1, 10, 4⟩] },
    .report storedOrders
      { load := { workerId := 3, runningShards := [1] }
        shardProgress := [⟨1, 10, 4⟩] },
    lookInput,
    lookInput ]

/-- The move of the hot shard has a source that was no replica, and leaves one replica
more than there was. -/
theorem hot_move_adds_replica :
    ¬ Run.Meets Tracked.step Conserves newTracked
      (hotShard ++ moveStarted ++ hotTargetAdmitted ++ [lookInput]) := by
  intro hmeets
  obtain ⟨hconserves, _⟩ := (Run.meets_append.mp hmeets).2
  set tracked := Run.run Tracked.step newTracked (hotShard ++ moveStarted ++ hotTargetAdmitted)
    with htracked
  have hcompleted : (tracked.driver.completed? lookInput).map
      (fun inflight => inflight.move.shardId) = some 1 := by
    rw [htracked]
    decide +kernel
  have hreplicas : replicasOf tracked.driver.fsm 1 = [2, 3] := by
    rw [htracked]
    decide +kernel
  have haccount : tracked.account 1 = ⟨1, [2], [⟨true, [2], [2, 3]⟩]⟩ := by
    rw [htracked]
    decide +kernel
  obtain ⟨inflight, hinflight, hshard⟩ := Option.map_eq_some_iff.mp hcompleted
  have hcount := (hconserves inflight hinflight).count
  rw [hshard, hreplicas, haccount] at hcount
  cases hcount

end Vectron.Placement
