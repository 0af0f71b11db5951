import Vectron.Placement.Proposals
import Vectron.Placement.Reconcile
import Vectron.Placement.Reports

/-! # Rebalancing

The `RebalanceManager` of `placementdriver/internal/server/reconciliation.go`. A pass
first looks at every move in flight, then plans new moves and starts some of them. A
move adds a replica on the target, waits until it has caught up, removes the source
and waits until the removal shows in the Raft membership.

The manager is one goroutine. It is stopped while it waits for a proposal, and in the
meantime the log, the tables and the clock go on. The pause after a slow proposal only
skips passes and is left out, as are the counters that are only printed.
-/

namespace Vectron.Placement

open Foundation

/-! ## Configuration and records -/

structure RebalanceConfig where
  maxConcurrentMoves : Nat
  imbalanceThreshold : Float
  maxMovesPerInterval : Nat

def defaultRebalanceConfig : RebalanceConfig where
  maxConcurrentMoves := 2
  imbalanceThreshold := 1.3
  maxMovesPerInterval := 3

structure RebalanceMove where
  shardId : UInt64
  sourceWorkerId : UInt64
  targetWorkerId : UInt64
deriving DecidableEq

inductive MovePhase where
  | add
  | waitTarget
  | remove
  | waitRemoval
deriving DecidableEq, Repr

/-- `inflightMove`. The serial number stands for the identity of the record. -/
structure InflightMove where
  serial : Nat
  move : RebalanceMove
  startedAt : Time
  nextAttempt : Time
  attempts : Nat := 0
  addedByMove : Bool
  phase : MovePhase
  addConfigChangeId : UInt64
  removeConfigChangeId : UInt64 := 0
  requiredAppliedIndex : UInt64 := 0
  requiredEpoch : UInt64
  waitLeaderTransferAck : Bool := false
  requiredLeaderAckEpoch : UInt64 := 0
deriving DecidableEq

def moveRetryBase : Int := 2 * 1000000000
def moveRetryMax : Int := 30 * 1000000000

/-- `moveOverallTimeout`, 30 minutes. -/
def moveOverallTimeout : Int := 1800 * 1000000000

/-- The backoff before the next attempt, doubled with every attempt. -/
def retryBackoff (attempts : Nat) : Int :=
  min (moveRetryBase * 2 ^ min attempts 10) moveRetryMax

def scheduleRetry (inflight : InflightMove) (now : Time) : InflightMove :=
  { inflight with
    attempts := inflight.attempts + 1
    nextAttempt := now + retryBackoff inflight.attempts }

def advanceMovePhase (inflight : InflightMove) (phase : MovePhase) (now : Time) :
    InflightMove :=
  { inflight with phase := phase, attempts := 0, nextAttempt := now }

namespace InflightMove

/-- The epoch that reports must have reached, raised to the epoch of the shard. A raise
forgets the required index. -/
def raiseEpoch (inflight : InflightMove) (shard : ShardInfo) : InflightMove :=
  if inflight.requiredEpoch = 0 ∨ inflight.requiredEpoch < shard.epoch then
    { inflight with requiredEpoch := shard.epoch, requiredAppliedIndex := 0 }
  else inflight

/-- The first report of the leader that counts fixes the required index. -/
def fixIndex (inflight : InflightMove) (leaderProgress : ShardProgressSnapshot) :
    InflightMove :=
  if inflight.requiredAppliedIndex = 0 then
    { inflight with requiredAppliedIndex := leaderProgress.appliedIndex }
  else inflight

/-- A source that leads the shard has to acknowledge that it gave the leadership away. -/
def demandAck (inflight : InflightMove) (shard : ShardInfo) : InflightMove :=
  if inflight.requiredLeaderAckEpoch = 0 ∧ shard.leaderId = inflight.move.sourceWorkerId then
    { inflight with
      waitLeaderTransferAck := true
      requiredLeaderAckEpoch := shard.epoch + 1 }
  else inflight

end InflightMove

/-! ## Planning -/

/-- The reads of the state that a planning pass makes. -/
inductive PlanSite where
  | distribution
  | draining
  | shardsOn (workerId : UInt64)
  | target (workerId shardId : UInt64)
  | movable (workerId : UInt64)
  | report
deriving DecidableEq

def getDrainingWorkers (env : ServerEnv) (fsm : Fsm) : List WorkerInfo :=
  (getWorkers env fsm).filter fun worker => worker.state == .draining

/-- The shards of all collections, as two nested loops visit them. -/
def allShards (env : ServerEnv) (fsm : Fsm) : List ShardInfo :=
  (getCollections env fsm).flatMap fun coll =>
    ((env.order (.shards coll.name)).range coll.shards).map Prod.snd

def getShardsOnWorker (env : ServerEnv) (fsm : Fsm) (workerId : UInt64) : List ShardInfo :=
  (allShards env fsm).filter fun shard => decide (workerId ∈ shard.replicas)

def isShardRunningOnWorker (fsm : Fsm) (workerId shardId : UInt64) : Bool :=
  match fsm.workers.lookup workerId with
  | none => false
  | some worker => decide (shardId ∈ worker.runningShards)

def hotShardThresholdQPS : Float := 1000.0
def hotShardThresholdLatencyMs : Float := 100.0

/-- The entries of `HotShards` in the health report: the shard and its leader. -/
def hotShards (env : ServerEnv) (fsm : Fsm) : List (UInt64 × UInt64) :=
  ((allShards env fsm).filter fun shard =>
    decide (shard.queriesPerSecond > hotShardThresholdQPS) ||
      decide (shard.avgLatencyMs > hotShardThresholdLatencyMs)).map fun shard =>
    (shard.shardId, shard.leaderId)

/-- `map[uint64]int` with the zero value for missing keys. -/
def countOf (counts : GoMap UInt64 Int) (workerId : UInt64) : Int :=
  (counts.lookup workerId).getD 0

def addCount (by' : Int) (counts : GoMap UInt64 Int) (workerId : UInt64) : GoMap UInt64 Int :=
  counts.insert workerId (countOf counts workerId + by')

/-- `workerShardCounts` over all shards. -/
def workerShardCounts (shards : List ShardInfo) : GoMap UInt64 Int :=
  shards.foldl (fun counts shard => shard.replicas.foldl (addCount 1) counts) ∅

/-- What a planning pass works with. -/
structure Planner where
  cfg : Config
  config : RebalanceConfig
  env : PlanSite → ServerEnv
  fsm : Fsm
  inflightMoves : GoMap UInt64 InflightMove

namespace Planner

variable (planner : Planner)

def inflight (shardId : UInt64) : Bool :=
  (planner.inflightMoves.lookup shardId).isSome

def hasShard (workerId shardId : UInt64) : Bool :=
  (getShardsOnWorker (planner.env (.target workerId shardId)) planner.fsm workerId).any
    fun shard => shard.shardId == shardId

/-- `findBestTarget`: the candidate with the fewest shards, 0 if there is none. -/
def findBestTarget (shardId : UInt64) (candidates : List UInt64) (counts : GoMap UInt64 Int) :
    UInt64 :=
  (candidates.foldl
    (fun (best : UInt64 × Int) workerId =>
      if planner.hasShard workerId shardId then best
      else if countOf counts workerId < best.2 then (workerId, countOf counts workerId)
      else best)
    (0, 2147483647)).1

/-- `findBestTargetForHotShard`: the worker with the lowest load for its capacity. -/
def findBestTargetForHotShard (shardId : UInt64) (healthyWorkers : List WorkerInfo)
    (counts : GoMap UInt64 Int) : UInt64 :=
  (healthyWorkers.foldl
    (fun (best : UInt64 × Float) worker =>
      if planner.hasShard worker.id shardId then best
      else
        let capacity := if worker.totalCapacity ≤ 0 then 1 else worker.totalCapacity
        let loadRatio := Float.ofInt (countOf counts worker.id) / Float.ofInt capacity.toInt
        if loadRatio < best.2 then (worker.id, loadRatio) else best)
    (0, 1073741824.0)).1

/-- The moves that take the shards off the draining workers. -/
def drainMoves (healthyWorkers : List WorkerInfo) (counts : GoMap UInt64 Int) :
    List RebalanceMove :=
  (getDrainingWorkers (planner.env .draining) planner.fsm).flatMap fun draining =>
    (getShardsOnWorker (planner.env (.shardsOn draining.id)) planner.fsm draining.id).filterMap
      fun shard =>
        if planner.inflight shard.shardId then none
        else
          let targetId := planner.findBestTarget shard.shardId
            (healthyWorkers.map WorkerInfo.id) counts
          if targetId = 0 ∨ targetId = draining.id then none
          else some ⟨shard.shardId, draining.id, targetId⟩

/-- `getMovableShards`: the shards of a worker with at least two healthy replicas. -/
def getMovableShards (workerId : UInt64) : List ShardInfo :=
  let env := planner.env (.movable workerId)
  (allShards env planner.fsm).filter fun shard =>
    decide (workerId ∈ shard.replicas) && decide (2 ≤ healthyReplicas env planner.fsm shard)

/-- One iteration of the loop over the movable shards of an overloaded worker. -/
def planLoadMove (underloaded : List UInt64) (sourceId : UInt64)
    (plan : List RebalanceMove × GoMap UInt64 Int) (shard : ShardInfo) :
    List RebalanceMove × GoMap UInt64 Int :=
  let (moves, counts) := plan
  if moves.length ≥ planner.config.maxMovesPerInterval * 2 then plan
  else if planner.inflight shard.shardId then plan
  else
    let targetId := planner.findBestTarget shard.shardId underloaded counts
    if targetId = 0 then plan
    else
      (moves ++ [⟨shard.shardId, sourceId, targetId⟩],
        addCount 1 (addCount (-1) counts sourceId) targetId)

/-- One iteration of the loop over the hot shards, whose source is the leader that the
state names, a replica or not. -/
def planHotMove (healthyWorkers : List WorkerInfo)
    (plan : List RebalanceMove × GoMap UInt64 Int) (hotShard : UInt64 × UInt64) :
    List RebalanceMove × GoMap UInt64 Int :=
  let (moves, counts) := plan
  let (shardId, workerId) := hotShard
  if planner.inflight shardId then plan
  else
    let targetId := planner.findBestTargetForHotShard shardId healthyWorkers counts
    if targetId = 0 ∨ targetId = workerId then plan
    else if moves.any fun move => move.shardId == shardId then plan
    else
      (moves ++ [⟨shardId, workerId, targetId⟩],
        addCount 1 (addCount (-1) counts workerId) targetId)

def identifyRebalanceMoves : List RebalanceMove :=
  let healthyWorkers := getHealthyWorkers (planner.env .distribution) planner.fsm
  if healthyWorkers.length < 2 then []
  else
    let shards := allShards (planner.env .distribution) planner.fsm
    let counts := workerShardCounts shards
    let moves := planner.drainMoves healthyWorkers counts
    let avgShards := Float.ofInt (shards.length * replicationFactor planner.cfg : Nat) /
      Float.ofInt healthyWorkers.length
    let threshold := avgShards * planner.config.imbalanceThreshold
    let isOver (worker : WorkerInfo) : Bool :=
      decide (Float.ofInt (countOf counts worker.id) > threshold)
    let isUnder (worker : WorkerInfo) : Bool :=
      decide (Float.ofInt (countOf counts worker.id) <
        avgShards / planner.config.imbalanceThreshold)
    let overloaded := (healthyWorkers.filter isOver).map WorkerInfo.id
    let underloaded := (healthyWorkers.filter fun worker =>
      !isOver worker && isUnder worker).map WorkerInfo.id
    -- hot shards are only looked at when the load is unbalanced as well
    if overloaded.length = 0 ∨ underloaded.length = 0 then moves
    else
      let plan := overloaded.foldl
        (fun plan sourceId => (planner.getMovableShards sourceId).foldl
          (planner.planLoadMove underloaded sourceId) plan)
        (moves, counts)
      ((hotShards (planner.env .report) planner.fsm).foldl
        (planner.planHotMove healthyWorkers) plan).1

end Planner

/-! ## Starting a move -/

/-- The checks of `executeMove`: the shard, if the move can be started. -/
def executeMove (env : ServerEnv) (fsm : Fsm) (clock : Time) (move : RebalanceMove) :
    Except String ShardInfo :=
  if move.sourceWorkerId = move.targetWorkerId then
    .error s!"source and target are the same for shard {move.shardId}"
  else if isWorkerHealthy fsm clock move.targetWorkerId = false then
    .error s!"target worker {move.targetWorkerId} is not healthy"
  else
    match getShardById env fsm move.shardId with
    | none => .error s!"shard {move.shardId} not found"
    | some shard => .ok shard

/-! ## Advancing a move -/

/-- Why the manager proposes a command: to start a move, or for a move in flight. -/
inductive Purpose where
  | start (move : RebalanceMove) (shard : ShardInfo)
  | add
  | remove
  | rollback

/-- What a look at a move in flight ends in. -/
inductive MoveAction where
  | keep (inflight : InflightMove)
  | propose (purpose : Purpose) (repair : Repair) (inflight : InflightMove)
  | drop
  | complete

/-- What one look at a move reads: the time its pass began, the time of the look, and
the state of the server. -/
structure MoveView where
  cfg : Config
  env : ServerEnv
  now : Time
  clock : Time
  fsm : Fsm
  tables : Tables

namespace MoveView

variable (view : MoveView)

def retry (inflight : InflightMove) : MoveAction :=
  .keep (scheduleRetry inflight view.now)

/-- `tryRollbackMove`. -/
def tryRollbackMove (shard : ShardInfo) (inflight : InflightMove) : MoveAction :=
  if inflight.move.sourceWorkerId ∉ shard.replicas then .drop
  else if inflight.addedByMove = false then .drop
  else if inflight.move.targetWorkerId ∉ shard.replicas then .drop
  else if shard.replicas.length ≤ replicationFactor view.cfg then .drop
  else
    .propose .rollback (.removeReplica shard.shardId inflight.move.targetWorkerId) inflight

/-- The case `movePhaseAdd`. -/
def advanceAdd (shardId : UInt64) (shard : ShardInfo) (inflight : InflightMove) : MoveAction :=
  if inflight.move.targetWorkerId ∈ shard.replicas then
    .keep (advanceMovePhase inflight .waitTarget view.now)
  else .propose .add (.addReplica shardId inflight.move.targetWorkerId) inflight

/-- The progress a worker has reported at the required epoch. -/
def progressAt (shardId workerId epoch : UInt64) : Option ShardProgressSnapshot :=
  (getShardProgress view.tables view.clock shardId workerId).filter fun progress =>
    decide (epoch ≤ progress.shardEpoch)

/-- The end of the case `movePhaseWaitTarget`: compare the reports of the leader and of
the target. -/
def awaitProgress (shardId : UInt64) (shard : ShardInfo) (inflight : InflightMove) :
    MoveAction :=
  let inflight := inflight.raiseEpoch shard
  if shard.leaderId = 0 then view.retry inflight
  else
    match view.progressAt shardId shard.leaderId inflight.requiredEpoch with
    | none => view.retry inflight
    | some leaderProgress =>
        let inflight := inflight.fixIndex leaderProgress
        match view.progressAt shardId inflight.move.targetWorkerId inflight.requiredEpoch with
        | none => view.retry inflight
        | some targetProgress =>
            if targetProgress.appliedIndex < inflight.requiredAppliedIndex then
              view.retry inflight
            else .keep (advanceMovePhase inflight .remove view.now)

/-- The case `movePhaseWaitTarget`. -/
def advanceWaitTarget (shardId : UInt64) (shard : ShardInfo) (inflight : InflightMove) :
    MoveAction :=
  let targetId := inflight.move.targetWorkerId
  if isWorkerHealthy view.fsm view.clock targetId = false then .keep inflight
  else if isShardRunningOnWorker view.fsm targetId shardId = false then .keep inflight
  else
    match getShardMembershipSnapshot view.tables view.clock shardId with
    | none => view.retry inflight
    | some snap =>
        if targetId ∉ snap.nodeIds then view.retry inflight
        else if inflight.addedByMove = true ∧ inflight.addConfigChangeId > 0 ∧
            snap.configChangeId ≤ inflight.addConfigChangeId then view.retry inflight
        else view.awaitProgress shardId shard inflight

/-- The configuration that the membership must have left behind after the removal. -/
def noteConfig (shardId : UInt64) (inflight : InflightMove) : InflightMove :=
  if inflight.removeConfigChangeId = 0 then
    match getShardMembershipSnapshot view.tables view.clock shardId with
    | some snap => { inflight with removeConfigChangeId := snap.configChangeId }
    | none => inflight
  else inflight

/-- The case `movePhaseRemove`. -/
def advanceRemove (shardId : UInt64) (shard : ShardInfo) (inflight : InflightMove) :
    MoveAction :=
  if inflight.move.sourceWorkerId ∉ shard.replicas then
    .keep (advanceMovePhase inflight .waitRemoval view.now)
  else
    .propose .remove (.removeReplica shardId inflight.move.sourceWorkerId)
      (view.noteConfig shardId (inflight.demandAck shard))

/-- The acknowledgement of the source has arrived, if one is needed. -/
def ackArrived (shardId : UInt64) (inflight : InflightMove) : Bool :=
  !inflight.waitLeaderTransferAck ||
    (getLeaderTransferAck view.tables view.clock shardId inflight.move.sourceWorkerId).any
      fun ack => decide (inflight.requiredLeaderAckEpoch ≤ ack.shardEpoch)

/-- The case `movePhaseWaitRemoval`. -/
def advanceWaitRemoval (shardId : UInt64) (shard : ShardInfo) (inflight : InflightMove) :
    MoveAction :=
  match getShardMembershipSnapshot view.tables view.clock shardId with
  | none => view.retry inflight
  | some snap =>
      if inflight.move.sourceWorkerId ∈ snap.nodeIds then view.retry inflight
      else if inflight.removeConfigChangeId > 0 ∧
          snap.configChangeId ≤ inflight.removeConfigChangeId then view.retry inflight
      else if view.ackArrived shardId inflight = false then view.retry inflight
      else if shard.leaderId = inflight.move.sourceWorkerId then view.retry inflight
      else .complete

/-- One iteration of the loop of `advanceMovesLocked`. -/
def advanceMove (shardId : UInt64) (inflight : InflightMove) : MoveAction :=
  match getShardById view.env view.fsm shardId with
  | none => .drop
  | some shard =>
      if view.now - inflight.startedAt > moveOverallTimeout then
        if view.now < inflight.nextAttempt then .keep inflight
        else view.tryRollbackMove shard inflight
      else if view.now < inflight.nextAttempt then .keep inflight
      else
        match inflight.phase with
        | .add => view.advanceAdd shardId shard inflight
        | .waitTarget => view.advanceWaitTarget shardId shard inflight
        | .remove => view.advanceRemove shardId shard inflight
        | .waitRemoval => view.advanceWaitRemoval shardId shard inflight

end MoveView

/-! ## The manager among the other parties -/

/-- A proposal of the manager that Raft has not answered yet, or has answered with an
error although the command may still be committed. -/
structure Pending where
  serial : Nat
  shardId : UInt64
  purpose : Purpose
  repair : Repair

/-- The leader of the placement driver: the replicated state, the tables of the server,
and the state of the manager. -/
structure Driver where
  fsm : Fsm
  tables : Tables
  clock : Time
  /-- `now` of the current pass. -/
  passStart : Time
  inflightMoves : GoMap UInt64 InflightMove
  /-- The planned moves that the current pass has not come to, and how many it may
  still start. -/
  planned : List RebalanceMove
  slots : Nat
  waiting : Option Pending
  late : List Pending
  nextSerial : Nat
  movesCompletedToday : Nat

/-- `NewServer` and `NewRebalanceManager`, on a new state. -/
def newDriver : Driver where
  fsm := newFsm
  tables := {}
  clock := 0
  passStart := 0
  inflightMoves := ∅
  planned := []
  slots := 0
  waiting := none
  late := []
  nextSerial := 1
  movesCompletedToday := 0

/-- How Raft answers a proposal: it is committed and applied, or the proposer gets an
error and does not learn whether it will be. -/
inductive Settlement where
  | applied (cfg : Config) (env : Env)
  | failed

/-- Map iteration orders of one step. -/
abbrev Orders := ServerRangeSite → RangeOrder

inductive DriverInput where
  /-- A command of any other proposer is applied. -/
  | command (applied : Applied)
  /-- The handler of a heartbeat updates the tables. -/
  | report (orders : Orders) (req : HeartbeatRequest)
  | wait (elapsed : Nat)
  | startPass
  | advance (cfg : Config) (orders : Orders) (shardId : UInt64)
  | plan (cfg : Config) (config : RebalanceConfig) (orders : PlanSite → Orders)
  | execute (orders : Orders)
  | settle (settlement : Settlement)
  /-- A command whose proposer got an error is applied after all. -/
  | lateApply (position : Nat) (cfg : Config) (env : Env)

namespace Driver

variable (driver : Driver)

/-- What the handlers and the manager read with: every reading of the clock in a step
is the same. -/
def env (orders : Orders) : ServerEnv where
  clock _ := driver.clock
  order := orders

def view (cfg : Config) (orders : Orders) : MoveView where
  cfg := cfg
  env := driver.env orders
  now := driver.passStart
  clock := driver.clock
  fsm := driver.fsm
  tables := driver.tables

def apply (applied : Applied) : Driver :=
  { driver with fsm := step driver.fsm applied }

/-- The record that `executeMove` makes. The epoch is read through the pointer to the
shard, after the proposal. -/
def newMove (serial : Nat) (move : RebalanceMove) (shard : ShardInfo) (addedByMove : Bool) :
    InflightMove where
  serial := serial
  move := move
  startedAt := driver.clock
  nextAttempt := driver.clock
  addedByMove := addedByMove
  phase := .waitTarget
  addConfigChangeId :=
    ((getShardMembershipSnapshot driver.tables driver.clock move.shardId).map
      ShardMembershipSnapshot.configChangeId).getD 0
  requiredEpoch := ((driver.fsm.shard? shard.collection move.shardId).getD shard).epoch

/-- The end of `executeMove`. -/
def begin (serial : Nat) (move : RebalanceMove) (shard : ShardInfo) (addedByMove : Bool) :
    Driver :=
  { driver with
    inflightMoves := driver.inflightMoves.insert move.shardId
      (driver.newMove serial move shard addedByMove)
    slots := driver.slots - 1 }

/-- Rewrite the record of a move in flight. -/
def revise (shardId : UInt64) (change : InflightMove → InflightMove) : Driver :=
  match driver.inflightMoves.lookup shardId with
  | none => driver
  | some inflight =>
      { driver with inflightMoves := driver.inflightMoves.insert shardId (change inflight) }

def forget (shardId : UInt64) : Driver :=
  { driver with inflightMoves := driver.inflightMoves.erase shardId }

/-- How the manager goes on after a proposal without an error. -/
def acknowledge (pending : Pending) : Driver :=
  match pending.purpose with
  | .start move shard => driver.begin pending.serial move shard true
  | .add => driver.revise pending.shardId fun inflight =>
      advanceMovePhase inflight .waitTarget driver.passStart
  | .remove => driver.revise pending.shardId fun inflight =>
      advanceMovePhase inflight .waitRemoval driver.passStart
  | .rollback => driver.forget pending.shardId

/-- How the manager goes on after an error. -/
def giveUp (pending : Pending) : Driver :=
  match pending.purpose with
  | .start _ _ => driver
  | _ => driver.revise pending.shardId fun inflight => scheduleRetry inflight driver.passStart

/-- One look at the move of a shard. -/
def advance (cfg : Config) (orders : Orders) (shardId : UInt64) : Driver :=
  match driver.inflightMoves.lookup shardId with
  | none => driver
  | some inflight =>
      match (driver.view cfg orders).advanceMove shardId inflight with
      | .keep inflight => driver.revise shardId fun _ => inflight
      | .propose purpose repair inflight =>
          { driver.revise shardId fun _ => inflight with
            waiting := some
              { serial := inflight.serial
                shardId := shardId
                purpose := purpose
                repair := repair } }
      | .drop => driver.forget shardId
      | .complete =>
          { driver.forget shardId with
            movesCompletedToday := driver.movesCompletedToday + 1 }

/-- The middle of `runRebalanceCycle`: plan, and limit the number of new moves. -/
def plan (cfg : Config) (config : RebalanceConfig) (orders : PlanSite → Orders) : Driver :=
  let availableSlots := config.maxConcurrentMoves - driver.inflightMoves.entries.length
  let moves := Planner.identifyRebalanceMoves
    { cfg := cfg
      config := config
      env := fun site => driver.env (orders site)
      fsm := driver.fsm
      inflightMoves := driver.inflightMoves }
  { driver with
    planned := if availableSlots = 0 then [] else moves
    slots := min (min config.maxMovesPerInterval moves.length) availableSlots }

/-- One iteration of the loop of `runRebalanceCycle` that starts the planned moves. -/
def execute (orders : Orders) : Driver :=
  match driver.planned with
  | [] => driver
  | move :: rest =>
      if driver.slots = 0 then { driver with planned := [] }
      else if (driver.inflightMoves.lookup move.shardId).isSome then
        { driver with planned := rest }
      else
        match executeMove (driver.env orders) driver.fsm driver.clock move with
        | .error _ => { driver with planned := rest }
        | .ok shard =>
            let next :=
              { driver with
                planned := rest
                nextSerial := driver.nextSerial + 1 }
            if move.targetWorkerId ∈ shard.replicas then
              next.begin driver.nextSerial move shard false
            else
              { next with
                waiting := some
                  { serial := driver.nextSerial
                    shardId := move.shardId
                    purpose := .start move shard
                    repair := .addReplica move.shardId move.targetWorkerId } }

/-- A step of one of the parties. The manager takes none while it waits. -/
def step : DriverInput → Driver
  | .command applied => driver.apply applied
  | .report orders req =>
      { driver with
        tables := driver.tables.record (driver.env orders) driver.fsm driver.clock req }
  | .wait elapsed => { driver with clock := driver.clock + elapsed }
  | .startPass =>
      if driver.waiting.isSome then driver else { driver with passStart := driver.clock }
  | .advance cfg orders shardId =>
      if driver.waiting.isSome then driver else driver.advance cfg orders shardId
  | .plan cfg config orders =>
      if driver.waiting.isSome then driver else driver.plan cfg config orders
  | .execute orders => if driver.waiting.isSome then driver else driver.execute orders
  | .settle settlement =>
      match driver.waiting, settlement with
      | none, _ => driver
      | some pending, .applied cfg env =>
          ({ driver with waiting := none }.apply ⟨cfg, env, pending.repair.command⟩).acknowledge
            pending
      | some pending, .failed =>
          { driver with waiting := none, late := driver.late ++ [pending] }.giveUp pending
  | .lateApply position cfg env =>
      match driver.late[position]? with
      | none => driver
      | some pending =>
          { driver with late := driver.late.eraseIdx position }.apply
            ⟨cfg, env, pending.repair.command⟩

end Driver

end Vectron.Placement
