import Vectron.Placement.Epoch
import Vectron.Placement.Server

/-! # The answer to a heartbeat

The handler of a heartbeat reads the workers, then the collections and, when it has put the
assignments together, the assignments epoch. Each read takes the lock of the state for itself,
and commands are applied in between. The client of the worker ignores an answer whose epoch is
older than the last one, and hands on the assignments of every other one that has any.

Several handlers can be under way for one worker, as the client sends the next heartbeat when
it has given up on one. `GetCollections` hands out pointers to the shards, so that a handler
serializes what they hold by then. In the runs of the theorem nothing changes their replicas and
epochs meanwhile, and the model keeps what was read.
-/

namespace Vectron.Placement

open Foundation

/-- What the epochs of a shard and of the assignments count the changes of. -/
structure Placed where
  collection : String
  shardId : UInt64
  replicas : List UInt64
  epoch : UInt64
deriving DecidableEq

def ShardInfo.placed (shard : ShardInfo) : Placed :=
  ⟨shard.collection, shard.shardId, shard.replicas, shard.epoch⟩

/-- A worker of this role is to run the shard. -/
def AssignedTo (role : String) (workerId : UInt64) (shard : ShardInfo) : Prop :=
  role = "search_only" ∨ workerId ∈ shard.replicas

/-- The assignments are those of this state. -/
def Reflects (workerId : UInt64) (role : String) (assignments : List ShardAssignment) (fsm : Fsm) :
    Prop :=
  ∀ placed, (∃ assignment ∈ assignments, assignment.shardInfo.placed = placed) ↔
    ∃ name id shard, fsm.shard? name id = some shard ∧ AssignedTo role workerId shard ∧
      shard.placed = placed

/-! ## Handlers and the client -/

/-- A handler that is under way, with the assignments once it has read the collections. -/
structure Answering where
  env : ServerEnv
  workersRead : Fsm
  assignments : Option (List ShardAssignment)

def Answering.role (answering : Answering) (workerId : UInt64) : String :=
  workerRole (getWorkers answering.env answering.workersRead) workerId

structure HeartbeatResponse where
  assignments : List ShardAssignment
  assignmentsEpoch : UInt64

/-- An answer, with the role it was given for and the state whose epoch it carries. -/
structure Answered where
  role : String
  response : HeartbeatResponse
  epochRead : Fsm

structure Heartbeats where
  fsm : Fsm
  answering : List Answering
  answered : List Answered
  /-- of the client -/
  lastAssignmentsEpoch : UInt64
  /-- the answers whose assignments went into `shardUpdateChan` -/
  handedOn : List Answered

inductive HeartbeatInput where
  | command (applied : Applied)
  | readWorkers (env : ServerEnv)
  | readCollections (position : Nat)
  /-- read the epoch and answer -/
  | respond (position : Nat) (arrives : Bool)

namespace Heartbeats

variable (workerId : UInt64) (heartbeats : Heartbeats)

/-- The end of `sendHeartbeat`. -/
def receive (answered : Answered) : Heartbeats :=
  let epoch := answered.response.assignmentsEpoch
  if epoch < heartbeats.lastAssignmentsEpoch then heartbeats
  else
    { heartbeats with
      lastAssignmentsEpoch :=
        if heartbeats.lastAssignmentsEpoch < epoch then epoch else heartbeats.lastAssignmentsEpoch
      handedOn :=
        if answered.response.assignments.isEmpty then heartbeats.handedOn
        else heartbeats.handedOn ++ [answered] }

/-- The handler at this position reads the collections. -/
def readCollections (position : Nat) : Heartbeats :=
  match heartbeats.answering[position]? with
  | none => heartbeats
  | some answering =>
      { heartbeats with
        answering := heartbeats.answering.set position
          { answering with
            assignments := some (heartbeatAssignments answering.env answering.workersRead
              heartbeats.fsm workerId) } }

/-- The handler at this position answers, if it has read the collections. -/
def respond (position : Nat) (arrives : Bool) : Heartbeats :=
  match heartbeats.answering[position]? with
  | none => heartbeats
  | some answering =>
      match answering.assignments with
      | none => heartbeats
      | some assignments =>
          let answered : Answered :=
            { role := answering.role workerId
              response := ⟨assignments, heartbeats.fsm.assignmentsEpoch⟩
              epochRead := heartbeats.fsm }
          let next :=
            { heartbeats with
              answering := heartbeats.answering.eraseIdx position
              answered := heartbeats.answered ++ [answered] }
          if arrives then next.receive answered else next

def step : HeartbeatInput → Heartbeats
  | .command applied => { heartbeats with fsm := Placement.step heartbeats.fsm applied }
  | .readWorkers env =>
      { heartbeats with answering := heartbeats.answering ++ [⟨env, heartbeats.fsm, none⟩] }
  | .readCollections position => heartbeats.readCollections workerId position
  | .respond position arrives => heartbeats.respond workerId position arrives

/-- Before the first heartbeat of the worker. -/
def start (fsm : Fsm) : Heartbeats := ⟨fsm, [], [], 0, []⟩

end Heartbeats

/-- The worker is to run the shard that stands under these keys. -/
def AssignedAt (role : String) (workerId : UInt64) (fsm : Fsm) (name : String) (id : UInt64) : Prop :=
  ∃ shard, fsm.shard? name id = some shard ∧ AssignedTo role workerId shard

/-- A command leaves the replicas and the epoch of every shard that the worker is to run before it
or after it. -/
def KeepsPlaced (role : String) (workerId : UInt64) (fsm : Fsm) (applied : Applied) : Prop :=
  ∀ name id, AssignedAt role workerId fsm name id ∨
      AssignedAt role workerId (step fsm applied) name id →
    epochMap (step fsm applied) name id = epochMap fsm name id

/-- No command that is applied between the two reads of a handler changes what the handler has
read. -/
def KeepsListed (workerId : UInt64) (heartbeats : Heartbeats) : HeartbeatInput → Prop
  | .command applied => ∀ answering ∈ heartbeats.answering, answering.assignments.isSome = true →
      KeepsPlaced (answering.role workerId) workerId heartbeats.fsm applied
  | _ => True

/-! ## Assignments -/

section

variable {workers : List WorkerInfo} {workerId : UInt64} {shard : ShardInfo}

theorem shardAssignment_shardInfo {assignment : ShardAssignment}
    (hsome : shardAssignment workers workerId shard = some assignment) :
    assignment.shardInfo = shard ∧ AssignedTo (workerRole workers workerId) workerId shard := by
  rw [shardAssignment] at hsome
  split at hsome
  next =>
    split at hsome
    next hreplica =>
      obtain rfl := Option.some.inj hsome
      exact ⟨rfl, Or.inr hreplica⟩
    next => cases hsome
  next hrole =>
    obtain rfl := Option.some.inj hsome
    exact ⟨rfl, Or.inl (not_not.mp hrole)⟩

theorem exists_shardAssignment (hassigned : AssignedTo (workerRole workers workerId) workerId shard) :
    ∃ assignment, shardAssignment workers workerId shard = some assignment := by
  rw [shardAssignment]
  by_cases hrole : workerRole workers workerId = "search_only"
  · rw [if_neg (not_not.mpr hrole)]
    exact ⟨_, rfl⟩
  · rw [if_pos hrole, if_pos (hassigned.resolve_left hrole)]
    exact ⟨_, rfl⟩

end

theorem mem_heartbeatAssignments_iff {env : ServerEnv} {workersRead collectionsRead : Fsm}
    {workerId : UInt64} {assignment : ShardAssignment} :
    assignment ∈ heartbeatAssignments env workersRead collectionsRead workerId ↔
      ∃ name id shard, collectionsRead.shard? name id = some shard ∧
        shardAssignment (getWorkers env workersRead) workerId shard = some assignment := by
  constructor
  · intro hmem
    obtain ⟨coll, hcoll, hassignment⟩ := List.mem_flatMap.mp hmem
    obtain ⟨⟨name, found⟩, hname, rfl⟩ := List.mem_map.mp hcoll
    obtain ⟨⟨id, shard⟩, hshard, hsome⟩ := List.mem_filterMap.mp hassignment
    exact ⟨name, id, shard, Fsm.shard?_eq_some.mpr ⟨found, RangeOrder.mem_range.mp hname,
      RangeOrder.mem_range.mp hshard⟩, hsome⟩
  · rintro ⟨name, id, shard, hshard, hsome⟩
    obtain ⟨coll, hcoll, hlookup⟩ := Fsm.shard?_eq_some.mp hshard
    refine List.mem_flatMap.mpr ⟨coll, List.mem_map.mpr ⟨(name, coll),
      RangeOrder.mem_range.mpr hcoll, rfl⟩, ?_⟩
    exact List.mem_filterMap.mpr ⟨(id, shard), RangeOrder.mem_range.mpr hlookup, hsome⟩

/-- What a handler reads are the assignments of the state it reads. -/
theorem reflects_heartbeatAssignments (env : ServerEnv) (workersRead fsm : Fsm)
    (workerId : UInt64) :
    Reflects workerId (workerRole (getWorkers env workersRead) workerId)
      (heartbeatAssignments env workersRead fsm workerId) fsm := by
  intro placed
  constructor
  · rintro ⟨assignment, hmem, rfl⟩
    obtain ⟨name, id, shard, hshard, hsome⟩ := mem_heartbeatAssignments_iff.mp hmem
    obtain ⟨rfl, hassigned⟩ := shardAssignment_shardInfo hsome
    exact ⟨name, id, _, hshard, hassigned, rfl⟩
  · rintro ⟨name, id, shard, hshard, hassigned, rfl⟩
    obtain ⟨assignment, hsome⟩ := exists_shardAssignment hassigned
    refine ⟨assignment, mem_heartbeatAssignments_iff.mpr ⟨name, id, shard, hshard, hsome⟩, ?_⟩
    rw [(shardAssignment_shardInfo hsome).1]

/-! ## Commands -/

theorem ShardStep.keys {cfg : Config} {env : Env} {fsm : Fsm} {cmd : Command} {name : String}
    {id : UInt64} {old new : ShardInfo}
    (hstep : ShardStep cfg env fsm cmd name id (some old) (some new)) :
    new.collection = old.collection ∧ new.shardId = old.shardId := by
  cases hstep with
  | leader hfind =>
      unfold ShardInfo.reportLeader
      split <;> exact ⟨rfl, rfl⟩
  | _ => exact ⟨rfl, rfl⟩

/-- A shard that keeps its replicas and its epoch is placed as before. -/
theorem placed_of_epochMap_eq {fsm : Fsm} {applied : Applied} {name : String} {id : UInt64}
    {old new : ShardInfo} (hold : fsm.shard? name id = some old)
    (hnew : (step fsm applied).shard? name id = some new)
    (hmap : epochMap (step fsm applied) name id = epochMap fsm name id) :
    new.placed = old.placed ∧ new.replicas = old.replicas := by
  have hstep := step_shardStep fsm applied name id
  rw [hold, hnew] at hstep
  obtain ⟨hcollection, hshardId⟩ := hstep.keys
  rw [epochMap, epochMap, hold, hnew] at hmap
  obtain ⟨hreplicas, hepoch⟩ := Prod.mk.inj (Option.some.inj hmap)
  refine ⟨?_, hreplicas⟩
  rw [ShardInfo.placed, ShardInfo.placed, hcollection, hshardId, hreplicas, hepoch]

theorem exists_shard_of_epochMap_eq {first second : Fsm} {name : String} {id : UInt64}
    {shard : ShardInfo} (hshard : first.shard? name id = some shard)
    (hmap : epochMap first name id = epochMap second name id) :
    ∃ other, second.shard? name id = some other := by
  rw [epochMap, epochMap, hshard] at hmap
  cases hother : second.shard? name id with
  | none =>
      rw [hother] at hmap
      cases hmap
  | some other => exact ⟨other, rfl⟩

/-- Assignments that a command does not change are those of the next state as well. -/
theorem Reflects.step {workerId : UInt64} {role : String} {assignments : List ShardAssignment}
    {fsm : Fsm} {applied : Applied} (hreflects : Reflects workerId role assignments fsm)
    (hkeeps : KeepsPlaced role workerId fsm applied) :
    Reflects workerId role assignments (step fsm applied) := by
  intro placed
  rw [hreflects placed]
  constructor
  · rintro ⟨name, id, shard, hshard, hassigned, rfl⟩
    have hmap := hkeeps name id (Or.inl ⟨shard, hshard, hassigned⟩)
    obtain ⟨next, hnext⟩ := exists_shard_of_epochMap_eq hshard hmap.symm
    obtain ⟨hplaced, hreplicas⟩ := placed_of_epochMap_eq hshard hnext hmap
    refine ⟨name, id, next, hnext, ?_, hplaced⟩
    rw [AssignedTo, hreplicas]
    exact hassigned
  · rintro ⟨name, id, next, hnext, hassigned, rfl⟩
    have hmap := hkeeps name id (Or.inr ⟨next, hnext, hassigned⟩)
    obtain ⟨shard, hshard⟩ := exists_shard_of_epochMap_eq hnext hmap
    obtain ⟨hplaced, hreplicas⟩ := placed_of_epochMap_eq hshard hnext hmap
    refine ⟨name, id, shard, hshard, ?_, hplaced.symm⟩
    rw [AssignedTo, ← hreplicas]
    exact hassigned

/-! ## Runs -/

/-- Every answer is about the state whose epoch it carries. -/
def Answered.Consistent (workerId : UInt64) (answered : Answered) : Prop :=
  answered.response.assignmentsEpoch = answered.epochRead.assignmentsEpoch ∧
    Reflects workerId answered.role answered.response.assignments answered.epochRead

structure Consistent (workerId : UInt64) (heartbeats : Heartbeats) : Prop where
  listed : ∀ answering ∈ heartbeats.answering, ∀ assignments,
    answering.assignments = some assignments →
      Reflects workerId (answering.role workerId) assignments heartbeats.fsm
  answered : ∀ answered ∈ heartbeats.answered, answered.Consistent workerId
  handedOn : ∀ answered ∈ heartbeats.handedOn, answered ∈ heartbeats.answered
  last : ∀ answered ∈ heartbeats.handedOn,
    answered.response.assignmentsEpoch ≤ heartbeats.lastAssignmentsEpoch
  ordered : heartbeats.handedOn.Pairwise fun first second =>
    first.response.assignmentsEpoch ≤ second.response.assignmentsEpoch

namespace Consistent

variable {workerId : UInt64} {heartbeats : Heartbeats}

theorem start (workerId : UInt64) (fsm : Fsm) : Consistent workerId (Heartbeats.start fsm) := by
  constructor
  · simp [Heartbeats.start]
  · simp [Heartbeats.start]
  · simp [Heartbeats.start]
  · simp [Heartbeats.start]
  · exact List.Pairwise.nil

section

variable (hconsistent : Consistent workerId heartbeats)

include hconsistent

theorem command {applied : Applied} (hkeeps : KeepsListed workerId heartbeats (.command applied)) :
    Consistent workerId (heartbeats.step workerId (.command applied)) := by
  refine ⟨?_, hconsistent.answered, hconsistent.handedOn, hconsistent.last, hconsistent.ordered⟩
  intro answering hanswering assignments hassignments
  have hsome : answering.assignments.isSome = true := by rw [hassignments]; rfl
  exact (hconsistent.listed answering hanswering assignments hassignments).step
    (hkeeps answering hanswering hsome)

theorem readWorkers (env : ServerEnv) :
    Consistent workerId (heartbeats.step workerId (.readWorkers env)) := by
  refine ⟨?_, hconsistent.answered, hconsistent.handedOn, hconsistent.last, hconsistent.ordered⟩
  intro answering hanswering assignments hassignments
  rcases List.mem_append.mp hanswering with hold | hnew
  · exact hconsistent.listed answering hold assignments hassignments
  · rw [List.mem_singleton.mp hnew] at hassignments
    cases hassignments

theorem readCollections (position : Nat) :
    Consistent workerId (heartbeats.step workerId (.readCollections position)) := by
  rw [Heartbeats.step, Heartbeats.readCollections]
  split
  next => exact hconsistent
  next answering hanswering =>
    refine ⟨?_, hconsistent.answered, hconsistent.handedOn, hconsistent.last, hconsistent.ordered⟩
    intro other hother assignments hassignments
    rcases List.mem_or_eq_of_mem_set hother with hold | rfl
    · exact hconsistent.listed other hold assignments hassignments
    · obtain rfl := Option.some.inj hassignments
      exact reflects_heartbeatAssignments _ _ _ _

theorem receive {answered : Answered} (hanswered : answered ∈ heartbeats.answered) :
    Consistent workerId (heartbeats.receive answered) := by
  rw [Heartbeats.receive]
  split
  next => exact hconsistent
  next hnew =>
    have hle : heartbeats.lastAssignmentsEpoch ≤ answered.response.assignmentsEpoch :=
      UInt64.not_lt.mp hnew
    have hlast : (if heartbeats.lastAssignmentsEpoch < answered.response.assignmentsEpoch then
        answered.response.assignmentsEpoch else heartbeats.lastAssignmentsEpoch) =
          answered.response.assignmentsEpoch := by
      split
      next => rfl
      next hge => exact UInt64.le_antisymm hle (UInt64.not_lt.mp hge)
    rw [hlast]
    refine ⟨hconsistent.listed, hconsistent.answered, ?_, ?_, ?_⟩
    · dsimp only
      split
      next => exact hconsistent.handedOn
      next =>
        intro other hother
        rcases List.mem_append.mp hother with hold | hlast
        · exact hconsistent.handedOn other hold
        · rw [List.mem_singleton.mp hlast]
          exact hanswered
    · dsimp only
      split
      next => exact fun other hother => UInt64.le_trans (hconsistent.last other hother) hle
      next =>
        intro other hother
        rcases List.mem_append.mp hother with hold | hlast
        · exact UInt64.le_trans (hconsistent.last other hold) hle
        · rw [List.mem_singleton.mp hlast]
          exact UInt64.le_refl _
    · dsimp only
      split
      next => exact hconsistent.ordered
      next =>
        refine List.pairwise_append.mpr ⟨hconsistent.ordered, List.pairwise_singleton _ _, ?_⟩
        intro other hother new hnew
        rw [List.mem_singleton.mp hnew]
        exact UInt64.le_trans (hconsistent.last other hother) hle

theorem respond (position : Nat) (arrives : Bool) :
    Consistent workerId (heartbeats.step workerId (.respond position arrives)) := by
  rw [Heartbeats.step, Heartbeats.respond]
  split
  next => exact hconsistent
  next answering hanswering =>
    split
    next => exact hconsistent
    next assignments hassignments =>
      dsimp only
      have hreflects := hconsistent.listed answering (List.mem_of_getElem? hanswering) assignments
        hassignments
      have hnext : Consistent workerId
          { heartbeats with
            answering := heartbeats.answering.eraseIdx position
            answered := heartbeats.answered ++
              [⟨answering.role workerId, ⟨assignments, heartbeats.fsm.assignmentsEpoch⟩,
                heartbeats.fsm⟩] } := by
        refine ⟨?_, ?_, ?_, hconsistent.last, hconsistent.ordered⟩
        · intro other hother
          exact hconsistent.listed other (List.mem_of_mem_eraseIdx hother)
        · intro answered hanswered
          rcases List.mem_append.mp hanswered with hold | hnew
          · exact hconsistent.answered answered hold
          · rw [List.mem_singleton.mp hnew]
            exact ⟨rfl, hreflects⟩
        · intro answered hanswered
          exact List.mem_append_left _ (hconsistent.handedOn answered hanswered)
      split
      next => exact hnext.receive (List.mem_append_right _ (List.mem_singleton_self _))
      next => exact hnext

theorem step {input : HeartbeatInput} (hkeeps : KeepsListed workerId heartbeats input) :
    Consistent workerId (heartbeats.step workerId input) := by
  cases input with
  | command applied => exact hconsistent.command hkeeps
  | readWorkers env => exact hconsistent.readWorkers env
  | readCollections position => exact hconsistent.readCollections position
  | respond position arrives => exact hconsistent.respond position arrives

end

end Consistent

/-- In every run in which no command comes between the two reads of a handler that changes what it
has read, every answer has the assignments of the state whose epoch it carries, and the
client hands on such answers only, none with an older epoch than one before it. -/
theorem heartbeats_consistent (workerId : UInt64) (fsm : Fsm) {inputs : List HeartbeatInput}
    (hkeeps : Run.Meets (Heartbeats.step workerId) (KeepsListed workerId) (Heartbeats.start fsm)
      inputs) :
    let heartbeats := Run.run (Heartbeats.step workerId) (Heartbeats.start fsm) inputs
    (∀ answered ∈ heartbeats.answered, answered.Consistent workerId) ∧
      (∀ answered ∈ heartbeats.handedOn, answered.Consistent workerId) ∧
      heartbeats.handedOn.Pairwise fun first second =>
        first.response.assignmentsEpoch ≤ second.response.assignmentsEpoch := by
  intro heartbeats
  have hconsistent : Consistent workerId heartbeats :=
    Run.run_invariant (fun _ _ hkeeps hconsistent => hconsistent.step hkeeps) hkeeps
      (Consistent.start workerId fsm)
  refine ⟨hconsistent.answered, ?_, hconsistent.ordered⟩
  intro answered hanswered
  exact hconsistent.answered answered (hconsistent.handedOn answered hanswered)

/-! ## A collection on one worker -/

theorem keepsPlaced_of_same_epoch {role : String} {workerId : UInt64} {fsm : Fsm}
    {applied : Applied} (hbumps : bumpsEpoch fsm applied = false) :
    KeepsPlaced role workerId fsm applied := by
  intro name id _
  rcases step_bump_or_same fsm applied with ⟨hbumped, -⟩ | ⟨-, -, hmap⟩
  · rw [hbumps] at hbumped
    cases hbumped
  · rw [hmap]

def storedEnv : ServerEnv := ⟨fun _ => 0, fun _ => .stored⟩

/-- The worker is answered, and meanwhile another one registers. -/
def answeredOnce : List HeartbeatInput :=
  [.readWorkers storedEnv, .readCollections 0,
    .command (appliedAt 0 (.registerWorker (.ok
      { grpcAddress := "grpc-2", raftAddress := "raft-2" }))),
    .respond 0 true]

theorem heartbeats_consistent_answeredOnce :
    let heartbeats := Run.run (Heartbeats.step 1) (Heartbeats.start (Run.run step newFsm oneShard))
      answeredOnce
    heartbeats.handedOn.length = 1 ∧
      ∀ answered ∈ heartbeats.handedOn, answered.Consistent 1 := by
  have hbumps : bumpsEpoch (Run.run step newFsm oneShard) (appliedAt 0 (.registerWorker (.ok
      { grpcAddress := "grpc-2", raftAddress := "raft-2" }))) = false := by
    decide +kernel
  refine ⟨by decide +kernel, (heartbeats_consistent 1 _ ?_).2.1⟩
  refine ⟨trivial, trivial, ?_, trivial, trivial⟩
  intro answering _ _
  exact keepsPlaced_of_same_epoch hbumps

/-- The worker gets a shard of a second collection while it is answered. -/
def answeredLate : List HeartbeatInput :=
  [.readWorkers storedEnv, .readCollections 0,
    .command (appliedAt 0 (.createCollection (.ok { name := "more" }))),
    .respond 0 true]

/-- The client has handed on assignments without the new shard under the epoch that counts it. -/
theorem answeredLate_inconsistent :
    let heartbeats := Run.run (Heartbeats.step 1) (Heartbeats.start (Run.run step newFsm oneShard))
      answeredLate
    heartbeats.lastAssignmentsEpoch = heartbeats.fsm.assignmentsEpoch ∧
      ∃ answered ∈ heartbeats.handedOn,
        answered.response.assignmentsEpoch = heartbeats.fsm.assignmentsEpoch ∧
          ¬ Reflects 1 answered.role answered.response.assignments heartbeats.fsm := by
  intro heartbeats
  have hnew : ∃ shard ∈ heartbeats.fsm.shard? "more" 2, 1 ∈ shard.replicas ∧ shard.shardId = 2 := by
    decide +kernel
  have hold : ∀ answered ∈ heartbeats.handedOn,
      ∀ assignment ∈ answered.response.assignments, assignment.shardInfo.shardId ≠ 2 := by
    decide +kernel
  have hanswered : ∃ answered ∈ heartbeats.handedOn,
      answered.response.assignmentsEpoch = heartbeats.fsm.assignmentsEpoch := by
    decide +kernel
  refine ⟨by decide +kernel, ?_⟩
  obtain ⟨answered, hmem, hepoch⟩ := hanswered
  refine ⟨answered, hmem, hepoch, ?_⟩
  intro hreflects
  obtain ⟨shard, hshard, hreplica, hid⟩ := hnew
  obtain ⟨assignment, hassignment, hplaced⟩ :=
    (hreflects shard.placed).mpr ⟨"more", 2, shard, hshard, Or.inr hreplica, rfl⟩
  exact hold answered hmem assignment hassignment ((congrArg Placed.shardId hplaced).trans hid)

end Vectron.Placement
