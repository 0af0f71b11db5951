import Vectron.Placement.Effect
import Vectron.Placement.Server

/-! # What a proposer learns

`FSM.Update` hands one number back to whoever proposed a command. The requests and
the reconciler read it in two ways: some treat 0 as a failure, some only look at
whether the proposal itself went through. The results below say for which commands
the number tells anything, and when a reported success is one.
-/

namespace Vectron.Placement

open Foundation

/-- A report about an unknown worker, reranker or shard is dropped without an error. -/
def dropped (env : Env) (fsm : Fsm) : Command → Bool
  | .updateWorkerHeartbeat (.ok payload) => (fsm.workers.lookup payload.workerId).isNone
  | .updateRerankerHeartbeat (.ok payload) => (fsm.rerankers.lookup payload.rerankerId).isNone
  | .updateShardLeader (.ok payload) => (findShard env fsm payload.shardId).isNone
  | .updateShardMetrics (.ok payload) => (findShard env fsm payload.shardId).isNone
  | _ => false

/-- The state machine did what the command asks for. -/
def performed (cfg : Config) (env : Env) (cmd : Command) (fsm : Fsm) : Bool :=
  (applyCommand cfg env cmd fsm).appErr.isNone && !dropped env fsm cmd

/-- A proposer who knows the command can read off its result, in every state, whether
the command was performed. -/
def TellsOutcome (cmd : Command) : Prop :=
  ∃ verdict : UInt64 → Bool, ∀ cfg env fsm,
    verdict (applyCommand cfg env cmd fsm).result = performed cfg env cmd fsm

/-- The commands whose result does tell: those that cannot fail, those that always
fail, and those that return 1 only when they succeed. -/
def encodesOutcome : Command → Bool
  | .updateWorkerHeartbeat (.ok _) => false
  | .updateRerankerHeartbeat (.ok _) => false
  | .updateWorkerState (.ok _) => false
  | .removeWorker (.ok _) => false
  | .updateShardLeader (.ok _) => false
  | .updateShardMetrics (.ok _) => false
  | .addShardReplica (.ok _) => false
  | .removeShardReplica (.ok _) => false
  | _ => true

/-! ## Proposals -/

/-- What becomes of a proposal: Raft does not take it, or it is committed and applied
to the state the log has reached. -/
inductive Proposal where
  | failed (err : String)
  | applied (cfg : Config) (env : Env) (fsm : Fsm)

namespace Proposal

/-- `Node.Propose`. -/
def propose : Proposal → Command → Except String UInt64
  | failed err, _ => .error s!"failed to propose command: {err}"
  | applied cfg env fsm, cmd => .ok (applyCommand cfg env cmd fsm).result

/-- The command was performed. -/
def Performed : Proposal → Command → Prop
  | failed _, _ => False
  | applied cfg env fsm, cmd => performed cfg env cmd fsm = true

end Proposal

/-- The command of `DrainWorker`. -/
def drainCommand (workerId : UInt64) : Command :=
  .updateWorkerState (.ok { workerId := workerId, state := .draining })

/-- The command of `RemoveWorker`. -/
def removeWorkerCommand (workerId : UInt64) : Command :=
  .removeWorker (.ok { workerId := workerId })

/-- The body `DrainWorker` and `RemoveWorker` share: propose a command and report
success, whatever its result. The worker id comes as `strconv.ParseUint` reads it. -/
def workerRequest (verb : String) (command : UInt64 → Command) (workerId : Except String UInt64)
    (proposal : Proposal) : Except Status Bool :=
  match workerId with
  | .error err => .error ⟨.invalidArgument, s!"invalid worker_id format: {err}"⟩
  | .ok id =>
      match proposal.propose (command id) with
      | .error err => .error ⟨.internal, s!"failed to propose {verb} worker: {err}"⟩
      | .ok _ => .ok true

/-- `Server.DrainWorker`. -/
def drainWorker : Except String UInt64 → Proposal → Except Status Bool :=
  workerRequest "drain" drainCommand

/-- `Server.RemoveWorker`. -/
def removeWorker : Except String UInt64 → Proposal → Except Status Bool :=
  workerRequest "remove" removeWorkerCommand

/-- The commands the reconciler and the rebalancer propose. -/
inductive Repair where
  | addReplica (shardId replicaId : UInt64)
  | removeReplica (shardId replicaId : UInt64)
  | removeWorker (workerId : UInt64)

def Repair.command : Repair → Command
  | addReplica shardId replicaId =>
      .addShardReplica (.ok { shardId := shardId, replicaId := replicaId })
  | removeReplica shardId replicaId =>
      .removeShardReplica (.ok { shardId := shardId, replicaId := replicaId })
  | removeWorker workerId => removeWorkerCommand workerId

/-- `proposeCommand` of the rebalancer; `addShardReplicas`, `removeShardReplica` and
`removeWorker` of the reconciler do the same with their own texts. A nil error stands
for a repair that was made. -/
def proposeRepair (repair : Repair) (proposal : Proposal) : Except String Unit :=
  match proposal.propose repair.command with
  | .error err => .error s!"failed to propose command: {err}"
  | .ok _ => .ok ()

/-! ## When a command is performed -/

/-- The worker is registered and no shard has it as a replica. -/
def Removable (fsm : Fsm) (workerId : UInt64) : Prop :=
  (fsm.workers.lookup workerId).isSome ∧
    ∀ name id shard, fsm.shard? name id = some shard → workerId ∉ shard.replicas

/-- The shard exists, and the worker is ready, alive, and a replica of the shard or one
that the shard has room for. -/
def Addable (env : Env) (fsm : Fsm) (shardId replicaId : UInt64) : Prop :=
  ∃ name shard worker, findShard env fsm shardId = some (name, shard) ∧
    fsm.workers.lookup replicaId = some worker ∧ worker.state = .ready ∧
    env.clock .addShardReplica - worker.lastHeartbeat < workerTimeout ∧
    (replicaId ∈ shard.replicas ∨ shard.replicas.length < maxReplicationFactor)

/-- The shard exists, has the replica, and has more replicas than it must keep. -/
def Spare (cfg : Config) (env : Env) (fsm : Fsm) (shardId replicaId : UInt64) : Prop :=
  ∃ name shard, findShard env fsm shardId = some (name, shard) ∧
    replicaId ∈ shard.replicas ∧ replicationFactor cfg < shard.replicas.length

/-- The checks of the state machine pass for a repair. -/
def Admissible (cfg : Config) (env : Env) (fsm : Fsm) : Repair → Prop
  | .addReplica shardId replicaId => Addable env fsm shardId replicaId
  | .removeReplica shardId replicaId => Spare cfg env fsm shardId replicaId
  | .removeWorker workerId => Removable fsm workerId

section Performed

attribute [local simp] performed dropped applyCommand dispatch

variable (cfg : Config) (env : Env) (fsm : Fsm)

variable {cfg env fsm} in
theorem performed_eq_isNone {cmd : Command} (hdropped : dropped env fsm cmd = false) :
    performed cfg env cmd fsm = (applyCommand cfg env cmd fsm).appErr.isNone := by
  rw [performed, hdropped, Bool.not_false, Bool.and_true]

theorem performed_updateWorkerState (payload : UpdateWorkerStatePayload) :
    performed cfg env (.updateWorkerState (.ok payload)) fsm =
      (fsm.workers.lookup payload.workerId).isSome := by
  simp only [performed, dropped, applyCommand, dispatch, Bool.not_false, Bool.and_true]
  cases hworker : fsm.workers.lookup payload.workerId with
  | none
  | some worker => simp [applyUpdateWorkerState, hworker, Outcome.ofExec]

theorem performed_updateWorkerHeartbeat (payload : UpdateWorkerHeartbeatPayload) :
    performed cfg env (.updateWorkerHeartbeat (.ok payload)) fsm =
      (fsm.workers.lookup payload.workerId).isSome := by
  simp only [performed, dropped, applyCommand, dispatch]
  cases hworker : fsm.workers.lookup payload.workerId with
  | none => simp
  | some worker => simp [applyUpdateWorkerHeartbeat, hworker, Outcome.ofExec]

theorem performed_updateRerankerHeartbeat (payload : UpdateRerankerHeartbeatPayload) :
    performed cfg env (.updateRerankerHeartbeat (.ok payload)) fsm =
      (fsm.rerankers.lookup payload.rerankerId).isSome := by
  simp only [performed, dropped, applyCommand, dispatch]
  cases hreranker : fsm.rerankers.lookup payload.rerankerId with
  | none => simp
  | some reranker => simp [applyUpdateRerankerHeartbeat, hreranker, Outcome.ofExec]

theorem performed_updateShardLeader (payload : UpdateShardLeaderPayload) :
    performed cfg env (.updateShardLeader (.ok payload)) fsm =
      (findShard env fsm payload.shardId).isSome := by
  simp only [performed, dropped, applyCommand, dispatch]
  cases hfind : findShard env fsm payload.shardId with
  | none => simp
  | some found => simp [applyUpdateShardLeader, hfind, Outcome.ofExec]

theorem performed_updateShardMetrics (payload : ShardMetricsPayload) :
    performed cfg env (.updateShardMetrics (.ok payload)) fsm =
      (findShard env fsm payload.shardId).isSome := by
  simp only [performed, dropped, applyCommand, dispatch]
  cases hfind : findShard env fsm payload.shardId with
  | none => simp
  | some found => simp [applyUpdateShardMetrics, hfind, Outcome.ofExec]

theorem shardStillOn_of_unused {env : Env} {fsm : Fsm} {workerId : UInt64}
    (hunused : ∀ name id shard, fsm.shard? name id = some shard → workerId ∉ shard.replicas) :
    shardStillOn env fsm workerId = none := by
  rw [shardStillOn, List.findSome?_eq_none_iff]
  rintro ⟨name, coll⟩ hcoll
  rw [List.findSome?_eq_none_iff]
  rintro ⟨id, shard⟩ hshard
  have hlookup := Fsm.shard?_eq_some.mpr
    ⟨coll, RangeOrder.mem_range.mp hcoll, RangeOrder.mem_range.mp hshard⟩
  exact if_neg (hunused name id shard hlookup)

theorem performed_removeWorker (workerId : UInt64) :
    performed cfg env (removeWorkerCommand workerId) fsm = true ↔ Removable fsm workerId := by
  simp only [performed, removeWorkerCommand, dropped, applyCommand, dispatch, Bool.not_false,
    Bool.and_true, applyRemoveWorker, Fallible.exec_get_bind, Removable]
  cases hworker : fsm.workers.lookup workerId with
  | none => simp [Outcome.ofExec]
  | some worker =>
      cases hstill : shardStillOn env fsm workerId with
      | some shardId =>
          simp only [Option.isNone_some, Option.isSome_some, Bool.false_eq_true, ↓reduceIte,
            Outcome.ofExec, Fallible.exec_throw, true_and, false_iff]
          intro hunused
          rw [shardStillOn_of_unused hunused] at hstill
          cases hstill
      | none =>
          simp only [Option.isNone_some, Bool.false_eq_true, ↓reduceIte, Outcome.ofExec,
            Fallible.exec_modify, Option.isNone_none, Option.isSome_some, true_and, true_iff]
          exact fun _ _ _ hshard => shardStillOn_eq_none hstill hshard

theorem performed_addReplica (shardId replicaId : UInt64) :
    performed cfg env (Repair.addReplica shardId replicaId).command fsm = true ↔
      Addable env fsm shardId replicaId := by
  simp only [performed, Repair.command, dropped, applyCommand, dispatch, Bool.not_false,
    Bool.and_true, applyAddShardReplica, Fallible.exec_get_bind, Addable]
  cases hfind : findShard env fsm shardId with
  | none => simp [Outcome.ofExec]
  | some found =>
      rcases found with ⟨name, shard⟩
      cases hworker : fsm.workers.lookup replicaId with
      | none => simp [Outcome.ofExec]
      | some worker =>
          by_cases hready : worker.state = .ready
          · by_cases hstale : env.clock .addShardReplica - worker.lastHeartbeat ≥ workerTimeout
            · have hnot : ¬ env.clock .addShardReplica - worker.lastHeartbeat < workerTimeout :=
                not_lt.mpr hstale
              simp [hready, hstale, hnot, Outcome.ofExec]
            · have hfresh : env.clock .addShardReplica - worker.lastHeartbeat < workerTimeout :=
                not_le.mp hstale
              by_cases hpresent : replicaId ∈ shard.replicas
              · simp [hready, hstale, hfresh, hpresent, Outcome.ofExec]
              · by_cases hfull : shard.replicas.length ≥ maxReplicationFactor
                · simp [hready, hstale, hpresent, hfull, Outcome.ofExec]
                · simp [hready, hstale, hfresh, hpresent, hfull, Outcome.ofExec,
                    exec_bumpAssignmentsEpochLocked, not_le.mp hfull]
          · simp [hready, Outcome.ofExec]

theorem performed_removeReplica (shardId replicaId : UInt64) :
    performed cfg env (Repair.removeReplica shardId replicaId).command fsm = true ↔
      Spare cfg env fsm shardId replicaId := by
  simp only [performed, Repair.command, dropped, applyCommand, dispatch, Bool.not_false,
    Bool.and_true, applyRemoveShardReplica, Fallible.exec_get_bind, Spare]
  cases hfind : findShard env fsm shardId with
  | none => simp [Outcome.ofExec]
  | some found =>
      rcases found with ⟨name, shard⟩
      by_cases hreplica : replicaId ∈ shard.replicas
      · by_cases hmin : shard.replicas.length - 1 < minAllowed cfg shard
        · have hle := (minAllowed_le_iff cfg hreplica).mp hmin
          simp [hreplica, hmin, hle, Outcome.ofExec]
        · have hgt := not_le.mp (mt (minAllowed_le_iff cfg hreplica).mpr hmin)
          simp [hreplica, hmin, hgt, Outcome.ofExec, exec_bumpAssignmentsEpochLocked]
      · simp [hreplica, Outcome.ofExec]

theorem performed_repair (repair : Repair) :
    performed cfg env repair.command fsm = true ↔ Admissible cfg env fsm repair := by
  cases repair with
  | addReplica shardId replicaId => exact performed_addReplica cfg env fsm shardId replicaId
  | removeReplica shardId replicaId => exact performed_removeReplica cfg env fsm shardId replicaId
  | removeWorker workerId => exact performed_removeWorker cfg env fsm workerId

end Performed

/-! ## What the result tells -/

/-- A state with one worker and one reranker of the given id, both alive at time 0. -/
def withWorker (id : UInt64) : Fsm :=
  { newFsm with
    workers := newFsm.workers.insert id
      { ({ grpcAddress := "grpc", raftAddress := "raft" } : RegisterWorkerPayload).worker
          modelConfig (envAt 0) id with state := .ready }
    rerankers := newFsm.rerankers.insert id
      (({ grpcAddress := "grpc" } : RegisterRerankerPayload).reranker modelConfig (envAt 0) id) }

/-- A shard with one entry more than the replication factor asks for. -/
def fullShard (shardId replicaId : UInt64) : ShardInfo where
  shardId := shardId
  collection := "c"
  keyRangeStart := 0
  keyRangeEnd := 0
  replicas := List.replicate (replicationFactor modelConfig + 1) replicaId
  epoch := 1
  dimension := 1
  distance := ""
  bootstrapMembers := []

/-- The same state with a shard on that worker. -/
def withShard (shardId replicaId : UInt64) : Fsm :=
  { withWorker replicaId with
    collections := newFsm.collections.insert "c"
      { name := "c", dimension := 1, distance := "",
        shards := (∅ : GoMap UInt64 ShardInfo).insert shardId (fullShard shardId replicaId) } }

theorem lookup_withWorker (id : UInt64) :
    (withWorker id).workers.lookup id = some
      { ({ grpcAddress := "grpc", raftAddress := "raft" } : RegisterWorkerPayload).worker
          modelConfig (envAt 0) id with state := .ready } :=
  AList.lookup_insert _

theorem findShard_withShard (shardId replicaId : UInt64) :
    findShard (envAt 0) (withShard shardId replicaId) shardId =
      some ("c", fullShard shardId replicaId) := by
  have hshards : ((∅ : GoMap UInt64 ShardInfo).insert shardId
      (fullShard shardId replicaId)).lookup shardId = some (fullShard shardId replicaId) :=
    AList.lookup_insert _
  rw [findShard]
  change List.findSome? _ [("c", _)] = _
  simp only [List.findSome?_cons, hshards, Option.map_some]

theorem dispatch_result_eq_zero {Payload α : Type} (command : String) (payload : Decoded Payload)
    (apply : Payload → Apply α) (fsm : Fsm) :
    (dispatch command payload apply (fun _ => 0) fsm).result = 0 := by
  cases payload with
  | error err => rfl
  | ok payload =>
      rw [dispatch]
      rcases Fallible.exec (apply payload) fsm with ⟨result, after⟩
      cases result with
      | error err => rfl
      | ok value => rfl

section

variable {cmd : Command}

theorem result_eq_zero (hencodes : encodesOutcome cmd = false) (cfg : Config) (env : Env)
    (fsm : Fsm) : (applyCommand cfg env cmd fsm).result = 0 := by
  cases cmd with
  | updateWorkerHeartbeat payload
  | updateRerankerHeartbeat payload
  | updateWorkerState payload
  | removeWorker payload
  | updateShardLeader payload
  | updateShardMetrics payload
  | addShardReplica payload
  | removeShardReplica payload => exact dispatch_result_eq_zero _ _ _ _
  | _ => cases hencodes

/-- A result that is always 0 tells nothing about a command that is performed in one
state and not in another. -/
theorem not_tellsOutcome (hencodes : encodesOutcome cmd = false) {fsm : Fsm}
    (hyes : performed modelConfig (envAt 0) cmd fsm = true)
    (hno : performed modelConfig (envAt 0) cmd newFsm = false) : ¬ TellsOutcome cmd := by
  rintro ⟨verdict, hverdict⟩
  have hfirst := hverdict modelConfig (envAt 0) fsm
  have hsecond := hverdict modelConfig (envAt 0) newFsm
  rw [result_eq_zero hencodes, hyes] at hfirst
  rw [result_eq_zero hencodes, hno] at hsecond
  rw [hfirst] at hsecond
  cases hsecond

theorem encodesOutcome_of_tellsOutcome (htells : TellsOutcome cmd) :
    encodesOutcome cmd = true := by
  by_contra hnot
  have hencodes : encodesOutcome cmd = false := by simpa using hnot
  refine absurd htells ?_
  cases cmd with
  | updateWorkerHeartbeat payload =>
      cases payload with
      | error err => cases hencodes
      | ok payload =>
          apply not_tellsOutcome hencodes
          · rw [performed_updateWorkerHeartbeat _ _ (withWorker payload.workerId),
              lookup_withWorker]
            rfl
          · rw [performed_updateWorkerHeartbeat]
            rfl
  | updateRerankerHeartbeat payload =>
      cases payload with
      | error err => cases hencodes
      | ok payload =>
          apply not_tellsOutcome hencodes
          · rw [performed_updateRerankerHeartbeat _ _ (withWorker payload.rerankerId), withWorker,
              AList.lookup_insert]
            rfl
          · rw [performed_updateRerankerHeartbeat]
            rfl
  | updateWorkerState payload =>
      cases payload with
      | error err => cases hencodes
      | ok payload =>
          apply not_tellsOutcome hencodes
          · rw [performed_updateWorkerState _ _ (withWorker payload.workerId), lookup_withWorker]
            rfl
          · rw [performed_updateWorkerState]
            rfl
  | removeWorker payload =>
      cases payload with
      | error err => cases hencodes
      | ok payload =>
          apply not_tellsOutcome hencodes
          · refine (performed_removeWorker _ _ (withWorker payload.workerId) _).mpr ⟨?_, ?_⟩
            · rw [lookup_withWorker]
              rfl
            · intro name id shard hshard
              cases hshard
          · rfl
  | updateShardLeader payload =>
      cases payload with
      | error err => cases hencodes
      | ok payload =>
          apply not_tellsOutcome hencodes
          · rw [performed_updateShardLeader _ _ (withShard payload.shardId 0),
              findShard_withShard]
            rfl
          · rw [performed_updateShardLeader]
            rfl
  | updateShardMetrics payload =>
      cases payload with
      | error err => cases hencodes
      | ok payload =>
          apply not_tellsOutcome hencodes
          · rw [performed_updateShardMetrics _ _ (withShard payload.shardId 0),
              findShard_withShard]
            rfl
          · rw [performed_updateShardMetrics]
            rfl
  | addShardReplica payload =>
      cases payload with
      | error err => cases hencodes
      | ok payload =>
          apply not_tellsOutcome hencodes
          · refine (performed_addReplica _ _ (withShard payload.shardId payload.replicaId)
              _ _).mpr ⟨_, _, _, findShard_withShard _ _, lookup_withWorker _, rfl, ?_, ?_⟩
            · change (0 : Int) - 0 < workerTimeout
              decide
            · exact Or.inl (List.mem_replicate.mpr ⟨Nat.succ_ne_zero _, rfl⟩)
          · rfl
  | removeShardReplica payload =>
      cases payload with
      | error err => cases hencodes
      | ok payload =>
          apply not_tellsOutcome hencodes
          · refine (performed_removeReplica _ _ (withShard payload.shardId payload.replicaId)
              _ _).mpr ⟨_, _, findShard_withShard _ _, ?_, ?_⟩
            · exact List.mem_replicate.mpr ⟨Nat.succ_ne_zero _, rfl⟩
            · rw [fullShard, List.length_replicate]
              exact Nat.lt_succ_self _
          · rfl
  | _ => cases hencodes

/-- A command that cannot fail is always performed. -/
theorem tellsOutcome_of_performed (hperformed : ∀ cfg env fsm, performed cfg env cmd fsm = true) :
    TellsOutcome cmd :=
  ⟨fun _ => true, fun cfg env fsm => (hperformed cfg env fsm).symm⟩

/-- A payload that does not parse never is. -/
theorem tellsOutcome_of_not_performed
    (hperformed : ∀ cfg env fsm, performed cfg env cmd fsm = false) : TellsOutcome cmd :=
  ⟨fun _ => false, fun cfg env fsm => (hperformed cfg env fsm).symm⟩

/-- The results 0 and 1 of create, delete and move tell failure from success. -/
theorem tellsOutcome_of_result
    (hresult : ∀ cfg env fsm, (applyCommand cfg env cmd fsm).result =
      if performed cfg env cmd fsm then 1 else 0) :
    TellsOutcome cmd := by
  refine ⟨fun value => value == 1, ?_⟩
  intro cfg env fsm
  rw [hresult]
  cases performed cfg env cmd fsm with
  | true => rfl
  | false => rfl

end

theorem dispatch_result_of_appErr {Payload α : Type} (command : String)
    (payload : Decoded Payload) (apply : Payload → Apply α) (fsm : Fsm) :
    (dispatch command payload apply (fun _ => 1) fsm).result =
      if (dispatch command payload apply (fun _ => 1) fsm).appErr.isNone then 1 else 0 := by
  cases payload with
  | error err => rfl
  | ok payload =>
      rw [dispatch]
      rcases Fallible.exec (apply payload) fsm with ⟨result, after⟩
      cases result with
      | error err => rfl
      | ok value => rfl

theorem tellsOutcome_of_encodesOutcome {cmd : Command} (hencodes : encodesOutcome cmd = true) :
    TellsOutcome cmd := by
  cases cmd with
  | registerPeer payload =>
      cases payload with
      | error err => exact tellsOutcome_of_not_performed fun _ _ _ => rfl
      | ok payload => exact tellsOutcome_of_performed fun _ _ _ => rfl
  | registerWorker payload =>
      cases payload with
      | error err => exact tellsOutcome_of_not_performed fun _ _ _ => rfl
      | ok payload =>
          apply tellsOutcome_of_performed
          intro cfg env fsm
          simp only [performed, dropped, applyCommand, dispatch, applyRegisterWorker,
            Fallible.exec_get_bind]
          split
          next id info hfind => rfl
          next hfind => rfl
  | registerReranker payload =>
      cases payload with
      | error err => exact tellsOutcome_of_not_performed fun _ _ _ => rfl
      | ok payload =>
          apply tellsOutcome_of_performed
          intro cfg env fsm
          simp only [performed, dropped, applyCommand, dispatch, applyRegisterReranker,
            Fallible.exec_get_bind]
          split
          next id info hfind => rfl
          next hfind => rfl
  | createCollection payload
  | deleteCollection payload
  | moveShard payload =>
      apply tellsOutcome_of_result
      intro cfg env fsm
      rw [performed_eq_isNone rfl]
      exact dispatch_result_of_appErr _ _ _ _
  | unknown type => exact tellsOutcome_of_not_performed fun _ _ _ => rfl
  | updateWorkerHeartbeat payload
  | updateRerankerHeartbeat payload
  | updateWorkerState payload
  | removeWorker payload
  | updateShardLeader payload
  | updateShardMetrics payload
  | addShardReplica payload
  | removeShardReplica payload =>
      cases payload with
      | error err => exact tellsOutcome_of_not_performed fun _ _ _ => rfl
      | ok payload => cases hencodes

/-! ## Reported successes -/

theorem workerRequest_honest (verb : String) (command : UInt64 → Command)
    (workerId : Except String UInt64) (proposal : Proposal) :
    (∀ id, workerId = .ok id → workerRequest verb command workerId proposal = .ok true →
        proposal.Performed (command id)) ↔
      ∀ id cfg env fsm, workerId = .ok id → proposal = .applied cfg env fsm →
        performed cfg env (command id) fsm = true := by
  constructor
  · rintro hhonest id cfg env fsm rfl rfl
    exact hhonest id rfl rfl
  · rintro hperformed id rfl hreport
    cases proposal with
    | failed err => cases hreport
    | applied cfg env fsm => exact hperformed id cfg env fsm rfl rfl

theorem proposeRepair_honest (repair : Repair) (proposal : Proposal) :
    (proposeRepair repair proposal = .ok () → proposal.Performed repair.command) ↔
      ∀ cfg env fsm, proposal = .applied cfg env fsm → Admissible cfg env fsm repair := by
  constructor
  · rintro hhonest cfg env fsm rfl
    exact (performed_repair cfg env fsm repair).mp (hhonest rfl)
  · intro hadmissible hreport
    cases proposal with
    | failed err => cases hreport
    | applied cfg env fsm =>
        exact (performed_repair cfg env fsm repair).mpr (hadmissible cfg env fsm rfl)

/-- The result of a command tells its outcome exactly for the commands that cannot
fail or that return 1 on success only; a drain or a removal of a worker, and a repair
of the reconciler, is reported as a success only if it was one exactly when the checks
of the state machine pass wherever the proposal is applied. -/
theorem outcome_visible_iff (cmd : Command) (workerId : Except String UInt64) (repair : Repair)
    (proposal : Proposal) :
    (TellsOutcome cmd ↔ encodesOutcome cmd = true) ∧
    ((∀ id, workerId = .ok id → drainWorker workerId proposal = .ok true →
          proposal.Performed (drainCommand id)) ↔
        ∀ id cfg env fsm, workerId = .ok id → proposal = .applied cfg env fsm →
          (fsm.workers.lookup id).isSome) ∧
    ((∀ id, workerId = .ok id → removeWorker workerId proposal = .ok true →
          proposal.Performed (removeWorkerCommand id)) ↔
        ∀ id cfg env fsm, workerId = .ok id → proposal = .applied cfg env fsm →
          Removable fsm id) ∧
    ((proposeRepair repair proposal = .ok () → proposal.Performed repair.command) ↔
        ∀ cfg env fsm, proposal = .applied cfg env fsm → Admissible cfg env fsm repair) := by
  refine ⟨?_, ?_, ?_, proposeRepair_honest repair proposal⟩
  · exact ⟨encodesOutcome_of_tellsOutcome, tellsOutcome_of_encodesOutcome⟩
  · rw [drainWorker, workerRequest_honest]
    simp only [drainCommand, performed_updateWorkerState]
  · rw [removeWorker, workerRequest_honest]
    simp only [performed_removeWorker]

/-- `RemoveWorker` reports success for a worker that was never registered, and the
result of the command is the one it has when it succeeds. -/
theorem removeWorker_reports_unperformed :
    removeWorker (.ok 7) (.applied modelConfig (envAt 0) newFsm) = .ok true ∧
      ¬ Proposal.Performed (.applied modelConfig (envAt 0) newFsm) (removeWorkerCommand 7) ∧
      performed modelConfig (envAt 0) (removeWorkerCommand 7) (withWorker 7) = true ∧
      (applyCommand modelConfig (envAt 0) (removeWorkerCommand 7) newFsm).result =
        (applyCommand modelConfig (envAt 0) (removeWorkerCommand 7) (withWorker 7)).result := by
  refine ⟨rfl, ?_, ?_, rfl⟩
  · have hno : performed modelConfig (envAt 0) (removeWorkerCommand 7) newFsm = false := by
      decide
    rw [Proposal.Performed, hno]
    exact Bool.false_ne_true
  · decide

end Vectron.Placement
