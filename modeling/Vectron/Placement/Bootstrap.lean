import Vectron.Foundation.Slices
import Vectron.Placement.Identifiers
import Vectron.Placement.Server

/-! # Bootstrapping a shard

Until a leader is reported, the members recorded at the creation of a shard are told
to start its Raft group, each with the initial members that the answer to its
heartbeat lists. The answers list the current replicas and not the recorded members,
so they agree only as long as the replica list of the shard stays as it is.
-/

namespace Vectron.Placement

open Foundation

/-! ## What an answer lists -/

theorem workerMap_lookup {workers : List WorkerInfo} (hnodup : (workers.map WorkerInfo.id).Nodup)
    {worker : WorkerInfo} (hworker : worker ∈ workers) :
    (workerMap workers).lookup worker.id = some worker := by
  -- a worker stays in the map once it is in, since no later one has its id
  have hkeep : ∀ (rest : List WorkerInfo) (known : GoMap UInt64 WorkerInfo),
      (∀ other ∈ rest, other.id ≠ worker.id) → known.lookup worker.id = some worker →
      (rest.foldl (fun workerMap worker => workerMap.insert worker.id worker) known).lookup
        worker.id = some worker := by
    intro rest
    induction rest with
    | nil => exact fun _ _ hknown => hknown
    | cons other rest ih =>
        intro known hother hknown
        refine ih _ (fun next hnext => hother next (List.mem_cons_of_mem _ hnext)) ?_
        rw [AList.lookup_insert_ne (hother other List.mem_cons_self).symm]
        exact hknown
  obtain ⟨before, after, rfl⟩ := List.append_of_mem hworker
  rw [workerMap, List.foldl_append, List.foldl_cons]
  refine hkeep after _ ?_ (AList.lookup_insert _)
  intro other hother hid
  rw [List.map_append, List.map_cons] at hnodup
  have htail := (List.nodup_append.mp hnodup).2.1
  exact (List.nodup_cons.mp htail).1 (List.mem_map.mpr ⟨other, hother, hid⟩)

theorem workerMap_getWorkers {fsm : Fsm} (hmatch : KeysMatch fsm) (env : ServerEnv)
    {id : UInt64} {worker : WorkerInfo} (hworker : fsm.workers.lookup id = some worker) :
    (workerMap (getWorkers env fsm)).lookup id = some worker := by
  have hids : (getWorkers env fsm).map WorkerInfo.id =
      ((env.order .workers).range fsm.workers).map Prod.fst := by
    rw [getWorkers, List.map_map]
    apply List.map_congr_left
    rintro ⟨key, info⟩ hmem
    exact hmatch.worker key info (RangeOrder.mem_range.mp hmem)
  have hmem : worker ∈ getWorkers env fsm :=
    List.mem_map.mpr ⟨(id, worker), RangeOrder.mem_range.mpr hworker, rfl⟩
  have hlookup := workerMap_lookup (by rw [hids]; exact RangeOrder.range_keys_nodup _ _) hmem
  rwa [hmatch.worker id worker hworker] at hlookup

section

variable (workers : GoMap UInt64 WorkerInfo)

theorem addMember_lookup (members : GoMap UInt64 String) (replicaId id : UInt64) :
    (addMember workers members replicaId).lookup id =
      if id = replicaId then
        ((workers.lookup id).map WorkerInfo.raftAddress).or (members.lookup id)
      else members.lookup id := by
  unfold addMember
  by_cases hid : id = replicaId
  · subst hid
    cases hworker : workers.lookup id with
    | none => simp
    | some worker => simp
  · rw [if_neg hid]
    split
    next => exact AList.lookup_insert_ne hid
    next => rfl

theorem foldl_addMember_lookup (replicas : List UInt64) (members : GoMap UInt64 String)
    (id : UInt64) :
    (replicas.foldl (addMember workers) members).lookup id =
      if id ∈ replicas then
        ((workers.lookup id).map WorkerInfo.raftAddress).or (members.lookup id)
      else members.lookup id := by
  induction replicas generalizing members with
  | nil => rfl
  | cons replica rest ih =>
      rw [List.foldl_cons, ih, addMember_lookup]
      by_cases hid : id = replica
      · subst hid
        cases (workers.lookup id).map WorkerInfo.raftAddress <;> simp
      · simp [hid]

theorem initialMembers_lookup (shard : ShardInfo) (id : UInt64) :
    (initialMembers workers shard).lookup id =
      if id ∈ shard.replicas then (workers.lookup id).map WorkerInfo.raftAddress else none := by
  rw [initialMembers, foldl_addMember_lookup, AList.lookup_empty, Option.or_none]

end

/-- What an assignment that bootstraps a shard is made of. -/
theorem mem_heartbeatAssignments {env : ServerEnv} {workersRead collectionsRead : Fsm}
    {workerId : UInt64} {assignment : ShardAssignment}
    (hmem : assignment ∈ heartbeatAssignments env workersRead collectionsRead workerId)
    (hbootstrap : assignment.bootstrap = true) :
    ∃ name id, collectionsRead.shard? name id = some assignment.shardInfo ∧
      assignment.initialMembers =
        initialMembers (workerMap (getWorkers env workersRead)) assignment.shardInfo ∧
      assignment.shardInfo.bootstrapped = false := by
  obtain ⟨coll, hcoll, hassignment⟩ := List.mem_flatMap.mp hmem
  obtain ⟨⟨name, found⟩, hname, rfl⟩ := List.mem_map.mp hcoll
  obtain ⟨⟨id, shard⟩, hshard, hsome⟩ := List.mem_filterMap.mp hassignment
  simp only [shardAssignment] at hsome
  split at hsome
  next =>
    split at hsome
    next =>
      obtain rfl := Option.some.inj hsome
      refine ⟨name, id, Fsm.shard?_eq_some.mpr ⟨found, RangeOrder.mem_range.mp hname,
        RangeOrder.mem_range.mp hshard⟩, rfl, ?_⟩
      simp only [Bool.and_eq_true, Bool.not_eq_true'] at hbootstrap
      exact hbootstrap.1
    next => contradiction
  next =>
    obtain rfl := Option.some.inj hsome
    contradiction

/-! ## What stays as it is -/

/-- A command that takes effect on the replica list of this shard only after the
shard is bootstrapped, or leaves the list as it is. -/
def KeepsMembers (shardId : UInt64) (fsm : Fsm) (input : Applied) : Prop :=
  match input.cmd with
  | .addShardReplica (.ok payload) =>
      payload.shardId = shardId → ∀ found ∈ findShard input.env fsm shardId,
        found.2.bootstrapped = false → ∀ worker ∈ fsm.workers.lookup payload.replicaId,
        worker.state = .ready →
        input.env.clock .addShardReplica - worker.lastHeartbeat < workerTimeout →
        payload.replicaId ∈ found.2.replicas ∨
          maxReplicationFactor ≤ found.2.replicas.length
  | .removeShardReplica (.ok payload) =>
      payload.shardId = shardId → ∀ found ∈ findShard input.env fsm shardId,
        found.2.bootstrapped = false → payload.replicaId ∈ found.2.replicas →
        found.2.replicas.length ≤ replicationFactor input.cfg
  | .moveShard (.ok payload) =>
      payload.shardId = shardId → ∀ found ∈ findShard input.env fsm shardId,
        found.2.bootstrapped = false → payload.sourceWorkerId ∈ found.2.replicas →
        (fsm.workers.lookup payload.targetWorkerId).isSome = true →
        payload.targetWorkerId = payload.sourceWorkerId
  | _ => True

instance (shardId : UInt64) (fsm : Fsm) (input : Applied) :
    Decidable (KeepsMembers shardId fsm input) := by
  casesm* Applied, Command, Decoded _
  all_goals
    delta KeepsMembers
    infer_instance

/-- A shard stays bootstrapped, and keeps its replicas until it is. -/
theorem ShardStep.members {fsm : Fsm} {input : Applied} {id : UInt64}
    (hkeeps : KeepsMembers id fsm input) {name : String} {before after : ShardInfo}
    (hstep : ShardStep input.cfg input.env fsm input.cmd name id (some before) (some after)) :
    (before.bootstrapped = true → after.bootstrapped = true) ∧
      (before.bootstrapped = false → after.replicas = before.replicas) := by
  rcases input with ⟨cfg, env, cmd⟩
  cases hstep with
  | same
  | metrics hfind => exact ⟨fun hbootstrapped => hbootstrapped, fun _ => rfl⟩
  | @leader payload _ _ hfind =>
      refine ⟨?_, fun _ => ShardInfo.reportLeader_replicas _ _⟩
      intro hbootstrapped
      unfold ShardInfo.reportLeader
      split
      next => rfl
      next => exact hbootstrapped
  | @added payload _ _ worker hfind hworker hready hfresh habsent hroom =>
      refine ⟨fun hbootstrapped => hbootstrapped, ?_⟩
      intro hnew
      rcases hkeeps rfl _ hfind hnew worker hworker hready hfresh with hpresent | hfull
      · exact absurd hpresent habsent
      · exact absurd hroom (not_lt.mpr hfull)
  | removed hfind hreplica hspare =>
      refine ⟨fun hbootstrapped => hbootstrapped, ?_⟩
      intro hnew
      exact absurd hspare (not_lt.mpr (hkeeps rfl _ hfind hnew hreplica))
  | moved hfind hsource htarget =>
      refine ⟨fun hbootstrapped => hbootstrapped, ?_⟩
      intro hnew
      have hself := hkeeps rfl _ hfind hnew hsource (Option.isSome_of_eq_some htarget)
      rw [ShardInfo.withReplicas_replicas, hself, replace_self]

/-- An id that was given out is not given out again. -/
theorem shard?_none_step {fsm : Fsm} {input : Applied} (hids : IdsAdvance fsm input)
    {name : String} {id : UInt64} (hissued : id.toNat < fsm.nextShardId.toNat)
    (hnone : fsm.shard? name id = none) : (step fsm input).shard? name id = none := by
  cases hafter : (step fsm input).shard? name id with
  | none => rfl
  | some shard =>
      -- a shard that appears is one of the command's own, with an id from the counter on
      have hkey : (name, id) ∈ issuedShards fsm (.apply input) := by
        refine mem_newKeys.mpr ⟨mem_shardKeys.mpr ?_, ?_⟩
        · exact Option.isSome_of_eq_some hafter
        · rw [mem_shardKeys, hnone]
          exact Bool.false_ne_true
      obtain ⟨_, count, i, _, hcount, hi, hnext, hid⟩ := issuedShards_created hkey
      have hle := hids.1
      simp only [eventStep] at hle
      rw [hnext] at hle
      have hnat := (toNat_add_ofNat_of_le hcount hle hi).1
      rw [(Prod.mk.inj hid).2] at hissued
      omega

/-- The shard under an id, from a state in which it has these replicas: it is not
found elsewhere, and until it is bootstrapped it keeps the replicas. -/
structure ShardTracked (name : String) (id : UInt64) (replicas : List UInt64) (fsm : Fsm) :
    Prop where
  issued : id.toNat < fsm.nextShardId.toNat
  alone : ∀ other, other ≠ name → fsm.shard? other id = none
  kept : ∀ shard, fsm.shard? name id = some shard →
    shard.bootstrapped = true ∨ shard.replicas = replicas

/-- A command after which the answers about the shard still agree. -/
abbrev KeepsBootstrap (shardId : UInt64) (fsm : Fsm) (input : Applied) : Prop :=
  IdsAdvance fsm input ∧ KeepsMembers shardId fsm input

theorem ShardTracked.step {name : String} {id : UInt64} {replicas : List UInt64} (fsm : Fsm)
    (input : Applied) (hkeeps : KeepsBootstrap id fsm input)
    (htracked : ShardTracked name id replicas fsm) :
    ShardTracked name id replicas (step fsm input) := by
  obtain ⟨hids, hmembers⟩ := hkeeps
  refine ⟨?_, ?_, ?_⟩
  · have hle := UInt64.le_iff_toNat_le.mp hids.1
    exact lt_of_lt_of_le htracked.issued hle
  · intro other hother
    exact shard?_none_step hids htracked.issued (htracked.alone other hother)
  · intro after hafter
    cases hbefore : fsm.shard? name id with
    | none =>
        rw [shard?_none_step hids htracked.issued hbefore] at hafter
        contradiction
    | some before =>
        have hstep := step_shardStep fsm input name id
        rw [hbefore, hafter] at hstep
        obtain ⟨hstays, hsame⟩ := hstep.members hmembers
        cases hbootstrapped : before.bootstrapped with
        | true => exact Or.inl (hstays hbootstrapped)
        | false =>
            rcases htracked.kept before hbefore with htrue | hreplicas
            · rw [hbootstrapped] at htrue
              contradiction
            · exact Or.inr ((hsame hbootstrapped).trans hreplicas)

/-- A worker under an id that was given out: it keeps its Raft address. -/
structure WorkerTracked (id : UInt64) (raftAddress : String) (fsm : Fsm) : Prop where
  issued : id.toNat < fsm.nextWorkerId.toNat
  kept : ∀ worker, fsm.workers.lookup id = some worker → worker.raftAddress = raftAddress

theorem WorkerTracked.step {id : UInt64} {raftAddress : String} (fsm : Fsm) (input : Applied)
    (hids : IdsAdvance fsm input) (htracked : WorkerTracked id raftAddress fsm) :
    WorkerTracked id raftAddress (step fsm input) := by
  refine ⟨?_, ?_⟩
  · have hle := UInt64.le_iff_toNat_le.mp hids.2.1
    exact lt_of_lt_of_le htracked.issued hle
  · intro worker hworker
    have hstep := step_workerStep fsm input id
    rw [hworker] at hstep
    rcases hstep.addresses with ⟨old, hold, _, hraft⟩ | ⟨hnext, _⟩
    · rw [← hraft]
      exact htracked.kept old hold
    · have hissued := htracked.issued
      rw [hnext] at hissued
      omega

theorem raftAddress_kept {early late : List Applied}
    (hids : Run.Meets step IdsAdvance newFsm late) (hle : early <+: late) {id : UInt64}
    {worker later : WorkerInfo}
    (hworker : (Run.run step newFsm early).workers.lookup id = some worker)
    (hlater : (Run.run step newFsm late).workers.lookup id = some later) :
    later.raftAddress = worker.raftAddress := by
  obtain ⟨rest, rfl⟩ := hle
  obtain ⟨hearly, hrest⟩ := Run.meets_append.mp hids
  obtain ⟨_, issued, hledger⟩ := run_ledgers hearly
  have htracked : WorkerTracked id worker.raftAddress (Run.run step newFsm early) := by
    refine ⟨?_, ?_⟩
    · exact hledger.below id (hledger.recorded id (GoMap.mem_of_lookup_eq_some hworker))
    · intro found hfound
      rw [hworker] at hfound
      rw [← Option.some.inj hfound]
  rw [Run.run_append] at hlater
  exact (Run.run_invariant WorkerTracked.step hrest htracked).kept later hlater

/-! ## Agreement -/

/-- A heartbeat answered during a run: it reads the workers at one point of the run
and the collections at the same or a later one. -/
structure HeartbeatAnswer (inputs : List Applied) where
  env : ServerEnv
  workerId : UInt64
  workersAt : List Applied
  collectionsAt : List Applied
  workers_first : workersAt <+: collectionsAt
  collections_in : collectionsAt <+: inputs

namespace HeartbeatAnswer

variable {inputs : List Applied}

def assignments (answer : HeartbeatAnswer inputs) : List ShardAssignment :=
  heartbeatAssignments answer.env (Run.run step newFsm answer.workersAt)
    (Run.run step newFsm answer.collectionsAt) answer.workerId

/-- The workers it read include the replicas of the shard. -/
def KnowsReplicas (answer : HeartbeatAnswer inputs) (shardId : UInt64) : Prop :=
  ∀ name shard, (Run.run step newFsm answer.collectionsAt).shard? name shardId = some shard →
    ∀ replica ∈ shard.replicas,
      ((Run.run step newFsm answer.workersAt).workers.lookup replica).isSome = true

theorem knowsReplicas_iff {answer : HeartbeatAnswer inputs} {shardId : UInt64} :
    answer.KnowsReplicas shardId ↔
      ∀ key ∈ shardKeys (Run.run step newFsm answer.collectionsAt), key.2 = shardId →
        ∀ shard ∈ (Run.run step newFsm answer.collectionsAt).shard? key.1 key.2,
          (shard.replicas.all fun replica =>
            ((Run.run step newFsm answer.workersAt).workers.lookup replica).isSome) = true := by
  simp only [List.all_eq_true]
  constructor
  · rintro hknows ⟨name, id⟩ _ rfl shard hshard
    exact hknows name shard hshard
  · intro hknows name shard hshard
    refine hknows (name, shardId) ?_ rfl shard hshard
    exact mem_shardKeys.mpr (Option.isSome_of_eq_some hshard)

instance (answer : HeartbeatAnswer inputs) (shardId : UInt64) :
    Decidable (answer.KnowsReplicas shardId) :=
  decidable_of_iff _ knowsReplicas_iff.symm

end HeartbeatAnswer

/-- Assignments that bootstrap the shard list the same initial members. -/
def BootstrapAgree (shardId : UInt64) (first second : List ShardAssignment) : Prop :=
  ∀ left ∈ first, ∀ right ∈ second, left.shardInfo.shardId = shardId →
    right.shardInfo.shardId = shardId → left.bootstrap = true → right.bootstrap = true →
    ∀ member, left.initialMembers.lookup member = right.initialMembers.lookup member

section

variable {inputs : List Applied} (hids : Run.Meets step IdsAdvance newFsm inputs)

include hids

/-- The shard that an answer bootstraps is tracked from there on. -/
theorem shardTracked_run {name : String} {id : UInt64} {shard : ShardInfo}
    (hshard : (Run.run step newFsm inputs).shard? name id = some shard) :
    ShardTracked name id shard.replicas (Run.run step newFsm inputs) := by
  obtain ⟨⟨issued, hledger⟩, _⟩ := run_ledgers hids
  have hkey : (name, id) ∈ shardKeys (Run.run step newFsm inputs) :=
    mem_shardKeys.mpr (Option.isSome_of_eq_some hshard)
  refine ⟨hledger.below (name, id) (hledger.recorded (name, id) hkey), ?_, ?_⟩
  · intro other hother
    by_contra hsome
    have hkey' : (other, id) ∈ shardKeys (Run.run step newFsm inputs) :=
      mem_shardKeys.mpr (Option.ne_none_iff_isSome.mp hsome)
    have heq : (other, id) = (name, id) := hledger.eq_of_id_eq hkey' hkey rfl
    exact hother (Prod.mk.inj heq).1
  · intro found hfound
    rw [hshard] at hfound
    exact Or.inr (congrArg ShardInfo.replicas (Option.some.inj hfound).symm)

theorem HeartbeatAnswer.raftAddress (first second : HeartbeatAnswer inputs) {id : UInt64}
    {left right : WorkerInfo}
    (hleft : (Run.run step newFsm first.workersAt).workers.lookup id = some left)
    (hright : (Run.run step newFsm second.workersAt).workers.lookup id = some right) :
    left.raftAddress = right.raftAddress := by
  have hfirst := first.workers_first.trans first.collections_in
  have hsecond := second.workers_first.trans second.collections_in
  rcases List.prefix_or_prefix_of_prefix hfirst hsecond with hle | hle
  · exact (raftAddress_kept (hids.initial hsecond) hle hleft hright).symm
  · exact raftAddress_kept (hids.initial hfirst) hle hright hleft

end

/-- The earlier of two answers and the later one agree. -/
theorem bootstrapAgree_of_le {inputs : List Applied} {shardId : UInt64}
    (hmeets : Run.Meets step (KeepsBootstrap shardId) newFsm inputs)
    (first second : HeartbeatAnswer inputs) (hfirst : first.KnowsReplicas shardId)
    (hsecond : second.KnowsReplicas shardId)
    (hle : first.collectionsAt <+: second.collectionsAt) :
    BootstrapAgree shardId first.assignments second.assignments := by
  have hids : Run.Meets step IdsAdvance newFsm inputs := hmeets.imp fun _ _ hkeeps => hkeeps.1
  intro left hleft right hright hleftId hrightId hleftBootstrap hrightBootstrap member
  obtain ⟨name, id, hshard, hmembers, hnew⟩ := mem_heartbeatAssignments hleft hleftBootstrap
  obtain ⟨name', id', hshard', hmembers', hnew'⟩ :=
    mem_heartbeatAssignments hright hrightBootstrap
  obtain rfl : id = shardId := ((keysMatch_run _).shard _ _ _ hshard).symm.trans hleftId
  obtain rfl : id' = id := ((keysMatch_run _).shard _ _ _ hshard').symm.trans hrightId
  -- the later answer reads the same shard, and it still has the same replicas
  have hreplicas : right.shardInfo.replicas = left.shardInfo.replicas := by
    obtain ⟨between, hbetween⟩ := hle
    have hearly := hids.initial first.collections_in
    have hlate := hmeets.initial second.collections_in
    rw [← hbetween] at hlate
    have htracked := Run.run_invariant ShardTracked.step
      (Run.meets_append.mp hlate).2 (shardTracked_run hearly hshard)
    rw [← Run.run_append, hbetween] at htracked
    have hname : name' = name := by
      by_contra hother
      rw [htracked.alone name' hother] at hshard'
      contradiction
    subst hname
    rcases htracked.kept _ hshard' with hbootstrapped | hsame
    · rw [hnew'] at hbootstrapped
      contradiction
    · exact hsame
  rw [hmembers, hmembers', initialMembers_lookup, initialMembers_lookup, hreplicas]
  -- both answers have read the worker, and its address is the one it registered with
  by_cases hmember : member ∈ left.shardInfo.replicas
  · have hknown := hfirst name _ hshard member hmember
    have hknown' := hsecond name' _ hshard' member (hreplicas ▸ hmember)
    obtain ⟨worker, hworker⟩ := Option.isSome_iff_exists.mp hknown
    obtain ⟨worker', hworker'⟩ := Option.isSome_iff_exists.mp hknown'
    rw [workerMap_getWorkers (keysMatch_run _) first.env hworker,
      workerMap_getWorkers (keysMatch_run _) second.env hworker', Option.map_some,
      Option.map_some, HeartbeatAnswer.raftAddress hids first second hworker hworker']
  · rw [if_neg hmember, if_neg hmember]

/-- In a run that leaves the replicas of a shard alone until it is bootstrapped, any two
answers that have read the workers that hold the shard agree on its initial members. -/
theorem bootstrap_members_agree (inputs : List Applied) (shardId : UInt64)
    (hmeets : Run.Meets step (KeepsBootstrap shardId) newFsm inputs)
    (first second : HeartbeatAnswer inputs) (hfirst : first.KnowsReplicas shardId)
    (hsecond : second.KnowsReplicas shardId) :
    BootstrapAgree shardId first.assignments second.assignments := by
  rcases List.prefix_or_prefix_of_prefix first.collections_in second.collections_in with hle | hle
  · exact bootstrapAgree_of_le hmeets first second hfirst hsecond hle
  · have hagree := bootstrapAgree_of_le hmeets second first hsecond hfirst hle
    intro left hleft right hright hleftId hrightId hleftBootstrap hrightBootstrap member
    exact (hagree right hright left hleft hrightId hleftId hrightBootstrap hleftBootstrap
      member).symm

/-! ## Two answers -/

/-- A heartbeat answered when `count` commands of the run were applied. -/
def answerAfter (inputs : List Applied) (count : Nat) (workerId : UInt64) :
    HeartbeatAnswer inputs where
  env := ⟨fun _ => 0, fun _ => .stored⟩
  workerId := workerId
  workersAt := inputs.take count
  collectionsAt := inputs.take count
  workers_first := List.prefix_rfl
  collections_in := List.take_prefix count inputs

/-- A shard on two workers. A third worker joins and becomes a replica while no leader
was reported. -/
def joinBeforeElection : List Applied :=
  startWorkers 2 ++
    ([ .createCollection (.ok { name := "docs" }),
       .registerWorker (.ok { grpcAddress := "grpc-3", raftAddress := "raft-3" }),
       .updateWorkerHeartbeat (.ok { workerId := 3 }),
       .addShardReplica (.ok { shardId := 1, replicaId := 3 }) ] : List Command).map (appliedAt 0)

/-- Before the third worker becomes a replica, the first two are told the same. -/
theorem bootstrap_members_agree_pair :
    let inputs := joinBeforeElection.take 7
    let first := answerAfter inputs 5 1
    let second := answerAfter inputs 7 2
    first.assignments.map (fun assignment => (assignment.shardInfo.shardId, assignment.bootstrap,
        assignment.initialMembers.keys)) = [(1, true, [1, 2])] ∧
      Run.Meets step (KeepsBootstrap 1) newFsm inputs ∧
      BootstrapAgree 1 first.assignments second.assignments := by
  intro inputs first second
  have hmeets : Run.Meets step (KeepsBootstrap 1) newFsm inputs := by
    decide +kernel
  refine ⟨by decide +kernel, hmeets, ?_⟩
  exact bootstrap_members_agree inputs 1 hmeets first second (by decide +kernel)
    (by decide +kernel)

/-- Afterwards the second worker is told to start the Raft group with three members,
which the first one has started with two. -/
theorem bootstrap_members_differ :
    ¬ BootstrapAgree 1 (answerAfter joinBeforeElection 5 1).assignments
      (answerAfter joinBeforeElection 8 2).assignments := by
  intro hagree
  have hfirst : ∃ left ∈ (answerAfter joinBeforeElection 5 1).assignments,
      left.shardInfo.shardId = 1 ∧ left.bootstrap = true ∧
        left.initialMembers.lookup 3 = none := by
    decide +kernel
  have hsecond : ∃ right ∈ (answerAfter joinBeforeElection 8 2).assignments,
      right.shardInfo.shardId = 1 ∧ right.bootstrap = true ∧
        right.initialMembers.lookup 3 = some "raft-3" := by
    decide +kernel
  obtain ⟨left, hleft, hleftId, hleftBootstrap, hnone⟩ := hfirst
  obtain ⟨right, hright, hrightId, hrightBootstrap, hsome⟩ := hsecond
  have heq := hagree left hleft right hright hleftId hrightId hleftBootstrap hrightBootstrap 3
  rw [hnone, hsome] at heq
  exact absurd heq.symm (Option.some_ne_none _)

end Vectron.Placement
