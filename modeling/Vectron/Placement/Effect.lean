import Vectron.Placement.Update

/-! # What a command can do

One inductive relation lists every way in which applying a command can end, with
the guards that were passed on the way and the state that is left.
`applyCommand_effect` shows that the list is complete; invariants are proved by
cases on it and never unfold an apply function.
-/

namespace Vectron.Placement

open Foundation Fallible

/-! ## Reading and writing shards -/

namespace Fsm

section

variable (fsm : Fsm) (name : String) (id : UInt64) (shard : ShardInfo)

@[simp] theorem setShard_workers :
    (fsm.setShard name id shard).workers = fsm.workers := by
  unfold setShard
  split <;> rfl

@[simp] theorem setShard_rerankers : (fsm.setShard name id shard).rerankers = fsm.rerankers := by
  unfold setShard
  split <;> rfl

@[simp] theorem setShard_assignmentsEpoch :
    (fsm.setShard name id shard).assignmentsEpoch = fsm.assignmentsEpoch := by
  unfold setShard
  split <;> rfl

@[simp] theorem setShard_nextShardId :
    (fsm.setShard name id shard).nextShardId = fsm.nextShardId := by
  unfold setShard
  split <;> rfl

@[simp] theorem setShard_nextWorkerId :
    (fsm.setShard name id shard).nextWorkerId = fsm.nextWorkerId := by
  unfold setShard
  split <;> rfl

@[simp] theorem setShard_nextRerankerId :
    (fsm.setShard name id shard).nextRerankerId = fsm.nextRerankerId := by
  unfold setShard
  split <;> rfl

end

theorem shard?_eq_some {fsm : Fsm} {name : String} {id : UInt64} {shard : ShardInfo} :
    fsm.shard? name id = some shard ↔
      ∃ coll, fsm.collections.lookup name = some coll ∧ coll.shards.lookup id = some shard := by
  simp [shard?, Option.bind_eq_some_iff]

/-- Only the written shard changes. -/
theorem shard?_setShard {fsm : Fsm} {name : String} {id : UInt64} {old : ShardInfo}
    (hold : fsm.shard? name id = some old) (new : ShardInfo) (name' : String) (id' : UInt64) :
    (fsm.setShard name id new).shard? name' id' =
      if name' = name ∧ id' = id then some new else fsm.shard? name' id' := by
  obtain ⟨coll, hcoll, _⟩ := shard?_eq_some.mp hold
  simp only [shard?, setShard, hcoll]
  by_cases hname : name' = name
  · subst hname
    rw [AList.lookup_insert, hcoll]
    simp [GoMap.lookup_insert_if]
  · rw [AList.lookup_insert_ne hname]
    simp [hname]

/-- `bumpAssignmentsEpochLocked` on the state. -/
def bump (fsm : Fsm) : Fsm :=
  { fsm with
    assignmentsEpoch := if fsm.assignmentsEpoch + 1 = 0 then 1 else fsm.assignmentsEpoch + 1 }

section

variable (fsm : Fsm)

@[simp] theorem bump_shard? (name : String) (id : UInt64) :
    fsm.bump.shard? name id = fsm.shard? name id := rfl

@[simp] theorem bump_workers : fsm.bump.workers = fsm.workers := rfl

@[simp] theorem bump_rerankers : fsm.bump.rerankers = fsm.rerankers := rfl

@[simp] theorem bump_collections : fsm.bump.collections = fsm.collections := rfl

@[simp] theorem bump_nextShardId : fsm.bump.nextShardId = fsm.nextShardId := rfl

@[simp] theorem bump_nextWorkerId : fsm.bump.nextWorkerId = fsm.nextWorkerId := rfl

@[simp] theorem bump_nextRerankerId :
    fsm.bump.nextRerankerId = fsm.nextRerankerId := rfl

end

end Fsm

theorem exec_bumpAssignmentsEpochLocked (fsm : Fsm) :
    exec bumpAssignmentsEpochLocked fsm = (.ok (), fsm.bump) := by
  simp only [bumpAssignmentsEpochLocked, exec_modify_bind, exec_get_bind, exec_ite,
    exec_modify, exec_pure, Fsm.bump]
  split <;> rfl

theorem findShard_eq_some {env : Env} {fsm : Fsm} {shardId : UInt64} {name : String}
    {shard : ShardInfo} (hfind : findShard env fsm shardId = some (name, shard)) :
    fsm.shard? name shardId = some shard := by
  obtain ⟨⟨key, coll⟩, hmem, heq⟩ := List.exists_of_findSome?_eq_some hfind
  simp only [Option.map_eq_some_iff, Prod.mk.injEq] at heq
  obtain ⟨found, hlookup, rfl, rfl⟩ := heq
  exact Fsm.shard?_eq_some.mpr ⟨coll, RangeOrder.mem_range.mp hmem, hlookup⟩

theorem findShard_eq_none {env : Env} {fsm : Fsm} {shardId : UInt64}
    (hfind : findShard env fsm shardId = none) (name : String) :
    fsm.shard? name shardId = none := by
  cases hshard : fsm.shard? name shardId with
  | none => rfl
  | some shard =>
      obtain ⟨coll, hcoll, hlookup⟩ := Fsm.shard?_eq_some.mp hshard
      have hnone := List.findSome?_eq_none_iff.mp hfind (name, coll)
        (RangeOrder.mem_range.mpr hcoll)
      simp [hlookup] at hnone

theorem shardStillOn_eq_none {env : Env} {fsm : Fsm} {workerId : UInt64}
    (hnone : shardStillOn env fsm workerId = none) {name : String} {id : UInt64}
    {shard : ShardInfo} (hshard : fsm.shard? name id = some shard) :
    workerId ∉ shard.replicas := by
  obtain ⟨coll, hcoll, hlookup⟩ := Fsm.shard?_eq_some.mp hshard
  have hshards := List.findSome?_eq_none_iff.mp hnone (name, coll)
    (RangeOrder.mem_range.mpr hcoll)
  have hreplicas := List.findSome?_eq_none_iff.mp hshards (id, shard)
    (RangeOrder.mem_range.mpr hlookup)
  simpa using hreplicas

/-! ## The shard loop -/

theorem add_one_add_ofNat (id : UInt64) (offset : Nat) :
    id + 1 + UInt64.ofNat offset = id + UInt64.ofNat (offset + 1) := by
  rw [UInt64.ofNat_add, UInt64.add_comm (UInt64.ofNat offset), ← UInt64.add_assoc]
  rfl

/-- The collection the shard loop builds, with the ids it issues from `shardId` on. -/
def ShardSpec.collect (spec : ShardSpec) (workers : GoMap UInt64 WorkerInfo) :
    UInt64 → List Nat → Collection → Collection
  | _, [], collection => collection
  | shardId, i :: rest, collection =>
      spec.collect workers (shardId + 1) rest
        { collection with
          shards := collection.shards.insert shardId (spec.shard workers shardId i) }

theorem exec_createShards (spec : ShardSpec) (indices : List Nat) (collection : Collection)
    (fsm : Fsm) :
    exec (createShards spec indices collection) fsm =
      (.ok (spec.collect fsm.workers fsm.nextShardId indices collection),
        { fsm with nextShardId := fsm.nextShardId + UInt64.ofNat indices.length }) := by
  induction indices generalizing collection fsm with
  | nil => simp [createShards, ShardSpec.collect]
  | cons i rest ih =>
      simp only [createShards, exec_get_bind, exec_modify_bind, ih, ShardSpec.collect,
        List.length_cons, add_one_add_ofNat]

@[simp] theorem ShardSpec.collect_name (spec : ShardSpec) (workers : GoMap UInt64 WorkerInfo)
    (shardId : UInt64) (indices : List Nat) (collection : Collection) :
    (spec.collect workers shardId indices collection).name = collection.name := by
  induction indices generalizing shardId collection with
  | nil => rfl
  | cons i rest ih => exact ih _ _

/-- Every shard of the collection was there before or is built by one iteration. -/
theorem ShardSpec.collect_lookup {spec : ShardSpec} {workers : GoMap UInt64 WorkerInfo}
    {shardId id : UInt64} {start count : Nat} {collection : Collection} {shard : ShardInfo}
    (hlookup : (spec.collect workers shardId (List.range' start count) collection).shards.lookup
      id = some shard) :
    collection.shards.lookup id = some shard ∨
      ∃ offset < count, id = shardId + UInt64.ofNat offset ∧
        shard = spec.shard workers id (start + offset) := by
  induction count generalizing shardId start collection with
  | zero => exact Or.inl hlookup
  | succ count ih =>
      rw [List.range'_succ] at hlookup
      rcases ih hlookup with hbefore | ⟨offset, hoffset, hid, hshard⟩
      · rw [GoMap.lookup_insert_if] at hbefore
        split at hbefore
        next heq =>
          subst heq
          exact Or.inr ⟨0, by omega, by simp, (Option.some.inj hbefore).symm⟩
        next => exact Or.inl hbefore
      · refine Or.inr ⟨offset + 1, by omega, ?_, ?_⟩
        · rw [hid, add_one_add_ofNat]
        · rw [hshard]
          congr 1
          omega

theorem ofNat_succ_ne_zero {offset : Nat} (hoffset : offset + 1 < 2 ^ 64) :
    UInt64.ofNat (offset + 1) ≠ 0 := by
  intro hzero
  have hnat := congrArg UInt64.toNat hzero
  rw [UInt64.toNat_ofNat_of_lt' (by simpa using hoffset)] at hnat
  simp at hnat

/-- Iterations that issue other ids leave an entry alone. -/
theorem ShardSpec.collect_lookup_of_ne {spec : ShardSpec}
    {workers : GoMap UInt64 WorkerInfo} {shardId id : UInt64} {indices : List Nat}
    {collection : Collection}
    (hne : ∀ offset < indices.length, id ≠ shardId + UInt64.ofNat offset) :
    (spec.collect workers shardId indices collection).shards.lookup id =
      collection.shards.lookup id := by
  induction indices generalizing shardId collection with
  | nil => rfl
  | cons i rest ih =>
      rw [ShardSpec.collect, ih]
      · have hfirst := hne 0 (by simp)
        rw [AList.lookup_insert_ne (by simpa using hfirst)]
      · intro offset hoffset
        have hnext := hne (offset + 1) (by simpa using hoffset)
        rwa [← add_one_add_ofNat] at hnext

/-- The shard of every iteration is in the collection, since the ids of fewer than
`2 ^ 64` iterations differ. -/
theorem ShardSpec.collect_lookup_add {spec : ShardSpec} {workers : GoMap UInt64 WorkerInfo}
    {shardId : UInt64} {start count offset : Nat} {collection : Collection}
    (hcount : count ≤ 2 ^ 64) (hoffset : offset < count) :
    (spec.collect workers shardId (List.range' start count) collection).shards.lookup
        (shardId + UInt64.ofNat offset) =
      some (spec.shard workers (shardId + UInt64.ofNat offset) (start + offset)) := by
  induction count generalizing shardId start offset collection with
  | zero => omega
  | succ count ih =>
      rw [List.range'_succ, ShardSpec.collect]
      cases offset with
      | zero =>
          have hid : shardId + UInt64.ofNat 0 = shardId := by simp
          rw [hid, collect_lookup_of_ne]
          · simp
          · intro later hlater hbad
            rw [List.length_range'] at hlater
            have hzero : UInt64.ofNat (later + 1) = 0 := by
              have hcancel : shardId + 0 = shardId + UInt64.ofNat (later + 1) := by
                rw [← add_one_add_ofNat]
                simpa using hbad
              exact ((UInt64.add_right_inj shardId).mp hcancel).symm
            exact ofNat_succ_ne_zero (by omega) hzero
      | succ offset =>
          rw [← add_one_add_ofNat, ih (by omega) (by omega)]
          congr 2
          omega

/-- The collection a successful `applyCreateCollection` stores. -/
def createdCollection (cfg : Config) (env : Env) (fsm : Fsm)
    (payload : CreateCollectionPayload) : Collection :=
  (createSpec cfg env fsm payload).collect fsm.workers fsm.nextShardId
    (List.range (createSpec cfg env fsm payload).numShards) payload.emptyCollection

/-- The number of shards is that of a positive 64-bit integer. -/
theorem createSpec_numShards (cfg : Config) (env : Env) (fsm : Fsm)
    (payload : CreateCollectionPayload) :
    0 < (createSpec cfg env fsm payload).numShards ∧
      (createSpec cfg env fsm payload).numShards < 2 ^ 63 := by
  simp only [createSpec, numShards]
  split
  · decide
  next hpositive =>
    have hlt := payload.initialShards.toInt_lt
    have hint : 0 < payload.initialShards.toInt := by
      rw [Int64.le_iff_toInt_le] at hpositive
      simpa using hpositive
    rw [Int64.toNatClampNeg]
    omega

section

variable {cfg : Config} {env : Env} {fsm : Fsm} {payload : CreateCollectionPayload}

/-- The shards of a new collection, each with the iteration that built it. -/
theorem createdCollection_lookup {id : UInt64} {shard : ShardInfo}
    (hlookup : (createdCollection cfg env fsm payload).shards.lookup id = some shard) :
    ∃ i < (createSpec cfg env fsm payload).numShards, id = fsm.nextShardId + UInt64.ofNat i ∧
      shard = (createSpec cfg env fsm payload).shard fsm.workers id i := by
  rw [createdCollection, List.range_eq_range'] at hlookup
  rcases ShardSpec.collect_lookup hlookup with hbefore | ⟨i, hi, hid, hshard⟩
  · simp [CreateCollectionPayload.emptyCollection] at hbefore
  · rw [Nat.zero_add] at hshard
    exact ⟨i, hi, hid, hshard⟩

theorem createdCollection_lookup_add {i : Nat} (hi : i < (createSpec cfg env fsm payload).numShards) :
    (createdCollection cfg env fsm payload).shards.lookup (fsm.nextShardId + UInt64.ofNat i) =
      some ((createSpec cfg env fsm payload).shard fsm.workers
        (fsm.nextShardId + UInt64.ofNat i) i) := by
  have hbound := (createSpec_numShards cfg env fsm payload).2
  rw [createdCollection, List.range_eq_range', ShardSpec.collect_lookup_add (by omega) hi,
    Nat.zero_add]

end

/-! ## The relation -/

/-- The outcomes of a command in a state. -/
inductive Effect (cfg : Config) (env : Env) (fsm : Fsm) : Command → Outcome → Prop where
  | rejected (cmd : Command) (err : ApplyError) :
      Effect cfg env fsm cmd { fsm := fsm, appErr := some err }
  /-- A report about an unknown worker, reranker or shard, or the addition of a
  replica that is there already. -/
  | ignored (cmd : Command) : Effect cfg env fsm cmd { fsm := fsm }
  | registerPeer (payload : RegisterPeerPayload) :
      Effect cfg env fsm (.registerPeer (.ok payload))
        { fsm := { fsm with
            peers := fsm.peers.insert payload.id
              { id := payload.id, raftAddr := payload.raftAddr, apiAddr := payload.apiAddr } } }
  | reregisterWorker {payload : RegisterWorkerPayload} {id : UInt64} {worker : WorkerInfo}
      (hworker : fsm.workers.lookup id = some worker)
      (hmatches : payload.matches worker = true) :
      Effect cfg env fsm (.registerWorker (.ok payload))
        { fsm := { fsm with workers := fsm.workers.insert id (worker.reregister env payload) }
          result := id }
  | registerWorker {payload : RegisterWorkerPayload}
      (hnew : ∀ id worker, fsm.workers.lookup id = some worker →
        payload.matches worker = false) :
      Effect cfg env fsm (.registerWorker (.ok payload))
        { fsm := { fsm with
            workers := fsm.workers.insert fsm.nextWorkerId
              (payload.worker cfg env fsm.nextWorkerId)
            nextWorkerId := fsm.nextWorkerId + 1 }
          result := fsm.nextWorkerId }
  | reregisterReranker {payload : RegisterRerankerPayload} {id : UInt64}
      {reranker : RerankerInfo} (hreranker : fsm.rerankers.lookup id = some reranker)
      (hmatches : payload.matches reranker = true) :
      Effect cfg env fsm (.registerReranker (.ok payload))
        { fsm := { fsm with
            rerankers := fsm.rerankers.insert id (reranker.reregister env payload) }
          result := id }
  | registerReranker {payload : RegisterRerankerPayload}
      (hnew : ∀ id reranker, fsm.rerankers.lookup id = some reranker →
        payload.matches reranker = false) :
      Effect cfg env fsm (.registerReranker (.ok payload))
        { fsm := { fsm with
            rerankers := fsm.rerankers.insert fsm.nextRerankerId
              (payload.reranker cfg env fsm.nextRerankerId)
            nextRerankerId := fsm.nextRerankerId + 1 }
          result := fsm.nextRerankerId }
  | createCollection {payload : CreateCollectionPayload}
      (hnew : fsm.collections.lookup payload.name = none) (heligible : countEligible env fsm ≠ 0) :
      Effect cfg env fsm (.createCollection (.ok payload))
        { fsm := Fsm.bump { fsm with
            collections := fsm.collections.insert payload.name
              (createdCollection cfg env fsm payload)
            nextShardId := fsm.nextShardId +
              UInt64.ofNat (createSpec cfg env fsm payload).numShards }
          result := 1 }
  | deleteCollection {payload : DeleteCollectionPayload} {coll : Collection}
      (hcoll : fsm.collections.lookup payload.name = some coll) :
      Effect cfg env fsm (.deleteCollection (.ok payload))
        { fsm := Fsm.bump { fsm with collections := fsm.collections.erase payload.name }
          result := 1 }
  | workerHeartbeat {payload : UpdateWorkerHeartbeatPayload} {worker : WorkerInfo}
      (hworker : fsm.workers.lookup payload.workerId = some worker) :
      Effect cfg env fsm (.updateWorkerHeartbeat (.ok payload))
        { fsm := { fsm with
            workers := fsm.workers.insert payload.workerId (worker.heartbeat env payload) } }
  | rerankerHeartbeat {payload : UpdateRerankerHeartbeatPayload} {reranker : RerankerInfo}
      (hreranker : fsm.rerankers.lookup payload.rerankerId = some reranker) :
      Effect cfg env fsm (.updateRerankerHeartbeat (.ok payload))
        { fsm := { fsm with
            rerankers := fsm.rerankers.insert payload.rerankerId
              (reranker.heartbeat env payload) } }
  | workerState {payload : UpdateWorkerStatePayload} {worker : WorkerInfo}
      (hworker : fsm.workers.lookup payload.workerId = some worker) :
      Effect cfg env fsm (.updateWorkerState (.ok payload))
        { fsm := { fsm with
            workers := fsm.workers.insert payload.workerId
              { worker with state := payload.state } } }
  | removeWorker {payload : RemoveWorkerPayload} {worker : WorkerInfo}
      (hworker : fsm.workers.lookup payload.workerId = some worker)
      (hunused : ∀ name id shard, fsm.shard? name id = some shard →
        payload.workerId ∉ shard.replicas) :
      Effect cfg env fsm (.removeWorker (.ok payload))
        { fsm := { fsm with workers := fsm.workers.erase payload.workerId } }
  | shardLeader {payload : UpdateShardLeaderPayload} {name : String} {shard : ShardInfo}
      (hfind : findShard env fsm payload.shardId = some (name, shard)) :
      Effect cfg env fsm (.updateShardLeader (.ok payload))
        { fsm := fsm.setShard name payload.shardId (shard.reportLeader payload.leaderId) }
  | shardMetrics {payload : ShardMetricsPayload} {name : String} {shard : ShardInfo}
      (hfind : findShard env fsm payload.shardId = some (name, shard)) :
      Effect cfg env fsm (.updateShardMetrics (.ok payload))
        { fsm := fsm.setShard name payload.shardId (shard.reportMetrics cfg env payload) }
  | addReplica {payload : AddShardReplicaPayload} {name : String} {shard : ShardInfo}
      {worker : WorkerInfo} (hfind : findShard env fsm payload.shardId = some (name, shard))
      (hworker : fsm.workers.lookup payload.replicaId = some worker)
      (hready : worker.state = .ready)
      (hfresh : env.clock .addShardReplica - worker.lastHeartbeat < workerTimeout)
      (habsent : payload.replicaId ∉ shard.replicas)
      (hroom : shard.replicas.length < maxReplicationFactor) :
      Effect cfg env fsm (.addShardReplica (.ok payload))
        { fsm := Fsm.bump (fsm.setShard name payload.shardId
            (shard.withReplicas (shard.replicas ++ [payload.replicaId]))) }
  | removeReplica {payload : RemoveShardReplicaPayload} {name : String} {shard : ShardInfo}
      (hfind : findShard env fsm payload.shardId = some (name, shard))
      (hreplica : payload.replicaId ∈ shard.replicas)
      (hspare : replicationFactor cfg < shard.replicas.length) :
      Effect cfg env fsm (.removeShardReplica (.ok payload))
        { fsm := Fsm.bump (fsm.setShard name payload.shardId
            (shard.withReplicas (shard.replicas.erase payload.replicaId))) }
  | moveShard {payload : MoveShardPayload} {name : String} {shard : ShardInfo}
      {target : WorkerInfo} (hfind : findShard env fsm payload.shardId = some (name, shard))
      (hsource : payload.sourceWorkerId ∈ shard.replicas)
      (htarget : fsm.workers.lookup payload.targetWorkerId = some target) :
      Effect cfg env fsm (.moveShard (.ok payload))
        { fsm := Fsm.bump (fsm.setShard name payload.shardId
            (shard.withReplicas
              (shard.replicas.replace payload.sourceWorkerId payload.targetWorkerId)))
          result := 1 }

/-! ## Completeness -/

section Complete

variable (cfg : Config) (env : Env) (fsm : Fsm)

theorem applyRegisterWorker_effect (payload : RegisterWorkerPayload) :
    Effect cfg env fsm (.registerWorker (.ok payload))
      (.ofExec id (exec (applyRegisterWorker cfg env payload) fsm)) := by
  simp only [applyRegisterWorker, exec_get_bind]
  split
  next id worker hfind =>
    have hmem := List.mem_of_find?_eq_some hfind
    have hmatches := List.find?_some hfind
    exact .reregisterWorker (RangeOrder.mem_range.mp hmem) hmatches
  next hfind =>
    apply Effect.registerWorker
    intro id worker hworker
    have hnot := List.find?_eq_none.mp hfind (id, worker) (RangeOrder.mem_range.mpr hworker)
    simpa using hnot

theorem applyRegisterReranker_effect (payload : RegisterRerankerPayload) :
    Effect cfg env fsm (.registerReranker (.ok payload))
      (.ofExec id (exec (applyRegisterReranker cfg env payload) fsm)) := by
  simp only [applyRegisterReranker, exec_get_bind]
  split
  next id reranker hfind =>
    have hmem := List.mem_of_find?_eq_some hfind
    have hmatches := List.find?_some hfind
    exact .reregisterReranker (RangeOrder.mem_range.mp hmem) hmatches
  next hfind =>
    apply Effect.registerReranker
    intro id reranker hreranker
    have hnot := List.find?_eq_none.mp hfind (id, reranker) (RangeOrder.mem_range.mpr hreranker)
    simpa using hnot

/-- A creation that passes both guards. -/
theorem applyCreateCollection_outcome (payload : CreateCollectionPayload)
    (hnew : fsm.collections.lookup payload.name = none)
    (heligible : countEligible env fsm ≠ 0) :
    Outcome.ofExec (fun _ => 1) (exec (applyCreateCollection cfg env payload) fsm) =
      { fsm := Fsm.bump { fsm with
          collections := fsm.collections.insert payload.name
            (createdCollection cfg env fsm payload)
          nextShardId := fsm.nextShardId +
            UInt64.ofNat (createSpec cfg env fsm payload).numShards }
        result := 1 } := by
  simp only [applyCreateCollection, exec_get_bind, hnew, heligible, Option.isSome_none,
    Bool.false_eq_true, ↓reduceIte, exec_bind_ok (exec_createShards _ _ _ _), exec_modify_bind,
    exec_bumpAssignmentsEpochLocked, ShardSpec.collect_name, List.length_range]
  rfl

/-- A creation that succeeds has passed both guards. -/
theorem createCollection_guards {payload : CreateCollectionPayload}
    (hok : (applyCommand cfg env (.createCollection (.ok payload)) fsm).appErr = none) :
    fsm.collections.lookup payload.name = none ∧ countEligible env fsm ≠ 0 := by
  by_cases hexists : (fsm.collections.lookup payload.name).isSome
  · simp [applyCommand, dispatch, applyCreateCollection, hexists, Outcome.ofExec] at hok
  · refine ⟨by simpa using hexists, ?_⟩
    intro hcount
    simp [applyCommand, dispatch, applyCreateCollection, hexists, hcount, Outcome.ofExec] at hok

theorem applyCreateCollection_effect (payload : CreateCollectionPayload) :
    Effect cfg env fsm (.createCollection (.ok payload))
      (.ofExec (fun _ => 1) (exec (applyCreateCollection cfg env payload) fsm)) := by
  by_cases hexists : (fsm.collections.lookup payload.name).isSome
  · simp only [applyCreateCollection, exec_get_bind, hexists, ↓reduceIte, exec_throw_bind]
    exact .rejected _ _
  · have hnew : fsm.collections.lookup payload.name = none := by simpa using hexists
    by_cases hcount : countEligible env fsm = 0
    · simp only [applyCreateCollection, exec_get_bind, hexists, hcount, Bool.false_eq_true,
        ↓reduceIte, exec_throw_bind]
      exact .rejected _ _
    · rw [applyCreateCollection_outcome cfg env fsm payload hnew hcount]
      exact .createCollection hnew hcount

theorem applyDeleteCollection_effect (payload : DeleteCollectionPayload) :
    Effect cfg env fsm (.deleteCollection (.ok payload))
      (.ofExec (fun _ => 1) (exec (applyDeleteCollection payload) fsm)) := by
  simp only [applyDeleteCollection, exec_get_bind]
  by_cases hname : payload.name = ""
  · simp only [hname, ↓reduceIte, exec_throw_bind]
    exact .rejected _ _
  · cases hcoll : fsm.collections.lookup payload.name with
    | none =>
        simp only [hname, Option.isNone_none, ↓reduceIte, exec_throw_bind]
        exact .rejected _ _
    | some coll =>
        simp only [hname, Option.isNone_some, Bool.false_eq_true, ↓reduceIte,
          exec_modify_bind, exec_bumpAssignmentsEpochLocked]
        exact .deleteCollection hcoll

theorem applyUpdateWorkerHeartbeat_effect (payload : UpdateWorkerHeartbeatPayload) :
    Effect cfg env fsm (.updateWorkerHeartbeat (.ok payload))
      (.ofExec (fun _ => 0) (exec (applyUpdateWorkerHeartbeat env payload) fsm)) := by
  simp only [applyUpdateWorkerHeartbeat, exec_get_bind]
  split
  next => exact .ignored _
  next worker hworker => exact .workerHeartbeat hworker

theorem applyUpdateRerankerHeartbeat_effect (payload : UpdateRerankerHeartbeatPayload) :
    Effect cfg env fsm (.updateRerankerHeartbeat (.ok payload))
      (.ofExec (fun _ => 0) (exec (applyUpdateRerankerHeartbeat env payload) fsm)) := by
  simp only [applyUpdateRerankerHeartbeat, exec_get_bind]
  split
  next => exact .ignored _
  next reranker hreranker => exact .rerankerHeartbeat hreranker

theorem applyUpdateWorkerState_effect (payload : UpdateWorkerStatePayload) :
    Effect cfg env fsm (.updateWorkerState (.ok payload))
      (.ofExec (fun _ => 0) (exec (applyUpdateWorkerState payload) fsm)) := by
  simp only [applyUpdateWorkerState, exec_get_bind]
  split
  next => exact .rejected _ _
  next worker hworker => exact .workerState hworker

theorem applyRemoveWorker_effect (payload : RemoveWorkerPayload) :
    Effect cfg env fsm (.removeWorker (.ok payload))
      (.ofExec (fun _ => 0) (exec (applyRemoveWorker env payload) fsm)) := by
  simp only [applyRemoveWorker, exec_get_bind]
  cases hworker : fsm.workers.lookup payload.workerId with
  | none =>
      simp only [Option.isNone_none, ↓reduceIte, exec_throw_bind]
      exact .rejected _ _
  | some worker =>
      simp only [Option.isNone_some, Bool.false_eq_true, ↓reduceIte]
      cases hstill : shardStillOn env fsm payload.workerId with
      | some shardId => exact .rejected _ _
      | none =>
          exact .removeWorker hworker fun _ _ _ hshard => shardStillOn_eq_none hstill hshard

theorem applyUpdateShardLeader_effect (payload : UpdateShardLeaderPayload) :
    Effect cfg env fsm (.updateShardLeader (.ok payload))
      (.ofExec (fun _ => 0) (exec (applyUpdateShardLeader env payload) fsm)) := by
  simp only [applyUpdateShardLeader, exec_get_bind]
  split
  next => exact .ignored _
  next name shard hfind => exact .shardLeader hfind

theorem applyUpdateShardMetrics_effect (payload : ShardMetricsPayload) :
    Effect cfg env fsm (.updateShardMetrics (.ok payload))
      (.ofExec (fun _ => 0) (exec (applyUpdateShardMetrics cfg env payload) fsm)) := by
  simp only [applyUpdateShardMetrics, exec_get_bind]
  split
  next => exact .ignored _
  next name shard hfind => exact .shardMetrics hfind

theorem applyAddShardReplica_effect (payload : AddShardReplicaPayload) :
    Effect cfg env fsm (.addShardReplica (.ok payload))
      (.ofExec (fun _ => 0) (exec (applyAddShardReplica env payload) fsm)) := by
  simp only [applyAddShardReplica, exec_get_bind]
  split
  next => exact .rejected _ _
  next name shard hfind =>
    split
    next => exact .rejected _ _
    next worker hworker =>
      by_cases hready : worker.state = .ready
      · by_cases hstale : env.clock .addShardReplica - worker.lastHeartbeat ≥ workerTimeout
        · simp only [hready, hstale, ne_eq, not_true_eq_false, ↓reduceIte, exec_throw_bind]
          exact .rejected _ _
        · by_cases hpresent : payload.replicaId ∈ shard.replicas
          · simp only [hready, hstale, hpresent, ne_eq, not_true_eq_false, ↓reduceIte]
            exact .ignored _
          · by_cases hfull : shard.replicas.length ≥ maxReplicationFactor
            · simp only [hready, hstale, hpresent, hfull, ne_eq, not_true_eq_false,
                ↓reduceIte, exec_throw_bind]
              exact .rejected _ _
            · simp only [hready, hstale, hpresent, hfull, ne_eq, not_true_eq_false,
                ↓reduceIte, exec_modify_bind, exec_bumpAssignmentsEpochLocked]
              exact .addReplica hfind hworker hready (Int.not_le.mp hstale)
                hpresent (not_le.mp hfull)
      · simp only [hready, ne_eq, not_false_eq_true, ↓reduceIte, exec_throw_bind]
        exact .rejected _ _

/-- The guard of `applyRemoveShardReplica` lets exactly the shards with a replica
to spare through. -/
theorem minAllowed_le_iff {shard : ShardInfo} {replica : UInt64}
    (hreplica : replica ∈ shard.replicas) :
    shard.replicas.length - 1 < minAllowed cfg shard ↔
      shard.replicas.length ≤ replicationFactor cfg := by
  have hpositive := List.length_pos_of_mem hreplica
  unfold minAllowed
  split <;> omega

theorem applyRemoveShardReplica_effect (payload : RemoveShardReplicaPayload) :
    Effect cfg env fsm (.removeShardReplica (.ok payload))
      (.ofExec (fun _ => 0) (exec (applyRemoveShardReplica cfg env payload) fsm)) := by
  simp only [applyRemoveShardReplica, exec_get_bind]
  split
  next => exact .rejected _ _
  next name shard hfind =>
    by_cases hreplica : payload.replicaId ∈ shard.replicas
    · by_cases hmin : shard.replicas.length - 1 < minAllowed cfg shard
      · simp only [hreplica, hmin, not_true_eq_false, ↓reduceIte, exec_throw_bind]
        exact .rejected _ _
      · simp only [hreplica, hmin, not_true_eq_false, ↓reduceIte, exec_modify_bind,
          exec_bumpAssignmentsEpochLocked]
        rw [minAllowed_le_iff cfg hreplica, not_le] at hmin
        exact .removeReplica hfind hreplica hmin
    · simp only [hreplica, not_false_eq_true, ↓reduceIte, exec_throw_bind]
      exact .rejected _ _

theorem applyMoveShard_effect (payload : MoveShardPayload) :
    Effect cfg env fsm (.moveShard (.ok payload))
      (.ofExec (fun _ => 1) (exec (applyMoveShard env payload) fsm)) := by
  simp only [applyMoveShard, exec_get_bind]
  split
  next => exact .rejected _ _
  next name shard hfind =>
    by_cases hsource : payload.sourceWorkerId ∈ shard.replicas
    · cases htarget : fsm.workers.lookup payload.targetWorkerId with
      | none =>
          simp only [hsource, not_true_eq_false, Option.isNone_none, ↓reduceIte,
            exec_throw_bind]
          exact .rejected _ _
      | some target =>
          simp only [hsource, not_true_eq_false, Option.isNone_some, Bool.false_eq_true,
            ↓reduceIte, exec_modify_bind, exec_bumpAssignmentsEpochLocked]
          exact .moveShard hfind hsource htarget
    · simp only [hsource, not_false_eq_true, ↓reduceIte, exec_throw_bind]
      exact .rejected _ _

/-- Every application of a command is one of the listed effects. -/
theorem applyCommand_effect (cmd : Command) :
    Effect cfg env fsm cmd (applyCommand cfg env cmd fsm) := by
  cases cmd with
  | registerPeer payload =>
      cases payload with
      | error err => exact .rejected _ _
      | ok payload => exact .registerPeer payload
  | registerWorker payload =>
      cases payload with
      | error err => exact .rejected _ _
      | ok payload => exact applyRegisterWorker_effect cfg env fsm payload
  | registerReranker payload =>
      cases payload with
      | error err => exact .rejected _ _
      | ok payload => exact applyRegisterReranker_effect cfg env fsm payload
  | createCollection payload =>
      cases payload with
      | error err => exact .rejected _ _
      | ok payload => exact applyCreateCollection_effect cfg env fsm payload
  | deleteCollection payload =>
      cases payload with
      | error err => exact .rejected _ _
      | ok payload => exact applyDeleteCollection_effect cfg env fsm payload
  | updateWorkerHeartbeat payload =>
      cases payload with
      | error err => exact .rejected _ _
      | ok payload => exact applyUpdateWorkerHeartbeat_effect cfg env fsm payload
  | updateRerankerHeartbeat payload =>
      cases payload with
      | error err => exact .rejected _ _
      | ok payload => exact applyUpdateRerankerHeartbeat_effect cfg env fsm payload
  | updateWorkerState payload =>
      cases payload with
      | error err => exact .rejected _ _
      | ok payload => exact applyUpdateWorkerState_effect cfg env fsm payload
  | removeWorker payload =>
      cases payload with
      | error err => exact .rejected _ _
      | ok payload => exact applyRemoveWorker_effect cfg env fsm payload
  | updateShardLeader payload =>
      cases payload with
      | error err => exact .rejected _ _
      | ok payload => exact applyUpdateShardLeader_effect cfg env fsm payload
  | moveShard payload =>
      cases payload with
      | error err => exact .rejected _ _
      | ok payload => exact applyMoveShard_effect cfg env fsm payload
  | updateShardMetrics payload =>
      cases payload with
      | error err => exact .rejected _ _
      | ok payload => exact applyUpdateShardMetrics_effect cfg env fsm payload
  | addShardReplica payload =>
      cases payload with
      | error err => exact .rejected _ _
      | ok payload => exact applyAddShardReplica_effect cfg env fsm payload
  | removeShardReplica payload =>
      cases payload with
      | error err => exact .rejected _ _
      | ok payload => exact applyRemoveShardReplica_effect cfg env fsm payload
  | unknown type => exact .rejected _ _

end Complete

/-! ## Failed commands -/

theorem Effect.fsm_eq_of_appErr {cfg : Config} {env : Env} {fsm : Fsm} {cmd : Command}
    {outcome : Outcome} (heffect : Effect cfg env fsm cmd outcome)
    (herr : outcome.appErr ≠ none) : outcome.fsm = fsm := by
  cases heffect with
  | rejected cmd err => rfl
  | ignored cmd => rfl
  | _ => exact absurd rfl herr

/-- A command that ends in an error leaves the whole state as it was. -/
theorem applyCommand_error_atomic (cfg : Config) (env : Env) (cmd : Command) (fsm : Fsm)
    (herr : (applyCommand cfg env cmd fsm).appErr ≠ none) :
    (applyCommand cfg env cmd fsm).fsm = fsm :=
  (applyCommand_effect cfg env fsm cmd).fsm_eq_of_appErr herr

/-- The last replica of a shard cannot be removed. -/
theorem applyCommand_error_atomic_removeShardReplica :
    let fsm := Run.run step newFsm
      (startWorkers 1 ++ [appliedAt 0 (.createCollection (.ok { name := "docs" }))])
    let cmd := Command.removeShardReplica (.ok { shardId := 1, replicaId := 1 })
    (applyCommand modelConfig (envAt 0) cmd fsm).appErr = some (.minReplicas 1 1 1) ∧
      (applyCommand modelConfig (envAt 0) cmd fsm).fsm = fsm := by
  intro fsm cmd
  have herr : (applyCommand modelConfig (envAt 0) cmd fsm).appErr =
      some (.minReplicas 1 1 1) := by
    decide +kernel
  refine ⟨herr, applyCommand_error_atomic _ _ _ _ ?_⟩
  rw [herr]
  exact Option.some_ne_none _

end Vectron.Placement
