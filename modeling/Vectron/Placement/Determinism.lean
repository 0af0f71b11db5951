import Vectron.Foundation.FloatOrder
import Vectron.Placement.Effect
import Vectron.Placement.Selection

/-! # Determinism

Two nodes apply one log, each with its own clock and map iteration orders. The states
they reach are compared up to the times they stored. Applying a command reads the
clock for the eligibility of workers and the age of a heartbeat, and it looks for
records and sorts workers in the order of a map iteration. The states stay alike as
long as these reads decide alike on both nodes.
-/

namespace Vectron.Placement

open Foundation Fallible

/-! ## States up to times -/

def WorkerInfo.untimed (worker : WorkerInfo) : WorkerInfo :=
  { worker with lastHeartbeat := 0 }

def RerankerInfo.untimed (reranker : RerankerInfo) : RerankerInfo :=
  { reranker with lastHeartbeat := 0 }

/-- What is left of the time of the last metrics report. -/
abbrev Stamp := Option Time → Option Time

def ShardInfo.stamped (stamp : Stamp) (shard : ShardInfo) : ShardInfo :=
  { shard with lastUpdated := stamp shard.lastUpdated }

def Collection.stamped (stamp : Stamp) (collection : Collection) : Collection :=
  { collection with shards := GoMap.mapValues (ShardInfo.stamped stamp) collection.shards }

theorem ShardInfo.replicas_eq_of_stamped {stamp : Stamp} {shard shard' : ShardInfo}
    (hstamped : shard.stamped stamp = shard'.stamped stamp) : shard.replicas = shard'.replicas :=
  (congrArg ShardInfo.replicas hstamped :)

section

variable (stamp : Stamp) (shard : ShardInfo)

theorem ShardInfo.stamped_withReplicas (replicas : List UInt64) :
    (shard.withReplicas replicas).stamped stamp = (shard.stamped stamp).withReplicas replicas :=
  rfl

theorem ShardInfo.stamped_reportLeader (leaderId : UInt64) :
    (shard.reportLeader leaderId).stamped stamp =
      (shard.stamped stamp).reportLeader leaderId := by
  unfold ShardInfo.reportLeader
  split <;> rfl

theorem ShardInfo.stamped_reportMetrics (cfg : Config) (env : Env) (payload : ShardMetricsPayload) :
    (shard.reportMetrics cfg env payload).stamped stamp =
      { (shard.stamped stamp).reportMetrics cfg env payload with
        lastUpdated := stamp (some (env.clock .updateShardMetrics)) } :=
  rfl

end

theorem Collection.stamped_insert (stamp : Stamp) (collection : Collection) (id : UInt64)
    (shard : ShardInfo) :
    Collection.stamped stamp { collection with shards := collection.shards.insert id shard } =
      { collection.stamped stamp with
        shards := (collection.stamped stamp).shards.insert id (shard.stamped stamp) } := by
  simp only [Collection.stamped, GoMap.mapValues_insert]

/-- Two states that differ at most in heartbeat times and in what `stamp` drops. -/
structure Alike (stamp : Stamp) (first second : Fsm) : Prop where
  peers : first.peers = second.peers
  workers : GoMap.Alike WorkerInfo.untimed first.workers second.workers
  rerankers : GoMap.Alike RerankerInfo.untimed first.rerankers second.rerankers
  collections : GoMap.Alike (Collection.stamped stamp) first.collections second.collections
  assignmentsEpoch : first.assignmentsEpoch = second.assignmentsEpoch
  nextShardId : first.nextShardId = second.nextShardId
  nextWorkerId : first.nextWorkerId = second.nextWorkerId
  nextRerankerId : first.nextRerankerId = second.nextRerankerId

theorem Alike.refl (stamp : Stamp) (fsm : Fsm) : Alike stamp fsm fsm :=
  ⟨rfl, rfl, rfl, rfl, rfl, rfl, rfl, rfl⟩

theorem Alike.symm {stamp : Stamp} {first second : Fsm} (halike : Alike stamp first second) :
    Alike stamp second first where
  peers := halike.peers.symm
  workers := Eq.symm halike.workers
  rerankers := Eq.symm halike.rerankers
  collections := Eq.symm halike.collections
  assignmentsEpoch := halike.assignmentsEpoch.symm
  nextShardId := halike.nextShardId.symm
  nextWorkerId := halike.nextWorkerId.symm
  nextRerankerId := halike.nextRerankerId.symm

/-- With nothing dropped, the collections are the same. -/
theorem Alike.collections_eq {first second : Fsm} (halike : Alike id first second) :
    first.collections = second.collections := by
  have hshards : ∀ shards : GoMap UInt64 ShardInfo,
      GoMap.mapValues (ShardInfo.stamped id) shards = shards := by
    intro shards
    apply AList.ext
    exact List.map_id _
  have hsame : ∀ collections : GoMap String Collection,
      GoMap.mapValues (Collection.stamped id) collections = collections := by
    intro collections
    apply AList.ext
    refine (List.map_congr_left ?_).trans (List.map_id _)
    rintro ⟨name, coll⟩ _
    simp only [GoMap.mapEntry, Collection.stamped, hshards, id]
  rw [← hsame first.collections, halike.collections, hsame]

section Relation

variable {stamp : Stamp} {first second : Fsm}

section

variable (halike : Alike stamp first second)

include halike

theorem Alike.bump : Alike stamp first.bump second.bump := by
  refine { halike with assignmentsEpoch := ?_ }
  simp only [Fsm.bump, halike.assignmentsEpoch]

theorem Alike.setWorker (id : UInt64) {worker worker' : WorkerInfo}
    (hworker : worker.untimed = worker'.untimed) :
    Alike stamp { first with workers := first.workers.insert id worker }
      { second with workers := second.workers.insert id worker' } :=
  { halike with workers := halike.workers.insert id hworker }

theorem Alike.setReranker (id : UInt64) {reranker reranker' : RerankerInfo}
    (hreranker : reranker.untimed = reranker'.untimed) :
    Alike stamp { first with rerankers := first.rerankers.insert id reranker }
      { second with rerankers := second.rerankers.insert id reranker' } :=
  { halike with rerankers := halike.rerankers.insert id hreranker }

section

variable (name : String) (id : UInt64)

/-- The shards of alike states are alike. -/
theorem Alike.shard? :
    (first.shard? name id = none ∧ second.shard? name id = none) ∨
      ∃ shard shard', first.shard? name id = some shard ∧ second.shard? name id = some shard' ∧
        shard.stamped stamp = shard'.stamped stamp := by
  rcases halike.collections.lookup name with ⟨hfirst, hsecond⟩ | ⟨coll, coll', hfirst, hsecond, hcoll⟩
  · refine Or.inl ⟨?_, ?_⟩
    · rw [Fsm.shard?, hfirst, Option.bind_none]
    · rw [Fsm.shard?, hsecond, Option.bind_none]
  · have hshards : GoMap.Alike (ShardInfo.stamped stamp) coll.shards coll'.shards :=
      congrArg Collection.shards hcoll
    rw [Fsm.shard?, Fsm.shard?, hfirst, hsecond, Option.bind_some, Option.bind_some]
    exact hshards.lookup id

theorem Alike.setShard {shard shard' : ShardInfo}
    (hshard : shard.stamped stamp = shard'.stamped stamp) :
    Alike stamp (first.setShard name id shard) (second.setShard name id shard') := by
  unfold Fsm.setShard
  rcases halike.collections.lookup name with ⟨hfirst, hsecond⟩ | ⟨coll, coll', hfirst, hsecond, hcoll⟩
  · rw [hfirst, hsecond]
    exact halike
  · rw [hfirst, hsecond]
    refine { halike with collections := halike.collections.insert name ?_ }
    rw [Collection.stamped_insert, Collection.stamped_insert, hcoll, hshard]

theorem Alike.setReplicas {shard shard' : ShardInfo}
    (hstamped : shard.stamped stamp = shard'.stamped stamp) (replicas : List UInt64) :
    Alike stamp (first.setShard name id (shard.withReplicas replicas)).bump
      (second.setShard name id (shard'.withReplicas replicas)).bump := by
  refine (halike.setShard name id ?_).bump
  rw [ShardInfo.stamped_withReplicas, ShardInfo.stamped_withReplicas, hstamped]

end

end

end Relation

/-! ## Finding a shard -/

/-- No two collections have a shard with this id. -/
def OneShard (fsm : Fsm) (shardId : UInt64) : Prop :=
  ∀ left ∈ fsm.collections.entries, ∀ right ∈ fsm.collections.entries,
    (left.2.shards.lookup shardId).isSome = true →
    (right.2.shards.lookup shardId).isSome = true → left.1 = right.1

theorem OneShard.name_eq {fsm : Fsm} {shardId : UInt64} (hone : OneShard fsm shardId)
    {left right : String} {shard shard' : ShardInfo}
    (hleft : fsm.shard? left shardId = some shard)
    (hright : fsm.shard? right shardId = some shard') : left = right := by
  obtain ⟨coll, hcoll, hlookup⟩ := Fsm.shard?_eq_some.mp hleft
  obtain ⟨coll', hcoll', hlookup'⟩ := Fsm.shard?_eq_some.mp hright
  exact hone ⟨left, coll⟩ (AList.mem_lookup_iff.mp hcoll) ⟨right, coll'⟩
    (AList.mem_lookup_iff.mp hcoll') (Option.isSome_of_eq_some hlookup)
    (Option.isSome_of_eq_some hlookup')

theorem findShard_alike {stamp : Stamp} {first second : Fsm}
    (halike : Alike stamp first second) (env env' : Env) {shardId : UInt64}
    (hone : OneShard first shardId) :
    (findShard env first shardId = none ∧ findShard env' second shardId = none) ∨
      ∃ name shard shard', findShard env first shardId = some (name, shard) ∧
        findShard env' second shardId = some (name, shard') ∧
        shard.stamped stamp = shard'.stamped stamp := by
  cases hfirst : findShard env first shardId with
  | none =>
      refine Or.inl ⟨rfl, ?_⟩
      cases hsecond : findShard env' second shardId with
      | none => rfl
      | some found =>
          rcases halike.shard? found.1 shardId with ⟨_, hnone⟩ | ⟨shard, _, hshard, _, _⟩
          · rw [findShard_eq_some hsecond] at hnone
            contradiction
          · rw [findShard_eq_none hfirst] at hshard
            contradiction
  | some found =>
      rcases found with ⟨name, shard⟩
      have hshard := findShard_eq_some hfirst
      rcases halike.shard? name shardId with ⟨hnone, _⟩ | ⟨_, shard', hsame, hshard', hstamped⟩
      · rw [hshard] at hnone
        contradiction
      · obtain rfl := Option.some.inj (hshard.symm.trans hsame)
        refine Or.inr ⟨name, shard, shard', rfl, ?_, hstamped⟩
        cases hsecond : findShard env' second shardId with
        | none =>
            rw [findShard_eq_none hsecond] at hshard'
            contradiction
        | some found =>
            rcases found with ⟨name', found⟩
            have hfound := findShard_eq_some hsecond
            rcases halike.shard? name' shardId with ⟨_, hnone⟩ | ⟨_, _, hother, _, _⟩
            · rw [hfound] at hnone
              contradiction
            · obtain rfl := hone.name_eq hshard hother
              rw [Option.some.inj (hfound.symm.trans hshard')]

/-! ## Choosing replicas -/

/-- Whether a worker is eligible when its node's clock shows `now`. -/
def eligibleAt (fsm : Fsm) (workerId : UInt64) (now : Time) : Bool :=
  (fsm.workers.lookup workerId).any (isWorkerEligibleForPlacement now)

/-- Two nodes find the same workers eligible, each at its own readings of the clock. -/
def EligibleAlike (first second : Fsm) (clock clock' : UInt64 → Time) : Prop :=
  ∀ id ∈ first.workers.keys, eligibleAt first id (clock id) = eligibleAt second id (clock' id)

instance (first second : Fsm) (clock clock' : UInt64 → Time) :
    Decidable (EligibleAlike first second clock clock') :=
  List.decidableBAll (fun id => eligibleAt first id (clock id) = eligibleAt second id (clock' id)) _

/-- No two eligible workers have the same load ratio, or one that is not a number. -/
def LoadsDiffer (env : Env) (fsm : Fsm) : Prop :=
  ∀ left ∈ fsm.workers.entries, ∀ right ∈ fsm.workers.entries, left.1 ≠ right.1 →
    isWorkerEligibleForPlacement (env.clock (.sortEligible left.1)) left.2 = true →
    isWorkerEligibleForPlacement (env.clock (.sortEligible right.1)) right.2 = true →
    (workerLoad left.1 left.2).lt (workerLoad right.1 right.2) = true ∨
      (workerLoad right.1 right.2).lt (workerLoad left.1 left.2) = true

/-- The order in which the sort visits the workers. -/
def visitedWorkers (env : Env) (fsm : Fsm) : List UInt64 :=
  ((env.order .sortEligible).range fsm.workers).map Prod.fst

theorem visitedWorkers_perm (env : Env) (fsm : Fsm) :
    (visitedWorkers env fsm).Perm fsm.workers.keys := by
  have hperm := ((env.order .sortEligible).perm
    (fsm.workers.entries.map fun entry => (entry.1, entry.2))).map Prod.fst
  rwa [List.map_map] at hperm

/-- Both nodes place the shards of a new collection on the same workers: they agree on
who is eligible, and if anyone is, their map iterations cannot or do not sort
differently. -/
structure PlacesAlike (first second : Fsm) (env env' : Env) : Prop where
  counted : EligibleAlike first second (fun id => env.clock (.countEligible id))
    (fun id => env'.clock (.countEligible id))
  sorted : countEligible env first ≠ 0 →
    EligibleAlike first second (fun id => env.clock (.sortEligible id))
      (fun id => env'.clock (.sortEligible id))
  ordered : countEligible env first ≠ 0 →
    LoadsDiffer env first ∨ visitedWorkers env first = visitedWorkers env' second

theorem countEligible_eq (env : Env) (fsm : Fsm) :
    countEligible env fsm =
      fsm.workers.keys.countP fun id => eligibleAt fsm id (env.clock (.countEligible id)) := by
  rw [countEligible, RangeOrder.range, ((env.order .countEligible).perm _).countP_eq,
    List.countP_map, AList.keys, List.keys, List.countP_map]
  refine List.countP_congr ?_
  rintro ⟨id, worker⟩ hentry
  have hlookup : fsm.workers.lookup id = some worker := AList.mem_lookup_iff.mpr hentry
  simp [eligibleAt, hlookup]

/-- The load of a worker if it is eligible. -/
def loadAt (env : Env) (fsm : Fsm) (id : UInt64) : Option WorkerLoad :=
  (fsm.workers.lookup id).bind fun worker =>
    if isWorkerEligibleForPlacement (env.clock (.sortEligible id)) worker then
      some (workerLoad id worker)
    else none

theorem workerLoads_eq (env : Env) (fsm : Fsm) :
    workerLoads env fsm = (visitedWorkers env fsm).filterMap (loadAt env fsm) := by
  rw [workerLoads, visitedWorkers, List.filterMap_map]
  refine List.filterMap_congr ?_
  rintro ⟨id, worker⟩ hentry
  simp only [loadAt, Function.comp, RangeOrder.mem_range.mp hentry, Option.bind_some]

/-- The load does not look at the time of the last heartbeat. -/
theorem workerLoad_untimed (id : UInt64) (worker : WorkerInfo) :
    workerLoad id worker.untimed = workerLoad id worker := rfl

theorem workerLoads_strictOn {env : Env} {fsm : Fsm} (hdiffer : LoadsDiffer env fsm) :
    StrictOn WorkerLoad.lt (workerLoads env fsm) where
  asymm left right hlt := by
    simp only [WorkerLoad.lt, decide_eq_true_eq, decide_eq_false_iff_not] at hlt ⊢
    exact float_lt_asymm hlt
  trans left middle right hleft hright := by
    simp only [WorkerLoad.lt, decide_eq_true_eq] at hleft hright ⊢
    exact float_lt_trans hleft hright
  comparable := by
    refine (List.pairwise_map.mp (workerLoads_ids_nodup env fsm)).imp_of_mem ?_
    intro left right hleft hright hne
    obtain ⟨id, worker, hworker, heligible, rfl⟩ := mem_workerLoads.mp hleft
    obtain ⟨id', worker', hworker', heligible', rfl⟩ := mem_workerLoads.mp hright
    exact hdiffer ⟨id, worker⟩ (AList.mem_lookup_iff.mp hworker) ⟨id', worker'⟩
      (AList.mem_lookup_iff.mp hworker') hne heligible heligible'

section Placing

variable {stamp : Stamp} {first second : Fsm} {env env' : Env}

section

variable (halike : Alike stamp first second)

include halike

theorem countEligible_alike (hplaces : PlacesAlike first second env env') :
    countEligible env first = countEligible env' second := by
  rw [countEligible_eq, countEligible_eq, ← halike.workers.keys]
  refine List.countP_congr fun id hid => ?_
  rw [hplaces.counted id hid]

theorem loadAt_alike {id : UInt64}
    (hsorted : eligibleAt first id (env.clock (.sortEligible id)) =
      eligibleAt second id (env'.clock (.sortEligible id))) :
    loadAt env first id = loadAt env' second id := by
  unfold loadAt
  unfold eligibleAt at hsorted
  rcases halike.workers.lookup id with ⟨hfirst, hsecond⟩ | ⟨worker, worker', hfirst, hsecond, hworker⟩
  · rw [hfirst, hsecond]
    rfl
  · rw [hfirst, hsecond, Option.any_some, Option.any_some] at hsorted
    have hload : workerLoad id worker = workerLoad id worker' := by
      rw [← workerLoad_untimed, hworker, workerLoad_untimed]
    rw [hfirst, hsecond, Option.bind_some, Option.bind_some, hsorted, hload]

theorem getWorkersSortedByLoad_alike (hplaces : PlacesAlike first second env env')
    (heligible : countEligible env first ≠ 0) :
    getWorkersSortedByLoad env first = getWorkersSortedByLoad env' second := by
  have hloads : ∀ id ∈ visitedWorkers env' second, loadAt env first id = loadAt env' second id := by
    intro id hid
    rw [(visitedWorkers_perm env' second).mem_iff, ← halike.workers.keys] at hid
    exact loadAt_alike halike (hplaces.sorted heligible id hid)
  have hsecond : workerLoads env' second =
      (visitedWorkers env' second).filterMap (loadAt env first) := by
    rw [workerLoads_eq]
    exact (List.filterMap_congr hloads).symm
  rw [getWorkersSortedByLoad, getWorkersSortedByLoad]
  rcases hplaces.ordered heligible with hdiffer | hvisited
  · have hperm : (visitedWorkers env first).Perm (visitedWorkers env' second) := by
      refine (visitedWorkers_perm env first).trans ?_
      rw [halike.workers.keys]
      exact (visitedWorkers_perm env' second).symm
    -- the same loads in another order: without ties the sort does not see the order
    rw [exchangeSort_eq_of_perm (workerLoads_strictOn hdiffer)]
    rw [hsecond, workerLoads_eq]
    exact hperm.filterMap _
  · rw [hsecond, ← hvisited, ← workerLoads_eq]

end

section

variable (workers : GoMap UInt64 WorkerInfo) (replicationFactor : Nat)

/-- The passes read the failure domains of the workers only. -/
theorem zonePass_untimed :
    zonePass (GoMap.mapValues WorkerInfo.untimed workers) replicationFactor =
      zonePass workers replicationFactor := by
  funext selection workerId
  unfold zonePass
  rw [GoMap.lookup_mapValues]
  cases workers.lookup workerId <;> rfl

theorem rackPass_untimed :
    rackPass (GoMap.mapValues WorkerInfo.untimed workers) replicationFactor =
      rackPass workers replicationFactor := by
  funext selection workerId
  unfold rackPass
  rw [GoMap.lookup_mapValues]
  cases workers.lookup workerId <;> rfl

end

theorem ShardSpec.shard_untimed (spec : ShardSpec) (workers : GoMap UInt64 WorkerInfo) :
    spec.shard (GoMap.mapValues WorkerInfo.untimed workers) = spec.shard workers := by
  funext shardId i
  simp only [ShardSpec.shard, selectReplicasWithFailureDomain, zonePass_untimed,
    rackPass_untimed]

theorem ShardSpec.collect_congr {spec : ShardSpec} {workers workers' : GoMap UInt64 WorkerInfo}
    (hshard : spec.shard workers = spec.shard workers') (shardId : UInt64) (indices : List Nat)
    (collection : Collection) :
    spec.collect workers shardId indices collection =
      spec.collect workers' shardId indices collection := by
  induction indices generalizing shardId collection with
  | nil => rfl
  | cons i rest ih => rw [ShardSpec.collect, ShardSpec.collect, hshard, ih]

section

variable (halike : Alike stamp first second) (hplaces : PlacesAlike first second env env')
  (heligible : countEligible env first ≠ 0) (cfg : Config) (payload : CreateCollectionPayload)

include halike hplaces heligible

theorem createSpec_alike :
    createSpec cfg env first payload = createSpec cfg env' second payload := by
  simp only [createSpec, actualReplication, countEligible_alike halike hplaces,
    getWorkersSortedByLoad_alike halike hplaces heligible]

theorem createdCollection_alike :
    createdCollection cfg env first payload = createdCollection cfg env' second payload := by
  have hshard : ∀ spec : ShardSpec, spec.shard first.workers = spec.shard second.workers := by
    intro spec
    rw [← spec.shard_untimed first.workers, halike.workers, spec.shard_untimed]
  rw [createdCollection, createdCollection, createSpec_alike halike hplaces heligible,
    halike.nextShardId, ShardSpec.collect_congr (hshard _)]

end

end Placing

/-! ## One command on two nodes -/

/-- A command of the log with what the two nodes read while they apply it. -/
structure Replicated where
  cfg : Config
  cmd : Command
  env : Env
  env' : Env

def bothStep (nodes : Fsm × Fsm) (entry : Replicated) : Fsm × Fsm :=
  (step nodes.1 ⟨entry.cfg, entry.env, entry.cmd⟩, step nodes.2 ⟨entry.cfg, entry.env', entry.cmd⟩)

/-- At most one registered worker has the addresses of the payload. -/
def OneWorker (fsm : Fsm) (payload : RegisterWorkerPayload) : Prop :=
  ∀ left ∈ fsm.workers.entries, ∀ right ∈ fsm.workers.entries,
    payload.matches left.2 = true → payload.matches right.2 = true → left.1 = right.1

/-- At most one registered reranker has the address of the payload. -/
def OneReranker (fsm : Fsm) (payload : RegisterRerankerPayload) : Prop :=
  ∀ left ∈ fsm.rerankers.entries, ∀ right ∈ fsm.rerankers.entries,
    payload.matches left.2 = true → payload.matches right.2 = true → left.1 = right.1

/-- Both nodes find the last heartbeat of a ready worker fresh or both do not, where
the addition of the replica depends on it. -/
def FreshAlike (first second : Fsm) (env env' : Env) (payload : AddShardReplicaPayload) : Prop :=
  ∀ found ∈ findShard env first payload.shardId, payload.replicaId ∉ found.2.replicas →
    found.2.replicas.length < maxReplicationFactor →
    ∀ worker ∈ first.workers.lookup payload.replicaId,
      ∀ worker' ∈ second.workers.lookup payload.replicaId, worker.state = .ready →
        (env.clock .addShardReplica - worker.lastHeartbeat ≥ workerTimeout ↔
          env'.clock .addShardReplica - worker'.lastHeartbeat ≥ workerTimeout)

/-- A command whose reads of clocks and iteration orders decide alike on both nodes. -/
def DecidesAlike (nodes : Fsm × Fsm) (entry : Replicated) : Prop :=
  match entry.cmd with
  | .registerWorker (.ok payload) => OneWorker nodes.1 payload
  | .registerReranker (.ok payload) => OneReranker nodes.1 payload
  | .createCollection (.ok payload) =>
      nodes.1.collections.lookup payload.name = none →
        PlacesAlike nodes.1 nodes.2 entry.env entry.env'
  | .updateShardLeader (.ok payload) => OneShard nodes.1 payload.shardId
  | .moveShard (.ok payload) => OneShard nodes.1 payload.shardId
  | .updateShardMetrics (.ok payload) => OneShard nodes.1 payload.shardId
  | .addShardReplica (.ok payload) =>
      OneShard nodes.1 payload.shardId ∧
        FreshAlike nodes.1 nodes.2 entry.env entry.env' payload
  | .removeShardReplica (.ok payload) => OneShard nodes.1 payload.shardId
  | _ => True

/-- A metrics report, if it is one and its shard exists, that leaves the same stamp on
both nodes. -/
def StampsAlike (stamp : Stamp) (nodes : Fsm × Fsm) (entry : Replicated) : Prop :=
  match entry.cmd with
  | .updateShardMetrics (.ok payload) =>
      (findShard entry.env nodes.1 payload.shardId).isSome = true →
        stamp (some (entry.env.clock .updateShardMetrics)) =
          stamp (some (entry.env'.clock .updateShardMetrics))
  | _ => True

instance (fsm : Fsm) (shardId : UInt64) : Decidable (OneShard fsm shardId) :=
  inferInstanceAs (Decidable (∀ left ∈ fsm.collections.entries,
    ∀ right ∈ fsm.collections.entries, _ → _ → _))

instance (fsm : Fsm) (payload : RegisterWorkerPayload) : Decidable (OneWorker fsm payload) :=
  inferInstanceAs (Decidable (∀ left ∈ fsm.workers.entries,
    ∀ right ∈ fsm.workers.entries, _ → _ → _))

instance (fsm : Fsm) (payload : RegisterRerankerPayload) : Decidable (OneReranker fsm payload) :=
  inferInstanceAs (Decidable (∀ left ∈ fsm.rerankers.entries,
    ∀ right ∈ fsm.rerankers.entries, _ → _ → _))

instance (env : Env) (fsm : Fsm) : Decidable (LoadsDiffer env fsm) :=
  inferInstanceAs (Decidable (∀ left ∈ fsm.workers.entries,
    ∀ right ∈ fsm.workers.entries, _ → _ → _ → _))

instance (first second : Fsm) (env env' : Env) : Decidable (PlacesAlike first second env env') :=
  decidable_of_iff (_ ∧ _ ∧ _)
    ⟨fun ⟨hcounted, hsorted, hordered⟩ => ⟨hcounted, hsorted, hordered⟩,
      fun hplaces => ⟨hplaces.counted, hplaces.sorted, hplaces.ordered⟩⟩

instance (first second : Fsm) (env env' : Env) (payload : AddShardReplicaPayload) :
    Decidable (FreshAlike first second env env' payload) :=
  inferInstanceAs (Decidable (∀ found ∈ findShard env first payload.shardId, _ → _ →
    ∀ worker ∈ first.workers.lookup payload.replicaId,
      ∀ worker' ∈ second.workers.lookup payload.replicaId, _ → _))

instance (nodes : Fsm × Fsm) (entry : Replicated) : Decidable (DecidesAlike nodes entry) := by
  casesm* Replicated, Command, Decoded _
  all_goals
    delta DecidesAlike
    infer_instance

@[simp] theorem Outcome.ofExec_fsm {α : Type} (result : α → UInt64)
    (finished : Except ApplyError α × Fsm) : (Outcome.ofExec result finished).fsm = finished.2 := by
  rcases finished with ⟨_ | _, _⟩ <;> rfl

/-- A shard that has the replica, or has no room, stays as it is. -/
theorem applyAddShardReplica_unchanged {env : Env} {fsm : Fsm} {payload : AddShardReplicaPayload}
    {name : String} {shard : ShardInfo}
    (hfind : findShard env fsm payload.shardId = some (name, shard))
    (hkept : ¬(payload.replicaId ∉ shard.replicas ∧
      shard.replicas.length < maxReplicationFactor)) :
    (exec (applyAddShardReplica env payload) fsm).2 = fsm := by
  simp only [applyAddShardReplica, exec_get_bind, hfind]
  split
  next => rfl
  next worker hworker =>
    simp only [exec_ite, exec_throw_bind, exec_pure]
    split_ifs with hready hstale hpresent hfull
    · rfl
    · rfl
    · rfl
    · rfl
    · exact absurd ⟨hpresent, not_le.mp hfull⟩ hkept

section Commands

variable {stamp : Stamp} {first second : Fsm} (halike : Alike stamp first second)

include halike

/-- A payload that does not decode changes neither node. -/
theorem dispatch_alike {Payload α : Type} (command : String) (payload : Decoded Payload)
    {apply apply' : Payload → Apply α} (result : α → UInt64)
    (hok : ∀ decoded, payload = .ok decoded →
      Alike stamp (exec (apply decoded) first).2 (exec (apply' decoded) second).2) :
    Alike stamp (dispatch command payload apply result first).fsm
      (dispatch command payload apply' result second).fsm := by
  cases payload with
  | error err => exact halike
  | ok decoded =>
      simp only [dispatch, Outcome.ofExec_fsm]
      exact hok decoded rfl

theorem applyRegisterPeer_alike (payload : RegisterPeerPayload) :
    Alike stamp (exec (applyRegisterPeer payload) first).2
      (exec (applyRegisterPeer payload) second).2 := by
  simp only [applyRegisterPeer, exec_modify, halike.peers]
  exact { halike with peers := rfl }

theorem applyRegisterWorker_alike (cfg : Config) (env env' : Env)
    {payload : RegisterWorkerPayload} (hone : OneWorker first payload) :
    Alike stamp (exec (applyRegisterWorker cfg env payload) first).2
      (exec (applyRegisterWorker cfg env' payload) second).2 := by
  simp only [applyRegisterWorker, exec_get_bind]
  rcases RangeOrder.find?_range_of_alike halike.workers (env.order .registerWorker)
    (env'.order .registerWorker) (fun _ => rfl) hone with
    ⟨hfirst, hsecond⟩ | ⟨id, worker, worker', hfirst, hsecond, hworker⟩
  · rw [hfirst, hsecond]
    simp only [exec_modify_bind, exec_pure, halike.nextWorkerId]
    exact { halike with workers := halike.workers.insert _ rfl, nextWorkerId := rfl }
  · rw [hfirst, hsecond]
    refine halike.setWorker id ?_
    change (worker.untimed.reregister env' payload).untimed = _
    rw [hworker]
    rfl

theorem applyRegisterReranker_alike (cfg : Config) (env env' : Env)
    {payload : RegisterRerankerPayload} (hone : OneReranker first payload) :
    Alike stamp (exec (applyRegisterReranker cfg env payload) first).2
      (exec (applyRegisterReranker cfg env' payload) second).2 := by
  simp only [applyRegisterReranker, exec_get_bind]
  rcases RangeOrder.find?_range_of_alike halike.rerankers (env.order .registerReranker)
    (env'.order .registerReranker) (fun _ => rfl) hone with
    ⟨hfirst, hsecond⟩ | ⟨id, reranker, reranker', hfirst, hsecond, hreranker⟩
  · rw [hfirst, hsecond]
    simp only [exec_modify_bind, exec_pure, halike.nextRerankerId]
    exact { halike with rerankers := halike.rerankers.insert _ rfl, nextRerankerId := rfl }
  · rw [hfirst, hsecond]
    refine halike.setReranker id ?_
    change (reranker.untimed.reregister env' payload).untimed = _
    rw [hreranker]
    rfl

theorem applyCreateCollection_alike (cfg : Config) {env env' : Env}
    {payload : CreateCollectionPayload}
    (hplaces : first.collections.lookup payload.name = none →
      PlacesAlike first second env env') :
    Alike stamp (exec (applyCreateCollection cfg env payload) first).2
      (exec (applyCreateCollection cfg env' payload) second).2 := by
  rcases halike.collections.lookup payload.name with
    ⟨hfirst, hsecond⟩ | ⟨coll, coll', hfirst, hsecond, _⟩
  · -- both nodes count the same workers, so they pass or fail the second guard together
    have hcount := countEligible_alike halike (hplaces hfirst)
    by_cases heligible : countEligible env first = 0
    · rw [heligible] at hcount
      simp only [applyCreateCollection, exec_get_bind, hfirst, hsecond, heligible, ← hcount,
        Option.isSome_none, Bool.false_eq_true, ↓reduceIte, exec_throw_bind]
      exact halike
    · have heligible' : countEligible env' second ≠ 0 := hcount ▸ heligible
      have hleft := congrArg Outcome.fsm
        (applyCreateCollection_outcome cfg env first payload hfirst heligible)
      have hright := congrArg Outcome.fsm
        (applyCreateCollection_outcome cfg env' second payload hsecond heligible')
      rw [Outcome.ofExec_fsm] at hleft hright
      rw [hleft, hright, createSpec_alike halike (hplaces hfirst) heligible,
        createdCollection_alike halike (hplaces hfirst) heligible]
      refine Alike.bump { halike with
        collections := halike.collections.insert _ rfl
        nextShardId := ?_ }
      simp only [halike.nextShardId]
  · simp only [applyCreateCollection, exec_get_bind, hfirst, hsecond, Option.isSome_some,
      ↓reduceIte, exec_throw_bind]
    exact halike

theorem applyDeleteCollection_alike (payload : DeleteCollectionPayload) :
    Alike stamp (exec (applyDeleteCollection payload) first).2
      (exec (applyDeleteCollection payload) second).2 := by
  simp only [applyDeleteCollection, exec_get_bind]
  by_cases hname : payload.name = ""
  · simp only [hname, ↓reduceIte, exec_throw_bind]
    exact halike
  · rcases halike.collections.lookup payload.name with
      ⟨hfirst, hsecond⟩ | ⟨coll, coll', hfirst, hsecond, _⟩
    · simp only [hname, hfirst, hsecond, Option.isNone_none, ↓reduceIte, exec_throw_bind]
      exact halike
    · simp only [hname, hfirst, hsecond, Option.isNone_some, Bool.false_eq_true, ↓reduceIte,
        exec_modify_bind, exec_bumpAssignmentsEpochLocked]
      exact Alike.bump { halike with collections := halike.collections.erase _ }

theorem applyUpdateWorkerHeartbeat_alike (env env' : Env)
    (payload : UpdateWorkerHeartbeatPayload) :
    Alike stamp (exec (applyUpdateWorkerHeartbeat env payload) first).2
      (exec (applyUpdateWorkerHeartbeat env' payload) second).2 := by
  simp only [applyUpdateWorkerHeartbeat, exec_get_bind]
  rcases halike.workers.lookup payload.workerId with
    ⟨hfirst, hsecond⟩ | ⟨worker, worker', hfirst, hsecond, hworker⟩
  · rw [hfirst, hsecond]
    exact halike
  · rw [hfirst, hsecond]
    refine halike.setWorker payload.workerId ?_
    change (worker.untimed.heartbeat env' payload).untimed = _
    rw [hworker]
    rfl

theorem applyUpdateRerankerHeartbeat_alike (env env' : Env)
    (payload : UpdateRerankerHeartbeatPayload) :
    Alike stamp (exec (applyUpdateRerankerHeartbeat env payload) first).2
      (exec (applyUpdateRerankerHeartbeat env' payload) second).2 := by
  simp only [applyUpdateRerankerHeartbeat, exec_get_bind]
  rcases halike.rerankers.lookup payload.rerankerId with
    ⟨hfirst, hsecond⟩ | ⟨reranker, reranker', hfirst, hsecond, hreranker⟩
  · rw [hfirst, hsecond]
    exact halike
  · rw [hfirst, hsecond]
    refine halike.setReranker payload.rerankerId ?_
    change (reranker.untimed.heartbeat env' payload).untimed = _
    rw [hreranker]
    rfl

theorem applyUpdateWorkerState_alike (payload : UpdateWorkerStatePayload) :
    Alike stamp (exec (applyUpdateWorkerState payload) first).2
      (exec (applyUpdateWorkerState payload) second).2 := by
  simp only [applyUpdateWorkerState, exec_get_bind]
  rcases halike.workers.lookup payload.workerId with
    ⟨hfirst, hsecond⟩ | ⟨worker, worker', hfirst, hsecond, hworker⟩
  · rw [hfirst, hsecond]
    exact halike
  · rw [hfirst, hsecond]
    refine halike.setWorker payload.workerId ?_
    change { worker.untimed with state := payload.state } = _
    rw [hworker]
    rfl

/-- Whether some shard is still on a worker does not depend on the order of the loops. -/
theorem shardStillOn_alike (env env' : Env) {workerId : UInt64}
    (hfirst : shardStillOn env first workerId = none) :
    shardStillOn env' second workerId = none := by
  refine List.findSome?_eq_none_iff.mpr ?_
  rintro ⟨name, coll⟩ hcoll
  refine List.findSome?_eq_none_iff.mpr ?_
  rintro ⟨id, shard⟩ hshard
  have hfound : second.shard? name id = some shard :=
    Fsm.shard?_eq_some.mpr ⟨coll, RangeOrder.mem_range.mp hcoll, RangeOrder.mem_range.mp hshard⟩
  rcases halike.shard? name id with ⟨_, hnone⟩ | ⟨shard', _, hshard', hsame, hstamped⟩
  · rw [hfound] at hnone
    contradiction
  · obtain rfl := Option.some.inj (hfound.symm.trans hsame)
    refine if_neg ?_
    rw [← ShardInfo.replicas_eq_of_stamped hstamped]
    exact shardStillOn_eq_none hfirst hshard'

theorem applyRemoveWorker_alike (env env' : Env) (payload : RemoveWorkerPayload) :
    Alike stamp (exec (applyRemoveWorker env payload) first).2
      (exec (applyRemoveWorker env' payload) second).2 := by
  simp only [applyRemoveWorker, exec_get_bind]
  rcases halike.workers.lookup payload.workerId with
    ⟨hfirst, hsecond⟩ | ⟨worker, worker', hfirst, hsecond, _⟩
  · simp only [hfirst, hsecond, Option.isNone_none, ↓reduceIte, exec_throw_bind]
    exact halike
  · simp only [hfirst, hsecond, Option.isNone_some, Bool.false_eq_true, ↓reduceIte]
    cases hstill : shardStillOn env first payload.workerId with
    | none =>
        rw [shardStillOn_alike halike env env' hstill]
        exact { halike with workers := halike.workers.erase _ }
    | some shardId =>
        cases hstill' : shardStillOn env' second payload.workerId with
        | none =>
            rw [shardStillOn_alike halike.symm env' env hstill'] at hstill
            contradiction
        | some shardId' => exact halike

theorem applyUpdateShardLeader_alike (env env' : Env) {payload : UpdateShardLeaderPayload}
    (hone : OneShard first payload.shardId) :
    Alike stamp (exec (applyUpdateShardLeader env payload) first).2
      (exec (applyUpdateShardLeader env' payload) second).2 := by
  simp only [applyUpdateShardLeader, exec_get_bind]
  rcases findShard_alike halike env env' hone with
    ⟨hfirst, hsecond⟩ | ⟨name, shard, shard', hfirst, hsecond, hstamped⟩
  · rw [hfirst, hsecond]
    exact halike
  · rw [hfirst, hsecond]
    refine halike.setShard name payload.shardId ?_
    rw [ShardInfo.stamped_reportLeader, ShardInfo.stamped_reportLeader, hstamped]

theorem applyUpdateShardMetrics_alike (cfg : Config) {env env' : Env}
    {payload : ShardMetricsPayload} (hone : OneShard first payload.shardId)
    (hstamps : (findShard env first payload.shardId).isSome = true →
      stamp (some (env.clock .updateShardMetrics)) =
        stamp (some (env'.clock .updateShardMetrics))) :
    Alike stamp (exec (applyUpdateShardMetrics cfg env payload) first).2
      (exec (applyUpdateShardMetrics cfg env' payload) second).2 := by
  simp only [applyUpdateShardMetrics, exec_get_bind]
  rcases findShard_alike halike env env' hone with
    ⟨hfirst, hsecond⟩ | ⟨name, shard, shard', hfirst, hsecond, hstamped⟩
  · rw [hfirst, hsecond]
    exact halike
  · rw [hfirst, hsecond]
    refine halike.setShard name payload.shardId ?_
    rw [ShardInfo.stamped_reportMetrics, ShardInfo.stamped_reportMetrics, hstamped,
      hstamps (Option.isSome_of_eq_some hfirst)]
    rfl

theorem applyAddShardReplica_alike {env env' : Env} {payload : AddShardReplicaPayload}
    (hone : OneShard first payload.shardId)
    (hfresh : FreshAlike first second env env' payload) :
    Alike stamp (exec (applyAddShardReplica env payload) first).2
      (exec (applyAddShardReplica env' payload) second).2 := by
  rcases findShard_alike halike env env' hone with
    ⟨hfirst, hsecond⟩ | ⟨name, shard, shard', hfirst, hsecond, hstamped⟩
  · simp only [applyAddShardReplica, exec_get_bind, hfirst, hsecond]
    exact halike
  · have hreplicas := ShardInfo.replicas_eq_of_stamped hstamped
    by_cases hchanges : payload.replicaId ∉ shard.replicas ∧
        shard.replicas.length < maxReplicationFactor
    · simp only [applyAddShardReplica, exec_get_bind, hfirst, hsecond]
      rcases halike.workers.lookup payload.replicaId with
        ⟨hworker, hworker'⟩ | ⟨worker, worker', hworker, hworker', huntimed⟩
      · rw [hworker, hworker']
        exact halike
      · have hstate : worker.state = worker'.state := (congrArg WorkerInfo.state huntimed :)
        simp only [hworker, hworker', exec_ite, exec_throw_bind]
        by_cases hready : worker.state = .ready
        · have hage := hfresh _ hfirst hchanges.1 hchanges.2 worker hworker worker' hworker' hready
          rw [if_neg (not_not.mpr hready), if_neg (not_not.mpr (hstate ▸ hready)), ← hreplicas]
          simp only [hage, hchanges.1, not_le.mpr hchanges.2, ge_iff_le, ↓reduceIte,
            exec_modify_bind, exec_bumpAssignmentsEpochLocked]
          split
          · exact halike
          · exact halike.setReplicas name payload.shardId hstamped _
        · rw [if_pos hready, if_pos (hstate ▸ hready)]
          exact halike
    · rw [applyAddShardReplica_unchanged hfirst hchanges,
        applyAddShardReplica_unchanged hsecond (hreplicas ▸ hchanges)]
      exact halike

theorem applyRemoveShardReplica_alike (cfg : Config) (env env' : Env)
    {payload : RemoveShardReplicaPayload} (hone : OneShard first payload.shardId) :
    Alike stamp (exec (applyRemoveShardReplica cfg env payload) first).2
      (exec (applyRemoveShardReplica cfg env' payload) second).2 := by
  simp only [applyRemoveShardReplica, exec_get_bind]
  rcases findShard_alike halike env env' hone with
    ⟨hfirst, hsecond⟩ | ⟨name, shard, shard', hfirst, hsecond, hstamped⟩
  · rw [hfirst, hsecond]
    exact halike
  · have hreplicas := ShardInfo.replicas_eq_of_stamped hstamped
    have hmin : minAllowed cfg shard = minAllowed cfg shard' := by
      rw [minAllowed, minAllowed, hreplicas]
    simp only [hfirst, hsecond, hreplicas, hmin, exec_ite, exec_throw_bind, exec_modify_bind,
      exec_bumpAssignmentsEpochLocked]
    split
    · exact halike
    · split
      · exact halike
      · exact halike.setReplicas name payload.shardId hstamped _

theorem applyMoveShard_alike (env env' : Env) {payload : MoveShardPayload}
    (hone : OneShard first payload.shardId) :
    Alike stamp (exec (applyMoveShard env payload) first).2
      (exec (applyMoveShard env' payload) second).2 := by
  simp only [applyMoveShard, exec_get_bind]
  rcases findShard_alike halike env env' hone with
    ⟨hfirst, hsecond⟩ | ⟨name, shard, shard', hfirst, hsecond, hstamped⟩
  · rw [hfirst, hsecond]
    exact halike
  · have hreplicas := ShardInfo.replicas_eq_of_stamped hstamped
    have htarget : (first.workers.lookup payload.targetWorkerId).isNone =
        (second.workers.lookup payload.targetWorkerId).isNone := by
      rcases halike.workers.lookup payload.targetWorkerId with
        ⟨htarget, htarget'⟩ | ⟨_, _, htarget, htarget', _⟩
      · rw [htarget, htarget']
      · rw [htarget, htarget', Option.isNone_some, Option.isNone_some]
    simp only [hfirst, hsecond, hreplicas, htarget, exec_ite, exec_throw_bind, exec_modify_bind,
      exec_bumpAssignmentsEpochLocked]
    split
    · exact halike
    · split
      · exact halike
      · exact halike.setReplicas name payload.shardId hstamped _

end Commands

theorem bothStep_alike {stamp : Stamp} (nodes : Fsm × Fsm) (entry : Replicated)
    (hreads : DecidesAlike nodes entry ∧ StampsAlike stamp nodes entry)
    (halike : Alike stamp nodes.1 nodes.2) :
    Alike stamp (bothStep nodes entry).1 (bothStep nodes entry).2 := by
  rcases entry with ⟨cfg, cmd, env, env'⟩
  obtain ⟨hdecides, hstamps⟩ := hreads
  cases cmd with
  | registerPeer payload =>
      refine dispatch_alike halike _ payload _ ?_
      rintro payload rfl
      exact applyRegisterPeer_alike halike payload
  | registerWorker payload =>
      refine dispatch_alike halike _ payload _ ?_
      rintro payload rfl
      exact applyRegisterWorker_alike halike cfg env env' hdecides
  | registerReranker payload =>
      refine dispatch_alike halike _ payload _ ?_
      rintro payload rfl
      exact applyRegisterReranker_alike halike cfg env env' hdecides
  | createCollection payload =>
      refine dispatch_alike halike _ payload _ ?_
      rintro payload rfl
      exact applyCreateCollection_alike halike cfg hdecides
  | deleteCollection payload =>
      refine dispatch_alike halike _ payload _ ?_
      rintro payload rfl
      exact applyDeleteCollection_alike halike payload
  | updateWorkerHeartbeat payload =>
      refine dispatch_alike halike _ payload _ ?_
      rintro payload rfl
      exact applyUpdateWorkerHeartbeat_alike halike env env' payload
  | updateRerankerHeartbeat payload =>
      refine dispatch_alike halike _ payload _ ?_
      rintro payload rfl
      exact applyUpdateRerankerHeartbeat_alike halike env env' payload
  | updateWorkerState payload =>
      refine dispatch_alike halike _ payload _ ?_
      rintro payload rfl
      exact applyUpdateWorkerState_alike halike payload
  | removeWorker payload =>
      refine dispatch_alike halike _ payload _ ?_
      rintro payload rfl
      exact applyRemoveWorker_alike halike env env' payload
  | updateShardLeader payload =>
      refine dispatch_alike halike _ payload _ ?_
      rintro payload rfl
      exact applyUpdateShardLeader_alike halike env env' hdecides
  | moveShard payload =>
      refine dispatch_alike halike _ payload _ ?_
      rintro payload rfl
      exact applyMoveShard_alike halike env env' hdecides
  | updateShardMetrics payload =>
      refine dispatch_alike halike _ payload _ ?_
      rintro payload rfl
      exact applyUpdateShardMetrics_alike halike cfg hdecides hstamps
  | addShardReplica payload =>
      refine dispatch_alike halike _ payload _ ?_
      rintro payload rfl
      exact applyAddShardReplica_alike halike hdecides.1 hdecides.2
  | removeShardReplica payload =>
      refine dispatch_alike halike _ payload _ ?_
      rintro payload rfl
      exact applyRemoveShardReplica_alike halike cfg env env' hdecides
  | unknown type => exact halike

/-! ## Runs -/

/-- The command as the first node applies it. -/
def Replicated.onFirst (entry : Replicated) : Applied :=
  ⟨entry.cfg, entry.env, entry.cmd⟩

/-- The command as the second node applies it. -/
def Replicated.onSecond (entry : Replicated) : Applied :=
  ⟨entry.cfg, entry.env', entry.cmd⟩

/-- A run of both nodes is a run of each. -/
theorem run_bothStep (nodes : Fsm × Fsm) (log : List Replicated) :
    Run.run bothStep nodes log =
      (Run.run step nodes.1 (log.map Replicated.onFirst),
        Run.run step nodes.2 (log.map Replicated.onSecond)) := by
  induction log generalizing nodes with
  | nil => rfl
  | cons entry rest ih =>
      rw [Run.run_cons, ih]
      rfl

/-- Two nodes that apply one log from the same state, with reads that decide alike,
reach states that differ at most in the times they stored. Their collections are the
same if every metrics report was also applied at the same time. -/
theorem nodes_agree (fsm : Fsm) (log : List Replicated)
    (hdecides : Run.Meets bothStep DecidesAlike (fsm, fsm) log) :
    Alike (fun _ => none) (Run.run step fsm (log.map Replicated.onFirst))
        (Run.run step fsm (log.map Replicated.onSecond)) ∧
      (Run.Meets bothStep (StampsAlike id) (fsm, fsm) log →
        (Run.run step fsm (log.map Replicated.onFirst)).collections =
          (Run.run step fsm (log.map Replicated.onSecond)).collections) := by
  -- one invariant for both parts: with the time of the last report dropped, and kept
  have hrun : ∀ stamp, Run.Meets bothStep (StampsAlike stamp) (fsm, fsm) log →
      Alike stamp (Run.run bothStep (fsm, fsm) log).1 (Run.run bothStep (fsm, fsm) log).2 := by
    intro stamp hstamps
    exact Run.run_invariant bothStep_alike (hdecides.and hstamps) (Alike.refl stamp fsm)
  rw [run_bothStep] at hrun
  refine ⟨hrun _ (Run.Meets.of_forall ?_ _ _), fun hstamps => (hrun id hstamps).collections_eq⟩
  intro nodes entry
  unfold StampsAlike
  split
  · exact fun _ => rfl
  · trivial

/-- A command that the second node applies with its clock ahead and its maps visited
in the reverse order. -/
def appliedLater (delay : Time) (cmd : Command) : Replicated where
  cfg := modelConfig
  cmd := cmd
  env := envAt 0
  env' := { clock := fun _ => delay, order := fun _ => .reversed }

/-- Two workers with different loads, and a collection on them. -/
def loadedWorkers : List Command :=
  [ .registerWorker (.ok { grpcAddress := "grpc-1", raftAddress := "raft-1" }),
    .registerWorker (.ok { grpcAddress := "grpc-2", raftAddress := "raft-2" }),
    .updateWorkerHeartbeat (.ok { workerId := 1, cpuUsagePercent := 50 }),
    .updateWorkerHeartbeat (.ok { workerId := 2, cpuUsagePercent := 10 }),
    .createCollection (.ok { name := "docs" }) ]

/-- The second node is a second ahead. -/
theorem nodes_agree_loadedWorkers :
    let log := loadedWorkers.map (appliedLater 1000000000)
    Run.Meets bothStep DecidesAlike (newFsm, newFsm) log ∧
      Alike (fun _ => none) (Run.run step newFsm (log.map Replicated.onFirst))
        (Run.run step newFsm (log.map Replicated.onSecond)) := by
  intro log
  have hdecides : Run.Meets bothStep DecidesAlike (newFsm, newFsm) log := by
    decide +kernel
  exact ⟨hdecides, (nodes_agree newFsm log hdecides).1⟩

/-- One node creates the collection while the worker is alive, the other one applies the
command 30 seconds later and refuses it. And two workers without load are placed in the
order of the map iteration. -/
theorem nodes_disagree :
    let start : List Replicated := (startWorkers 2).map fun input =>
      appliedLater 0 input.cmd
    let create := Command.createCollection (.ok { name := "docs" })
    let late := start ++ [appliedLater 30000000000 create]
    let tied := start ++ [appliedLater 0 create]
    ((Run.run step newFsm (late.map Replicated.onFirst)).collections.lookup "docs").isSome = true ∧
      (Run.run step newFsm (late.map Replicated.onSecond)).collections.lookup "docs" = none ∧
      ((Run.run step newFsm (tied.map Replicated.onFirst)).shard? "docs" 1).map
        ShardInfo.replicas = some [2, 1] ∧
      ((Run.run step newFsm (tied.map Replicated.onSecond)).shard? "docs" 1).map
        ShardInfo.replicas = some [1, 2] := by
  decide +kernel

end Vectron.Placement
