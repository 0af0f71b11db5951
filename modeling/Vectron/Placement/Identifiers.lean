import Vectron.Foundation.Ledger
import Vectron.Placement.ShardStep

/-! # Identifiers

Shards, workers and rerankers get their ids from three 64-bit counters of the
state. Along a run of commands and snapshots, ledgers collect every id that was
ever given out. The counters are incremented without a check, so the ids stay
unique as long as none of the counters wraps around.
-/

namespace Vectron.Placement

open Foundation

/-! ## Keys of the state -/

/-- The shards of a state by their two keys. -/
def shardKeys (fsm : Fsm) : List (String × UInt64) :=
  fsm.collections.entries.flatMap fun entry => entry.2.shards.keys.map fun id => (entry.1, id)

theorem mem_shardKeys {fsm : Fsm} {name : String} {id : UInt64} :
    (name, id) ∈ shardKeys fsm ↔ (fsm.shard? name id).isSome = true := by
  simp only [shardKeys, List.mem_flatMap, List.mem_map, Prod.mk.injEq]
  constructor
  · rintro ⟨⟨key, coll⟩, hentry, found, hfound, rfl, rfl⟩
    have hcoll : fsm.collections.lookup key = some coll := AList.mem_lookup_iff.mpr hentry
    rw [Fsm.shard?, hcoll, Option.bind_some]
    exact AList.lookup_isSome.mpr hfound
  · intro hsome
    obtain ⟨shard, hshard⟩ := Option.isSome_iff_exists.mp hsome
    obtain ⟨coll, hcoll, hlookup⟩ := Fsm.shard?_eq_some.mp hshard
    exact ⟨⟨name, coll⟩, AList.mem_lookup_iff.mp hcoll, id, GoMap.mem_of_lookup_eq_some hlookup,
      rfl, rfl⟩

theorem shardKeys_nodup (fsm : Fsm) : (shardKeys fsm).Nodup := by
  rw [shardKeys, List.nodup_flatMap]
  refine ⟨?_, ?_⟩
  · rintro ⟨name, coll⟩ _
    exact coll.shards.keys_nodup.map fun _ _ heq => (Prod.mk.inj heq).2
  · have hnames : fsm.collections.entries.Pairwise fun left right => left.1 ≠ right.1 :=
      List.pairwise_map.mp fsm.collections.nodupKeys
    refine hnames.imp ?_
    intro left right hne key hleft hright
    obtain ⟨_, _, rfl⟩ := List.mem_map.mp hleft
    obtain ⟨_, _, heq⟩ := List.mem_map.mp hright
    exact hne (Prod.mk.inj heq).1.symm

/-! ## Ledgers -/

/-- The shard ids a step gives out, with the collection each goes to. -/
def issuedShards (fsm : Fsm) (event : Event) : List (String × UInt64) :=
  newKeys (shardKeys fsm) (shardKeys (eventStep fsm event))

def issuedWorkers (fsm : Fsm) (event : Event) : List UInt64 :=
  newKeys fsm.workers.keys (eventStep fsm event).workers.keys

def issuedRerankers (fsm : Fsm) (event : Event) : List UInt64 :=
  newKeys fsm.rerankers.keys (eventStep fsm event).rerankers.keys

/-- A step in which no id counter wraps around. -/
def CountersAdvance (fsm : Fsm) (event : Event) : Prop :=
  fsm.nextShardId ≤ (eventStep fsm event).nextShardId ∧
    fsm.nextWorkerId ≤ (eventStep fsm event).nextWorkerId ∧
    fsm.nextRerankerId ≤ (eventStep fsm event).nextRerankerId

instance (fsm : Fsm) (event : Event) : Decidable (CountersAdvance fsm event) :=
  inferInstanceAs (Decidable (_ ∧ _ ∧ _))

/-- The ledger of the shard ids. -/
abbrev ShardLedger (fsm : Fsm) (issued : List (String × UInt64)) : Prop :=
  Ledger (fun key => key.2.toNat) fsm.nextShardId.toNat (shardKeys fsm) issued

/-- The ledger of the worker ids. -/
abbrev WorkerLedger (fsm : Fsm) (issued : List UInt64) : Prop :=
  Ledger UInt64.toNat fsm.nextWorkerId.toNat fsm.workers.keys issued

/-- The ledger of the reranker ids. -/
abbrev RerankerLedger (fsm : Fsm) (issued : List UInt64) : Prop :=
  Ledger UInt64.toNat fsm.nextRerankerId.toNat fsm.rerankers.keys issued

/-- A snapshot keeps the maps and the shard counter. -/
theorem eventStep_snapshot_maps (fsm : Fsm) :
    (eventStep fsm .snapshot).collections = fsm.collections ∧
      (eventStep fsm .snapshot).workers = fsm.workers ∧
      (eventStep fsm .snapshot).rerankers = fsm.rerankers ∧
      (eventStep fsm .snapshot).nextShardId = fsm.nextShardId := by
  simp only [eventStep, saveSnapshot]
  split
  next => exact ⟨rfl, rfl, rfl, rfl⟩
  next data hsave =>
    split at hsave
    · obtain rfl := Option.some.inj hsave
      exact ⟨rfl, rfl, rfl, rfl⟩
    · contradiction

/-- The ids of `count` consecutive draws from a counter that does not wrap. -/
theorem toNat_add_ofNat_of_le {next : UInt64} {count i : Nat} (hcount : count < 2 ^ 63)
    (hle : next ≤ next + UInt64.ofNat count) (hi : i < count) :
    (next + UInt64.ofNat i).toNat = next.toNat + i ∧
      (next + UInt64.ofNat count).toNat = next.toNat + count := by
  have hsize := next.toNat_lt
  rw [UInt64.le_iff_toNat_le, UInt64.toNat_add, UInt64.toNat_ofNat_of_lt' (by
    simp only [UInt64.size]
    omega)] at hle
  rw [UInt64.toNat_add, UInt64.toNat_add, UInt64.toNat_ofNat_of_lt' (by
    simp only [UInt64.size]
    omega), UInt64.toNat_ofNat_of_lt' (by
    simp only [UInt64.size]
    omega)]
  omega

/-! ## The ledger of the shards -/

/-- Only a creation gives out shard ids: consecutive ones, to its own collection. -/
theorem issuedShards_created {fsm : Fsm} {input : Applied} {key : String × UInt64}
    (hkey : key ∈ issuedShards fsm (.apply input)) :
    ∃ payload : CreateCollectionPayload, ∃ count i, input.cmd = .createCollection (.ok payload) ∧
      count < 2 ^ 63 ∧ i < count ∧
      (step fsm input).nextShardId = fsm.nextShardId + UInt64.ofNat count ∧
      key = (payload.name, fsm.nextShardId + UInt64.ofNat i) := by
  rcases input with ⟨cfg, env, cmd⟩
  rcases key with ⟨name, id⟩
  obtain ⟨hafter, hbefore⟩ := mem_newKeys.mp hkey
  rw [mem_shardKeys] at hafter hbefore
  obtain ⟨shard, hshard⟩ := Option.isSome_iff_exists.mp hafter
  have hstep := step_shardStep fsm ⟨cfg, env, cmd⟩ name id
  rw [Option.not_isSome_iff_eq_none.mp hbefore] at hstep
  change (step fsm ⟨cfg, env, cmd⟩).shard? name id = some shard at hshard
  rw [hshard] at hstep
  cases hstep with
  | @created payload i hnew heligible hi =>
      refine ⟨payload, _, i, rfl, (createSpec_numShards cfg env fsm payload).2, hi, ?_, rfl⟩
      change (Outcome.ofExec _ _).fsm.nextShardId = _
      rw [applyCreateCollection_outcome cfg env fsm payload hnew heligible]
      rfl

theorem issuedShards_snapshot (fsm : Fsm) : issuedShards fsm .snapshot = [] := by
  rw [issuedShards, shardKeys, shardKeys, (eventStep_snapshot_maps fsm).1, newKeys_self]

theorem step_shardLedger (fsm : Fsm) (event : Event) (issued : List (String × UInt64))
    (hadvance : CountersAdvance fsm event) (hledger : ShardLedger fsm issued) :
    ShardLedger (eventStep fsm event) (issued ++ issuedShards fsm event) := by
  refine hledger.extend (UInt64.le_iff_toNat_le.mp hadvance.1) ?_ ?_
  · refine List.Nodup.map_on ?_ ((shardKeys_nodup _).filter _)
    intro first hfirst second hsecond hid
    cases event with
    | snapshot =>
        rw [← issuedShards, issuedShards_snapshot] at hfirst
        exact absurd hfirst List.not_mem_nil
    | apply input =>
        obtain ⟨payload, _, _, hcmd, _, _, _, hfirst⟩ := issuedShards_created hfirst
        obtain ⟨payload', _, _, hcmd', _, _, _, hsecond⟩ := issuedShards_created hsecond
        -- one command creates one collection, so keys with one id are the same key
        rw [hcmd] at hcmd'
        simp only [Command.createCollection.injEq, Except.ok.injEq] at hcmd'
        refine Prod.ext ?_ (UInt64.toNat_inj.mp hid)
        rw [hfirst, hsecond, hcmd']
  · intro key hkey
    cases event with
    | snapshot =>
        rw [← issuedShards, issuedShards_snapshot] at hkey
        exact absurd hkey List.not_mem_nil
    | apply input =>
        obtain ⟨payload, count, i, _, hcount, hi, hnext, rfl⟩ := issuedShards_created hkey
        have hle := hadvance.1
        simp only [eventStep] at hle ⊢
        rw [hnext] at hle ⊢
        obtain ⟨hid, hlast⟩ := toNat_add_ofNat_of_le hcount hle hi
        rw [hid, hlast]
        omega

/-! ## The ledgers of the workers and the rerankers -/

/-- A map whose keys come from a counter: what one command may do to it. -/
inductive Registry {Info : Type} (idOf : Info → UInt64) (before after : GoMap UInt64 Info)
    (next next' : UInt64) : Prop where
  | same (hafter : after = before) (hnext : next' = next)
  | updated {id : UInt64} {old new : Info} (hold : before.lookup id = some old)
      (hafter : after = before.insert id new) (hid : idOf new = idOf old) (hnext : next' = next)
  | removed {id : UInt64} (hafter : after = before.erase id) (hnext : next' = next)
  | registered {new : Info} (hafter : after = before.insert next new) (hid : idOf new = next)
      (hnext : next' = next + 1)

section

variable {cfg : Config} {env : Env} {fsm : Fsm} {cmd : Command} {outcome : Outcome}
  (heffect : Effect cfg env fsm cmd outcome)

include heffect

theorem Effect.workers_registry :
    Registry WorkerInfo.id fsm.workers outcome.fsm.workers fsm.nextWorkerId
      outcome.fsm.nextWorkerId := by
  cases heffect with
  | reregisterWorker hworker hmatches
  | workerHeartbeat hworker
  | workerState hworker => exact .updated hworker rfl rfl rfl
  | registerWorker hnew => exact .registered rfl rfl rfl
  | removeWorker hworker hunused => exact .removed rfl rfl
  | _ => exact .same (by simp) (by simp)

theorem Effect.rerankers_registry :
    Registry RerankerInfo.id fsm.rerankers outcome.fsm.rerankers fsm.nextRerankerId
      outcome.fsm.nextRerankerId := by
  cases heffect with
  | reregisterReranker hreranker hmatches
  | rerankerHeartbeat hreranker => exact .updated hreranker rfl rfl rfl
  | registerReranker hnew => exact .registered rfl rfl rfl
  | _ => exact .same (by simp) (by simp)

end

section Registry

variable {Info : Type} {idOf : Info → UInt64} {before after : GoMap UInt64 Info}
  {next next' : UInt64}

/-- Only a registration makes a key live, and its key is the counter. -/
theorem Registry.new_key (hregistry : Registry idOf before after next next') {key : UInt64}
    (hkey : key ∈ newKeys before.keys after.keys) : key = next ∧ next' = next + 1 := by
  obtain ⟨hafter, hbefore⟩ := mem_newKeys.mp hkey
  cases hregistry with
  | same heq hnext =>
      rw [heq] at hafter
      exact absurd hafter hbefore
  | updated hold heq hid hnext =>
      rw [heq, ← AList.mem_keys, AList.mem_insert] at hafter
      rcases hafter with rfl | hafter
      · exact absurd (GoMap.mem_of_lookup_eq_some hold) hbefore
      · exact absurd hafter hbefore
  | removed heq hnext =>
      rw [heq, ← AList.mem_keys, AList.mem_erase] at hafter
      exact absurd hafter.2 hbefore
  | registered heq hid hnext =>
      rw [heq, ← AList.mem_keys, AList.mem_insert] at hafter
      rcases hafter with rfl | hafter
      · exact ⟨rfl, hnext⟩
      · exact absurd hafter hbefore

theorem Registry.ledger (hregistry : Registry idOf before after next next')
    (hadvance : next ≤ next') {issued : List UInt64}
    (hledger : Ledger UInt64.toNat next.toNat before.keys issued) :
    Ledger UInt64.toNat next'.toNat after.keys (issued ++ newKeys before.keys after.keys) := by
  refine hledger.extend (UInt64.le_iff_toNat_le.mp hadvance) ?_ ?_
  · refine List.Nodup.map_on ?_ (after.keys_nodup.filter _)
    intro first hfirst second hsecond _
    rw [(hregistry.new_key hfirst).1, (hregistry.new_key hsecond).1]
  · intro key hkey
    obtain ⟨rfl, hnext⟩ := hregistry.new_key hkey
    rw [hnext, UInt64.le_iff_toNat_le, UInt64.toNat_add] at hadvance
    rw [hnext, UInt64.toNat_add]
    have hone : (1 : UInt64).toNat = 1 := rfl
    have hsize := key.toNat_lt
    omega

end Registry

section

variable (fsm : Fsm) (event : Event) (issued : List UInt64) (hadvance : CountersAdvance fsm event)

include hadvance

theorem step_workerLedger (hledger : WorkerLedger fsm issued) :
    WorkerLedger (eventStep fsm event) (issued ++ issuedWorkers fsm event) := by
  cases event with
  | snapshot =>
      refine hledger.extend (UInt64.le_iff_toNat_le.mp hadvance.2.1) ?_ ?_ <;>
        rw [(eventStep_snapshot_maps fsm).2.1, newKeys_self]
      · exact List.nodup_nil
      · exact fun key hkey => absurd hkey List.not_mem_nil
  | apply input =>
      exact (applyCommand_effect input.cfg input.env fsm input.cmd).workers_registry.ledger
        hadvance.2.1 hledger

theorem step_rerankerLedger (hledger : RerankerLedger fsm issued) :
    RerankerLedger (eventStep fsm event) (issued ++ issuedRerankers fsm event) := by
  cases event with
  | snapshot =>
      refine hledger.extend (UInt64.le_iff_toNat_le.mp hadvance.2.2) ?_ ?_ <;>
        rw [(eventStep_snapshot_maps fsm).2.2.1, newKeys_self]
      · exact List.nodup_nil
      · exact fun key hkey => absurd hkey List.not_mem_nil
  | apply input =>
      exact (applyCommand_effect input.cfg input.env fsm input.cmd).rerankers_registry.ledger
        hadvance.2.2 hledger

end

/-! ## Keys, ids and addresses -/

/-- Every record carries the key it is stored under as its id. -/
structure KeysMatch (fsm : Fsm) : Prop where
  shard : ∀ name id shard, fsm.shard? name id = some shard → shard.shardId = id
  worker : ∀ id worker, fsm.workers.lookup id = some worker → worker.id = id
  reranker : ∀ id reranker, fsm.rerankers.lookup id = some reranker → reranker.id = id

theorem Registry.ids_match {Info : Type} {idOf : Info → UInt64}
    {before after : GoMap UInt64 Info} {next next' : UInt64}
    (hregistry : Registry idOf before after next next')
    (hbefore : ∀ id info, before.lookup id = some info → idOf info = id) :
    ∀ id info, after.lookup id = some info → idOf info = id := by
  intro id info hlookup
  cases hregistry with
  | same heq hnext =>
      rw [heq] at hlookup
      exact hbefore id info hlookup
  | updated hold heq hid hnext =>
      rw [heq, GoMap.lookup_insert_if] at hlookup
      split at hlookup
      next hkey =>
        obtain rfl := Option.some.inj hlookup
        rw [hid, hbefore _ _ hold, hkey]
      next => exact hbefore id info hlookup
  | removed heq hnext =>
      rw [heq, GoMap.lookup_erase_if] at hlookup
      split at hlookup
      next => contradiction
      next => exact hbefore id info hlookup
  | registered heq hid hnext =>
      rw [heq, GoMap.lookup_insert_if] at hlookup
      split at hlookup
      next hkey =>
        obtain rfl := Option.some.inj hlookup
        rw [hid, hkey]
      next => exact hbefore id info hlookup

@[simp] theorem ShardInfo.reportLeader_shardId (shard : ShardInfo) (leaderId : UInt64) :
    (shard.reportLeader leaderId).shardId = shard.shardId := by
  unfold reportLeader
  split <;> rfl

theorem ShardStep.shardId {cfg : Config} {env : Env} {fsm : Fsm} {cmd : Command} {name : String}
    {id : UInt64} {before : Option ShardInfo} {after : ShardInfo}
    (hstep : ShardStep cfg env fsm cmd name id before (some after))
    (hbefore : ∀ shard, before = some shard → shard.shardId = id) : after.shardId = id := by
  cases hstep with
  | same => exact hbefore after rfl
  | created hnew heligible hi => rfl
  | leader hfind =>
      rw [ShardInfo.reportLeader_shardId]
      exact hbefore _ rfl
  | @metrics _ _ shard hfind
  | @added _ _ shard _ hfind hworker hready hfresh habsent hroom
  | @removed _ _ shard hfind hreplica hspare
  | @moved _ _ shard _ hfind hsource htarget => exact hbefore shard rfl

theorem step_keysMatch (fsm : Fsm) (input : Applied) (hmatch : KeysMatch fsm) :
    KeysMatch (step fsm input) := by
  have heffect := applyCommand_effect input.cfg input.env fsm input.cmd
  refine ⟨?_, heffect.workers_registry.ids_match hmatch.worker,
    heffect.rerankers_registry.ids_match hmatch.reranker⟩
  intro name id shard hshard
  have hstep := step_shardStep fsm input name id
  rw [hshard] at hstep
  exact hstep.shardId fun old hold => hmatch.shard name id old hold

/-- No two registered workers have the same pair of addresses. -/
def AddressesUnique (fsm : Fsm) : Prop :=
  ∀ first second left right, fsm.workers.lookup first = some left →
    fsm.workers.lookup second = some right → left.grpcAddress = right.grpcAddress →
    left.raftAddress = right.raftAddress → first = second

/-- A worker keeps its addresses. A new one has addresses that no worker has. -/
theorem WorkerStep.addresses {cfg : Config} {env : Env} {fsm : Fsm} {cmd : Command} {id : UInt64}
    {before : Option WorkerInfo} {after : WorkerInfo}
    (hstep : WorkerStep cfg env fsm cmd id before (some after)) :
    (∃ old, before = some old ∧ old.grpcAddress = after.grpcAddress ∧
        old.raftAddress = after.raftAddress) ∨
      (id = fsm.nextWorkerId ∧ ∀ other worker, fsm.workers.lookup other = some worker →
        ¬(worker.grpcAddress = after.grpcAddress ∧ worker.raftAddress = after.raftAddress)) := by
  cases hstep with
  | same => exact Or.inl ⟨after, rfl, rfl, rfl⟩
  | reregistered id hmatches => exact Or.inl ⟨_, rfl, rfl, rfl⟩
  | registered worker hnew =>
      refine Or.inr ⟨rfl, ?_⟩
      rintro other worker hworker ⟨hgrpc, hraft⟩
      have hnot := hnew other worker hworker
      simp only [RegisterWorkerPayload.matches, hgrpc, hraft, RegisterWorkerPayload.worker,
        beq_self_eq_true, Bool.and_self, Bool.true_eq_false] at hnot
  | heartbeat payload worker
  | state payload worker => exact Or.inl ⟨worker, rfl, rfl, rfl⟩

theorem step_addressesUnique (fsm : Fsm) (input : Applied) (hunique : AddressesUnique fsm) :
    AddressesUnique (step fsm input) := by
  intro first second left right hleft hright hgrpc hraft
  have hfirst := step_workerStep fsm input first
  have hsecond := step_workerStep fsm input second
  rw [hleft] at hfirst
  rw [hright] at hsecond
  rcases hfirst.addresses with ⟨old, hold, hog, hor⟩ | ⟨hfirst, hnew⟩
  · rcases hsecond.addresses with ⟨old', hold', hog', hor'⟩ | ⟨_, hnew'⟩
    · apply hunique first second old old' hold hold'
      · rw [hog, hog', hgrpc]
      · rw [hor, hor', hraft]
    · exact absurd ⟨hog.trans hgrpc, hor.trans hraft⟩ (hnew' first old hold)
  · rcases hsecond.addresses with ⟨old', hold', hog', hor'⟩ | ⟨hsecond, _⟩
    · exact absurd ⟨hog'.trans hgrpc.symm, hor'.trans hraft.symm⟩ (hnew second old' hold')
    · rw [hfirst, hsecond]

/-! ## Runs -/

theorem eventStep_keysMatch (fsm : Fsm) (event : Event) (hmatch : KeysMatch fsm) :
    KeysMatch (eventStep fsm event) := by
  cases event with
  | apply input => exact step_keysMatch fsm input hmatch
  | snapshot =>
      obtain ⟨hcollections, hworkers, hrerankers, _⟩ := eventStep_snapshot_maps fsm
      refine ⟨?_, ?_, ?_⟩
      · intro name id shard hshard
        rw [Fsm.shard?, hcollections] at hshard
        exact hmatch.shard name id shard hshard
      · rw [hworkers]
        exact hmatch.worker
      · rw [hrerankers]
        exact hmatch.reranker

theorem eventStep_addressesUnique (fsm : Fsm) (event : Event) (hunique : AddressesUnique fsm) :
    AddressesUnique (eventStep fsm event) := by
  cases event with
  | apply input => exact step_addressesUnique fsm input hunique
  | snapshot =>
      unfold AddressesUnique
      rw [(eventStep_snapshot_maps fsm).2.1]
      exact hunique

theorem keysMatch_newFsm : KeysMatch newFsm := by
  refine ⟨?_, ?_, ?_⟩
  · intro name id shard hshard
    contradiction
  · intro id worker hworker
    contradiction
  · intro id reranker hreranker
    contradiction

theorem keysMatch_run (inputs : List Applied) : KeysMatch (Run.run step newFsm inputs) :=
  Run.run_preserves KeysMatch step_keysMatch inputs keysMatch_newFsm

/-- A command in which no id counter wraps around. -/
abbrev IdsAdvance (fsm : Fsm) (input : Applied) : Prop :=
  CountersAdvance fsm (.apply input)

/-- The ledgers of a run of commands. -/
theorem run_ledgers {inputs : List Applied} (hids : Run.Meets step IdsAdvance newFsm inputs) :
    (∃ issued, ShardLedger (Run.run step newFsm inputs) issued) ∧
      ∃ issued, WorkerLedger (Run.run step newFsm inputs) issued := by
  have hshards : ShardLedger (Run.run step newFsm inputs)
      (Run.collect step (fun fsm input => issuedShards fsm (.apply input)) newFsm inputs) :=
    Run.collect_invariant (fun fsm input issued => step_shardLedger fsm (.apply input) issued)
      hids (Ledger.empty _)
  have hworkers : WorkerLedger (Run.run step newFsm inputs)
      (Run.collect step (fun fsm input => issuedWorkers fsm (.apply input)) newFsm inputs) :=
    Run.collect_invariant (fun fsm input issued => step_workerLedger fsm (.apply input) issued)
      hids (Ledger.empty _)
  exact ⟨⟨_, hshards⟩, ⟨_, hworkers⟩⟩

/-- The ids of a run whose id counters do not wrap around: every id of a shard, a
worker or a reranker that was ever given out differs from all others of its kind and
is below the counter, whether or not its owner still exists; every existing owner has
one of these ids; and no two registered workers share their addresses. -/
theorem identifiers_unique (events : List Event)
    (hadvance : Run.Meets eventStep CountersAdvance newFsm events) :
    ShardLedger (Run.run eventStep newFsm events)
        (Run.collect eventStep issuedShards newFsm events) ∧
      WorkerLedger (Run.run eventStep newFsm events)
        (Run.collect eventStep issuedWorkers newFsm events) ∧
      RerankerLedger (Run.run eventStep newFsm events)
        (Run.collect eventStep issuedRerankers newFsm events) ∧
      KeysMatch (Run.run eventStep newFsm events) ∧
      AddressesUnique (Run.run eventStep newFsm events) := by
  refine ⟨?_, ?_, ?_, ?_, ?_⟩
  · exact Run.collect_invariant step_shardLedger hadvance (Ledger.empty _)
  · exact Run.collect_invariant step_workerLedger hadvance (Ledger.empty _)
  · exact Run.collect_invariant step_rerankerLedger hadvance (Ledger.empty _)
  · exact Run.run_preserves KeysMatch eventStep_keysMatch events keysMatch_newFsm
  · refine Run.run_preserves AddressesUnique eventStep_addressesUnique events ?_
    intro first second left right hleft
    contradiction

/-- A collection is created, deleted and created again, with a snapshot after each. -/
theorem identifiers_unique_recreated :
    let create := Event.apply (appliedAt 0 (.createCollection (.ok
      { name := "docs", initialShards := 2 })))
    let delete := Event.apply (appliedAt 0 (.deleteCollection (.ok { name := "docs" })))
    let events := (startWorkers 2).map Event.apply ++
      [create, .snapshot, delete, .snapshot, create, .snapshot]
    Run.collect eventStep issuedShards newFsm events =
        [("docs", 2), ("docs", 1), ("docs", 4), ("docs", 3)] ∧
      ShardLedger (Run.run eventStep newFsm events)
        (Run.collect eventStep issuedShards newFsm events) := by
  intro create delete events
  refine ⟨by decide +kernel, ?_⟩
  exact (identifiers_unique events (by decide +kernel)).1

/-! ## The wrap-around -/

/-- The creation of a collection with a given number of shards. -/
def createEvent (name : String) (initialShards : Int64) : Event :=
  .apply (appliedAt 0 (.createCollection (.ok { name := name, initialShards := initialShards })))

/-- What such a creation leaves, without looking at the shards one by one. -/
theorem eventStep_createEvent {fsm : Fsm} {name : String} {initialShards : Int64}
    (hpositive : 0 < initialShards) (hnew : fsm.collections.lookup name = none)
    (heligible : countEligible (envAt 0) fsm ≠ 0) :
    (eventStep fsm (createEvent name initialShards)).workers = fsm.workers ∧
      (eventStep fsm (createEvent name initialShards)).nextShardId =
        fsm.nextShardId + UInt64.ofNat initialShards.toNatClampNeg ∧
      (∀ other, other ≠ name →
        (eventStep fsm (createEvent name initialShards)).collections.lookup other =
          fsm.collections.lookup other) ∧
      ∀ i < initialShards.toNatClampNeg,
        ((eventStep fsm (createEvent name initialShards)).shard? name
          (fsm.nextShardId + UInt64.ofNat i)).isSome = true := by
  let payload : CreateCollectionPayload := { name := name, initialShards := initialShards }
  have hcount : (createSpec modelConfig (envAt 0) fsm payload).numShards =
      initialShards.toNatClampNeg := by
    simp only [createSpec, numShards, payload, if_neg (Int64.not_le.mpr hpositive)]
  have hstep : eventStep fsm (createEvent name initialShards) = _ :=
    congrArg Outcome.fsm
      (applyCreateCollection_outcome modelConfig (envAt 0) fsm payload hnew heligible)
  rw [hstep]
  refine ⟨rfl, ?_, ?_, ?_⟩
  · rw [← hcount]
    rfl
  · intro other hother
    exact AList.lookup_insert_ne hother
  · intro i hi
    rw [← hcount] at hi
    rw [Fsm.bump_shard?, shard?_insert_collection, if_pos rfl, createdCollection_lookup_add hi]
    rfl

/-- Three collections that together take more shard ids than there are. -/
def exhaustingEvents : List Event :=
  (startWorkers 1).map Event.apply ++
    [ createEvent "first" 9223372036854775807,
      createEvent "second" 9223372036854775807,
      createEvent "third" 3 ]

/-- The third of them gets an id that the first one has. -/
theorem shardIds_reissued :
    ((Run.run eventStep newFsm exhaustingEvents).shard? "first" 1).isSome = true ∧
      ((Run.run eventStep newFsm exhaustingEvents).shard? "third" 1).isSome = true := by
  obtain ⟨start, hstart⟩ : ∃ start, start = Run.run eventStep newFsm
    ((startWorkers 1).map Event.apply) := ⟨_, rfl⟩
  have hnext : start.nextShardId = 1 := by
    rw [hstart]
    decide +kernel
  have heligible : countEligible (envAt 0) start ≠ 0 := by
    rw [hstart]
    decide +kernel
  have hempty : ∀ name, start.collections.lookup name = none := by
    intro name
    rw [hstart]
    rfl
  -- each state is replaced by what is known of it, since its shards cannot be listed
  rw [exhaustingEvents, Run.run_append, ← hstart]
  simp only [Run.run_cons, Run.run_nil]
  obtain ⟨hworkers₁, hnext₁, hother₁, hshards₁⟩ := eventStep_createEvent
    (by decide : 0 < (9223372036854775807 : Int64)) (hempty "first") heligible
  generalize eventStep start (createEvent "first" 9223372036854775807) = fsm₁ at *
  have heligible₁ : countEligible (envAt 0) fsm₁ ≠ 0 := by
    rw [countEligible, hworkers₁]
    exact heligible
  obtain ⟨hworkers₂, hnext₂, hother₂, hshards₂⟩ := eventStep_createEvent
    (by decide : 0 < (9223372036854775807 : Int64))
    ((hother₁ "second" (by decide)).trans (hempty "second")) heligible₁
  generalize eventStep fsm₁ (createEvent "second" 9223372036854775807) = fsm₂ at *
  have heligible₂ : countEligible (envAt 0) fsm₂ ≠ 0 := by
    rw [countEligible, hworkers₂]
    exact heligible₁
  obtain ⟨_, _, hother₃, hshards₃⟩ := eventStep_createEvent (by decide : 0 < (3 : Int64))
    ((hother₂ "third" (by decide)).trans ((hother₁ "third" (by decide)).trans (hempty "third")))
    heligible₂
  refine ⟨?_, ?_⟩
  · have hfirst := hshards₁ 0 (by decide)
    rw [hnext] at hfirst
    rw [Fsm.shard?, hother₃ "first" (by decide), hother₂ "first" (by decide)]
    exact hfirst
  · have hthird := hshards₃ 2 (by decide)
    rw [hnext₂, hnext₁, hnext] at hthird
    exact hthird

end Vectron.Placement
