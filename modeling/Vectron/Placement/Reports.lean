import Vectron.Placement.Server

/-! # What the workers report

A heartbeat carries more than the load of the worker: the leaders of its shards, the
Raft membership of the shards it leads, how far each replica has applied, and
acknowledgements of leader transfers. `server.go` keeps the last three in tables
beside the replicated state, and reads an entry only while it is fresh.
-/

namespace Vectron.Placement

open Foundation

/-! ## The request -/

structure ShardLeaderInfo where
  shardId : UInt64
  leaderId : UInt64
deriving DecidableEq

structure ShardMembershipInfo where
  shardId : UInt64
  configChangeId : UInt64
  nodeIds : List UInt64
deriving DecidableEq

structure ShardProgressInfo where
  shardId : UInt64
  appliedIndex : UInt64
  shardEpoch : UInt64
deriving DecidableEq

structure ShardLeaderTransferAck where
  shardId : UInt64
  fromNodeId : UInt64
  toNodeId : UInt64
  shardEpoch : UInt64
deriving DecidableEq

/-- `HeartbeatRequest`, with the worker id already parsed. -/
structure HeartbeatRequest where
  load : UpdateWorkerHeartbeatPayload
  shardMetrics : List ShardMetricsPayload := []
  shardLeaderInfo : List ShardLeaderInfo := []
  shardMembership : List ShardMembershipInfo := []
  shardProgress : List ShardProgressInfo := []
  leaderTransferAcks : List ShardLeaderTransferAck := []
deriving DecidableEq

def HeartbeatRequest.workerId (req : HeartbeatRequest) : UInt64 := req.load.workerId

/-! ## The tables -/

structure ShardMembershipSnapshot where
  nodeIds : List UInt64
  configChangeId : UInt64
  updatedAt : Time
deriving DecidableEq

structure ShardProgressSnapshot where
  appliedIndex : UInt64
  shardEpoch : UInt64
  updatedAt : Time
deriving DecidableEq

structure LeaderTransferAck where
  toNodeId : UInt64
  shardEpoch : UInt64
  updatedAt : Time
deriving DecidableEq

/-- The maps of `Server` that heartbeats fill. -/
structure Tables where
  shardMembership : GoMap UInt64 ShardMembershipSnapshot := ∅
  shardProgress : GoMap UInt64 (GoMap UInt64 ShardProgressSnapshot) := ∅
  leaderTransferAcks : GoMap UInt64 (GoMap UInt64 LeaderTransferAck) := ∅

def membershipStaleAfter : Int := 30 * 1000000000
def progressStaleAfter : Int := 30 * 1000000000

/-- `leaderAckStaleAfter`, 5 minutes. -/
def leaderAckStaleAfter : Int := 300 * 1000000000

/-- An entry of a table, unless it is stale. -/
def fresh {Entry : Type} (updatedAt : Entry → Time) (staleAfter : Int) (now : Time)
    (entry : Option Entry) : Option Entry :=
  entry.filter fun found => decide (now - updatedAt found ≤ staleAfter)

/-- An entry of a nested map. -/
def nested? {Entry : Type} (table : GoMap UInt64 (GoMap UInt64 Entry)) (shardId nodeId : UInt64) :
    Option Entry :=
  (table.lookup shardId).bind fun nodes => nodes.lookup nodeId

/-- A write to a nested map, whose inner map is made when it is missing. -/
def setNested {Entry : Type} (table : GoMap UInt64 (GoMap UInt64 Entry))
    (shardId nodeId : UInt64) (entry : Entry) : GoMap UInt64 (GoMap UInt64 Entry) :=
  table.insert shardId (((table.lookup shardId).getD ∅).insert nodeId entry)

def getShardMembershipSnapshot (tables : Tables) (now : Time) (shardId : UInt64) :
    Option ShardMembershipSnapshot :=
  fresh ShardMembershipSnapshot.updatedAt membershipStaleAfter now
    (tables.shardMembership.lookup shardId)

def getShardProgress (tables : Tables) (now : Time) (shardId nodeId : UInt64) :
    Option ShardProgressSnapshot :=
  fresh ShardProgressSnapshot.updatedAt progressStaleAfter now
    (nested? tables.shardProgress shardId nodeId)

def getLeaderTransferAck (tables : Tables) (now : Time) (shardId fromNodeId : UInt64) :
    Option LeaderTransferAck :=
  fresh LeaderTransferAck.updatedAt leaderAckStaleAfter now
    (nested? tables.leaderTransferAcks shardId fromNodeId)

/-! ## Handling a report -/

/-- The lookup of a shard over all collections that `getShardByID` and
`IsWorkerAssignedToShard` make. -/
def getShardById (env : ServerEnv) (fsm : Fsm) (shardId : UInt64) : Option ShardInfo :=
  (getCollections env fsm).findSome? fun coll => coll.shards.lookup shardId

def isWorkerAssignedToShard (env : ServerEnv) (fsm : Fsm) (workerId shardId : UInt64) : Bool :=
  match getShardById env fsm shardId with
  | some shard => decide (workerId ∈ shard.replicas)
  | none => false

/-- The leader reports that the handler takes up: those for shards the worker is
assigned to. -/
def acceptedLeaders (env : ServerEnv) (fsm : Fsm) (req : HeartbeatRequest) :
    List ShardLeaderInfo :=
  req.shardLeaderInfo.filter fun info =>
    isWorkerAssignedToShard env fsm req.workerId info.shardId

/-- `leaderMap` of the handler. -/
def leaderMap (env : ServerEnv) (fsm : Fsm) (req : HeartbeatRequest) : GoMap UInt64 UInt64 :=
  (acceptedLeaders env fsm req).foldl
    (fun leaders info => leaders.insert info.shardId info.leaderId) ∅

/-- One iteration of `updateShardMembership`: only a worker that reports itself as the
leader is believed. -/
def recordMembership (env : ServerEnv) (fsm : Fsm) (leaders : GoMap UInt64 UInt64)
    (now : Time) (workerId : UInt64) (tables : Tables) (info : ShardMembershipInfo) : Tables :=
  if leaders.lookup info.shardId = some workerId ∧
      isWorkerAssignedToShard env fsm workerId info.shardId = true then
    { tables with
      shardMembership := tables.shardMembership.insert info.shardId
        { nodeIds := info.nodeIds, configChangeId := info.configChangeId, updatedAt := now } }
  else tables

/-- One iteration of `updateShardProgress`. -/
def recordProgress (env : ServerEnv) (fsm : Fsm) (now : Time) (workerId : UInt64)
    (tables : Tables) (info : ShardProgressInfo) : Tables :=
  if isWorkerAssignedToShard env fsm workerId info.shardId = true then
    { tables with
      shardProgress := setNested tables.shardProgress info.shardId workerId
        { appliedIndex := info.appliedIndex, shardEpoch := info.shardEpoch, updatedAt := now } }
  else tables

/-- One iteration of `updateLeaderTransferAcks`, which does not ask whether the worker
is assigned to the shard. -/
def recordAck (now : Time) (workerId : UInt64) (tables : Tables) (ack : ShardLeaderTransferAck) :
    Tables :=
  if ack.fromNodeId = workerId then
    { tables with
      leaderTransferAcks := setNested tables.leaderTransferAcks ack.shardId ack.fromNodeId
        { toNodeId := ack.toNodeId, shardEpoch := ack.shardEpoch, updatedAt := now } }
  else tables

/-- What a heartbeat writes into the tables. -/
def Tables.record (env : ServerEnv) (fsm : Fsm) (now : Time) (req : HeartbeatRequest)
    (tables : Tables) : Tables :=
  let leaders := leaderMap env fsm req
  let tables := req.shardMembership.foldl (recordMembership env fsm leaders now req.workerId) tables
  let tables := req.shardProgress.foldl (recordProgress env fsm now req.workerId) tables
  req.leaderTransferAcks.foldl (recordAck now req.workerId) tables

/-! ## What the tables hold -/

section

variable {Entry : Type}

theorem nested?_setNested (table : GoMap UInt64 (GoMap UInt64 Entry))
    (shardId nodeId shardId' nodeId' : UInt64) (entry : Entry) :
    nested? (setNested table shardId nodeId entry) shardId' nodeId' =
      if shardId' = shardId ∧ nodeId' = nodeId then some entry
      else nested? table shardId' nodeId' := by
  unfold nested? setNested
  rw [GoMap.lookup_insert_if]
  by_cases hshard : shardId' = shardId
  · subst hshard
    rw [if_pos rfl, Option.bind_some, GoMap.lookup_insert_if]
    by_cases hnode : nodeId' = nodeId
    · rw [if_pos hnode, if_pos ⟨rfl, hnode⟩]
    · rw [if_neg hnode, if_neg fun hboth => hnode hboth.2]
      cases table.lookup shardId' with
      | none => rfl
      | some nodes => rfl
  · rw [if_neg hshard, if_neg fun hboth => hshard hboth.1]

theorem fresh_eq_some {updatedAt : Entry → Time} {staleAfter : Int} {now : Time}
    {entry : Option Entry} {found : Entry} :
    fresh updatedAt staleAfter now entry = some found ↔
      entry = some found ∧ now - updatedAt found ≤ staleAfter := by
  rw [fresh, Option.filter_eq_some_iff, decide_eq_true_iff]

end

theorem getShardById_eq_some {env : ServerEnv} {fsm : Fsm} {shardId : UInt64}
    {shard : ShardInfo} (hfind : getShardById env fsm shardId = some shard) :
    ∃ name coll, fsm.collections.lookup name = some coll ∧
      coll.shards.lookup shardId = some shard := by
  rw [getShardById, getCollections, List.findSome?_map] at hfind
  obtain ⟨⟨name, coll⟩, hcoll, hlookup⟩ := List.exists_of_findSome?_eq_some hfind
  exact ⟨name, coll, RangeOrder.mem_range.mp hcoll, hlookup⟩

/-- What every single write of a report keeps, the report keeps. -/
theorem Tables.record_invariant (invariant : Tables → Prop) {env : ServerEnv} {fsm : Fsm}
    {now : Time} {req : HeartbeatRequest}
    (hmembership : ∀ tables info, invariant tables →
      invariant (recordMembership env fsm (leaderMap env fsm req) now req.workerId tables info))
    (hprogress : ∀ tables, ∀ info ∈ req.shardProgress, invariant tables →
      invariant (recordProgress env fsm now req.workerId tables info))
    (hack : ∀ tables, ∀ ack ∈ req.leaderTransferAcks, invariant tables →
      invariant (recordAck now req.workerId tables ack))
    {tables : Tables} (htables : invariant tables) :
    invariant (tables.record env fsm now req) := by
  refine List.foldlRecOn _ _ ?_ fun tables htables ack hmem => hack tables ack hmem htables
  refine List.foldlRecOn _ _ ?_ fun tables htables info hmem => hprogress tables info hmem htables
  exact List.foldlRecOn _ _ htables fun tables htables info _ => hmembership tables info htables

@[simp] theorem recordMembership_shardProgress (env : ServerEnv) (fsm : Fsm)
    (leaders : GoMap UInt64 UInt64) (now : Time) (workerId : UInt64) (tables : Tables)
    (info : ShardMembershipInfo) :
    (recordMembership env fsm leaders now workerId tables info).shardProgress =
      tables.shardProgress := by
  unfold recordMembership
  split <;> rfl

@[simp] theorem recordAck_shardProgress (now : Time) (workerId : UInt64) (tables : Tables)
    (ack : ShardLeaderTransferAck) :
    (recordAck now workerId tables ack).shardProgress = tables.shardProgress := by
  unfold recordAck
  split <;> rfl

/-- A progress report of an assigned worker, as the table shows it afterwards. -/
theorem recordProgress_nested? (env : ServerEnv) (fsm : Fsm) (now : Time) (workerId : UInt64)
    (tables : Tables) (info : ShardProgressInfo) (shardId nodeId : UInt64) :
    nested? (recordProgress env fsm now workerId tables info).shardProgress shardId nodeId =
      if isWorkerAssignedToShard env fsm workerId info.shardId = true ∧ shardId = info.shardId ∧
          nodeId = workerId then
        some { appliedIndex := info.appliedIndex, shardEpoch := info.shardEpoch, updatedAt := now }
      else nested? tables.shardProgress shardId nodeId := by
  unfold recordProgress
  split
  next hassigned =>
    rw [nested?_setNested]
    simp [hassigned]
  next hassigned => simp [hassigned]

end Vectron.Placement
