import Vectron.Reranker.Strategy

/-! # Routing tables in the gateway

The routing of a collection as the gateway holds it and as it keeps it in Redis, from
`apigateway/cmd/apigateway/main.go`. `encoding/json` and Redis are given from outside. When an
entry expires is left out.
-/

namespace Vectron.Gateway

open Foundation Reranker

structure RoutingShard where
  shardID : UInt64
  start : UInt64
  «end» : UInt64
  shardEpoch : UInt64
  leaderAddr : Text
  replicaAddrs : List Text
deriving DecidableEq

structure CollectionRoutingEntry where
  shards : List RoutingShard
  dimension : Int32
deriving DecidableEq

/-- The fields of a shard in Redis. -/
structure RoutingShardCacheEntry where
  shardID : UInt64
  start : UInt64
  «end» : UInt64
  shardEpoch : UInt64
  leaderAddr : Text
  replicaAddrs : List Text
deriving DecidableEq

structure CollectionRoutingCacheEntry where
  shards : List RoutingShardCacheEntry
deriving DecidableEq

/-- `json.Marshal` and `json.Unmarshal` at this type. -/
structure RoutingJson where
  marshal : CollectionRoutingCacheEntry → Option Text
  unmarshal : Text → Option CollectionRoutingCacheEntry

/-- The text of the struct is not empty and reads back as it. -/
def RoutingJson.RoundTrips (json : RoutingJson) (cached : CollectionRoutingCacheEntry) : Prop :=
  ∃ data, data ≠ [] ∧ json.marshal cached = some data ∧ json.unmarshal data = some cached

namespace CollectionRoutingEntry

/-- What `SetRouting` copies. -/
def toCached (entry : CollectionRoutingEntry) : CollectionRoutingCacheEntry where
  shards := entry.shards.map fun shard =>
    { shardID := shard.shardID
      start := shard.start
      «end» := shard.end
      shardEpoch := shard.shardEpoch
      leaderAddr := shard.leaderAddr
      replicaAddrs := shard.replicaAddrs }

/-- What `GetRouting` copies. -/
def ofCached (cached : CollectionRoutingCacheEntry) : CollectionRoutingEntry where
  shards := cached.shards.map fun shard =>
    { shardID := shard.shardID
      start := shard.start
      «end» := shard.end
      shardEpoch := shard.shardEpoch
      leaderAddr := shard.leaderAddr
      replicaAddrs := shard.replicaAddrs }
  dimension := 0

/-- `Search` and `Upsert` refuse a vector with this many components. -/
def refuses (entry : CollectionRoutingEntry) (components : Nat) : Bool :=
  0 < entry.dimension && (components : Int) ≠ entry.dimension.toInt

end CollectionRoutingEntry

/-! ## Redis -/

/-- What Redis holds. -/
abbrev RedisStore := GoMap Text Text

/-- `DistributedCache.key`. -/
def distributedKey (kind key : Text) : Text := "vectron:".toList ++ kind ++ ":".toList ++ key

def getBytes (redis : RedisStore) (kind key : Text) : Option Text :=
  redis.lookup (distributedKey kind key)

def setBytes (redis : RedisStore) (kind key data : Text) : RedisStore :=
  if data = [] then redis else redis.insert (distributedKey kind key) data

def getRouting (json : RoutingJson) (redis : RedisStore) (collection : Text) :
    Option CollectionRoutingEntry := do
  let data ← getBytes redis "routing".toList collection
  let cached ← json.unmarshal data
  return .ofCached cached

def setRouting (json : RoutingJson) (redis : RedisStore) (collection : Text)
    (entry : CollectionRoutingEntry) : RedisStore :=
  match json.marshal entry.toCached with
  | none => redis
  | some data => setBytes redis "routing".toList collection data

/-- What is read after an entry was written is that entry, and refuses the same vectors. -/
def RoutingKept (json : RoutingJson) (redis : RedisStore) (collection : Text)
    (entry : CollectionRoutingEntry) : Prop :=
  ∃ got, getRouting json (setRouting json redis collection entry) collection = some got ∧
    got.shards = entry.shards ∧ got.dimension = entry.dimension ∧
    ∀ components, got.refuses components = entry.refuses components

section Kept

variable {json : RoutingJson} {redis : RedisStore} {collection : Text}
  {entry got : CollectionRoutingEntry}

/-- The shards survive the copies, the dimension does not. -/
theorem ofCached_toCached (entry : CollectionRoutingEntry) :
    CollectionRoutingEntry.ofCached entry.toCached = { entry with dimension := 0 } := by
  simp [CollectionRoutingEntry.ofCached, CollectionRoutingEntry.toCached, Function.comp_def]

theorem getBytes_setBytes {kind key data : Text} (hdata : data ≠ []) :
    getBytes (setBytes redis kind key data) kind key = some data := by
  rw [getBytes, setBytes, if_neg hdata, AList.lookup_insert]

theorem getRouting_setRouting (hjson : json.RoundTrips entry.toCached) :
    getRouting json (setRouting json redis collection entry) collection =
      some { entry with dimension := 0 } := by
  obtain ⟨data, hdata, hmarshal, hunmarshal⟩ := hjson
  rw [setRouting, hmarshal, getRouting, getBytes_setBytes hdata]
  simp [hunmarshal, ofCached_toCached]

/-- An entry survives Redis exactly if it has no dimension. -/
theorem routingKept_iff (hjson : json.RoundTrips entry.toCached) :
    RoutingKept json redis collection entry ↔ entry.dimension = 0 := by
  rw [RoutingKept, getRouting_setRouting hjson]
  constructor
  · rintro ⟨got, hgot, -, hdimension, -⟩
    obtain rfl := Option.some.inj hgot
    exact hdimension.symm
  · intro hzero
    refine ⟨_, rfl, rfl, hzero.symm, ?_⟩
    intro components
    rw [← hzero]

/-- `encoding/json` at one table and its text. -/
def jsonAt (cached : CollectionRoutingCacheEntry) (data : Text) : RoutingJson where
  marshal other := if other = cached then some data else none
  unmarshal other := if other = data then some cached else none

theorem roundTrips_jsonAt (cached : CollectionRoutingCacheEntry) {data : Text} (hdata : data ≠ []) :
    (jsonAt cached data).RoundTrips cached := by
  refine ⟨data, hdata, ?_, ?_⟩
  · exact if_pos rfl
  · exact if_pos rfl

/-- A table with two shards. -/
def twoShards (dimension : Int32) : CollectionRoutingEntry where
  shards :=
    [⟨1, 0, 9, 3, ['w'], [['w'], ['x']]⟩, ⟨2, 10, 19, 1, ['x'], []⟩]
  dimension := dimension

def twoShardsJson : RoutingJson :=
  jsonAt (twoShards 0).toCached (
    "\x7b\"shards\":[\x7b\"shard_id\":1,\"start\":0,\"end\":9,\"shard_epoch\":3," ++
    "\"leader_addr\":\"w\",\"replica_addrs\":[\"w\",\"x\"]\x7d," ++
    "\x7b\"shard_id\":2,\"start\":10,\"end\":19,\"shard_epoch\":1," ++
    "\"leader_addr\":\"x\",\"replica_addrs\":[]\x7d]\x7d").toList

theorem roundTrips_twoShards (dimension : Int32) :
    twoShardsJson.RoundTrips (twoShards dimension).toCached :=
  roundTrips_jsonAt _ (by simp)

theorem twoShards_kept :
    RoutingKept twoShardsJson ∅ "docs".toList (twoShards 0) ↔ (0 : Int32) = 0 :=
  routingKept_iff (roundTrips_twoShards 0)

/-- A collection of dimension 4, whose vectors of 5 components are let through. -/
theorem dimension_lost : ¬RoutingKept twoShardsJson ∅ "docs".toList (twoShards 4) ∧
    (twoShards 4).refuses 5 = true := by
  refine ⟨?_, rfl⟩
  rintro ⟨got, hgot, -, hdimension, -⟩
  rw [getRouting_setRouting (roundTrips_twoShards 4)] at hgot
  obtain rfl := Option.some.inj hgot
  contradiction

end Kept

end Vectron.Gateway
