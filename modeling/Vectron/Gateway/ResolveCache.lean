import Vectron.Foundation.Text
import Vectron.Foundation.MapEdit
import Vectron.Foundation.Run

/-! # The resolve cache

Where the vectors of a collection are, by `WorkerResolveCache` and by the entries of the same
keys that the gateway keeps in Redis, from `apigateway/cmd/apigateway/main.go`. A key is the
collection and the id with a bar between them. The shards of the cache are one map here, since a
key is always looked for in its own shard. An entry carries the collection and the id that it
was set for, which the code does not keep.
-/

namespace Vectron.Gateway

open Foundation

structure ResolveEntry where
  addr : Bytes
  shardID : UInt64
  shardEpoch : UInt64
deriving DecidableEq

/-- An entry of the cache of the process. -/
structure WorkerResolveCacheEntry where
  resolved : ResolveEntry
  leaseExpiryUnixMs : Int
  timestamp : Int
  setFor : Bytes × Bytes

/-- `collection + "|" + vectorID`. -/
def resolveKey (name : Bytes × Bytes) : Bytes := name.1 ++ 124 :: name.2

structure ResolveSettings where
  /-- `maphash` with the seed of the process -/
  fnv32 : Bytes → UInt32
  ttl : Int
  maxSize : Nat
  /-- the gateway has a Redis -/
  distributed : Bool

/-- `workerResolveShardCount` -/
def workerResolveShardCount : Nat := 128

structure ResolveCaches where
  entries : GoMap Bytes WorkerResolveCacheEntry
  /-- the entries in Redis, with what they were set for -/
  redis : GoMap Bytes (ResolveEntry × (Bytes × Bytes))

inductive ResolveOp where
  | set (name : Bytes × Bytes) (resolved : ResolveEntry) (leaseExpiryUnixMs now : Int)
    (order : RangeOrder)
  | get (name : Bytes × Bytes) (now : Int)
  | deleteCollection (collection : Bytes)
  /-- `SetResolve` and `GetResolve` -/
  | setResolve (name : Bytes × Bytes) (resolved : ResolveEntry)
  | getResolve (name : Bytes × Bytes)

namespace ResolveCaches

variable (settings : ResolveSettings)

def empty : ResolveCaches := ⟨∅, ∅⟩

/-- The shard of a key. -/
def shardOf (key : Bytes) : Nat := (settings.fnv32 key).toNat % workerResolveShardCount

/-- The entries of a shard, as a loop sees them. -/
def shardKeys (caches : ResolveCaches) (order : RangeOrder) (shard : Nat) : List Bytes :=
  ((order.range caches.entries).map Prod.fst).filter fun key => shardOf settings key = shard

/-- Make room in the shard of a key, if it is full. -/
def evict (caches : ResolveCaches) (order : RangeOrder) (key : Bytes) :
    GoMap Bytes WorkerResolveCacheEntry :=
  let keys := caches.shardKeys settings order (shardOf settings key)
  if 0 < settings.maxSize ∧ settings.maxSize / workerResolveShardCount ≤ keys.length then
    match keys with
    | [] => caches.entries
    | first :: _ => caches.entries.erase first
  else caches.entries

def set (caches : ResolveCaches) (name : Bytes × Bytes) (resolved : ResolveEntry)
    (leaseExpiryUnixMs now : Int) (order : RangeOrder) : ResolveCaches :=
  let key := resolveKey name
  { caches with
    entries := (caches.evict settings order key).insert key
      ⟨resolved, leaseExpiryUnixMs, now, name⟩ }

def get (caches : ResolveCaches) (name : Bytes × Bytes) (now : Int) :
    Option WorkerResolveCacheEntry :=
  match caches.entries.lookup (resolveKey name) with
  | none => none
  | some entry =>
      if settings.ttl < now - entry.timestamp then none
      else if 0 < entry.leaseExpiryUnixMs ∧ entry.leaseExpiryUnixMs < now then none
      else some entry

/-- `strings.HasPrefix(key, collection+"|")`. -/
def ofCollection (collection key : Bytes) : Bool := (collection ++ [124]).isPrefixOf key

def deleteCollection (caches : ResolveCaches) (collection : Bytes) : ResolveCaches :=
  { caches with entries := caches.entries.eraseWhere (ofCollection collection) }

def step (caches : ResolveCaches) : ResolveOp → ResolveCaches
  | .set name resolved leaseExpiryUnixMs now order =>
      caches.set settings name resolved leaseExpiryUnixMs now order
  | .get _ _ => caches
  | .deleteCollection collection => caches.deleteCollection collection
  | .setResolve name resolved =>
      if settings.distributed = true then
        { caches with redis := caches.redis.insert (resolveKey name) (resolved, name) }
      else caches
  | .getResolve _ => caches

/-- A read returns what was set for its name, and a deletion deletes the entries of its
collection and no others, from either cache. -/
def Isolated (caches : ResolveCaches) : ResolveOp → Prop
  | .get name now => ∀ entry, caches.get settings name now = some entry → entry.setFor = name
  | .getResolve name =>
      ∀ found, caches.redis.lookup (resolveKey name) = some found → found.2 = name
  | .deleteCollection collection =>
      (∀ key entry, caches.entries.lookup key = some entry →
        ((caches.deleteCollection collection).entries.lookup key = none ↔
          entry.setFor.1 = collection)) ∧
        ∀ key found, caches.redis.lookup key = some found →
          ((caches.deleteCollection collection).redis.lookup key = none ↔ found.2.1 = collection)
  | .set _ _ _ _ _ | .setResolve _ _ => True

/-- The operation names only these vectors and collections. -/
def Names (names : Set (Bytes × Bytes)) (collections : Set Bytes) : ResolveOp → Prop
  | .set name _ _ _ _ | .get name _ | .setResolve name _ | .getResolve name => name ∈ names
  | .deleteCollection collection => collection ∈ collections

/-- No two names have one key, and a collection starts only the keys of its own vectors. Nothing
deletes an entry of Redis. -/
structure ToldApart (names : Set (Bytes × Bytes)) (collections : Set Bytes) : Prop where
  key : ∀ name ∈ names, ∀ other ∈ names, resolveKey name = resolveKey other → name = other
  front : ∀ collection ∈ collections, ∀ name ∈ names,
    ofCollection collection (resolveKey name) = true → name.1 = collection
  stays : settings.distributed = true → ∀ collection ∈ collections, ∀ name ∈ names,
    name.1 ≠ collection

/-- Every entry is under the key of a name that it was set for. -/
structure Kept (settings : ResolveSettings) (names : Set (Bytes × Bytes)) (caches : ResolveCaches) :
    Prop where
  entries : ∀ key entry, caches.entries.lookup key = some entry →
    entry.setFor ∈ names ∧ resolveKey entry.setFor = key
  redis : ∀ key found, caches.redis.lookup key = some found →
    settings.distributed = true ∧ found.2 ∈ names ∧ resolveKey found.2 = key

variable {settings : ResolveSettings} {names : Set (Bytes × Bytes)} {collections : Set Bytes}
  {caches : ResolveCaches}

theorem lookup_evict {order : RangeOrder} {key key' : Bytes} {entry : WorkerResolveCacheEntry}
    (hlookup : (caches.evict settings order key).lookup key' = some entry) :
    caches.entries.lookup key' = some entry := by
  unfold evict at hlookup
  dsimp only at hlookup
  split at hlookup
  · split at hlookup
    · exact hlookup
    · rw [GoMap.lookup_erase_if] at hlookup
      split at hlookup
      · cases hlookup
      · exact hlookup
  · exact hlookup

theorem ofCollection_resolveKey (name : Bytes × Bytes) :
    ofCollection name.1 (resolveKey name) = true := by
  rw [ofCollection, List.isPrefixOf_iff_prefix]
  exact ⟨name.2, by simp [resolveKey]⟩

theorem Kept.step (hkept : Kept settings names caches) {op : ResolveOp}
    (hnames : Names names collections op) : Kept settings names (caches.step settings op) := by
  obtain ⟨hentries, hredis⟩ := hkept
  cases op with
  | set name resolved leaseExpiryUnixMs now order =>
      refine ⟨?_, hredis⟩
      intro key entry hlookup
      simp only [ResolveCaches.step, ResolveCaches.set, GoMap.lookup_insert_if] at hlookup
      split at hlookup
      next hkey =>
        obtain rfl := Option.some.inj hlookup
        exact ⟨hnames, hkey.symm⟩
      next => exact hentries key entry (lookup_evict hlookup)
  | get _ _ | getResolve _ => exact ⟨hentries, hredis⟩
  | deleteCollection collection =>
      refine ⟨?_, hredis⟩
      intro key entry hlookup
      simp only [ResolveCaches.step, ResolveCaches.deleteCollection, GoMap.lookup_eraseWhere]
        at hlookup
      split at hlookup
      · cases hlookup
      · exact hentries key entry hlookup
  | setResolve name resolved =>
      rw [ResolveCaches.step]
      split
      next hdistributed =>
        refine ⟨hentries, ?_⟩
        intro key found hlookup
        rw [GoMap.lookup_insert_if] at hlookup
        split at hlookup
        next hkey =>
          obtain rfl := Option.some.inj hlookup
          exact ⟨hdistributed, hnames, hkey.symm⟩
        next => exact hredis key found hlookup
      next => exact ⟨hentries, hredis⟩

theorem Kept.isolated (hapart : ToldApart settings names collections)
    (hkept : Kept settings names caches) {op : ResolveOp} (hnames : Names names collections op) :
    caches.Isolated settings op := by
  cases op with
  | set _ _ _ _ _ | setResolve _ _ => trivial
  | get name now =>
      intro entry hget
      unfold ResolveCaches.get at hget
      split at hget
      · cases hget
      next found hfound =>
        have hsame : found = entry := by
          split at hget
          · cases hget
          · split at hget
            · cases hget
            · exact Option.some.inj hget
        subst hsame
        obtain ⟨hmem, hkey⟩ := hkept.entries _ _ hfound
        exact hapart.key _ hmem _ hnames hkey
  | getResolve name =>
      intro found hfound
      obtain ⟨-, hmem, hkey⟩ := hkept.redis _ _ hfound
      exact hapart.key _ hmem _ hnames hkey
  | deleteCollection collection =>
      refine ⟨fun key entry hlookup => ?_, fun key found hlookup => ?_⟩
      · obtain ⟨hmem, rfl⟩ := hkept.entries key entry hlookup
        rw [ResolveCaches.deleteCollection, GoMap.lookup_eraseWhere, hlookup]
        constructor
        · intro hnone
          split at hnone
          next hfront => exact hapart.front collection hnames _ hmem hfront
          next => cases hnone
        · rintro rfl
          rw [if_pos (ofCollection_resolveKey _)]
      · -- the entry stays, so it must not be one of the collection
        obtain ⟨hdistributed, hmem, -⟩ := hkept.redis key found hlookup
        have hstays := hapart.stays hdistributed collection hnames _ hmem
        rw [ResolveCaches.deleteCollection, hlookup]
        exact ⟨fun hnone => (by cases hnone), fun hof => absurd hof hstays⟩

theorem kept_empty : Kept settings names empty where
  entries _ _ hlookup := by cases hlookup
  redis _ _ hlookup := by cases hlookup

/-- Every run over some names and collections is isolated exactly if their keys tell them
apart. -/
theorem isolated_iff_toldApart (settings : ResolveSettings) (names : Set (Bytes × Bytes))
    (collections : Set Bytes) :
    (∀ ops, (∀ op ∈ ops, Names names collections op) →
      Run.Meets (step settings) (Isolated settings) empty ops) ↔
      ToldApart settings names collections := by
  constructor
  · intro hisolated
    constructor
    · -- what was set for the one name is read for the other
      intro name hname other hother hkey
      have hmeets := hisolated
        [.set name ⟨[], 1, 1⟩ 0 0 RangeOrder.stored, .get other settings.ttl] (by
          simp [Names, hname, hother])
      refine hmeets.2.1 ⟨⟨[], 1, 1⟩, 0, 0, name⟩ ?_
      have hlookup : (empty.set settings name ⟨[], 1, 1⟩ 0 0 RangeOrder.stored).entries.lookup
          (resolveKey other) = some ⟨⟨[], 1, 1⟩, 0, 0, name⟩ := hkey ▸ AList.lookup_insert _
      simp [get, step, hlookup]
    · -- what was set for the name is deleted with the collection
      intro collection hcollection name hname hfront
      have hmeets := hisolated
        [.set name ⟨[], 1, 1⟩ 0 0 RangeOrder.stored, .deleteCollection collection] (by
          simp [Names, hname, hcollection])
      have hlookup : (empty.set settings name ⟨[], 1, 1⟩ 0 0 RangeOrder.stored).entries.lookup
          (resolveKey name) = some ⟨⟨[], 1, 1⟩, 0, 0, name⟩ := AList.lookup_insert _
      refine (hmeets.2.1.1 _ _ hlookup).mp ?_
      rw [ResolveCaches.deleteCollection, GoMap.lookup_eraseWhere, if_pos hfront]
    · -- what Redis has of the name is still there when the collection is deleted
      intro hdistributed collection hcollection name hname hof
      have hmeets := hisolated [.setResolve name ⟨[], 1, 1⟩, .deleteCollection collection] (by
        simp [Names, hname, hcollection])
      have hlookup : (empty.step settings (.setResolve name ⟨[], 1, 1⟩)).redis.lookup
          (resolveKey name) = some (⟨[], 1, 1⟩, name) := by
        rw [step, if_pos hdistributed]
        exact AList.lookup_insert _
      have hgone := (hmeets.2.1.2 _ _ hlookup).mpr hof
      rw [ResolveCaches.deleteCollection, hlookup] at hgone
      cases hgone
  · intro hapart ops hnames
    have hwhole : ∀ (ops : List ResolveOp) (caches : ResolveCaches), Kept settings names caches →
        (∀ op ∈ ops, Names names collections op) →
        Run.Meets (step settings) (Isolated settings) caches ops := by
      intro ops
      induction ops with
      | nil => exact fun _ _ _ => trivial
      | cons op ops ih =>
          intro caches hkept hnames
          have hop := hnames op List.mem_cons_self
          exact ⟨hkept.isolated hapart hop, ih _ (hkept.step hop) fun other hother =>
            hnames other (List.mem_cons_of_mem _ hother)⟩
    exact hwhole ops empty kept_empty hnames

/-- The vector "c" of the collection "a|b" and the vector "b|c" of the collection "a". -/
theorem separator_in_name : ¬Run.Meets (step ⟨fun _ => 0, 30000, 0, false⟩)
    (Isolated ⟨fun _ => 0, 30000, 0, false⟩) empty
    [.set ([97, 124, 98], [99]) ⟨[119], 1, 1⟩ 0 0 RangeOrder.stored, .get ([97], [98, 124, 99]) 1] := by
  rintro ⟨-, hread, -⟩
  have hname := hread ⟨⟨[119], 1, 1⟩, 0, 0, ([97, 124, 98], [99])⟩ rfl
  cases hname

end ResolveCaches

end Vectron.Gateway
