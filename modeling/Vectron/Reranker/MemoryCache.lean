import Vectron.Foundation.Heap
import Vectron.Foundation.MapEdit
import Vectron.Foundation.Reader

/-! # The cache in memory

`RobustMemoryCache` of `reranker/internal/cache`: a map of items, with a list, a heap or a queue
beside it from which the eviction policy takes the next key to go.
-/

namespace Vectron.Reranker.Cache

open Foundation

/-! ## Items -/

inductive EvictionPolicy where
  | lru
  | lfu
  | fifo
  | ttl
deriving DecidableEq, Repr

structure CacheConfig where
  maxSize : Nat
  defaultTTL : Int
  evictionPolicy : EvictionPolicy

structure CacheItem (V : Type) where
  value : V
  expiresAt : Int
  createdAt : Int
  accessAt : Int
  hitCount : Int

namespace CacheItem

variable {V : Type}

def isExpired (item : CacheItem V) (now : Int) : Bool := item.expiresAt < now

def touch (item : CacheItem V) (now : Int) : CacheItem V :=
  { item with accessAt := now, hitCount := item.hitCount + 1 }

end CacheItem

/-- An element of a `container/list`. Elements are told apart by their number. -/
structure Element where
  id : Nat
  key : Bytes
deriving DecidableEq, Repr

structure LfuItem where
  key : Bytes
  frequency : Int
  lastAccess : Int
deriving DecidableEq, Repr

/-- `lfuHeap.Less`. -/
def lfuLess (a b : LfuItem) : Bool :=
  if a.frequency = b.frequency then decide (a.lastAccess < b.lastAccess)
  else decide (a.frequency < b.frequency)

theorem weakOrder_lfuLess : WeakOrder lfuLess where
  asymm := by
    intro x y h
    unfold lfuLess at h ⊢
    split at h <;> split <;> simp_all <;> omega
  negTrans := by
    intro x y z hxy hyz
    unfold lfuLess at hxy hyz ⊢
    split at hxy <;> split at hyz <;> split <;> simp_all <;> omega

/-- `container/heap` for `lfuHeap`. -/
def lfu : Heap lfuLess := binaryHeap weakOrder_lfuLess

structure RobustMemoryCache (V : Type) where
  data : GoMap Bytes (CacheItem V)
  lruList : List Element
  lruIndex : GoMap Bytes Element
  lfuHeap : List LfuItem
  fifoQueue : List Bytes
  elements : Nat

namespace RobustMemoryCache

variable {V : Type}

/-- `NewRobustMemoryCache`. -/
def new : RobustMemoryCache V := ⟨∅, [], ∅, [], [], 0⟩

/-! ## The eviction policies -/

section Policies

variable (policy : EvictionPolicy) (cache : RobustMemoryCache V)

def addToEvictionPolicy (key : Bytes) (item : CacheItem V) : RobustMemoryCache V :=
  match policy with
  | .lru =>
      let element : Element := ⟨cache.elements, key⟩
      { cache with
        lruList := element :: cache.lruList
        lruIndex := cache.lruIndex.insert key element
        elements := cache.elements + 1 }
  | .lfu => { cache with lfuHeap := lfu.push cache.lfuHeap ⟨key, item.hitCount, item.accessAt⟩ }
  | .fifo => { cache with fifoQueue := cache.fifoQueue ++ [key] }
  | .ttl => cache

def removeFromEvictionPolicy (key : Bytes) : RobustMemoryCache V :=
  match policy with
  | .lru =>
      match cache.lruIndex.lookup key with
      | some element =>
          { cache with
            lruList := cache.lruList.erase element, lruIndex := cache.lruIndex.erase key }
      | none => cache
  | .fifo => { cache with fifoQueue := cache.fifoQueue.erase key }
  | .lfu | .ttl => cache

def updateEvictionPolicy (key : Bytes) (item : CacheItem V) : RobustMemoryCache V :=
  match policy with
  | .lru =>
      match cache.lruIndex.lookup key with
      | some element => { cache with lruList := element :: cache.lruList.erase element }
      | none => cache
  | .lfu =>
      let cache := cache.removeFromEvictionPolicy .lfu key
      { cache with lfuHeap := lfu.push cache.lfuHeap ⟨key, item.hitCount, item.accessAt⟩ }
  | .fifo | .ttl => cache

def deleteItemUnsafe (key : Bytes) : RobustMemoryCache V :=
  if key ∈ cache.data then
    { cache with data := cache.data.erase key }.removeFromEvictionPolicy policy key
  else cache

/-- One round of the loop over the map that looks for the oldest entry. -/
def older (data : GoMap Bytes (CacheItem V)) : Bytes × Int → Bytes → Bytes × Int :=
  fun (oldestKey, oldestTime) key =>
    match data.lookup key with
    | some item =>
        if oldestKey = [] ∨ item.createdAt < oldestTime then (key, item.createdAt)
        else (oldestKey, oldestTime)
    | none => (oldestKey, oldestTime)

def oldest (data : GoMap Bytes (CacheItem V)) (order : List Bytes) : Bytes × Int :=
  order.foldl (older data) ([], 0)

/-- The key to evict, and what is left of the policy's structure when it was taken. -/
def keyToEvict (order : List Bytes) : Bytes × RobustMemoryCache V :=
  match policy with
  | .lru =>
      match cache.lruList.getLast? with
      | some element => (element.key, cache)
      | none => ([], cache)
  | .lfu =>
      match lfu.pop cache.lfuHeap with
      | some (item, rest) => (item.key, { cache with lfuHeap := rest })
      | none => ([], cache)
  | .fifo =>
      match cache.fifoQueue with
      | key :: _ => (key, cache)
      | [] => ([], cache)
  | .ttl => ((oldest cache.data order).1, cache)

/-- `evictOneEntry`, where a loop over the map takes its keys in the given order. -/
def evictOneEntry (order : List Bytes) : RobustMemoryCache V :=
  let (key, cache) := cache.keyToEvict policy order
  if key ≠ [] then cache.deleteItemUnsafe policy key else cache

end Policies

/-! ## The operations -/

def star : UInt8 := 42

def matchesPattern (key pattern : Bytes) : Bool :=
  if pattern = [star] then true
  else if star ∈ pattern then
    match pattern.splitOn star with
    | [front, back] => front.isPrefixOf key && back.isSuffixOf key
    | _ => decide (key = pattern)
  else decide (key = pattern)

section Operations

variable (config : CacheConfig) (cache : RobustMemoryCache V)

/-- `Get`, with what the clock shows when the item is checked, checked again under the write lock
and touched. -/
def get (key : Bytes) (now again touched : Int) : RobustMemoryCache V × Option V :=
  match cache.data.lookup key with
  | none => (cache, none)
  | some item =>
      if item.isExpired now then
        if item.isExpired again then (cache.deleteItemUnsafe config.evictionPolicy key, none)
        else (cache, none)
      else
        let item := item.touch touched
        let cache := { cache with data := cache.data.insert key item }
        (cache.updateEvictionPolicy config.evictionPolicy key item, some item.value)

def set (key : Bytes) (value : V) (ttl now : Int) (order : List Bytes) : RobustMemoryCache V :=
  let ttl := if ttl ≤ 0 then config.defaultTTL else ttl
  let item : CacheItem V := ⟨value, now + ttl, now, now, 1⟩
  let cache :=
    if config.maxSize ≤ cache.data.size then cache.evictOneEntry config.evictionPolicy order
    else cache
  let cache :=
    if key ∈ cache.data then cache.deleteItemUnsafe config.evictionPolicy key else cache
  { cache with data := cache.data.insert key item }.addToEvictionPolicy config.evictionPolicy key item

def delete (key : Bytes) : RobustMemoryCache V := cache.deleteItemUnsafe config.evictionPolicy key

def clear (pattern : Bytes) (order : List Bytes) : RobustMemoryCache V × Nat :=
  if pattern = [] then ({ (new : RobustMemoryCache V) with elements := cache.elements }, cache.data.size)
  else
    let keysToDelete := order.filter (matchesPattern · pattern)
    (keysToDelete.foldl (deleteItemUnsafe config.evictionPolicy) cache, keysToDelete.length)

end Operations

/-- A call, with the times it reads and the order in which it walks over the map. -/
inductive Call (V : Type) where
  | get (key : Bytes) (now again touched : Int)
  | set (key : Bytes) (value : V) (ttl now : Int) (order : List Bytes)
  | delete (key : Bytes)
  | clear (pattern : Bytes) (order : List Bytes)

def step (config : CacheConfig) (cache : RobustMemoryCache V) : Call V → RobustMemoryCache V
  | .get key now again touched => (cache.get config key now again touched).1
  | .set key value ttl now order => cache.set config key value ttl now order
  | .delete key => cache.delete config key
  | .clear pattern order => (cache.clear config pattern order).1

/-- Keys are not empty, nothing that is read has expired, and a walk visits every key once. -/
def Admits (cache : RobustMemoryCache V) : Call V → Prop
  | .get key now _ _ =>
      key ≠ [] ∧ ∀ item, cache.data.lookup key = some item → item.isExpired now = false
  | .set key _ _ _ order => key ≠ [] ∧ order.Perm cache.data.keys
  | .delete key => key ≠ []
  | .clear _ order => order.Perm cache.data.keys

/-! ## The history of a key -/

namespace Call

/-- A call that inserts a key. -/
def sets (key : Bytes) : Call V → Bool
  | .set key' _ _ _ _ => decide (key' = key)
  | _ => false

/-- A call that uses a key. -/
def uses (key : Bytes) : Call V → Bool
  | .set key' _ _ _ _ => decide (key' = key)
  | .get key' _ _ _ => decide (key' = key)
  | _ => false

end Call

/-- How many calls ago there was one of a kind, latest call first. -/
def age (kind : Call V → Bool) (past : List (Call V)) : Nat := past.findIdx kind

section

variable {kind : Call V → Bool} {call : Call V} (past : List (Call V))

theorem age_cons_of_true (hcall : kind call = true) : age kind (call :: past) = 0 := by
  simp [age, List.findIdx_cons, hcall]

theorem age_cons_of_false (hcall : kind call = false) :
    age kind (call :: past) = age kind past + 1 := by
  simp [age, List.findIdx_cons, hcall]

end

/-- Keys in the order of their calls of some kind, latest call first. -/
def Latest (kind : Bytes → Call V → Bool) (past : List (Call V)) (keys : List Bytes) : Prop :=
  keys.Pairwise fun newer older => age (kind newer) past < age (kind older) past

namespace Latest

variable {kind : Bytes → Call V → Bool} {past : List (Call V)} {keys : List Bytes} {call : Call V}

theorem untouched (hlatest : Latest kind past keys) (hcall : ∀ key ∈ keys, kind key call = false) :
    Latest kind (call :: past) keys := by
  apply List.Pairwise.imp_of_mem _ hlatest
  intro newer older hnewer holder hlt
  rw [age_cons_of_false past (hcall newer hnewer), age_cons_of_false past (hcall older holder)]
  omega

theorem cons {key : Bytes} (hlatest : Latest kind past keys) (hkey : kind key call = true)
    (hcall : ∀ other ∈ keys, kind other call = false) :
    Latest kind (call :: past) (key :: keys) := by
  apply List.pairwise_cons.mpr
  constructor
  · intro other hother
    rw [age_cons_of_true past hkey, age_cons_of_false past (hcall other hother)]
    exact Nat.succ_pos _
  · exact hlatest.untouched hcall

theorem sublist {fewer : List Bytes} (hlatest : Latest kind past keys)
    (hsublist : fewer.Sublist keys) : Latest kind past fewer :=
  List.Pairwise.sublist hsublist hlatest

/-- The last key had its call before all others. -/
theorem le_last {last : Bytes} (hlatest : Latest kind past keys)
    (hlast : keys.getLast? = some last) :
    ∀ key ∈ keys, age (kind key) past ≤ age (kind last) past := by
  obtain ⟨front, rfl⟩ := List.getLast?_eq_some_iff.mp hlast
  intro key hkey
  rcases List.mem_append.mp hkey with hkey | hkey
  · exact ((List.pairwise_append.mp hlatest).2.2 key hkey last (by simp)).le
  · rw [List.mem_singleton.mp hkey]

end Latest

/-! ## What the structures hold -/

/-- The structure of the active policy holds the keys of the map, each once. -/
def Mirrors (policy : EvictionPolicy) (cache : RobustMemoryCache V) : Prop :=
  match policy with
  | .lru =>
      (cache.lruList.map Element.key).Perm cache.data.keys ∧
        ∀ key element, cache.lruIndex.lookup key = some element ↔
          element ∈ cache.lruList ∧ element.key = key
  | .lfu =>
      (cache.lfuHeap.map LfuItem.key).Perm cache.data.keys ∧
        ∀ entry ∈ cache.lfuHeap, ∃ item, cache.data.lookup entry.key = some item ∧
          item.hitCount = entry.frequency
  | .fifo => cache.fifoQueue.Perm cache.data.keys
  | .ttl => True

/-- The structure of the active policy is in the order in which its keys go. -/
def Ordered (policy : EvictionPolicy) (past : List (Call V)) (cache : RobustMemoryCache V) : Prop :=
  match policy with
  | .lru => Latest Call.uses past (cache.lruList.map Element.key)
  | .lfu => lfu.Ordered cache.lfuHeap
  | .fifo => Latest Call.sets past cache.fifoQueue.reverse
  | .ttl => True

/-- A key that none of the cached ones goes before: the least recently used, the least frequently
used or the oldest inserted one. -/
def Least (policy : EvictionPolicy) (past : List (Call V)) (cache : RobustMemoryCache V)
    (victim : Bytes) : Prop :=
  victim ∈ cache.data ∧ ∀ key ∈ cache.data, match policy with
    | .lru => age (Call.uses key) past ≤ age (Call.uses victim) past
    | .lfu => ∀ item least, cache.data.lookup key = some item →
        cache.data.lookup victim = some least → least.hitCount ≤ item.hitCount
    | .fifo => age (Call.sets key) past ≤ age (Call.sets victim) past
    | .ttl => ∀ item least, cache.data.lookup key = some item →
        cache.data.lookup victim = some least → least.createdAt ≤ item.createdAt

/-- What the cache keeps from call to call. -/
structure Consistent (config : CacheConfig) (past : List (Call V)) (cache : RobustMemoryCache V) :
    Prop where
  size : cache.data.size ≤ config.maxSize
  keys : [] ∉ cache.data
  mirrors : Mirrors config.evictionPolicy cache
  ordered : Ordered config.evictionPolicy past cache

variable {policy : EvictionPolicy} {config : CacheConfig} {past : List (Call V)}
  {cache : RobustMemoryCache V}

/-! ## Lists -/

theorem keys_erase {W : Type} (m : GoMap Bytes W) (key : Bytes) :
    (m.erase key).keys = m.keys.erase key := by
  rw [AList.keys_erase]
  congr 1
  exact lawful_beq_subsingleton _ _

theorem keys_insert {W : Type} (m : GoMap Bytes W) (key : Bytes) (w : W) :
    (m.insert key w).keys = key :: m.keys.erase key := by
  rw [AList.keys_insert]
  congr 2
  exact lawful_beq_subsingleton _ _

theorem map_key_erase {elements : List Element} (hnodup : (elements.map Element.key).Nodup)
    {element : Element} (hmem : element ∈ elements) :
    (elements.erase element).map Element.key = (elements.map Element.key).erase element.key := by
  induction elements with
  | nil => cases hmem
  | cons first rest ih =>
      rw [List.map_cons, List.nodup_cons] at hnodup
      by_cases hsame : first = element
      · subst hsame
        simp
      · have hrest : element ∈ rest := (List.mem_cons.mp hmem).resolve_left (Ne.symm hsame)
        have hkey : first.key ≠ element.key := by
          intro heq
          exact hnodup.1 (heq ▸ List.mem_map_of_mem hrest)
        rw [List.erase_cons_tail (by simpa using hsame), List.map_cons, List.map_cons,
          List.erase_cons_tail (by simpa using hkey), ih hnodup.2 hrest]

theorem Mirrors.lru_nodup (hmirrors : Mirrors .lru cache) :
    (cache.lruList.map Element.key).Nodup :=
  hmirrors.1.nodup_iff.mpr cache.data.nodupKeys

/-- The element of a cached key. -/
theorem Mirrors.exists_element (hmirrors : Mirrors .lru cache) {key : Bytes}
    (hkey : key ∈ cache.data) :
    ∃ element ∈ cache.lruList, element.key = key ∧ cache.lruIndex.lookup key = some element := by
  have hmem : key ∈ cache.lruList.map Element.key := hmirrors.1.mem_iff.mpr hkey
  obtain ⟨element, helement, hsame⟩ := List.mem_map.mp hmem
  exact ⟨element, helement, hsame, (hmirrors.2 key element).mpr ⟨helement, hsame⟩⟩

/-! ## Deleting a key -/

section

variable (policy : EvictionPolicy) (cache : RobustMemoryCache V) (key : Bytes)

theorem data_removeFromEvictionPolicy :
    (cache.removeFromEvictionPolicy policy key).data = cache.data := by
  unfold removeFromEvictionPolicy
  split
  next => split <;> rfl
  all_goals rfl

theorem data_deleteItemUnsafe :
    (cache.deleteItemUnsafe policy key).data = cache.data.erase key := by
  unfold deleteItemUnsafe
  split
  next => rw [data_removeFromEvictionPolicy]
  next hkey =>
    apply AList.ext
    exact (List.kerase_of_notMem_keys hkey).symm

end

theorem deleteItemUnsafe_of_notMem {key : Bytes} (hkey : key ∉ cache.data) :
    cache.deleteItemUnsafe policy key = cache :=
  if_neg hkey

theorem deleteItemUnsafe_lru (hmirrors : Mirrors .lru cache) {key : Bytes}
    (hkey : key ∈ cache.data) :
    ∃ element ∈ cache.lruList, element.key = key ∧
      cache.deleteItemUnsafe .lru key = { cache with
        data := cache.data.erase key
        lruList := cache.lruList.erase element
        lruIndex := cache.lruIndex.erase key } := by
  obtain ⟨element, helement, hsame, hindex⟩ := hmirrors.exists_element hkey
  refine ⟨element, helement, hsame, ?_⟩
  rw [deleteItemUnsafe, if_pos hkey]
  simp only [removeFromEvictionPolicy, hindex]

/-- Deleting a key keeps a structure that is told of it. -/
theorem Mirrors.deleteItemUnsafe (hmirrors : Mirrors policy cache) {key : Bytes}
    (hkey : policy = .lfu → key ∉ cache.data) :
    Mirrors policy (cache.deleteItemUnsafe policy key) := by
  by_cases hmem : key ∈ cache.data
  · cases policy with
    | lru =>
        have hnodup := hmirrors.lru_nodup
        obtain ⟨element, helement, hsame, heq⟩ := deleteItemUnsafe_lru hmirrors hmem
        rw [heq]
        constructor
        · simp only [map_key_erase hnodup helement, hsame, keys_erase]
          exact hmirrors.1.erase key
        · intro other found
          simp only [GoMap.lookup_erase_if]
          have hlist : cache.lruList.Nodup := List.Nodup.of_map _ hnodup
          rw [hlist.mem_erase_iff]
          split
          next hother =>
            subst hother
            constructor
            · intro hnone
              cases hnone
            · rintro ⟨⟨hne, hfound⟩, hfoundKey⟩
              exact absurd (List.inj_on_of_nodup_map hnodup hfound helement
                (hfoundKey.trans hsame.symm)) hne
          next hother =>
            rw [hmirrors.2 other found]
            constructor
            · rintro ⟨hfound, hfoundKey⟩
              refine ⟨⟨?_, hfound⟩, hfoundKey⟩
              rintro rfl
              exact hother (hfoundKey.symm.trans hsame)
            · exact fun hfound => ⟨hfound.1.2, hfound.2⟩
    | lfu => exact absurd hmem (hkey rfl)
    | fifo =>
        rw [RobustMemoryCache.deleteItemUnsafe, if_pos hmem]
        simp only [Mirrors, removeFromEvictionPolicy, keys_erase]
        exact List.Perm.erase key hmirrors
    | ttl => trivial
  · rwa [deleteItemUnsafe_of_notMem hmem]

theorem Ordered.deleteItemUnsafe (hmirrors : Mirrors policy cache)
    (hordered : Ordered policy past cache) {key : Bytes} (hkey : policy = .lfu → key ∉ cache.data) :
    Ordered policy past (cache.deleteItemUnsafe policy key) := by
  by_cases hmem : key ∈ cache.data
  · cases policy with
    | lru =>
        obtain ⟨element, _, _, heq⟩ := deleteItemUnsafe_lru hmirrors hmem
        rw [heq]
        exact Latest.sublist hordered (List.erase_sublist.map Element.key)
    | lfu => exact absurd hmem (hkey rfl)
    | fifo =>
        rw [RobustMemoryCache.deleteItemUnsafe, if_pos hmem]
        exact Latest.sublist hordered (List.reverse_sublist.mpr List.erase_sublist)
    | ttl => trivial
  · rwa [deleteItemUnsafe_of_notMem hmem]

/-! ## Evicting a key -/

/-- The time at which a cached key was inserted. -/
def createdAt (data : GoMap Bytes (CacheItem V)) (key : Bytes) : Int :=
  ((data.lookup key).map CacheItem.createdAt).getD 0

theorem createdAt_of_lookup {data : GoMap Bytes (CacheItem V)} {key : Bytes} {item : CacheItem V}
    (hitem : data.lookup key = some item) : createdAt data key = item.createdAt := by
  simp [createdAt, hitem]

/-- The first of the oldest keys in the order of a walk. -/
structure FirstOldest (data : GoMap Bytes (CacheItem V)) (front : List Bytes) (key : Bytes)
    (back : List Bytes) : Prop where
  front : ∀ other ∈ front, createdAt data key < createdAt data other
  back : ∀ other ∈ back, createdAt data key ≤ createdAt data other

theorem exists_firstOldest (data : GoMap Bytes (CacheItem V)) {order : List Bytes}
    (horder : order ≠ []) :
    ∃ front key back, order = front ++ key :: back ∧ FirstOldest data front key back := by
  induction order with
  | nil => exact absurd rfl horder
  | cons first rest ih =>
      by_cases hrest : rest = []
      · exact ⟨[], first, [], by rw [hrest]; rfl, by simp, by simp⟩
      · obtain ⟨front, key, back, rfl, hfirst⟩ := ih hrest
        by_cases hle : createdAt data first ≤ createdAt data key
        · refine ⟨[], first, front ++ key :: back, rfl, by simp, ?_⟩
          intro other hother
          rcases List.mem_append.mp hother with hother | hother
          · exact hle.trans (hfirst.front other hother).le
          · rcases List.mem_cons.mp hother with rfl | hother
            · exact hle
            · exact hle.trans (hfirst.back other hother)
        · refine ⟨first :: front, key, back, rfl, ?_, hfirst.back⟩
          intro other hother
          rcases List.mem_cons.mp hother with rfl | hother
          · exact not_le.mp hle
          · exact hfirst.front other hother

section Oldest

variable {data : GoMap Bytes (CacheItem V)}

theorem older_of_mem {key oldestKey : Bytes} {oldestTime : Int} (hkey : key ∈ data) :
    older data (oldestKey, oldestTime) key =
      if oldestKey = [] ∨ createdAt data key < oldestTime then (key, createdAt data key)
      else (oldestKey, oldestTime) := by
  obtain ⟨item, hitem⟩ := Option.isSome_iff_exists.mp (AList.lookup_isSome.mpr hkey)
  simp only [older, hitem, createdAt_of_lookup hitem]

/-- Only keys that are newer have been seen. -/
theorem foldl_older_front {front : List Bytes} {time : Int} {start : Bytes × Int}
    (hstart : start.1 = [] ∨ time < start.2) (hmem : ∀ key ∈ front, key ∈ data)
    (hfront : ∀ key ∈ front, time < createdAt data key) :
    (front.foldl (older data) start).1 = [] ∨ time < (front.foldl (older data) start).2 := by
  induction front generalizing start with
  | nil => exact hstart
  | cons key rest ih =>
      rw [List.foldl_cons]
      apply ih _ (fun other hother => hmem other (List.mem_cons_of_mem _ hother))
        (fun other hother => hfront other (List.mem_cons_of_mem _ hother))
      obtain ⟨oldestKey, oldestTime⟩ := start
      rw [older_of_mem (hmem key List.mem_cons_self)]
      split
      next => exact Or.inr (hfront key List.mem_cons_self)
      next => exact hstart

/-- The oldest key is not replaced any more. -/
theorem foldl_older_back {back : List Bytes} {key : Bytes} (hkey : key ≠ [])
    (hmem : ∀ other ∈ back, other ∈ data)
    (hback : ∀ other ∈ back, createdAt data key ≤ createdAt data other) :
    back.foldl (older data) (key, createdAt data key) = (key, createdAt data key) := by
  induction back with
  | nil => rfl
  | cons other rest ih =>
      rw [List.foldl_cons, older_of_mem (hmem other List.mem_cons_self), if_neg]
      · exact ih (fun later hlater => hmem later (List.mem_cons_of_mem _ hlater))
          (fun later hlater => hback later (List.mem_cons_of_mem _ hlater))
      · rintro (hnil | hlt)
        · exact hkey hnil
        · have hle := hback other List.mem_cons_self
          omega

theorem oldest_eq {front back : List Bytes} {key : Bytes} (hnil : [] ∉ data)
    (hmem : ∀ other ∈ front ++ key :: back, other ∈ data)
    (hfirst : FirstOldest data front key back) : (oldest data (front ++ key :: back)).1 = key := by
  have hkeyMem : key ∈ data := hmem key (by simp)
  have hkey : key ≠ [] := by
    rintro rfl
    exact hnil hkeyMem
  have hfront := @foldl_older_front _ data front (createdAt data key) ([], 0) (Or.inl rfl)
    (fun other hother => hmem other (by simp [hother])) hfirst.front
  rw [oldest, List.foldl_append, List.foldl_cons]
  generalize front.foldl (older data) ([], 0) = seen at hfront
  obtain ⟨oldestKey, oldestTime⟩ := seen
  rw [older_of_mem hkeyMem, if_pos hfront,
    foldl_older_back hkey (fun other hother => hmem other (by simp [hother])) hfirst.back]

end Oldest

/-- The key of the next eviction, read off the state and the order of the walk. -/
def Next (policy : EvictionPolicy) (cache : RobustMemoryCache V) (order : List Bytes)
    (key : Bytes) : Prop :=
  match policy with
  | .lru => (cache.lruList.map Element.key).getLast? = some key
  | .lfu => (cache.lfuHeap.map LfuItem.key).head? = some key
  | .fifo => cache.fifoQueue.head? = some key
  | .ttl => ∃ front back, order = front ++ key :: back ∧ FirstOldest cache.data front key back

theorem exists_next (hmirrors : Mirrors policy cache) (hsize : 0 < cache.data.size)
    {order : List Bytes} (horder : order.Perm cache.data.keys) :
    ∃ key, Next policy cache order key := by
  have hpos : ∀ keys : List Bytes, keys.Perm cache.data.keys → keys ≠ [] := by
    rintro keys hperm rfl
    rw [GoMap.size, ← hperm.length_eq] at hsize
    exact absurd hsize (by simp)
  cases policy with
  | lru =>
      have hne := hpos _ hmirrors.1
      exact ⟨_, List.getLast?_eq_getLast_of_ne_nil hne⟩
  | lfu =>
      have hne := hpos _ hmirrors.1
      exact ⟨_, List.head?_eq_some_head hne⟩
  | fifo => exact ⟨_, List.head?_eq_some_head (hpos _ hmirrors)⟩
  | ttl =>
      obtain ⟨front, key, back, horder, hfirst⟩ := exists_firstOldest cache.data (hpos _ horder)
      exact ⟨key, front, back, horder, hfirst⟩

theorem Next.least (hmirrors : Mirrors policy cache) (hordered : Ordered policy past cache)
    {order : List Bytes} (horder : order.Perm cache.data.keys) {victim : Bytes}
    (hnext : Next policy cache order victim) : Least policy past cache victim := by
  cases policy with
  | lru =>
      refine ⟨hmirrors.1.mem_iff.mp (List.mem_of_getLast? hnext), ?_⟩
      intro key hkey
      exact Latest.le_last hordered hnext key (hmirrors.1.mem_iff.mpr hkey)
  | lfu =>
      obtain ⟨root, rest, hheap, rfl⟩ : ∃ root rest, cache.lfuHeap = root :: rest ∧
          root.key = victim := by
        cases hheap : cache.lfuHeap with
        | nil => simp [Next, hheap] at hnext
        | cons root rest => exact ⟨root, rest, rfl, by simpa [Next, hheap] using hnext⟩
      have hroot : root ∈ cache.lfuHeap := by simp [hheap]
      refine ⟨hmirrors.1.mem_iff.mp (List.mem_map_of_mem hroot), ?_⟩
      intro key hkey item least hitem hleast
      obtain ⟨entry, hentry, rfl⟩ := List.mem_map.mp (hmirrors.1.mem_iff.mpr hkey)
      obtain ⟨item', hitem', hcount⟩ := hmirrors.2 entry hentry
      obtain ⟨least', hleast', hleastCount⟩ := hmirrors.2 root hroot
      rw [hitem] at hitem'
      rw [hleast] at hleast'
      obtain rfl := Option.some.inj hitem'
      obtain rfl := Option.some.inj hleast'
      rw [hcount, hleastCount]
      rw [hheap] at hentry
      rcases List.mem_cons.mp hentry with rfl | hrest
      · exact le_rfl
      · have hheapOrdered : lfu.Ordered cache.lfuHeap := hordered
        rw [hheap] at hheapOrdered
        have hnot := lfu.root_least hheapOrdered hrest
        unfold lfuLess at hnot
        split at hnot
        next heq => exact heq.ge
        next => simpa using hnot
  | fifo =>
      refine ⟨hmirrors.mem_iff.mp (List.mem_of_head? hnext), ?_⟩
      intro key hkey
      apply Latest.le_last hordered (by rw [List.getLast?_reverse]; exact hnext)
      exact List.mem_reverse.mpr (hmirrors.mem_iff.mpr hkey)
  | ttl =>
      obtain ⟨front, back, rfl, hfirst⟩ := hnext
      refine ⟨horder.mem_iff.mp (by simp), ?_⟩
      intro key hkey item least hitem hleast
      rw [← createdAt_of_lookup hitem, ← createdAt_of_lookup hleast]
      rcases List.mem_append.mp (horder.mem_iff.mpr hkey) with hkey | hkey
      · exact (hfirst.front key hkey).le
      · rcases List.mem_cons.mp hkey with rfl | hkey
        · exact le_rfl
        · exact hfirst.back key hkey

/-- What an eviction leaves. -/
structure Evicted (policy : EvictionPolicy) (past : List (Call V)) (cache : RobustMemoryCache V)
    (victim : Bytes) (after : RobustMemoryCache V) : Prop where
  data : after.data = cache.data.erase victim
  mirrors : Mirrors policy after
  ordered : Ordered policy past after

theorem evicted_deleteItemUnsafe (hpolicy : policy ≠ .lfu) (hmirrors : Mirrors policy cache)
    (hordered : Ordered policy past cache) (key : Bytes) :
    Evicted policy past cache key (cache.deleteItemUnsafe policy key) where
  data := data_deleteItemUnsafe policy cache key
  mirrors := hmirrors.deleteItemUnsafe fun h => absurd h hpolicy
  ordered := hordered.deleteItemUnsafe hmirrors fun h => absurd h hpolicy

theorem Next.evicted (hkeys : [] ∉ cache.data) (hmirrors : Mirrors policy cache)
    (hordered : Ordered policy past cache) {order : List Bytes}
    (horder : order.Perm cache.data.keys) {victim : Bytes}
    (hnext : Next policy cache order victim) :
    Evicted policy past cache victim (cache.evictOneEntry policy order) := by
  have hmem := (hnext.least hmirrors hordered horder).1
  have hne : victim ≠ [] := by
    rintro rfl
    exact hkeys hmem
  cases policy with
  | lru =>
      obtain ⟨element, helement, rfl⟩ := Option.map_eq_some_iff.mp
        ((List.getLast?_map ..).symm.trans hnext)
      have heq : cache.evictOneEntry .lru order = cache.deleteItemUnsafe .lru element.key := by
        simp [evictOneEntry, keyToEvict, helement, hne]
      rw [heq]
      exact evicted_deleteItemUnsafe (by decide) hmirrors hordered element.key
  | lfu =>
      cases hheap : cache.lfuHeap with
      | nil => simp [Next, hheap] at hnext
      | cons root rest =>
          obtain rfl : root.key = victim := by simpa [Next, hheap] using hnext
          obtain ⟨⟨item, left⟩, hpop⟩ := Option.isSome_iff_exists.mp
            (lfu.pop_isSome (List.cons_ne_nil root rest))
          have hheapOrdered : lfu.Ordered cache.lfuHeap := hordered
          rw [hheap] at hheapOrdered
          obtain ⟨hroot, hleft⟩ := lfu.ordered_pop hheapOrdered hpop
          have hperm := lfu.pop_perm hpop
          simp only at hroot hleft hperm
          subst hroot
          have heq : cache.evictOneEntry .lfu order =
              { cache with data := cache.data.erase item.key, lfuHeap := left } := by
            simp [evictOneEntry, keyToEvict, hheap, hpop, hne, deleteItemUnsafe, hmem,
              removeFromEvictionPolicy]
          rw [heq]
          rw [← hheap] at hperm
          have hkeysPerm : (item.key :: left.map LfuItem.key).Perm cache.data.keys :=
            (hperm.map LfuItem.key).trans hmirrors.1
          refine ⟨rfl, ⟨?_, ?_⟩, hleft⟩
          · simp only [keys_erase]
            simpa using hkeysPerm.erase item.key
          · intro entry hentry
            obtain ⟨found, hfound, hcount⟩ :=
              hmirrors.2 entry (hperm.mem_iff.mp (List.mem_cons_of_mem _ hentry))
            have hnodup : (item.key :: left.map LfuItem.key).Nodup :=
              hkeysPerm.nodup_iff.mpr cache.data.nodupKeys
            have hother : entry.key ≠ item.key := by
              intro hsame
              exact (List.nodup_cons.mp hnodup).1 (hsame ▸ List.mem_map_of_mem hentry)
            exact ⟨found, by simp only [GoMap.lookup_erase_if, if_neg hother, hfound], hcount⟩
  | fifo =>
      have heq : cache.evictOneEntry .fifo order = cache.deleteItemUnsafe .fifo victim := by
        obtain ⟨rest, hqueue⟩ := List.head?_eq_some_iff.mp hnext
        simp [evictOneEntry, keyToEvict, hqueue, hne]
      rw [heq]
      exact evicted_deleteItemUnsafe (by decide) hmirrors hordered victim
  | ttl =>
      obtain ⟨front, back, rfl, hfirst⟩ := hnext
      have hold := oldest_eq hkeys (fun other hother => horder.mem_iff.mp hother) hfirst
      have heq : cache.evictOneEntry .ttl (front ++ victim :: back) =
          cache.deleteItemUnsafe .ttl victim := by
        simp [evictOneEntry, keyToEvict, hold, hne]
      rw [heq]
      exact evicted_deleteItemUnsafe (by decide) hmirrors hordered victim

/-! ## Adding a key -/

section Add

variable {key : Bytes}

theorem keys_insert_of_notMem {W : Type} {m : GoMap Bytes W} (hkey : key ∉ m) (w : W) :
    (m.insert key w).keys = key :: m.keys := by
  rw [keys_insert, List.erase_of_not_mem hkey]

theorem keys_insert_perm {W : Type} {m : GoMap Bytes W} (hkey : key ∈ m) (w : W) :
    (m.insert key w).keys.Perm m.keys := by
  rw [keys_insert]
  exact (List.perm_cons_erase hkey).symm

/-- The cache with a new item, of which the policy is told. -/
def add (policy : EvictionPolicy) (cache : RobustMemoryCache V) (key : Bytes) (item : CacheItem V) :
    RobustMemoryCache V :=
  { cache with data := cache.data.insert key item }.addToEvictionPolicy policy key item

theorem data_add (policy : EvictionPolicy) (cache : RobustMemoryCache V) (key : Bytes)
    (item : CacheItem V) : (cache.add policy key item).data = cache.data.insert key item := by
  cases policy <;> rfl

theorem Mirrors.add (hmirrors : Mirrors policy cache) (hkey : key ∉ cache.data)
    (item : CacheItem V) : Mirrors policy (cache.add policy key item) := by
  have hinsert := @keys_insert_of_notMem key _ _ hkey item
  cases policy with
  | lru =>
      constructor
      · simp only [RobustMemoryCache.add, addToEvictionPolicy, List.map_cons, hinsert]
        exact hmirrors.1.cons key
      · intro other element
        simp only [RobustMemoryCache.add, addToEvictionPolicy, GoMap.lookup_insert_if,
          List.mem_cons]
        have hnew : ∀ old ∈ cache.lruList, old.key ≠ key := by
          rintro old hold rfl
          exact hkey (hmirrors.1.mem_iff.mp (List.mem_map_of_mem hold))
        by_cases hother : other = key
        · subst hother
          rw [if_pos rfl]
          constructor
          · intro heq
            obtain rfl := Option.some.inj heq
            exact ⟨Or.inl rfl, rfl⟩
          · rintro ⟨rfl | hold, hsame⟩
            · rfl
            · exact absurd hsame (hnew element hold)
        · rw [if_neg hother, hmirrors.2 other element]
          constructor
          · exact fun hold => ⟨Or.inr hold.1, hold.2⟩
          · rintro ⟨rfl | hold, hsame⟩
            · exact absurd hsame.symm hother
            · exact ⟨hold, hsame⟩
  | lfu =>
      have hperm := lfu.push_perm cache.lfuHeap ⟨key, item.hitCount, item.accessAt⟩
      constructor
      · simp only [RobustMemoryCache.add, addToEvictionPolicy, hinsert]
        exact (hperm.map LfuItem.key).trans (hmirrors.1.cons key)
      · intro entry hentry
        simp only [RobustMemoryCache.add, addToEvictionPolicy, GoMap.lookup_insert_if]
        rcases List.mem_cons.mp (hperm.mem_iff.mp hentry) with rfl | hold
        · exact ⟨item, if_pos rfl, rfl⟩
        · obtain ⟨found, hfound, hcount⟩ := hmirrors.2 entry hold
          have hother : entry.key ≠ key := by
            intro hsame
            exact hkey (hsame ▸ GoMap.mem_of_lookup_eq_some hfound)
          exact ⟨found, by rw [if_neg hother, hfound], hcount⟩
  | fifo =>
      simp only [Mirrors, RobustMemoryCache.add, addToEvictionPolicy, hinsert]
      exact (List.perm_append_singleton key _).trans (List.Perm.cons key hmirrors)
  | ttl => trivial

theorem Ordered.add (hmirrors : Mirrors policy cache) (hordered : Ordered policy past cache)
    (hkey : key ∉ cache.data) (item : CacheItem V) (value : V) (ttl now : Int)
    (order : List Bytes) :
    Ordered policy (.set key value ttl now order :: past) (cache.add policy key item) := by
  cases policy with
  | lru =>
      apply Latest.cons hordered (by simp [Call.uses])
      intro other hother
      have hne : key ≠ other := by
        rintro rfl
        exact hkey (hmirrors.1.mem_iff.mp hother)
      simp [Call.uses, hne]
  | lfu => exact lfu.ordered_push hordered
  | fifo =>
      simp only [Ordered, RobustMemoryCache.add, addToEvictionPolicy, List.reverse_append,
        List.reverse_singleton, List.singleton_append]
      apply Latest.cons hordered (by simp [Call.sets])
      intro other hother
      have hne : key ≠ other := by
        rintro rfl
        exact hkey (hmirrors.mem_iff.mp (List.mem_reverse.mp hother))
      simp [Call.sets, hne]
  | ttl => trivial

end Add

/-! ## Using a key -/

section Use

variable {key : Bytes}

/-- A hit of `Get`. -/
def use (policy : EvictionPolicy) (cache : RobustMemoryCache V) (key : Bytes) (item : CacheItem V) :
    RobustMemoryCache V :=
  { cache with data := cache.data.insert key item }.updateEvictionPolicy policy key item

theorem data_use (policy : EvictionPolicy) (cache : RobustMemoryCache V) (key : Bytes)
    (item : CacheItem V) : (cache.use policy key item).data = cache.data.insert key item := by
  cases policy with
  | lru =>
      simp only [use, updateEvictionPolicy]
      split <;> rfl
  | lfu => rfl
  | fifo => rfl
  | ttl => rfl

theorem use_lru (hmirrors : Mirrors .lru cache) (hkey : key ∈ cache.data) (item : CacheItem V) :
    ∃ element ∈ cache.lruList, element.key = key ∧
      cache.use .lru key item = { cache with
        data := cache.data.insert key item
        lruList := element :: cache.lruList.erase element } := by
  obtain ⟨element, helement, hsame, hindex⟩ := hmirrors.exists_element hkey
  refine ⟨element, helement, hsame, ?_⟩
  simp only [use, updateEvictionPolicy, hindex]

section

variable (hpolicy : policy ≠ .lfu) (hmirrors : Mirrors policy cache)

include hpolicy hmirrors

theorem Mirrors.use (hkey : key ∈ cache.data) (item : CacheItem V) :
    Mirrors policy (cache.use policy key item) := by
  have hinsert := @keys_insert_perm key _ _ hkey item
  cases policy with
  | lru =>
      obtain ⟨element, helement, hsame, heq⟩ := use_lru hmirrors hkey item
      rw [heq]
      have hperm : (element :: cache.lruList.erase element).Perm cache.lruList :=
        (List.perm_cons_erase helement).symm
      constructor
      · exact (hperm.map Element.key).trans (hmirrors.1.trans hinsert.symm)
      · intro other found
        simp only [hmirrors.2 other found, hperm.mem_iff]
  | lfu => exact absurd rfl hpolicy
  | fifo => exact hmirrors.trans hinsert.symm
  | ttl => trivial

theorem Ordered.use (hordered : Ordered policy past cache) (hkey : key ∈ cache.data)
    (item : CacheItem V) (now again touched : Int) :
    Ordered policy (.get key now again touched :: past) (cache.use policy key item) := by
  cases policy with
  | lru =>
      have hnodup := hmirrors.lru_nodup
      obtain ⟨element, helement, rfl, heq⟩ := use_lru hmirrors hkey item
      rw [heq]
      simp only [Ordered, List.map_cons, map_key_erase hnodup helement]
      apply Latest.cons (Latest.sublist hordered List.erase_sublist) (by simp [Call.uses])
      intro other hother
      have hne : element.key ≠ other := by
        rintro rfl
        exact absurd hother hnodup.not_mem_erase
      simp [Call.uses, hne]
  | lfu => exact absurd rfl hpolicy
  | fifo => exact Latest.untouched hordered fun _ _ => rfl
  | ttl => trivial

end

end Use

/-- A call that neither uses nor inserts a cached key. -/
theorem Ordered.untouched (hmirrors : Mirrors policy cache) (hordered : Ordered policy past cache)
    {call : Call V}
    (hcall : ∀ key ∈ cache.data, Call.uses key call = false ∧ Call.sets key call = false) :
    Ordered policy (call :: past) cache := by
  cases policy with
  | lru =>
      exact Latest.untouched hordered fun key hkey => (hcall key (hmirrors.1.mem_iff.mp hkey)).1
  | lfu => exact hordered
  | fifo =>
      exact Latest.untouched hordered fun key hkey =>
        (hcall key (hmirrors.mem_iff.mp (List.mem_reverse.mp hkey))).2
  | ttl => trivial

/-! ## Runs -/

/-- The calls that keep clear of the defects: no `Set` of a cached key evicts another one, and a
heap that is told of no removal is asked for none. -/
def Meets (config : CacheConfig) (cache : RobustMemoryCache V) : Call V → Prop
  | .get key _ _ _ => config.evictionPolicy = .lfu → key ∉ cache.data
  | .set key _ _ _ order => key ∈ cache.data →
      if config.maxSize ≤ cache.data.size then Next config.evictionPolicy cache order key
      else config.evictionPolicy ≠ .lfu
  | .delete key => config.evictionPolicy = .lfu → key ∉ cache.data
  | .clear pattern _ => config.evictionPolicy = .lfu →
      pattern = [] ∨ ∀ key ∈ cache.data, matchesPattern key pattern = false

/-- The cache to which `Set` adds its key. -/
structure Base (config : CacheConfig) (past : List (Call V)) (cache : RobustMemoryCache V)
    (key : Bytes) (base : RobustMemoryCache V) : Prop where
  mirrors : Mirrors config.evictionPolicy base
  ordered : Ordered config.evictionPolicy past base
  absent : key ∉ base.data
  size : base.data.size < config.maxSize
  fewer : ∀ other ∈ base.data, other ∈ cache.data
  kept : key ∈ cache.data → ∀ other ∈ cache.data, other ≠ key → other ∈ base.data

theorem mem_erase_data {W : Type} {m : GoMap Bytes W} {key other : Bytes} :
    other ∈ m.erase key ↔ other ≠ key ∧ other ∈ m := by
  rw [AList.mem_erase]

section

variable (hmax : 1 ≤ config.maxSize) (hconsistent : Consistent config past cache) {key : Bytes}
  {value : V} {ttl now : Int} {order : List Bytes}
  (hadmits : cache.Admits (.set key value ttl now order))
  (hmeets : Meets config cache (.set key value ttl now order))

include hmax hconsistent hadmits hmeets

theorem exists_base :
    ∃ base item, Base config past cache key base ∧
      cache.set config key value ttl now order = base.add config.evictionPolicy key item := by
  have hsize := hconsistent.size
  by_cases hfull : config.maxSize ≤ cache.data.size
  · -- the evicted key is the one that is set, where that one is cached
    have hvictim : ∃ victim, Next config.evictionPolicy cache order victim ∧
        (key ∈ cache.data → victim = key) := by
      by_cases hkey : key ∈ cache.data
      · have hnext := hmeets hkey
        rw [if_pos hfull] at hnext
        exact ⟨key, hnext, fun _ => rfl⟩
      · obtain ⟨victim, hnext⟩ := exists_next hconsistent.mirrors (by omega) hadmits.2
        exact ⟨victim, hnext, fun hmem => absurd hmem hkey⟩
    obtain ⟨victim, hnext, hsame⟩ := hvictim
    have hevicted := hnext.evicted hconsistent.keys hconsistent.mirrors hconsistent.ordered
      hadmits.2
    have hmem := (hnext.least hconsistent.mirrors hconsistent.ordered hadmits.2).1
    have hkey : key ∉ (cache.evictOneEntry config.evictionPolicy order).data := by
      rw [hevicted.data, mem_erase_data]
      rintro ⟨hne, hcached⟩
      exact hne (hsame hcached).symm
    refine ⟨_, ⟨value, now + (if ttl ≤ 0 then config.defaultTTL else ttl), now, now, 1⟩,
      ⟨hevicted.mirrors, hevicted.ordered, hkey, ?_, ?_, ?_⟩, ?_⟩
    · rw [hevicted.data]
      have herase := GoMap.size_erase_of_mem hmem
      omega
    · intro other hother
      rw [hevicted.data, mem_erase_data] at hother
      exact hother.2
    · intro hcached other hother hne
      rw [hevicted.data, mem_erase_data, hsame hcached]
      exact ⟨hne, hother⟩
    · simp only [set, if_pos hfull, if_neg hkey]
      rfl
  · by_cases hkey : key ∈ cache.data
    · have hpolicy := hmeets hkey
      rw [if_neg hfull] at hpolicy
      have hevicted := evicted_deleteItemUnsafe hpolicy hconsistent.mirrors hconsistent.ordered key
      refine ⟨_, ⟨value, now + (if ttl ≤ 0 then config.defaultTTL else ttl), now, now, 1⟩,
        ⟨hevicted.mirrors, hevicted.ordered, ?_, ?_, ?_, ?_⟩, ?_⟩
      · rw [hevicted.data, mem_erase_data]
        exact fun hboth => hboth.1 rfl
      · rw [hevicted.data]
        have herase := GoMap.size_erase_le cache.data key
        omega
      · intro other hother
        rw [hevicted.data, mem_erase_data] at hother
        exact hother.2
      · intro _ other hother hne
        rw [hevicted.data, mem_erase_data]
        exact ⟨hne, hother⟩
      · simp only [set, if_neg hfull, if_pos hkey]
        rfl
    · refine ⟨cache, ⟨value, now + (if ttl ≤ 0 then config.defaultTTL else ttl), now, now, 1⟩,
        ⟨hconsistent.mirrors, hconsistent.ordered, hkey, by omega, fun _ h => h,
          fun hcached => absurd hcached hkey⟩, ?_⟩
      simp only [set, if_neg hfull, if_neg hkey]
      rfl

theorem Consistent.set :
    Consistent config (.set key value ttl now order :: past)
      (cache.set config key value ttl now order) := by
  obtain ⟨base, item, hbase, heq⟩ := exists_base hmax hconsistent hadmits hmeets
  rw [heq]
  constructor
  case size =>
    have hinsert := GoMap.size_insert_of_notMem hbase.absent item
    have hlt := hbase.size
    rw [data_add]
    omega
  case keys =>
    rw [data_add, AList.mem_insert]
    rintro (hnil | hmem)
    · exact hadmits.1 hnil.symm
    · exact hconsistent.keys (hbase.fewer _ hmem)
  case mirrors => exact hbase.mirrors.add hbase.absent item
  case ordered => exact hbase.ordered.add hbase.mirrors hbase.absent item value ttl now order

end

section

variable (hconsistent : Consistent config past cache)

include hconsistent

theorem Consistent.get {key : Bytes} {now again touched : Int}
    (hadmits : cache.Admits (.get key now again touched))
    (hmeets : Meets config cache (.get key now again touched)) :
    Consistent config (.get key now again touched :: past)
      (cache.get config key now again touched).1 := by
  cases hitem : cache.data.lookup key with
  | none =>
      simp only [RobustMemoryCache.get, hitem]
      refine ⟨hconsistent.size, hconsistent.keys, hconsistent.mirrors, ?_⟩
      apply hconsistent.ordered.untouched hconsistent.mirrors
      intro other hother
      have hne : key ≠ other := by
        rintro rfl
        exact AList.lookup_eq_none.mp hitem hother
      simp [Call.uses, Call.sets, hne]
  | some item =>
      have hkey := GoMap.mem_of_lookup_eq_some hitem
      have hpolicy : config.evictionPolicy ≠ .lfu := fun hlfu => hmeets hlfu hkey
      have heq : (cache.get config key now again touched).1 =
          cache.use config.evictionPolicy key (item.touch touched) := by
        simp only [RobustMemoryCache.get, hitem, hadmits.2 item hitem]
        rfl
      rw [heq]
      constructor
      case size =>
        rw [data_use, GoMap.size_insert_of_mem hkey]
        exact hconsistent.size
      case keys =>
        rw [data_use, AList.mem_insert]
        rintro (hnil | hmem)
        · exact hadmits.1 hnil.symm
        · exact hconsistent.keys hmem
      case mirrors => exact hconsistent.mirrors.use hpolicy hkey _
      case ordered =>
        exact hconsistent.ordered.use hpolicy hconsistent.mirrors hkey _ now again touched

theorem Consistent.deleteItemUnsafe {key : Bytes}
    (hkey : config.evictionPolicy = .lfu → key ∉ cache.data) :
    Consistent config past (cache.deleteItemUnsafe config.evictionPolicy key) where
  size := by
    rw [data_deleteItemUnsafe]
    exact (GoMap.size_erase_le _ _).trans hconsistent.size
  keys := by
    rw [data_deleteItemUnsafe, mem_erase_data]
    exact fun hboth => hconsistent.keys hboth.2
  mirrors := hconsistent.mirrors.deleteItemUnsafe hkey
  ordered := hconsistent.ordered.deleteItemUnsafe hconsistent.mirrors hkey

theorem Consistent.foldl_delete {keys : List Bytes}
    (hkeys : config.evictionPolicy = .lfu → keys = []) :
    Consistent config past
      (keys.foldl (RobustMemoryCache.deleteItemUnsafe config.evictionPolicy) cache) := by
  induction keys generalizing cache with
  | nil => exact hconsistent
  | cons key rest ih =>
      have hpolicy : config.evictionPolicy ≠ .lfu := fun hlfu => by cases hkeys hlfu
      exact ih (hconsistent.deleteItemUnsafe fun hlfu => absurd hlfu hpolicy)
        fun hlfu => absurd hlfu hpolicy

end

theorem consistent_new (config : CacheConfig) (past : List (Call V)) (elements : Nat) :
    Consistent config past { (new : RobustMemoryCache V) with elements := elements } where
  size := Nat.zero_le _
  keys := by
    intro hmem
    cases hmem
  mirrors := by
    cases hpolicy : config.evictionPolicy <;> simp [Mirrors, new]
  ordered := by
    cases hpolicy : config.evictionPolicy
    case lru => exact List.Pairwise.nil
    case lfu => exact lfu.ordered_nil
    case fifo => exact List.Pairwise.nil
    case ttl => trivial

/-- A call that touches no key leaves the order of the keys. -/
theorem Consistent.untouched (hconsistent : Consistent config past cache) {call : Call V}
    (hcall : ∀ key, Call.uses key call = false ∧ Call.sets key call = false) :
    Consistent config (call :: past) cache :=
  { hconsistent with
    ordered := hconsistent.ordered.untouched hconsistent.mirrors fun key _ => hcall key }

theorem Consistent.step (hmax : 1 ≤ config.maxSize) (hconsistent : Consistent config past cache)
    {call : Call V} (hadmits : cache.Admits call) (hmeets : Meets config cache call) :
    Consistent config (call :: past) (cache.step config call) := by
  cases call with
  | get key now again touched => exact hconsistent.get hadmits hmeets
  | set key value ttl now order => exact hconsistent.set hmax hadmits hmeets
  | delete key => exact (hconsistent.deleteItemUnsafe hmeets).untouched fun _ => ⟨rfl, rfl⟩
  | clear pattern order =>
      simp only [RobustMemoryCache.step, clear]
      split
      next => exact consistent_new config _ cache.elements
      next hpattern =>
        apply Consistent.untouched _ fun _ => ⟨rfl, rfl⟩
        apply hconsistent.foldl_delete
        intro hlfu
        have hnone := (hmeets hlfu).resolve_left hpattern
        apply List.filter_eq_nil_iff.mpr
        intro key hkey
        rw [hnone key (hadmits.mem_iff.mp hkey)]
        exact Bool.false_ne_true

/-- The states of runs whose calls keep clear of the defects, with the calls so far. -/
inductive Reached (config : CacheConfig) : List (Call V) → RobustMemoryCache V → Prop
  | new : Reached config [] new
  | step {past : List (Call V)} {cache : RobustMemoryCache V} {call : Call V}
      (hreached : Reached config past cache) (hadmits : cache.Admits call)
      (hmeets : Meets config cache call) : Reached config (call :: past) (cache.step config call)

theorem consistent_of_reached (hmax : 1 ≤ config.maxSize) (hreached : Reached config past cache) :
    Consistent config past cache := by
  induction hreached with
  | new => exact consistent_new config [] 0
  | step hreached hadmits hmeets ih => exact ih.step hmax hadmits hmeets

/-- What is promised of a state of the cache and of the next `Set`. -/
structure Upheld (config : CacheConfig) (past : List (Call V)) (cache : RobustMemoryCache V) :
    Prop where
  size : cache.data.size ≤ config.maxSize
  mirrors : Mirrors config.evictionPolicy cache
  evicts : config.maxSize ≤ cache.data.size → ∀ order : List Bytes, order.Perm cache.data.keys →
    ∃ victim, Least config.evictionPolicy past cache victim ∧
      (cache.evictOneEntry config.evictionPolicy order).data = cache.data.erase victim
  keeps : ∀ key value ttl now order, key ∈ cache.data →
    cache.Admits (.set key value ttl now order) → Meets config cache (.set key value ttl now order) →
      ∀ other ∈ cache.data, other ∈ (cache.set config key value ttl now order).data

/-- A run of calls that keep clear of the defects keeps every promise. -/
theorem upheld_of_reached (hmax : 1 ≤ config.maxSize) (hreached : Reached config past cache) :
    Upheld config past cache := by
  have hconsistent := consistent_of_reached hmax hreached
  constructor
  case size => exact hconsistent.size
  case mirrors => exact hconsistent.mirrors
  case evicts =>
    intro hfull order horder
    obtain ⟨victim, hnext⟩ := exists_next hconsistent.mirrors (by omega) horder
    exact ⟨victim, hnext.least hconsistent.mirrors hconsistent.ordered horder,
      (hnext.evicted hconsistent.keys hconsistent.mirrors hconsistent.ordered horder).data⟩
  case keeps =>
    intro key value ttl now order hkey hadmits hmeets other hother
    obtain ⟨base, item, hbase, heq⟩ := exists_base hmax hconsistent hadmits hmeets
    rw [heq, data_add, AList.mem_insert]
    by_cases hsame : other = key
    · exact Or.inl hsame
    · exact Or.inr (hbase.kept hkey other hother hsame)

/-- Two keys in a cache of two, the first of which is used last. -/
theorem reached_two : Reached ⟨2, 1, .lru⟩
    [Call.get [1] 0 0 0, .set [2] () 1 0 [[1]], .set [1] () 1 0 []]
      (step ⟨2, 1, .lru⟩ (step ⟨2, 1, .lru⟩ (step ⟨2, 1, .lru⟩ new (.set [1] () 1 0 []))
        (.set [2] () 1 0 [[1]])) (.get [1] 0 0 0)) := by
  apply Reached.step
  · apply Reached.step
    · apply Reached.step Reached.new
      · exact ⟨by decide, List.Perm.refl _⟩
      · intro hkey
        cases hkey
    · exact ⟨by decide, by decide⟩
    · intro hkey
      exact absurd hkey (by decide)
  · refine ⟨by decide, ?_⟩
    intro item hitem
    obtain rfl := Option.some.inj hitem
    decide
  · intro hlfu
    cases hlfu

/-- The next eviction takes the key that was not used. -/
theorem upheld_of_reached_two : Upheld ⟨2, 1, .lru⟩
    [Call.get [1] 0 0 0, .set [2] () 1 0 [[1]], .set [1] () 1 0 []]
      (step ⟨2, 1, .lru⟩ (step ⟨2, 1, .lru⟩ (step ⟨2, 1, .lru⟩ new (.set [1] () 1 0 []))
        (.set [2] () 1 0 [[1]])) (.get [1] 0 0 0)) :=
  upheld_of_reached (by decide) reached_two

/-- A `Set` of the cached key 1 evicts the key 2 from a full cache. Under LFU, a deleted key is
evicted in the place of a cached one, and the cache outgrows its size. -/
theorem set_evicts_another :
    (∃ (config : CacheConfig) (past : List (Call Unit)) (cache : RobustMemoryCache Unit),
      Reached config past cache ∧ cache.Admits (.set [1] () 1 0 [[1], [2]]) ∧ [1] ∈ cache.data ∧
        [2] ∈ cache.data ∧ [2] ∉ (cache.set config [1] () 1 0 [[1], [2]]).data) ∧
      ([.set [1] () 1 0 [], .delete [1], .set [2] () 1 0 [], .set [3] () 1 0 [[2]]].foldl
        (step ⟨1, 1, .lfu⟩) (new : RobustMemoryCache Unit)).data.size = 2 := by
  refine ⟨⟨_, _, _, reached_two, ⟨by decide, by decide⟩, by decide, by decide, by decide⟩, ?_⟩
  decide +kernel

end RobustMemoryCache

end Vectron.Reranker.Cache
