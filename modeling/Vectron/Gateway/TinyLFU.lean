import Vectron.Foundation.MapEdit
import Vectron.Foundation.Run

/-! # The cache of search results

`TinyLFUCache` in `apigateway/cmd/apigateway/main.go`. A key is let in at its second request
while there is room, and otherwise if it was used more often than the key that was used least.
How often a key was used is counted only while it is cached. Counters stay below the end of their
range. The log of the calls is not in the code.
-/

namespace Vectron.Gateway

open Foundation

variable {V : Type}

/-- An entry, with the fields of the source. -/
structure CacheEntry (V : Type) where
  value : V
  timestamp : Int
  freq : Nat

structure TinyLFUCache (V : Type) where
  data : GoMap UInt64 (CacheEntry V)
  freq : GoMap UInt64 Nat
  ttl : Int
  maxSize : Nat
  doorkeeper : GoMap UInt64 Unit
  doorReset : Int

inductive CacheOp (V : Type) where
  | get (key : UInt64) (now : Int)
  /-- the order is that of the search for the key that was used least -/
  | set (key : UInt64) (value : V) (now : Int) (order : RangeOrder)

def CacheOp.key : CacheOp V → UInt64
  | .get key _ => key
  | .set key _ _ _ => key

namespace TinyLFUCache

def new (ttl : Int) (maxSize : Nat) : TinyLFUCache V := ⟨∅, ∅, ttl, maxSize, ∅, maxSize * 10⟩

/-- `c.freq[key]`. -/
def freqOf (cache : TinyLFUCache V) (key : UInt64) : Nat := (cache.freq.lookup key).getD 0

def delete (cache : TinyLFUCache V) (key : UInt64) : TinyLFUCache V :=
  { cache with data := cache.data.erase key, freq := cache.freq.erase key }

def get (cache : TinyLFUCache V) (key : UInt64) (now : Int) : TinyLFUCache V × Option V :=
  match cache.data.lookup key with
  | none => (cache, none)
  | some entry =>
      if cache.ttl < now - entry.timestamp then (cache.delete key, none)
      else
        let freq := cache.freqOf key + 1
        ({ cache with
            data := cache.data.insert key { entry with freq := freq }
            freq := cache.freq.insert key freq }, some entry.value)

/-- The loop for `minKey` and `minFreq`. -/
def leastUsed (cache : TinyLFUCache V) (order : RangeOrder) : UInt64 × Nat :=
  (order.range cache.data).foldl
    (fun least entry =>
      if cache.freqOf entry.1 < least.2 then (entry.1, cache.freqOf entry.1) else least)
    (0, 2 ^ 63 - 1)

/-- A rejection, after which the doorkeeper may forget what it has seen. -/
def reject (cache : TinyLFUCache V) : TinyLFUCache V :=
  if cache.doorReset - 1 ≤ 0 then
    { cache with doorkeeper := ∅, doorReset := cache.maxSize * 10 }
  else { cache with doorReset := cache.doorReset - 1 }

def set (cache : TinyLFUCache V) (key : UInt64) (value : V) (now : Int) (order : RangeOrder) :
    TinyLFUCache V × Bool :=
  if key ∈ cache.data then
    ({ cache with
        data := cache.data.insert key ⟨value, now, cache.freqOf key + 1⟩
        freq := cache.freq.insert key (cache.freqOf key + 1) }, true)
  else if key ∉ cache.doorkeeper then
    ({ cache with doorkeeper := cache.doorkeeper.insert key () }, false)
  else if cache.data.size < cache.maxSize then
    ({ cache with
        data := cache.data.insert key ⟨value, now, 1⟩
        freq := cache.freq.insert key 1 }, true)
  else
    let least := cache.leastUsed order
    if least.2 < cache.freqOf key then
      let evicted := cache.delete least.1
      ({ evicted with data := evicted.data.insert key ⟨value, now, evicted.freqOf key⟩ }, true)
    else (cache.reject, false)

end TinyLFUCache

/-- A cache with the calls it has answered. -/
structure LoggedCache (V : Type) where
  cache : TinyLFUCache V
  log : List (CacheOp V)

namespace LoggedCache

def new (ttl : Int) (maxSize : Nat) : LoggedCache V := ⟨.new ttl maxSize, []⟩

/-- How often a key was asked for or stored. -/
def requests (state : LoggedCache V) (key : UInt64) : Nat :=
  state.log.countP fun op => op.key = key

def step (state : LoggedCache V) (op : CacheOp V) : LoggedCache V where
  cache :=
    match op with
    | .get key now => (state.cache.get key now).1
    | .set key value now order => (state.cache.set key value now order).1
  log := state.log ++ [op]

/-- A cached key that no other cached key was requested less often than. -/
def LeastRequested (state : LoggedCache V) (key : UInt64) : Prop :=
  key ∈ state.cache.data ∧ ∀ other ∈ state.cache.data, state.requests key ≤ state.requests other

/-- The operation stores a key that is not cached, in a full cache, and which was requested more
often than a least requested cached key. -/
def Hot (state : LoggedCache V) : CacheOp V → Prop
  | .get _ _ => False
  | .set key _ _ _ =>
      key ∉ state.cache.data ∧ state.cache.maxSize ≤ state.cache.data.size ∧
        ∃ least, state.LeastRequested least ∧ state.requests least < state.requests key

/-- The key is let in, for a least requested key that goes; the others stay. -/
def Admits (state : LoggedCache V) (op : CacheOp V) : Prop :=
  op.key ∈ (state.step op).cache.data ∧
    ∃ least, state.LeastRequested least ∧ least ∉ (state.step op).cache.data ∧
      ∀ other, other ≠ op.key → other ≠ least →
        (other ∈ (state.step op).cache.data ↔ other ∈ state.cache.data)

/-- The cache is within its size, and exactly its keys are counted. -/
structure WellCounted (cache : TinyLFUCache V) : Prop where
  bounded : cache.data.size ≤ cache.maxSize
  counted : ∀ key, key ∈ cache.freq ↔ key ∈ cache.data

/-- What a call should leave: a well-counted cache that has let in the key if it was due. -/
def Serves (state : LoggedCache V) (op : CacheOp V) : Prop :=
  WellCounted (state.step op).cache ∧ (state.Hot op → state.Admits op)

section Counted

variable {cache : TinyLFUCache V} {state : LoggedCache V} {key : UInt64}

section

variable (hcounted : WellCounted cache)

include hcounted

/-- A key that is not cached counts as never used. -/
theorem WellCounted.freqOf_eq_zero (hkey : key ∉ cache.data) :
    cache.freqOf key = 0 := by
  have hnone : cache.freq.lookup key = none :=
    AList.lookup_eq_none.mpr (mt (hcounted.counted key).mp hkey)
  rw [TinyLFUCache.freqOf, hnone, Option.getD_none]

theorem WellCounted.delete (key : UInt64) :
    WellCounted (cache.delete key) where
  bounded := Nat.le_trans (GoMap.size_erase_le _ _) hcounted.bounded
  counted other := by
    simp only [TinyLFUCache.delete, AList.mem_erase, hcounted.counted]

theorem WellCounted.touch (hkey : key ∈ cache.data) (entry : CacheEntry V) (freq : Nat) :
    WellCounted { cache with
      data := cache.data.insert key entry, freq := cache.freq.insert key freq } where
  bounded := by
    rw [GoMap.size_insert_of_mem hkey entry]
    exact hcounted.bounded
  counted other := by simp only [AList.mem_insert, hcounted.counted]

theorem WellCounted.get (key : UInt64) (now : Int) :
    WellCounted (cache.get key now).1 := by
  unfold TinyLFUCache.get
  split
  · exact hcounted
  next entry hentry =>
    have hkey : key ∈ cache.data := GoMap.mem_of_lookup_eq_some hentry
    split
    · exact hcounted.delete key
    · exact hcounted.touch hkey _ _

theorem WellCounted.reject : WellCounted cache.reject := by
  unfold TinyLFUCache.reject
  split <;> exact ⟨hcounted.bounded, hcounted.counted⟩

/-- A key that is not cached is never used more than one that is, so a full cache lets nothing
in. -/
theorem WellCounted.set_of_full (hkey : key ∉ cache.data) (hfull : cache.maxSize ≤ cache.data.size)
    (value : V) (now : Int) (order : RangeOrder) :
    (cache.set key value now order).1.data = cache.data := by
  unfold TinyLFUCache.set
  rw [if_neg hkey]
  split
  · rfl
  · rw [if_neg (Nat.not_lt.mpr hfull)]
    dsimp only
    rw [hcounted.freqOf_eq_zero hkey, if_neg (Nat.not_lt_zero _)]
    unfold TinyLFUCache.reject
    split <;> rfl

theorem WellCounted.set (key : UInt64) (value : V) (now : Int) (order : RangeOrder) :
    WellCounted (cache.set key value now order).1 := by
  unfold TinyLFUCache.set
  split
  next hkey => exact hcounted.touch hkey _ _
  next hkey =>
    split
    · exact ⟨hcounted.bounded, hcounted.counted⟩
    · split
      next hroom =>
        refine ⟨?_, fun other => by simp only [AList.mem_insert, hcounted.counted]⟩
        rw [GoMap.size_insert_of_notMem hkey]
        exact hroom
      next =>
        dsimp only
        rw [hcounted.freqOf_eq_zero hkey, if_neg (Nat.not_lt_zero _)]
        exact hcounted.reject

end

theorem WellCounted.step (hcounted : WellCounted state.cache) (op : CacheOp V) :
    WellCounted (state.step op).cache := by
  cases op with
  | get key now => exact hcounted.get key now
  | set key value now order => exact hcounted.set key value now order

theorem wellCounted_new (ttl : Int) (maxSize : Nat) :
    WellCounted (LoggedCache.new (V := V) ttl maxSize).cache :=
  ⟨Nat.zero_le _, fun _ => Iff.rfl⟩

/-- A key that is due is not let in. -/
theorem not_admits_of_hot (hcounted : WellCounted state.cache) {op : CacheOp V}
    (hhot : state.Hot op) : ¬state.Admits op := by
  cases op with
  | get key now => exact absurd hhot id
  | set key value now order =>
      rintro ⟨hin, -⟩
      obtain ⟨hkey, hfull, -⟩ := hhot
      have hsame := hcounted.set_of_full hkey hfull value now order
      simp only [LoggedCache.step, hsame, CacheOp.key] at hin
      exact hkey hin

/-- A run is served as it should be exactly if no key becomes due in it. -/
theorem serves_iff_not_hot (ttl : Int) (maxSize : Nat) (ops : List (CacheOp V)) :
    Run.Meets step Serves (LoggedCache.new ttl maxSize) ops ↔
      Run.Meets step (fun state op => ¬state.Hot op) (LoggedCache.new ttl maxSize) ops := by
  have hstep : ∀ (state : LoggedCache V) (op : CacheOp V), WellCounted state.cache →
      WellCounted (state.step op).cache := fun _ op hcounted => hcounted.step op
  have hstart := wellCounted_new (V := V) ttl maxSize
  constructor
  · intro hserves
    refine hserves.of_invariant (fun state op _ hcounted => hstep state op hcounted) ?_ hstart
    intro state op hserves hcounted hhot
    exact not_admits_of_hot hcounted hhot (hserves.2 hhot)
  · intro hcold
    refine hcold.of_invariant (fun state op _ hcounted => hstep state op hcounted) ?_ hstart
    intro state op hcold hcounted
    exact ⟨hstep state op hcounted, fun hhot => absurd hhot hcold⟩

/-- Storing a key at a time when nothing expires. -/
def store (key : UInt64) : CacheOp Unit := .set key () 0 RangeOrder.stored

/-- A cache for one key. The key 2 is stored three times after the key 1 was stored twice. -/
def crowded : LoggedCache Unit :=
  Run.run step (new 0 1) [store 1, store 1, store 2, store 2, store 2]

theorem crowded_hot : crowded.Hot (store 2) := by
  have hkeys : crowded.cache.data.keys = [1] := rfl
  refine ⟨by simp [AList.mem_keys, hkeys], by decide, 1, ⟨by simp [AList.mem_keys, hkeys], ?_⟩,
    by decide⟩
  intro other hother
  rw [AList.mem_keys, hkeys, List.mem_singleton] at hother
  rw [hother]

/-- The fourth time the key 2 is still not let in. -/
theorem hot_key_rejected : ¬Run.Meets step Serves (new 0 1)
    [store 1, store 1, store 2, store 2, store 2, store 2] := by
  rintro ⟨-, -, -, -, -, hserves, -⟩
  obtain ⟨hin, -⟩ := hserves.2 crowded_hot
  have hkeys : (crowded.step (store 2)).cache.data.keys = [1] := rfl
  change (2 : UInt64) ∈ (crowded.step (store 2)).cache.data at hin
  rw [AList.mem_keys, hkeys] at hin
  simp at hin

end Counted

end LoggedCache

end Vectron.Gateway
