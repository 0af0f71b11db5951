import Vectron.Worker.Recovery

/-! # A snapshot that cannot be loaded

When `Load` rejects the bytes of the snapshot, `initHNSW` starts with an empty index and
replays the log from timestamp zero. The index then has what the log still says, and an
earlier snapshot has taken out of the log what it covered itself.
-/

namespace Vectron.Worker

open Foundation OrderedStore Stamped

variable (s : Settings)

/-- `initHNSW` when `Load` returns an error. -/
def openRejected (order : RangeOrder) (db : Pebble) (snapshot : Option Snapshot) : Store where
  db := db
  snapshot := snapshot
  index :=
    if s.config.walEnabled then
      replayWALFrom s.arith order s.ns db 0 (Hnsw.new s.config.index)
    else Hnsw.new s.config.index
  snapshotLoaded := false

/-- A search can find the id. -/
def Searchable (store : Store) (id : Bytes) : Prop := (store.index.item s.arith id).isSome

/-- A value is stored under the vector key of the id. -/
def StoredInPebble (db : Pebble) (id : Bytes) : Prop :=
  (db.get (nsKey s.ns (vectorKey id))).isSome

/-- The newest entry that the log has for the id is a vector of the index's dimension. -/
def StillLogged (db : Pebble) (id : Bytes) : Prop :=
  ∃ entry value vector metadata, Wins (walEntries s.ns 0 db) entry ∧ entry.key = id ∧
    entry.value = some value ∧ decodeVectorWithMeta s.arith value = .ok (vector, metadata) ∧
      vector.length = s.config.index.dim

variable {s} {order : RangeOrder} {db : Pebble} {snapshot : Option Snapshot}

/-- The replay gives an id what the entry left of it says. -/
theorem item_replayWALFrom_of_lookup {ns : Bytes} {cut : Nat} {arith : Arithmetic} {h : Hnsw}
    {id : Bytes} {entry : WalEntry}
    (hlookup : (newest (walEntries ns cut db)).lookup id = some entry) :
    (replayWALFrom arith order ns db cut h).item arith id =
      entryEffect arith h.config (h.item arith id) entry :=
  item_foldl_replayEntry_of_mem (RangeOrder.range_keys_nodup order _)
    (RangeOrder.mem_range.mpr hlookup) h

theorem entryEffect_isSome {arith : Arithmetic} {config : IndexConfig} {entry : WalEntry} :
    (entryEffect arith config none entry).isSome ↔
      ∃ value vector metadata, entry.value = some value ∧
        decodeVectorWithMeta arith value = .ok (vector, metadata) ∧ vector.length = config.dim := by
  unfold entryEffect
  cases hvalue : entry.value with
  | none => simp
  | some value =>
      cases hdecode : decodeVectorWithMeta arith value with
      | error message => simp [hdecode]
      | ok decoded =>
          obtain ⟨vector, metadata⟩ := decoded
          by_cases hlength : vector.length = config.dim
          · simp [hdecode, hlength]
          · simp [hdecode, hlength]

/-- The fallback makes an id searchable exactly if the log still has its vector. -/
theorem searchable_openRejected_iff (hwal : s.config.walEnabled = true) (id : Bytes) :
    Searchable s (openRejected s order db snapshot) id ↔ StillLogged s db id := by
  have hindex : (openRejected s order db snapshot).index =
      replayWALFrom s.arith order s.ns db 0 (Hnsw.new s.config.index) := if_pos hwal
  rw [Searchable, hindex]
  rcases lookup_newest_cases (walEntries s.ns 0 db) id with
    ⟨-, habsent⟩ | ⟨entry, hlookup, hkey, hwins⟩
  · rw [item_replayWALFrom_of_forall_ne habsent, Hnsw.item_new]
    refine iff_of_false (by simp) ?_
    rintro ⟨entry, _, _, _, hwins, hkey, _⟩
    exact habsent entry hwins.mem hkey
  · rw [item_replayWALFrom_of_lookup hlookup, Hnsw.item_new, entryEffect_isSome]
    constructor
    · rintro ⟨value, vector, metadata, hvalue, hdecode, hlength⟩
      exact ⟨entry, value, vector, metadata, hwins, hkey, hvalue, hdecode, hlength⟩
    · rintro ⟨other, value, vector, metadata, hother, hkey', hvalue, hdecode, hlength⟩
      obtain rfl := hother.unique hwins (hkey'.trans hkey.symm)
      exact ⟨value, vector, metadata, hvalue, hdecode, hlength⟩

/-- After the snapshot was rejected, the index has the ids that are stored exactly if the log still
has the vectors of these and no others. -/
theorem rejected_searchable_iff (hwal : s.config.walEnabled = true) (order : RangeOrder)
    (db : Pebble) (snapshot : Option Snapshot) :
    (∀ id, Searchable s (openRejected s order db snapshot) id ↔ StoredInPebble s db id) ↔
      ∀ id, StillLogged s db id ↔ StoredInPebble s db id := by
  apply forall_congr'
  intro id
  rw [searchable_openRejected_iff hwal]

/-- A vector is stored and the index is saved. -/
def savedVector : List Call :=
  [.storeVector 1700000000000000000 (idOf 'a') [1] [], .saveHNSW 1700000000000000010]

/-- The store that is opened when the snapshot of it was rejected. -/
def rejectedStore : Store :=
  let store := (Run.run (Timed.call lineSettings)
    (freshStore lineSettings RangeOrder.stored OrderedStore.empty) savedVector).store
  openRejected lineSettings RangeOrder.stored store.db store.snapshot

theorem rejected_searchable_iff_savedVector :
    (∀ id, Searchable lineSettings rejectedStore id ↔
        StoredInPebble lineSettings rejectedStore.db id) ↔
      ∀ id, StillLogged lineSettings rejectedStore.db id ↔
        StoredInPebble lineSettings rejectedStore.db id :=
  rejected_searchable_iff rfl RangeOrder.stored rejectedStore.db rejectedStore.snapshot

/-- The snapshot had taken the vector out of the log: it is stored and cannot be found. -/
theorem savedVector_unsearchable :
    StoredInPebble lineSettings rejectedStore.db (idOf 'a') ∧
      ¬ Searchable lineSettings rejectedStore (idOf 'a') := by
  have hstored : (rejectedStore.db.get
      (nsKey lineSettings.ns (vectorKey (idOf 'a')))).isSome = true := by decide +kernel
  have hmissing : (rejectedStore.index.item lineSettings.arith (idOf 'a')).isSome = false := by
    decide +kernel
  refine ⟨hstored, ?_⟩
  rw [Searchable, hmissing]
  exact Bool.false_ne_true

end Vectron.Worker
