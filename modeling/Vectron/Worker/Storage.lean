import Vectron.Worker.Command
import Vectron.Worker.Wal

/-! # The vector store of a shard

A store keeps its vectors in Pebble and in the index. It is modelled as one process that
runs one call after another, with the index updated before a call returns. A crash loses
the index; opening the store again loads the last snapshot and replays the log.

The saved index stands beside the database as a value. Pebble writes it and the keys
that go with it in one batch.
-/

namespace Vectron.Worker

open Foundation OrderedStore

/-- What the store depends on in `storage.HNSWConfig`. -/
structure HNSWConfig where
  index : IndexConfig
  walEnabled : Bool
  walBatchEnabled : Bool
  vectorCompressionEnabled : Bool
  bulkLoadEnabled : Bool
  bulkLoadThreshold : Int

/-- A store that is not in ingest mode and has no external index. -/
structure Settings where
  arith : Arithmetic
  ns : Bytes
  config : HNSWConfig

/-- A saved index and the time it was saved at. -/
structure Snapshot where
  index : Hnsw
  ts : Nat

structure Store where
  db : Pebble
  snapshot : Option Snapshot
  index : Hnsw
  /-- `hnswSnapshotLoaded` -/
  snapshotLoaded : Bool

inductive StoreError where
  /-- "vector dimension %d does not match index dimension %d" -/
  | dimensionMismatch (got want : Nat)
  /-- "failed to encode vector with meta: %w" -/
  | encodeFailed (cause : String)
  /-- "vector id or data missing" -/
  | idOrDataMissing
  /-- "failed to add vector to HNSW index: invalid vector dimension" -/
  | addFailed
  deriving Repr, DecidableEq

variable (s : Settings)

/-- `shouldCompressVectors`. -/
def shouldCompressVectors : Bool :=
  s.config.vectorCompressionEnabled && (s.config.index.cosine && s.config.index.normalizeVectors)

/-- The value under which a vector is stored. -/
def encodeValue (vector : Vector) (metadata : Bytes) : Except StoreError Bytes :=
  (encodeVectorWithMeta s.arith vector metadata (shouldCompressVectors s)).mapError .encodeFailed

/-! ## Single vectors -/

/-- The checks of `StoreVector` and the value it stores. -/
def encodeVector (vector : Vector) (metadata : Bytes) : Except StoreError Bytes :=
  if vector.length ≠ s.config.index.dim then
    .error (.dimensionMismatch vector.length s.config.index.dim)
  else encodeValue s vector metadata

/-- The batch `StoreVector` commits. -/
def storeVectorOps (ts : Nat) (id value : Bytes) : List (StoreOp Bytes Bytes) :=
  .set (nsKey s.ns (vectorKey id)) value ::
    if s.config.walEnabled then [.set (nsKey s.ns (walKey ts id)) value] else []

/-- `StoreVector`. -/
def storeVector (now : Nat) (id : Bytes) (vector : Vector) (metadata : Bytes) (store : Store) :
    Except StoreError Unit × Store :=
  match encodeVector s vector metadata with
  | .error err => (.error err, store)
  | .ok value =>
      let added := store.index.add s.arith id vector
      (if added.2 then .ok () else .error .addFailed,
        { store with
          db := store.db.commit (storeVectorOps s now id value)
          index := added.1 })

/-- The batch `DeleteVector` commits. -/
def deleteVectorOps (ts : Nat) (id : Bytes) : List (StoreOp Bytes Bytes) :=
  .delete (nsKey s.ns (vectorKey id)) ::
    if s.config.walEnabled then [.set (nsKey s.ns (walKeySuffix ts id deleteWord)) []] else []

/-- `DeleteVector`. -/
def deleteVector (now : Nat) (id : Bytes) (store : Store) : Store :=
  { store with
    index := store.index.delete id
    db := store.db.commit (deleteVectorOps s now id) }

/-! ## Batches -/

/-- The checks of the loop of `StoreVectorBatch` for one vector and the value it stores. -/
def encodeEntry (entry : VectorEntry) : Except StoreError (Bytes × Bytes) :=
  if entry.id = [] ∨ entry.vector.length = 0 then .error .idOrDataMissing
  else (encodeVector s entry.vector entry.metadata).map fun value => (entry.id, value)

/-- `walBatchEnabled` for a batch of this size. -/
def usesWalBatch (count : Nat) : Bool :=
  s.config.walEnabled && s.config.walBatchEnabled && decide (1 < count)

/-- The batch `StoreVectorBatch` commits. -/
def storeVectorBatchOps (baseTS : Nat) (pairs : List (Bytes × Bytes)) :
    List (StoreOp Bytes Bytes) :=
  pairs.zipIdx.flatMap (fun item =>
    .set (nsKey s.ns (vectorKey item.1.1)) item.1.2 ::
      if s.config.walEnabled && !usesWalBatch s pairs.length then
        [.set (nsKey s.ns (walKey (baseTS + item.2) item.1.1)) item.1.2]
      else []) ++
  if usesWalBatch s pairs.length then
    [.set (nsKey s.ns (walKeyBatch baseTS)) (encodeWALBatchEncoded pairs)]
  else []

/-- The loop that adds a batch to the index. It stops at the first error. -/
def addAll (arith : Arithmetic) : Hnsw → List VectorEntry → Hnsw × Bool
  | h, [] => (h, true)
  | h, entry :: rest =>
      let added := h.add arith entry.id entry.vector
      if added.2 then addAll arith added.1 rest else (added.1, false)

/-- `shouldBulkLoad`. -/
def shouldBulkLoad (snapshotLoaded : Bool) (index : Hnsw) (batchSize : Nat) : Bool :=
  let threshold := if s.config.bulkLoadThreshold ≤ 0 then 1000 else s.config.bulkLoadThreshold
  s.config.bulkLoadEnabled && (decide (threshold ≤ (batchSize : Int)) &&
    (!snapshotLoaded && decide (index.size ≤ 0)))

/-- Take the vectors of an unfinished bulk load out of the index again. -/
def rollback (h : Hnsw) (added : List Bytes) : Hnsw := added.foldl Hnsw.delete h

/-- The loop of `bulkLoadVectors`: the index behind it, and the values to store. -/
def bulkAdd : Hnsw → List Bytes → List VectorEntry → Hnsw × Except StoreError (List (Bytes × Bytes))
  | h, _, [] => (h, .ok [])
  | h, added, entry :: rest =>
      if entry.id = [] ∨ entry.vector.length = 0 then (rollback h added, .error .idOrDataMissing)
      else
        let result := h.add s.arith entry.id entry.vector
        if result.2 then
          match encodeValue s entry.vector entry.metadata with
          | .error err => (rollback result.1 (added ++ [entry.id]), .error err)
          | .ok value =>
              let rest := bulkAdd result.1 (added ++ [entry.id]) rest
              (rest.1, rest.2.map fun pairs => (entry.id, value) :: pairs)
        else (rollback result.1 added, .error .addFailed)

/-- The vector keys of a bulk load. -/
def bulkLoadOps (pairs : List (Bytes × Bytes)) : List (StoreOp Bytes Bytes) :=
  pairs.map fun pair => .set (nsKey s.ns (vectorKey pair.1)) pair.2

/-- `bulkLoadVectors`. The vectors are in the snapshot it saves and in no record of the
log. -/
def bulkLoadVectors (now : Nat) (vectors : List VectorEntry) (store : Store) :
    Except StoreError Unit × Store :=
  match bulkAdd s store.index [] vectors with
  | (index, .error err) => (.error err, { store with index := index })
  | (index, .ok pairs) =>
      (.ok (), {
        db := store.db.commit (bulkLoadOps s pairs)
        snapshot := some ⟨index, now⟩
        index := index
        snapshotLoaded := true })

/-- `StoreVectorBatch`. -/
def storeVectorBatch (now : Nat) (vectors : List VectorEntry) (store : Store) :
    Except StoreError Unit × Store :=
  if vectors = [] then (.ok (), store)
  else if shouldBulkLoad s store.snapshotLoaded store.index vectors.length then
    bulkLoadVectors s now vectors store
  else
    match vectors.mapM (encodeEntry s) with
    | .error err => (.error err, store)
    | .ok pairs =>
        let added := addAll s.arith store.index vectors
        (if added.2 then .ok () else .error .addFailed,
          { store with
            db := store.db.commit (storeVectorBatchOps s now pairs)
            index := added.1 })

/-! ## Snapshots -/

/-- The keys `saveHNSW` deletes: the records with an earlier timestamp in their key. -/
def coveredKeys (ns : Bytes) (ts : Nat) (db : Pebble) : List Bytes :=
  (db.scan (nsKey ns hnswWALPrefix) (some (nsKey ns (walCut ts)))).map Prod.fst

/-- `saveHNSW`. -/
def saveHNSW (now : Nat) (store : Store) : Store where
  db := store.db.commit ((coveredKeys s.ns now store.db).map .delete)
  snapshot := some ⟨store.index, now⟩
  index := store.index
  snapshotLoaded := true

/-- `loadHNSW`: the index of a store that is opened. -/
def loadHNSW (order : RangeOrder) (db : Pebble) (snapshot : Option Snapshot) : Hnsw :=
  match snapshot with
  | none =>
      if s.config.walEnabled then
        replayWALFrom s.arith order s.ns db 0 (Hnsw.new s.config.index)
      else Hnsw.new s.config.index
  | some saved =>
      if s.config.walEnabled then
        replayWALFrom s.arith order s.ns db saved.ts saved.index.reloaded
      else saved.index.reloaded

/-- Opening a store. A crash keeps what Pebble has committed and nothing else. -/
def openStore (order : RangeOrder) (db : Pebble) (snapshot : Option Snapshot) : Store where
  db := db
  snapshot := snapshot
  index := loadHNSW s order db snapshot
  snapshotLoaded := snapshot.isSome

/-! ## Histories -/

inductive Call where
  | storeVector (now : Nat) (id : Bytes) (vector : Vector) (metadata : Bytes)
  | storeVectorBatch (now : Nat) (vectors : List VectorEntry)
  | deleteVector (now : Nat) (id : Bytes)
  | saveHNSW (now : Nat)
  /-- the process crashes and the store is opened again -/
  | reopen (order : RangeOrder)

def Store.call (store : Store) : Call → Store
  | .storeVector now id vector metadata => (storeVector s now id vector metadata store).2
  | .storeVectorBatch now vectors => (storeVectorBatch s now vectors store).2
  | .deleteVector now id => deleteVector s now id store
  | .saveHNSW now => saveHNSW s now store
  | .reopen order => openStore s order store.db store.snapshot

/-! ## What the calls do to the index -/

section Index

variable {arith : Arithmetic} {h : Hnsw}

theorem addAll_config (entries : List VectorEntry) :
    (addAll arith h entries).1.config = h.config := by
  induction entries generalizing h with
  | nil => rfl
  | cons entry rest ih =>
      rw [addAll]
      split
      next _ => rw [ih, Hnsw.config_add]
      next _ => exact Hnsw.config_add _ _

theorem addAll_cons {entry : VectorEntry} (hdim : entry.vector.length = h.config.dim)
    (rest : List VectorEntry) :
    addAll arith h (entry :: rest) = addAll arith (h.add arith entry.id entry.vector).1 rest := by
  rw [addAll, if_pos ((Hnsw.add_succeeds _ _).mpr hdim)]

theorem item_addAll_of_forall_ne {entries : List VectorEntry} {id : Bytes}
    (hdim : ∀ entry ∈ entries, entry.vector.length = h.config.dim)
    (hid : ∀ entry ∈ entries, entry.id ≠ id) :
    (addAll arith h entries).1.item arith id = h.item arith id := by
  induction entries generalizing h with
  | nil => rfl
  | cons entry rest ih =>
      have hhead := hdim entry List.mem_cons_self
      rw [addAll_cons hhead, ih, Hnsw.item_add hhead, if_neg (Ne.symm (hid entry List.mem_cons_self))]
      · intro entry hentry
        rw [Hnsw.config_add]
        exact hdim entry (List.mem_cons_of_mem _ hentry)
      · exact fun entry hentry => hid entry (List.mem_cons_of_mem _ hentry)

/-- An id has the last vector that a batch has for it. -/
theorem item_addAll {entries : List VectorEntry} {i : Nat} {entry : VectorEntry}
    (hdim : ∀ entry ∈ entries, entry.vector.length = h.config.dim)
    (hentry : entries[i]? = some entry)
    (hlast : ∀ j later, i < j → entries[j]? = some later → later.id ≠ entry.id) :
    (addAll arith h entries).1.item arith entry.id = some (kept arith h.config entry.vector) := by
  induction entries generalizing h i with
  | nil => cases hentry
  | cons head rest ih =>
      have hhead := hdim head List.mem_cons_self
      have hrest : ∀ entry ∈ rest,
          entry.vector.length = (h.add arith head.id head.vector).1.config.dim := by
        intro entry hmem
        rw [Hnsw.config_add]
        exact hdim entry (List.mem_cons_of_mem _ hmem)
      rw [addAll_cons hhead]
      cases i with
      | zero =>
          cases hentry
          rw [item_addAll_of_forall_ne hrest, Hnsw.item_add hhead, if_pos rfl]
          intro later hlater
          obtain ⟨j, hj⟩ := List.mem_iff_getElem?.mp hlater
          exact hlast (j + 1) later (Nat.succ_pos j) hj
      | succ i =>
          rw [ih hrest hentry, Hnsw.config_add]
          exact fun j later hlt hlater => hlast (j + 1) later (Nat.succ_lt_succ hlt) hlater

theorem config_rollback (added : List Bytes) : (rollback h added).config = h.config := by
  induction added generalizing h with
  | nil => rfl
  | cons id added ih =>
      rw [rollback, List.foldl_cons]
      exact ih.trans (Hnsw.config_delete id)

theorem item_rollback (added : List Bytes) (id : Bytes) :
    (rollback h added).item arith id = if id ∈ added then none else h.item arith id := by
  induction added generalizing h with
  | nil => rfl
  | cons head added ih =>
      have hstep : rollback h (head :: added) = rollback (h.delete head) added := rfl
      rw [hstep, ih, Hnsw.item_delete]
      by_cases hid : id = head
      · simp [hid]
      · simp [hid]

end Index

theorem encodeVector_dim {s : Settings} {vector : Vector} {metadata value : Bytes}
    (hencode : encodeVector s vector metadata = .ok value) :
    vector.length = s.config.index.dim := by
  rw [encodeVector] at hencode
  split at hencode
  next _ => cases hencode
  next hdim => exact not_not.mp hdim

theorem encodeEntry_eq_ok {s : Settings} {entry : VectorEntry} {pair : Bytes × Bytes}
    (hencode : encodeEntry s entry = .ok pair) :
    entry.id ≠ [] ∧ pair.1 = entry.id ∧
      encodeVector s entry.vector entry.metadata = .ok pair.2 := by
  rw [encodeEntry] at hencode
  split at hencode
  next _ => cases hencode
  next hfull =>
    cases hvalue : encodeVector s entry.vector entry.metadata with
    | error err =>
        rw [hvalue] at hencode
        cases hencode
    | ok value =>
        rw [hvalue] at hencode
        cases hencode
        exact ⟨fun hid => hfull (Or.inl hid), rfl, rfl⟩

theorem encodeEntries_eq_ok {s : Settings} {vectors : List VectorEntry}
    {pairs : List (Bytes × Bytes)} (hencode : vectors.mapM (encodeEntry s) = .ok pairs) :
    List.Forall₂ (fun entry pair => encodeEntry s entry = .ok pair) vectors pairs := by
  induction vectors generalizing pairs with
  | nil =>
      rw [List.mapM_nil] at hencode
      cases hencode
      exact .nil
  | cons entry rest ih =>
      rw [List.mapM_cons] at hencode
      cases hhead : encodeEntry s entry with
      | error err =>
          rw [hhead] at hencode
          cases hencode
      | ok pair =>
          rw [hhead] at hencode
          cases htail : rest.mapM (encodeEntry s) with
          | error err =>
              rw [htail] at hencode
              cases hencode
          | ok tail =>
              rw [htail] at hencode
              cases hencode
              exact .cons hhead (ih htail)

/-! ## Bulk loads -/

section BulkLoad

variable {s} {h : Hnsw}

/-- An entry that a bulk load takes. -/
def BulkValid (s : Settings) (entry : VectorEntry) : Prop :=
  entry.id ≠ [] ∧ entry.vector.length = s.config.index.dim ∧
    (encodeValue s entry.vector entry.metadata).isOk = true

instance (entry : VectorEntry) : Decidable (BulkValid s entry) := by
  delta BulkValid
  infer_instance

theorem bulkAdd_config (added : List Bytes) (vectors : List VectorEntry) :
    (bulkAdd s h added vectors).1.config = h.config := by
  induction vectors generalizing h added with
  | nil => rfl
  | cons entry rest ih =>
      rw [bulkAdd]
      split
      next _ => exact config_rollback added
      next _ =>
        dsimp only
        split
        next _ =>
          split
          next _ => rw [config_rollback, Hnsw.config_add]
          next _ => rw [ih, Hnsw.config_add]
        next _ => rw [config_rollback, Hnsw.config_add]

/-- A bulk load that succeeds has added every vector. -/
theorem bulkAdd_eq_ok {added : List Bytes} {vectors : List VectorEntry} {h' : Hnsw}
    {pairs : List (Bytes × Bytes)} (hbulk : bulkAdd s h added vectors = (h', .ok pairs)) :
    h' = (addAll s.arith h vectors).1 ∧
      (∀ entry ∈ vectors, entry.vector.length = h.config.dim) ∧
      List.Forall₂ (fun entry pair => entry.id ≠ [] ∧ pair.1 = entry.id ∧
        encodeValue s entry.vector entry.metadata = .ok pair.2) vectors pairs := by
  induction vectors generalizing h added pairs with
  | nil =>
      cases hbulk
      exact ⟨rfl, nofun, .nil⟩
  | cons entry rest ih =>
      rw [bulkAdd] at hbulk
      split at hbulk
      next _ => cases (Prod.mk.inj hbulk).2
      next hfull =>
        dsimp only at hbulk
        split at hbulk
        next hadd =>
          have hdim := (Hnsw.add_succeeds _ _).mp hadd
          split at hbulk
          next _ => cases (Prod.mk.inj hbulk).2
          next value hvalue =>
            obtain ⟨rfl, hpairs⟩ := Prod.mk.inj hbulk
            cases htail : (bulkAdd s (h.add s.arith entry.id entry.vector).1
                (added ++ [entry.id]) rest).2 with
            | error err =>
                rw [htail] at hpairs
                cases hpairs
            | ok tail =>
                rw [htail] at hpairs
                cases hpairs
                obtain ⟨hindex, hdims, hvalues⟩ := ih (Prod.ext rfl htail)
                refine ⟨?_, ?_, .cons ⟨fun hid => hfull (Or.inl hid), rfl, hvalue⟩ hvalues⟩
                · rw [addAll_cons hdim, hindex]
                · intro other hother
                  rcases List.mem_cons.mp hother with rfl | hother
                  · exact hdim
                  · have hrest := hdims other hother
                    rw [Hnsw.config_add] at hrest
                    exact hrest
        next _ => cases (Prod.mk.inj hbulk).2

theorem bulkAdd_of_valid {added : List Bytes} {vectors : List VectorEntry}
    (hdim : h.config.dim = s.config.index.dim) (hvalid : ∀ entry ∈ vectors, BulkValid s entry) :
    ∃ pairs, (bulkAdd s h added vectors).2 = .ok pairs := by
  induction vectors generalizing h added with
  | nil => exact ⟨[], rfl⟩
  | cons entry rest ih =>
      obtain ⟨hid, hlength, hvalue⟩ := hvalid entry List.mem_cons_self
      have hfull : ¬ (entry.id = [] ∨ entry.vector.length = 0) := by
        have hpos := s.config.index.dim_pos
        rintro (hempty | hempty)
        · exact hid hempty
        · omega
      have hadd : (h.add s.arith entry.id entry.vector).2 = true :=
        (Hnsw.add_succeeds _ _).mpr (hlength.trans hdim.symm)
      obtain ⟨pairs, hrest⟩ := @ih (h.add s.arith entry.id entry.vector).1 (added ++ [entry.id])
        (by rw [Hnsw.config_add, hdim])
        fun other hother => hvalid other (List.mem_cons_of_mem _ hother)
      rw [bulkAdd, if_neg hfull]
      simp only [hadd, if_true]
      cases hencode : encodeValue s entry.vector entry.metadata with
      | error err =>
          rw [hencode] at hvalue
          cases hvalue
      | ok value =>
          refine ⟨(entry.id, value) :: pairs, ?_⟩
          simp only [hrest]
          rfl

theorem rollback_cases (h : Hnsw) (added : List Bytes) (id : Bytes) :
    ((rollback h added).item s.arith id = none ∧ id ∈ added) ∨
      ((rollback h added).item s.arith id = h.item s.arith id ∧ id ∉ added) := by
  rw [item_rollback]
  split
  next hid => exact Or.inl ⟨rfl, hid⟩
  next hid => exact Or.inr ⟨rfl, hid⟩

/-- A bulk load that fails takes vectors of its own ids out of the index and leaves the
others alone. -/
theorem item_bulkAdd_error {added : List Bytes} {vectors : List VectorEntry} {err : StoreError}
    (hbulk : (bulkAdd s h added vectors).2 = .error err) (id : Bytes) :
    ((bulkAdd s h added vectors).1.item s.arith id = none ∧
        (id ∈ added ∨ id ∈ vectors.map VectorEntry.id)) ∨
      ((bulkAdd s h added vectors).1.item s.arith id = h.item s.arith id ∧ id ∉ added) := by
  induction vectors generalizing h added err with
  | nil => cases hbulk
  | cons entry rest ih =>
      -- what holds with the entry's id among those to take back holds without it
      have hwiden : ∀ h' : Hnsw,
          ((h'.item s.arith id = none ∧
              (id ∈ added ++ [entry.id] ∨ id ∈ rest.map VectorEntry.id)) ∨
            (h'.item s.arith id = (h.add s.arith entry.id entry.vector).1.item s.arith id ∧
              id ∉ added ++ [entry.id])) → entry.vector.length = h.config.dim →
          ((h'.item s.arith id = none ∧
              (id ∈ added ∨ id ∈ (entry :: rest).map VectorEntry.id)) ∨
            (h'.item s.arith id = h.item s.arith id ∧ id ∉ added)) := by
        rintro h' (⟨hnone, hid⟩ | ⟨hsame, hnot⟩) hdim
        · left
          refine ⟨hnone, ?_⟩
          rw [List.mem_append, List.mem_singleton] at hid
          rw [List.map_cons, List.mem_cons]
          tauto
        · obtain ⟨hadded, hne⟩ := not_or.mp fun hmem => hnot (List.mem_append.mpr hmem)
          rw [Hnsw.item_add hdim, if_neg fun heq => hne (List.mem_singleton.mpr heq)] at hsame
          exact Or.inr ⟨hsame, hadded⟩
      rw [bulkAdd] at hbulk ⊢
      split at hbulk
      next hempty =>
        rw [if_pos hempty]
        exact (rollback_cases h added id).imp_left fun hrolled => ⟨hrolled.1, Or.inl hrolled.2⟩
      next hfull =>
        rw [if_neg hfull]
        dsimp only at hbulk ⊢
        by_cases hadd : (h.add s.arith entry.id entry.vector).2 = true
        · have hdim := (Hnsw.add_succeeds _ _).mp hadd
          rw [if_pos hadd] at hbulk ⊢
          cases hvalue : encodeValue s entry.vector entry.metadata with
          | error err' =>
              refine hwiden _ ?_ hdim
              exact (rollback_cases _ _ id).imp_left fun hrolled => ⟨hrolled.1, Or.inl hrolled.2⟩
          | ok value =>
              rw [hvalue] at hbulk
              dsimp only at hbulk ⊢
              cases htail : (bulkAdd s (h.add s.arith entry.id entry.vector).1
                  (added ++ [entry.id]) rest).2 with
              | ok pairs =>
                  rw [htail] at hbulk
                  cases hbulk
              | error err' => exact hwiden _ (ih htail) hdim
        · rw [if_neg hadd]
          have hitem := @Hnsw.item_add_of_ne s.arith h entry.vector
            (fun hdim => hadd ((Hnsw.add_succeeds _ _).mpr hdim)) entry.id id
          rcases rollback_cases (h.add s.arith entry.id entry.vector).1 added id with
            ⟨hnone, hid⟩ | ⟨hsame, hnot⟩
          · exact Or.inl ⟨hnone, Or.inl hid⟩
          · by_cases heq : id = entry.id
            · rw [if_pos heq] at hitem
              exact Or.inl ⟨hsame.trans hitem, Or.inr (heq ▸ List.mem_cons_self)⟩
            · rw [if_neg heq] at hitem
              exact Or.inr ⟨hsame.trans hitem, hnot⟩

end BulkLoad

/-! ## What the calls do to the log -/

section Records

variable {s}

/-- A write of a vector together with its record. -/
theorem writes_one {op : StoreOp Bytes Bytes} (record : WalRecord)
    (hvector : ∃ id, opKey op = nsKey s.ns (vectorKey id)) (hreadable : record.Readable) :
    WritesRecords s.ns [op, .set (nsKey s.ns record.key) record.value] [record] := by
  constructor
  · intro op' hop
    rcases List.mem_cons.mp hop with rfl | hop
    · exact Or.inl hvector
    · exact Or.inr ⟨_, List.mem_singleton_self _, List.mem_singleton.mp hop⟩
  · intro record' hrecord
    rw [List.mem_singleton.mp hrecord]
    exact List.mem_cons_of_mem _ (List.mem_singleton_self _)
  · intro record' hrecord
    rwa [List.mem_singleton.mp hrecord]
  · intro first hfirst second hsecond _
    rw [List.mem_singleton.mp hfirst, List.mem_singleton.mp hsecond]

section

variable (hwal : s.config.walEnabled = true) {ts : Nat} (hts : Nanos ts)

include hwal hts

theorem storeVectorOps_writes {id : Bytes} (hid : ¬ ReadsAsDelete id) (value : Bytes) :
    WritesRecords s.ns (storeVectorOps s ts id value) [.add ts id value] := by
  rw [storeVectorOps, if_pos hwal]
  exact writes_one (.add ts id value) ⟨id, rfl⟩ ⟨hts, hid⟩

theorem deleteVectorOps_writes (id : Bytes) :
    WritesRecords s.ns (deleteVectorOps s ts id) [.delete ts id] := by
  rw [deleteVectorOps, if_pos hwal]
  exact writes_one (.delete ts id) ⟨id, rfl⟩ hts

end

theorem bulkLoadOps_writes (pairs : List (Bytes × Bytes)) :
    WritesRecords s.ns (bulkLoadOps s pairs) [] := by
  constructor
  · intro op hop
    obtain ⟨pair, _, rfl⟩ := List.mem_map.mp hop
    exact Or.inl ⟨pair.1, rfl⟩
  · exact nofun
  · exact nofun
  · exact nofun

/-- The records of a batch that has none of its own. -/
def singleRecords (baseTS : Nat) (pairs : List (Bytes × Bytes)) : List WalRecord :=
  pairs.zipIdx.map fun item => .add (baseTS + item.2) item.1.1 item.1.2

/-- The records of a batch. -/
def batchRecords (s : Settings) (baseTS : Nat) (pairs : List (Bytes × Bytes)) : List WalRecord :=
  if usesWalBatch s pairs.length then [.batch baseTS pairs] else singleRecords baseTS pairs

theorem mem_singleRecords {baseTS : Nat} {pairs : List (Bytes × Bytes)} {record : WalRecord} :
    record ∈ singleRecords baseTS pairs ↔
      ∃ (i : Nat) (pair : Bytes × Bytes), pairs[i]? = some pair ∧
        record = .add (baseTS + i) pair.1 pair.2 := by
  rw [singleRecords, List.mem_map]
  constructor
  · rintro ⟨⟨pair, i⟩, hitem, rfl⟩
    exact ⟨i, pair, List.mem_zipIdx_iff_getElem?.mp hitem, rfl⟩
  · rintro ⟨i, pair, hpair, rfl⟩
    exact ⟨(pair, i), List.mem_zipIdx_iff_getElem?.mpr hpair, rfl⟩

/-- What makes the records of a batch readable. -/
def BatchReadable (s : Settings) (baseTS : Nat) (pairs : List (Bytes × Bytes)) : Prop :=
  Nanos baseTS ∧ Nanos (baseTS + pairs.length) ∧
    if usesWalBatch s pairs.length then
      pairs.length < 2 ^ 32 ∧
        ∀ pair ∈ pairs, pair.1 ≠ [] ∧ pair.1.length < 2 ^ 32 ∧ pair.2.length < 2 ^ 32
    else ∀ pair ∈ pairs, ¬ ReadsAsDelete pair.1

instance (baseTS : Nat) (pairs : List (Bytes × Bytes)) :
    Decidable (BatchReadable s baseTS pairs) := by
  delta BatchReadable
  infer_instance

theorem storeVectorBatchOps_writes_of_readable (hwal : s.config.walEnabled = true) {baseTS : Nat}
    {pairs : List (Bytes × Bytes)}
    (hreadable : ∀ record ∈ batchRecords s baseTS pairs, record.Readable) :
    WritesRecords s.ns (storeVectorBatchOps s baseTS pairs) (batchRecords s baseTS pairs) := by
  cases hbatch : usesWalBatch s pairs.length with
  | true =>
      have hops : storeVectorBatchOps s baseTS pairs =
          pairs.zipIdx.flatMap (fun item => [.set (nsKey s.ns (vectorKey item.1.1)) item.1.2]) ++
            [.set (nsKey s.ns (walKeyBatch baseTS)) (encodeWALBatchEncoded pairs)] := by
        simp [storeVectorBatchOps, hbatch]
      rw [batchRecords, if_pos hbatch] at hreadable ⊢
      rw [hops]
      constructor
      · intro op hop
        rcases List.mem_append.mp hop with hop | hop
        · obtain ⟨item, _, hop⟩ := List.mem_flatMap.mp hop
          rw [List.mem_singleton.mp hop]
          exact Or.inl ⟨item.1.1, rfl⟩
        · exact Or.inr ⟨_, List.mem_singleton_self _, List.mem_singleton.mp hop⟩
      · intro record hrecord
        rw [List.mem_singleton.mp hrecord]
        exact List.mem_append_right _ (List.mem_singleton_self _)
      · exact hreadable
      · intro first hfirst second hsecond _
        rw [List.mem_singleton.mp hfirst, List.mem_singleton.mp hsecond]
  | false =>
      have hops : storeVectorBatchOps s baseTS pairs =
          pairs.zipIdx.flatMap (fun item => [.set (nsKey s.ns (vectorKey item.1.1)) item.1.2,
            .set (nsKey s.ns (walKey (baseTS + item.2) item.1.1)) item.1.2]) := by
        simp [storeVectorBatchOps, hbatch, hwal]
      rw [batchRecords, if_neg (by simp [hbatch])] at hreadable ⊢
      rw [hops]
      constructor
      · intro op hop
        obtain ⟨⟨pair, i⟩, hitem, hop⟩ := List.mem_flatMap.mp hop
        rcases List.mem_cons.mp hop with rfl | hop
        · exact Or.inl ⟨pair.1, rfl⟩
        · right
          refine ⟨.add (baseTS + i) pair.1 pair.2, ?_, List.mem_singleton.mp hop⟩
          exact mem_singleRecords.mpr ⟨i, pair, List.mem_zipIdx_iff_getElem?.mp hitem, rfl⟩
      · intro record hrecord
        obtain ⟨i, pair, hpair, rfl⟩ := mem_singleRecords.mp hrecord
        exact List.mem_flatMap.mpr ⟨(pair, i), List.mem_zipIdx_iff_getElem?.mpr hpair,
          List.mem_cons_of_mem _ (List.mem_singleton_self _)⟩
      · exact hreadable
      · intro first hfirst second hsecond hkey
        have hts := WalRecord.ts_eq_of_key_eq (hreadable first hfirst).nanos
          (hreadable second hsecond).nanos hkey
        obtain ⟨i, pair, hpair, rfl⟩ := mem_singleRecords.mp hfirst
        obtain ⟨j, pair', hpair', rfl⟩ := mem_singleRecords.mp hsecond
        obtain rfl : i = j := Nat.add_left_cancel hts
        rw [hpair] at hpair'
        cases hpair'
        rfl

theorem BatchReadable.records {baseTS : Nat} {pairs : List (Bytes × Bytes)}
    (hreadable : BatchReadable s baseTS pairs) :
    ∀ record ∈ batchRecords s baseTS pairs, record.Readable := by
  obtain ⟨hbase, hlast, hreadable⟩ := hreadable
  intro record hrecord
  rw [batchRecords] at hrecord
  split at hrecord
  next hbatch =>
    rw [if_pos hbatch] at hreadable
    rw [List.mem_singleton.mp hrecord]
    exact ⟨hbase, hreadable⟩
  next hbatch =>
    rw [if_neg hbatch] at hreadable
    obtain ⟨i, pair, hpair, rfl⟩ := mem_singleRecords.mp hrecord
    have hlt := (List.getElem?_eq_some_iff.mp hpair).1
    refine ⟨⟨le_trans hbase.1 (Nat.le_add_right _ _), ?_⟩, hreadable pair (List.mem_of_getElem? hpair)⟩
    exact lt_trans (Nat.add_lt_add_left hlt _) hlast.2

theorem storeVectorBatchOps_writes (hwal : s.config.walEnabled = true) {baseTS : Nat}
    {pairs : List (Bytes × Bytes)} (hreadable : BatchReadable s baseTS pairs) :
    WritesRecords s.ns (storeVectorBatchOps s baseTS pairs) (batchRecords s baseTS pairs) :=
  storeVectorBatchOps_writes_of_readable hwal hreadable.records

variable {ns : Bytes} {db : Pebble} {ts : Nat}

/-- A snapshot leaves the records that a replay from its timestamp comes across. -/
theorem holds_truncate (hts : Nanos ts) {record : WalRecord} (hnanos : Nanos record.ts) :
    Holds ns (db.commit ((coveredKeys ns ts db).map .delete)) record ↔
      Holds ns db record ∧ record.VisibleFrom ts := by
  rw [Holds, get_commit_deletes, ← WalRecord.walCut_le_key (Or.inr hts) hnanos]
  constructor
  · intro hget
    split at hget
    next _ => cases hget
    next hkept =>
      refine ⟨hget, not_lt.mp fun hlt => hkept ?_⟩
      refine List.mem_map.mpr ⟨(nsKey ns record.key, record.value), ?_, rfl⟩
      refine mem_scan.mpr ⟨hget, within_iff.mpr ⟨?_, ?_⟩⟩
      · exact (nsKey_le_iff ns _ _).mpr record.walPrefix_le_key
      · intro bound hbound
        cases hbound
        exact not_le.mp fun hle => not_le.mpr hlt ((nsKey_le_iff ns _ _).mp hle)
  · rintro ⟨hget, hle⟩
    rw [if_neg]
    · exact hget
    · intro hmem
      obtain ⟨⟨key, value⟩, hscan, rfl⟩ := List.mem_map.mp hmem
      have hlt := (within_iff.mp (mem_scan.mp hscan).2).2 _ rfl
      exact absurd ((nsKey_le_iff ns _ _).mpr hle) (not_le.mpr hlt)

theorem logged_deletes {keys : List Bytes} (hlogged : Logged ns db) :
    Logged ns (db.commit (keys.map .delete)) := by
  apply hlogged.commit
  intro key value hset
  obtain ⟨deleted, _, heq⟩ := List.mem_map.mp hset
  cases heq

end Records

end Vectron.Worker
