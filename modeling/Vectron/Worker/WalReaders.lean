import Vectron.Worker.WalKeys

/-! # The two readers of the log

A store that is opened reads its log with `replayWALFrom`, and a search-only replica is sent
what `IterateWALFrom` reads. A batch has one record. The first reader gives all its entries
the timestamp of the batch and keeps the first one of an id, the second one counts them up and
the last one of an id is the newest. They agree about an id as long as nothing in the log
contradicts the order in which its operations were performed.
-/

namespace Vectron.Worker

open Foundation OrderedStore Stamped

/-! ## What the readers make of a log -/

/-- An update as an entry of the log. -/
def WALUpdate.entry (update : WALUpdate) : WalEntry :=
  ⟨update.id, update.ts, if update.delete then none else some update.value⟩

/-- The operation that `latest` of `replayWALFrom` has for an id. -/
def replayedOp (ns : Bytes) (ts : Nat) (db : Pebble) (id : Bytes) : Option (Option Bytes) :=
  ((newest (walEntries ns ts db)).lookup id).map Stamped.value

/-- The operation of the update of greatest timestamp that `IterateWALFrom` delivers for an id. -/
def streamedOp (ns : Bytes) (ts : Nat) (db : Pebble) (id : Bytes) : Option (Option Bytes) :=
  ((newest ((iterateWALFrom ns ts db).map WALUpdate.entry)).lookup id).map Stamped.value

/-- The last operation performed on an id. -/
def performedOp (performed : List VectorWrite) (id : Bytes) : Option (Option Bytes) :=
  (latest Prod.fst performed id).map Prod.snd

/-- Neither reader finds anything. -/
def Blank (ns : Bytes) (db : Pebble) : Prop :=
  walEntries ns 0 db = [] ∧ iterateWALFrom ns 0 db = []

namespace WalRecord

/-- The ids a record speaks of. -/
def ids (record : WalRecord) : List Bytes := record.updates.map WALUpdate.id

/-- The operations a record stands for, in order. -/
def writes : WalRecord → List VectorWrite
  | .add _ id value => [(id, some value)]
  | .delete _ id => [(id, none)]
  | .batch _ entries => pairWrites entries

/-- The readers that start from this timestamp come across the record. -/
def SeenFrom (cut : Nat) (record : WalRecord) : Prop := walCut cut ≤ record.key

/-- A batch that has an id several times gives it the same value first and last. -/
def Level : WalRecord → Prop
  | .batch _ entries => ∀ entry ∈ entries,
      entries.find? (fun other => other.1 = entry.1) = latest Prod.fst entries entry.1
  | _ => True

/-- A record that stands before another one is older for every id that they share, and is not
what is left of the id when the other one is not seen. -/
def Precedes (cut : Nat) (first second : WalRecord) : Prop :=
  ∀ update ∈ first.updates, update.id ∈ second.ids →
    update.ts < second.ts ∧ (first.SeenFrom cut → second.SeenFrom cut)

/-- A record that a log can take in: it reads as what it is, it stands under a key of its own,
it is newer than what the log has of its ids, and it does not leave the log with an older record
of one of them behind the start of a reader. -/
def Fits (ns : Bytes) (cut : Nat) (db : Pebble) (record : WalRecord) : Prop :=
  record.Readable ∧ record.Level ∧ db.get (nsKey ns record.key) = none ∧
    (∀ update ∈ iterateWALFrom ns 0 db, update.id ∈ record.ids → update.ts < record.ts) ∧
    (record.SeenFrom cut ∨ ∀ update ∈ iterateWALFrom ns cut db, update.id ∉ record.ids)

instance : ∀ record : WalRecord, Decidable record.Readable
  | .add _ _ _ => inferInstanceAs (Decidable (_ ∧ _))
  | .delete ts _ => inferInstanceAs (Decidable (Nanos ts))
  | .batch _ _ => inferInstanceAs (Decidable (_ ∧ _ ∧ _))

instance : ∀ record : WalRecord, Decidable record.Level
  | .add _ _ _ => inferInstanceAs (Decidable True)
  | .delete _ _ => inferInstanceAs (Decidable True)
  | .batch _ entries => inferInstanceAs (Decidable (∀ entry ∈ entries, _ = _))

instance (cut : Nat) (record : WalRecord) : Decidable (record.SeenFrom cut) :=
  inferInstanceAs (Decidable (walCut cut ≤ record.key))

instance (ns : Bytes) (cut : Nat) (db : Pebble) (record : WalRecord) :
    Decidable (record.Fits ns cut db) := by
  delta Fits
  infer_instance

end WalRecord

section Calls

variable (s : Settings)

/-- The operations a call performs, in order. A call that is refused performs none. -/
def Call.performed (store : Store) : Call → List VectorWrite
  | .storeVector _ id vector metadata =>
      match encodeVector s vector metadata with
      | .error _ => []
      | .ok value => [(id, some value)]
  | .storeVectorBatch _ vectors =>
      if shouldBulkLoad s store.snapshotLoaded store.index vectors.length then
        match (bulkAdd s store.index [] vectors).2 with
        | .error _ => []
        | .ok pairs => pairWrites pairs
      else
        match vectors.mapM (encodeEntry s) with
        | .error _ => []
        | .ok pairs => pairWrites pairs
  | .deleteVector _ id => [(id, none)]
  | .saveHNSW _ => []
  | .reopen _ => []

/-- The records a call leaves in the log. -/
def Call.records (store : Store) : Call → List WalRecord
  | .storeVector now id vector metadata =>
      match encodeVector s vector metadata with
      | .error _ => []
      | .ok value => [.add now id value]
  | .storeVectorBatch now vectors =>
      if shouldBulkLoad s store.snapshotLoaded store.index vectors.length then []
      else
        match vectors.mapM (encodeEntry s) with
        | .error _ => []
        | .ok pairs => batchRecords s now pairs
  | .deleteVector now id => [.delete now id]
  | .saveHNSW _ => []
  | .reopen _ => []

/-- A call that leaves in the log all it does: it is no bulk load, or one that is refused, and it
does not truncate the log. -/
def Call.LogsAll (store : Store) : Call → Prop
  | .storeVectorBatch _ vectors =>
      shouldBulkLoad s store.snapshotLoaded store.index vectors.length = true →
        ∃ entry ∈ vectors, ¬ BulkValid s entry
  | .saveHNSW _ => False
  | _ => True

instance (store : Store) : ∀ call : Call, Decidable (call.LogsAll s store)
  | .storeVector _ _ _ _ => inferInstanceAs (Decidable True)
  | .storeVectorBatch _ vectors => inferInstanceAs (Decidable (_ → ∃ entry ∈ vectors, _))
  | .deleteVector _ _ => inferInstanceAs (Decidable True)
  | .saveHNSW _ => inferInstanceAs (Decidable False)
  | .reopen _ => inferInstanceAs (Decidable True)

/-- The calls after which the readers that start from this timestamp agree. -/
def Agreeable (cut : Nat) (store : Store) (call : Call) : Prop :=
  call.LogsAll s store ∧ ∀ record ∈ call.records s store, record.Fits s.ns cut store.db

instance (cut : Nat) (store : Store) (call : Call) : Decidable (Agreeable s cut store call) := by
  delta Agreeable
  infer_instance

end Calls

/-! ## Records and their updates -/

namespace WalRecord

theorem ids_batch (ts : Nat) (entries : List (Bytes × Bytes)) :
    (WalRecord.batch ts entries).ids = entries.map Prod.fst := by
  have hmap := List.zipIdx_map_fst 0 entries
  conv_rhs => rw [← hmap, List.map_map]
  simp [ids, updates, batchUpdates, Function.comp_def]

theorem key_mem_ids {record : WalRecord} {entry : WalEntry} (hentry : entry ∈ record.entries) :
    entry.key ∈ record.ids := by
  cases record with
  | add ts id value
  | delete ts id =>
      rw [List.mem_singleton.mp hentry]
      exact List.mem_singleton_self id
  | batch ts pairs =>
      rw [ids_batch]
      obtain ⟨pair, hpair, rfl⟩ := List.mem_map.mp hentry
      exact List.mem_map.mpr ⟨pair, hpair, rfl⟩

theorem ids_eq_writes (record : WalRecord) : record.ids = record.writes.map Prod.fst := by
  cases record with
  | add ts id value => rfl
  | delete ts id => rfl
  | batch ts pairs => simp [ids_batch, writes, pairWrites, Function.comp_def]

/-- No update of a record is older than the record. -/
theorem ts_le_of_mem_updates {record : WalRecord} {update : WALUpdate}
    (hupdate : update ∈ record.updates) : (record.ts : Int) ≤ update.ts := by
  cases record with
  | add ts id value
  | delete ts id => rw [List.mem_singleton.mp hupdate]; exact le_rfl
  | batch ts pairs =>
      obtain ⟨item, _, rfl⟩ := List.mem_map.mp hupdate
      dsimp only [WalRecord.ts]
      omega

end WalRecord

/-! ## What wins within a record -/

section Winners

variable {entries : List (Bytes × Bytes)} {pair : Bytes × Bytes} {id : Bytes}

/-- Of entries with one timestamp the first one of an id wins. -/
theorem wins_of_find? (ts : Int) (hfind : entries.find? (fun other => other.1 = id) = some pair) :
    Wins (entries.map fun entry => (⟨entry.1, ts, some entry.2⟩ : WalEntry))
      ⟨pair.1, ts, some pair.2⟩ := by
  obtain ⟨hid, before, after, rfl, hbefore⟩ := List.find?_eq_some_iff_append.mp hfind
  have hid : pair.1 = id := by simpa using hid
  rw [List.map_append, List.map_cons]
  refine ⟨_, _, rfl, ?_, ?_⟩
  · intro other hother hkey
    obtain ⟨entry, hentry, rfl⟩ := List.mem_map.mp hother
    have hne : entry.1 ≠ id := by simpa using hbefore entry hentry
    exact absurd (hkey.trans hid) hne
  · intro other hother _
    obtain ⟨entry, _, rfl⟩ := List.mem_map.mp hother
    exact le_rfl

/-- Of updates that are counted up the last one of an id wins. -/
theorem wins_of_latest (ts : Int) (hlatest : latest Prod.fst entries id = some pair) :
    ∃ winner, Wins ((batchUpdates ts entries).map WALUpdate.entry) winner ∧ winner.key = id ∧
      winner.value = some pair.2 := by
  have hid : pair.1 = id := (mem_of_latest hlatest).2
  obtain ⟨before, after, rfl, hafter⟩ := exists_append_of_latest hlatest
  refine ⟨⟨pair.1, ts + before.length, some pair.2⟩, ?_, hid, rfl⟩
  refine ⟨(batchUpdates ts before).map WALUpdate.entry,
    ((after.zipIdx (before.length + 1)).map fun item =>
      (⟨item.1.1, ts + item.2, some item.1.2⟩ : WalEntry)), ?_, ?_, ?_⟩
  · simp [batchUpdates, List.zipIdx_append, WALUpdate.entry, Function.comp_def]
  · intro other hother _
    obtain ⟨update, hupdate, rfl⟩ := List.mem_map.mp hother
    obtain ⟨⟨entry, i⟩, hitem, rfl⟩ := List.mem_map.mp hupdate
    have hlt := (List.mem_zipIdx hitem).2.1
    dsimp only [WALUpdate.entry]
    omega
  · intro other hother hkey
    obtain ⟨⟨entry, i⟩, hitem, rfl⟩ := List.mem_map.mp hother
    have hentry : entry ∈ after := List.fst_mem_of_mem_zipIdx hitem
    exact absurd (hkey.trans hid) (hafter entry hentry)

end Winners

theorem latest_pairWrites (entries : List (Bytes × Bytes)) (id : Bytes) :
    latest Prod.fst (pairWrites entries) id =
      (latest Prod.fst entries id).map fun pair => (pair.1, some pair.2) := by
  rw [pairWrites, latest_map]
  rfl

namespace WalRecord

/-- In a level record both readers find the last operation on an id. -/
theorem Level.wins {record : WalRecord} (hlevel : record.Level) {id : Bytes}
    (hid : id ∈ record.ids) :
    ∃ op, performedOp record.writes id = some op ∧
      (∃ winner, Wins record.entries winner ∧ winner.key = id ∧ winner.value = op) ∧
      ∃ winner, Wins (record.updates.map WALUpdate.entry) winner ∧ winner.key = id ∧
        winner.value = op := by
  have halone : ∀ entry : WalEntry, Wins [entry] entry := fun entry =>
    ⟨[], [], rfl, by simp, by simp⟩
  cases record with
  | add ts id' value =>
      obtain rfl : id = id' := List.mem_singleton.mp hid
      have hlatest : latest Prod.fst [((id, some value) : VectorWrite)] id =
          some (id, some value) := by
        simp [latest_cons]
      refine ⟨some value, ?_, ⟨_, halone _, rfl, rfl⟩, ⟨_, halone _, rfl, rfl⟩⟩
      rw [performedOp, writes, hlatest]
      rfl
  | delete ts id' =>
      obtain rfl : id = id' := List.mem_singleton.mp hid
      have hlatest : latest Prod.fst [((id, none) : VectorWrite)] id = some (id, none) := by
        simp [latest_cons]
      refine ⟨none, ?_, ⟨_, halone _, rfl, rfl⟩, ⟨_, halone _, rfl, rfl⟩⟩
      rw [performedOp, writes, hlatest]
      rfl
  | batch ts pairs =>
      rw [ids_batch] at hid
      obtain ⟨pair, hlatest⟩ := exists_latest hid
      obtain ⟨hpair, rfl⟩ := mem_of_latest hlatest
      have hfind : pairs.find? (fun other => other.1 = pair.1) = some pair :=
        (hlevel pair hpair).trans hlatest
      refine ⟨some pair.2, ?_, ⟨_, wins_of_find? ts hfind, rfl, rfl⟩, wins_of_latest ts hlatest⟩
      rw [performedOp, writes, latest_pairWrites, hlatest]
      rfl

end WalRecord

/-! ## The records of a log -/

/-- The log of a database consists of these records, in the order in which they were written. -/
structure Chronicle (ns : Bytes) (cut : Nat) (db : Pebble) (book : List WalRecord) : Prop where
  readable : ∀ record ∈ book, record.Readable
  level : ∀ record ∈ book, record.Level
  holds : ∀ record ∈ book, Holds ns db record
  covers : ∀ key value, nsKey ns (walCut 0) ≤ key → db.get key = some value →
    readWal (iteratorKey ns key) value ≠ [] ∨ readUpdates (iteratorKey ns key) value ≠ [] →
    ∃ record ∈ book, key = nsKey ns record.key ∧ value = record.value
  ordered : book.Pairwise (WalRecord.Precedes cut)

theorem readUpdates_vectorKey (id value : Bytes) : readUpdates (vectorKey id) value = [] := by
  -- a replay would read this value under every key that can be parsed
  have hread := readWal_vectorKey id (encodeWALBatchEncoded [([0], [])])
  rw [readWal_eq_replayed] at hread
  rw [readUpdates_eq_streamed]
  cases hparse : parseWalKey (vectorKey id) with
  | none => rfl
  | some reading =>
      rw [hparse, Option.elim_some] at hread
      cases reading with
      | add ts other => cases hread
      | delete ts other => cases hread
      | batch ts =>
          rw [WalKeyReading.replayed, if_neg (by decide), List.map_eq_nil_iff] at hread
          exact absurd hread (by decide)

namespace Chronicle

variable {ns : Bytes} {cut : Nat} {db : Pebble} {book : List WalRecord}

theorem of_blank (hblank : Blank ns db) : Chronicle ns cut db [] where
  readable := by simp
  level := by simp
  holds := by simp
  covers := by
    intro key value hle hget hread
    have hscan : (key, value) ∈ db.scan (nsKey ns (walCut 0)) none :=
      mem_scan.mpr ⟨hget, within_iff.mpr ⟨hle, by simp⟩⟩
    rcases hread with hread | hread
    · exact absurd (List.flatMap_eq_nil_iff.mp hblank.1 _ hscan) hread
    · exact absurd (List.flatMap_eq_nil_iff.mp hblank.2 _ hscan) hread
  ordered := List.Pairwise.nil

section

variable (hbook : Chronicle ns cut db book) {record : WalRecord} (hrecord : record ∈ book)

include hbook hrecord

/-- A reader that sees a record of the log is passed its updates. -/
theorem mem_iterateWALFrom {start : Nat} (hseen : record.SeenFrom start) {update : WALUpdate}
    (hupdate : update ∈ record.updates) : update ∈ iterateWALFrom ns start db := by
  have hscan : (nsKey ns record.key, record.value) ∈ db.scan (nsKey ns (walCut start)) none :=
    mem_scan.mpr ⟨hbook.holds record hrecord,
      within_iff.mpr ⟨(nsKey_le_iff ns _ _).mpr hseen, by simp⟩⟩
  refine List.mem_flatMap.mpr ⟨_, hscan, ?_⟩
  rw [iteratorKey_nsKey, (hbook.readable record hrecord).readUpdates]
  exact hupdate

theorem seenFrom_zero : record.SeenFrom 0 :=
  (WalRecord.walCut_le_key (Or.inl rfl) (hbook.readable record hrecord).nanos).mpr
    (Or.inr (Nat.zero_le _))

end

/-- A commit of records that fit continues the log. -/
theorem commit (hbook : Chronicle ns cut db book) {batch : List (StoreOp Bytes Bytes)}
    {records : List WalRecord} (hwrites : WritesRecords ns batch records)
    (hfits : ∀ record ∈ records, record.Fits ns cut db)
    (hordered : records.Pairwise (WalRecord.Precedes cut)) :
    Chronicle ns cut (db.commit batch) (book ++ records) := by
  constructor
  · intro record hrecord
    rcases List.mem_append.mp hrecord with hold | hnew
    · exact hbook.readable record hold
    · exact (hfits record hnew).1
  · intro record hrecord
    rcases List.mem_append.mp hrecord with hold | hnew
    · exact hbook.level record hold
    · exact (hfits record hnew).2.1
  · intro record hrecord
    rcases List.mem_append.mp hrecord with hold | hnew
    · rw [Holds, get_commit_of_forall_ne]
      · exact hbook.holds record hold
      · intro op hop hkey
        obtain ⟨written, hwritten, heq, -⟩ := hwrites.record_of_opKey hop hkey
        have hfree := (hfits written hwritten).2.2.1
        rw [heq, hbook.holds record hold] at hfree
        cases hfree
    · exact hwrites.holds_written hnew
  · intro key value hle hget hread
    rcases get_commit_cases hget with ⟨hbefore, -⟩ | hset
    · obtain ⟨record, hrecord, hkey, hvalue⟩ := hbook.covers key value hle hbefore hread
      exact ⟨record, List.mem_append_left _ hrecord, hkey, hvalue⟩
    · rcases hwrites.only _ hset with ⟨id, hvector⟩ | ⟨record, hrecord, heq⟩
      · have hkey : key = nsKey ns (vectorKey id) := hvector
        rw [hkey, iteratorKey_nsKey, readWal_vectorKey, readUpdates_vectorKey] at hread
        simp at hread
      · obtain ⟨rfl, rfl⟩ := StoreOp.set.inj heq
        exact ⟨record, List.mem_append_right _ hrecord, rfl, rfl⟩
  · refine List.pairwise_append.mpr ⟨hbook.ordered, hordered, ?_⟩
    intro old hold new hnew update hupdate hid
    obtain ⟨-, -, -, hnewer, hseen⟩ := hfits new hnew
    refine ⟨hnewer update ?_ hid, fun hsees => ?_⟩
    · exact hbook.mem_iterateWALFrom hold (hbook.seenFrom_zero hold) hupdate
    · rcases hseen with hseen | hnone
      · exact hseen
      · exact absurd hid (hnone update (hbook.mem_iterateWALFrom hold hsees hupdate))

end Chronicle

/-! ## Reading a log -/

/-- A way to read the log, of which only the keys and values of records matter. -/
structure LogReader where
  read : Bytes → Bytes → List WalEntry
  entries : WalRecord → List WalEntry
  read_record : ∀ record : WalRecord, record.Readable →
    read record.key record.value = entries record
  read_key : ∀ key value, read key value ≠ [] →
    readWal key value ≠ [] ∨ readUpdates key value ≠ []
  ts_le_stamp : ∀ record, ∀ entry ∈ entries record, (record.ts : Int) ≤ entry.stamp
  exists_update : ∀ record, ∀ entry ∈ entries record,
    ∃ update ∈ record.updates, update.id = entry.key ∧ entry.stamp ≤ update.ts
  exists_wins : ∀ record : WalRecord, record.Level → ∀ id ∈ record.ids,
    ∃ winner, Wins (entries record) winner ∧ winner.key = id ∧
      performedOp record.writes id = some winner.value

namespace LogReader

/-- What is read from a timestamp on. -/
def log (reader : LogReader) (ns : Bytes) (ts : Nat) (db : Pebble) : List WalEntry :=
  (db.scan (nsKey ns (walCut ts)) none).flatMap fun entry =>
    reader.read (iteratorKey ns entry.1) entry.2

/-- The operation that is left of an id. -/
def op (reader : LogReader) (ns : Bytes) (ts : Nat) (db : Pebble) (id : Bytes) :
    Option (Option Bytes) :=
  ((newest (reader.log ns ts db)).lookup id).map Stamped.value

end LogReader

section

variable (record : WalRecord) (entry : WalEntry) (hentry : entry ∈ record.entries)

include hentry

theorem exists_update_of_mem_entries :
    ∃ update ∈ record.updates, update.id = entry.key ∧ entry.stamp ≤ update.ts := by
  obtain ⟨update, hupdate, hid⟩ := List.mem_map.mp (WalRecord.key_mem_ids hentry)
  refine ⟨update, hupdate, hid, ?_⟩
  rw [WalRecord.stamp_of_mem_entries hentry]
  exact WalRecord.ts_le_of_mem_updates hupdate

theorem ts_le_stamp_of_mem_entries : (record.ts : Int) ≤ entry.stamp :=
  (WalRecord.stamp_of_mem_entries hentry).ge

end

theorem exists_wins_entries (record : WalRecord) (hlevel : record.Level) (id : Bytes)
    (hid : id ∈ record.ids) :
    ∃ winner, Wins record.entries winner ∧ winner.key = id ∧
      performedOp record.writes id = some winner.value := by
  obtain ⟨op, hop, ⟨winner, hwins, hkey, hvalue⟩, -⟩ := hlevel.wins hid
  exact ⟨winner, hwins, hkey, hvalue ▸ hop⟩

theorem read_updates_record (record : WalRecord) (hreadable : record.Readable) :
    (readUpdates record.key record.value).map WALUpdate.entry =
      record.updates.map WALUpdate.entry := by
  rw [hreadable.readUpdates]

theorem read_updates_key (key value : Bytes)
    (hread : (readUpdates key value).map WALUpdate.entry ≠ []) :
    readWal key value ≠ [] ∨ readUpdates key value ≠ [] :=
  Or.inr fun hnil => hread (by rw [hnil]; rfl)

section

variable (record : WalRecord) (entry : WalEntry)
  (hentry : entry ∈ record.updates.map WALUpdate.entry)

include hentry

theorem exists_update_of_mem_updates :
    ∃ update ∈ record.updates, update.id = entry.key ∧ entry.stamp ≤ update.ts := by
  obtain ⟨update, hupdate, rfl⟩ := List.mem_map.mp hentry
  exact ⟨update, hupdate, rfl, le_rfl⟩

theorem ts_le_stamp_of_mem_updates : (record.ts : Int) ≤ entry.stamp := by
  obtain ⟨update, hupdate, rfl⟩ := List.mem_map.mp hentry
  exact WalRecord.ts_le_of_mem_updates hupdate

end

theorem exists_wins_updates (record : WalRecord) (hlevel : record.Level) (id : Bytes)
    (hid : id ∈ record.ids) :
    ∃ winner, Wins (record.updates.map WALUpdate.entry) winner ∧ winner.key = id ∧
      performedOp record.writes id = some winner.value := by
  obtain ⟨op, hop, -, winner, hwins, hkey, hvalue⟩ := hlevel.wins hid
  exact ⟨winner, hwins, hkey, hvalue ▸ hop⟩

/-- `replayWALFrom` as a reader. -/
def replayReader : LogReader where
  read := readWal
  entries := WalRecord.entries
  read_record _ hreadable := hreadable.readWal
  read_key _ _ := Or.inl
  ts_le_stamp := ts_le_stamp_of_mem_entries
  exists_update := exists_update_of_mem_entries
  exists_wins := exists_wins_entries

/-- `IterateWALFrom` as a reader. -/
def streamReader : LogReader where
  read key value := (readUpdates key value).map WALUpdate.entry
  entries record := record.updates.map WALUpdate.entry
  read_record := read_updates_record
  read_key := read_updates_key
  ts_le_stamp := ts_le_stamp_of_mem_updates
  exists_update := exists_update_of_mem_updates
  exists_wins := exists_wins_updates

theorem op_replayReader (ns : Bytes) (ts : Nat) (db : Pebble) (id : Bytes) :
    replayReader.op ns ts db id = replayedOp ns ts db id := rfl

theorem op_streamReader (ns : Bytes) (ts : Nat) (db : Pebble) (id : Bytes) :
    streamReader.op ns ts db id = streamedOp ns ts db id := by
  rw [LogReader.op, LogReader.log, streamedOp, iterateWALFrom, List.map_flatMap]
  rfl

theorem performedOp_append (first second : List VectorWrite) (id : Bytes) :
    performedOp (first ++ second) id = (performedOp second id).or (performedOp first id) := by
  rw [performedOp, latest_append, Option.map_or, performedOp, performedOp]

theorem performedOp_eq_none {performed : List VectorWrite} {id : Bytes}
    (hnone : ∀ write ∈ performed, write.1 ≠ id) : performedOp performed id = none := by
  rw [performedOp, latest_eq_none.mpr hnone]
  rfl

/-- The last of the records that speak of an id says what was performed last. -/
theorem performedOp_flatMap {before after : List WalRecord} {last : WalRecord} {id : Bytes}
    (hid : id ∈ last.ids) (hafter : ∀ record ∈ after, id ∉ record.ids) :
    performedOp ((before ++ last :: after).flatMap WalRecord.writes) id =
      performedOp last.writes id := by
  have hnone : performedOp (after.flatMap WalRecord.writes) id = none := by
    apply performedOp_eq_none
    intro write hwrite heq
    obtain ⟨record, hrecord, hmem⟩ := List.mem_flatMap.mp hwrite
    apply hafter record hrecord
    rw [WalRecord.ids_eq_writes, ← heq]
    exact List.mem_map_of_mem hmem
  have hsome : ∃ op, performedOp last.writes id = some op := by
    rw [WalRecord.ids_eq_writes] at hid
    obtain ⟨write, hwrite⟩ := exists_latest hid
    exact ⟨write.2, by rw [performedOp, hwrite]; rfl⟩
  obtain ⟨op, hop⟩ := hsome
  rw [List.flatMap_append, List.flatMap_cons, performedOp_append, performedOp_append, hnone, hop]
  rfl

namespace Chronicle

variable {ns : Bytes} {cut : Nat} {db : Pebble} {book : List WalRecord}

/-- What stands at a key that a reader visits. -/
theorem record_of_mem_scan (hbook : Chronicle ns cut db book) (reader : LogReader) {start : Nat}
    {item : Bytes × Bytes} (hscan : item ∈ db.scan (nsKey ns (walCut start)) none) {entry : WalEntry}
    (hentry : entry ∈ reader.read (iteratorKey ns item.1) item.2) :
    ∃ record ∈ book, item.1 = nsKey ns record.key ∧ record.SeenFrom start ∧
      entry ∈ reader.entries record := by
  obtain ⟨key, value⟩ := item
  obtain ⟨hget, hwithin⟩ := mem_scan.mp hscan
  have hle := (within_iff.mp hwithin).1
  have hstart : nsKey ns (walCut 0) ≤ key :=
    le_trans ((nsKey_le_iff ns _ _).mpr (walCut_zero_le start)) hle
  obtain ⟨record, hrecord, rfl, rfl⟩ := hbook.covers key value hstart hget
    (reader.read_key _ _ (List.ne_nil_of_mem hentry))
  refine ⟨record, hrecord, rfl, (nsKey_le_iff ns _ _).mp hle, ?_⟩
  rw [iteratorKey_nsKey, reader.read_record record (hbook.readable record hrecord)] at hentry
  exact hentry

/-- A reader that sees the last record of an id is left with what it says of the id. -/
theorem wins_log {before after : List WalRecord} {last : WalRecord}
    (hbook : Chronicle ns cut db (before ++ last :: after)) (reader : LogReader)
    (hseen : last.SeenFrom cut) {winner : WalEntry} (hwins : Wins (reader.entries last) winner)
    (hlast : ∀ record ∈ after, winner.key ∉ record.ids) :
    Wins (reader.log ns cut db) winner := by
  have hmem : last ∈ before ++ last :: after := by simp
  have hscan : (nsKey ns last.key, last.value) ∈ db.scan (nsKey ns (walCut cut)) none :=
    mem_scan.mpr ⟨hbook.holds last hmem,
      within_iff.mpr ⟨(nsKey_le_iff ns _ _).mpr hseen, by simp⟩⟩
  obtain ⟨front, back, hsplit⟩ := List.append_of_mem hscan
  have hsorted := scan_sorted db (nsKey ns (walCut cut)) none
  rw [hsplit] at hsorted
  obtain ⟨-, hback, hfront⟩ := List.pairwise_append.mp hsorted
  -- an entry of another record of the id is older, as that record stands before the last one
  have holder : ∀ item ∈ db.scan (nsKey ns (walCut cut)) none, item.1 ≠ nsKey ns last.key →
      ∀ old ∈ reader.read (iteratorKey ns item.1) item.2, old.key = winner.key →
        old.stamp < winner.stamp := by
    intro item hitem hne old hold hkey
    obtain ⟨record, hrecord, hitemKey, -, hentry⟩ := hbook.record_of_mem_scan reader hitem hold
    obtain ⟨update, hupdate, hid, hle⟩ := reader.exists_update record old hentry
    have hwinner := reader.ts_le_stamp last winner hwins.mem
    have hbefore : record ∈ before := by
      rcases List.mem_append.mp hrecord with hbefore | hrest
      · exact hbefore
      · rcases List.mem_cons.mp hrest with rfl | hafter
        · exact absurd hitemKey hne
        · refine absurd ?_ (hlast record hafter)
          rw [← hkey, ← hid]
          exact List.mem_map_of_mem hupdate
    have hprecedes := (List.pairwise_append.mp hbook.ordered).2.2 record hbefore last (by simp)
    obtain ⟨other, hother, hotherId, -⟩ := reader.exists_update last winner hwins.mem
    have hlt := (hprecedes update hupdate (by
      rw [hid, hkey, ← hotherId]
      exact List.mem_map_of_mem hother)).1
    omega
  rw [LogReader.log, hsplit]
  rw [hsplit] at holder
  apply Wins.flatMap
  · rw [iteratorKey_nsKey, reader.read_record last (hbook.readable last hmem)]
    exact hwins
  · intro item hitem
    exact holder item (by simp [hitem]) (hfront item hitem _ List.mem_cons_self).ne
  · intro item hitem
    exact holder item (by simp [hitem]) ((List.pairwise_cons.mp hback).1 item hitem).ne'

/-- A reader that sees no record of an id is left with nothing of it. -/
theorem op_eq_none (hbook : Chronicle ns cut db book) (reader : LogReader) {id : Bytes}
    (hunseen : ∀ record ∈ book, id ∈ record.ids → ¬ record.SeenFrom cut) :
    reader.op ns cut db id = none := by
  rw [LogReader.op, lookup_newest_of_forall_ne]
  · rfl
  · rintro entry hentry rfl
    obtain ⟨item, hitem, hread⟩ := List.mem_flatMap.mp hentry
    obtain ⟨record, hrecord, -, hseen, hmem⟩ := hbook.record_of_mem_scan reader hitem hread
    obtain ⟨update, hupdate, hid, -⟩ := reader.exists_update record entry hmem
    refine hunseen record hrecord ?_ hseen
    rw [← hid]
    exact List.mem_map_of_mem hupdate

section

variable {before after : List WalRecord} {last : WalRecord} {id : Bytes}
  (hbook : Chronicle ns cut db (before ++ last :: after))

include hbook

theorem op_eq_performedOp (reader : LogReader) (hseen : last.SeenFrom cut) (hid : id ∈ last.ids)
    (hafter : ∀ record ∈ after, id ∉ record.ids) :
    reader.op ns cut db id =
      performedOp ((before ++ last :: after).flatMap WalRecord.writes) id := by
  obtain ⟨winner, hwins, rfl, hop⟩ := reader.exists_wins last (hbook.level last (by simp)) id hid
  have hlookup := lookup_newest_eq_some_iff.mpr ⟨rfl, hbook.wins_log reader hseen hwins hafter⟩
  rw [LogReader.op, hlookup, performedOp_flatMap hid hafter, hop]
  rfl

/-- Where the last record of an id is not seen, none of the id is. -/
theorem unseen_of_last (hunseen : ¬ last.SeenFrom cut) (hid : id ∈ last.ids)
    (hafter : ∀ record ∈ after, id ∉ record.ids) :
    ∀ record ∈ before ++ last :: after, id ∈ record.ids → ¬ record.SeenFrom cut := by
  intro record hrecord hmem hseen
  rcases List.mem_append.mp hrecord with hbefore | hrest
  · have hprecedes := (List.pairwise_append.mp hbook.ordered).2.2 record hbefore last (by simp)
    obtain ⟨update, hupdate, rfl⟩ := List.mem_map.mp hmem
    exact hunseen ((hprecedes update hupdate hid).2 hseen)
  · rcases List.mem_cons.mp hrest with rfl | hlater
    · exact hunseen hseen
    · exact hafter record hlater hmem

end

/-- The last of the records that speak of an id. -/
theorem exists_last_record {id : Bytes} (hspoken : ∃ record ∈ book, id ∈ record.ids) :
    ∃ before last after, book = before ++ last :: after ∧ id ∈ last.ids ∧
      ∀ record ∈ after, id ∉ record.ids := by
  obtain ⟨record, hrecord, hid⟩ := hspoken
  have hmap : true ∈ book.map fun record => decide (id ∈ record.ids) :=
    List.mem_map.mpr ⟨record, hrecord, decide_eq_true hid⟩
  obtain ⟨last, hlatest⟩ := exists_latest hmap
  obtain ⟨before, after, hsplit, hafter⟩ := exists_append_of_latest hlatest
  refine ⟨before, last, after, hsplit, of_decide_eq_true (mem_of_latest hlatest).2, ?_⟩
  intro other hother hmem
  exact hafter other hother (decide_eq_true hmem)

section

variable (hbook : Chronicle ns cut db book)

include hbook

/-- A reader is left with the last operation on an id, or sees nothing of the id. -/
theorem op_cases (id : Bytes) :
    (∀ reader : LogReader, reader.op ns cut db id =
        performedOp (book.flatMap WalRecord.writes) id) ∨
      ∀ record ∈ book, id ∈ record.ids → ¬ record.SeenFrom cut := by
  by_cases hspoken : ∃ record ∈ book, id ∈ record.ids
  · obtain ⟨before, last, after, rfl, hid, hafter⟩ := exists_last_record hspoken
    by_cases hseen : last.SeenFrom cut
    · exact Or.inl fun reader => hbook.op_eq_performedOp reader hseen hid hafter
    · exact Or.inr (hbook.unseen_of_last hseen hid hafter)
  · right
    intro record hrecord hid
    exact absurd ⟨record, hrecord, hid⟩ hspoken

/-- Every update that is streamed stands in a record that is seen. -/
theorem record_of_mem_iterateWALFrom {start : Nat} {update : WALUpdate}
    (hupdate : update ∈ iterateWALFrom ns start db) :
    ∃ record ∈ book, record.SeenFrom start ∧ update.id ∈ record.ids := by
  obtain ⟨item, hitem, hread⟩ := List.mem_flatMap.mp hupdate
  obtain ⟨record, hrecord, -, hseen, hentry⟩ := hbook.record_of_mem_scan streamReader hitem
    (List.mem_map_of_mem hread)
  obtain ⟨other, hother, hid, -⟩ := streamReader.exists_update record _ hentry
  exact ⟨record, hrecord, hseen, List.mem_map.mpr ⟨other, hother, hid⟩⟩

/-- Both readers are left with the last operation on an id if they find anything of it. -/
theorem readers_agree (id : Bytes) :
    streamedOp ns cut db id = replayedOp ns cut db id ∧
      (replayedOp ns cut db id = performedOp (book.flatMap WalRecord.writes) id ∨
        replayedOp ns cut db id = none ∧ ∀ update ∈ iterateWALFrom ns cut db, update.id ≠ id) ∧
      (cut = 0 → replayedOp ns cut db id = performedOp (book.flatMap WalRecord.writes) id) := by
  rw [← op_streamReader, ← op_replayReader]
  rcases hbook.op_cases id with hop | hunseen
  · rw [hop streamReader, hop replayReader]
    exact ⟨rfl, Or.inl rfl, fun _ => rfl⟩
  · have hnone := fun reader : LogReader => hbook.op_eq_none reader hunseen
    rw [hnone streamReader, hnone replayReader]
    refine ⟨rfl, Or.inr ⟨rfl, ?_⟩, ?_⟩
    · rintro update hupdate rfl
      obtain ⟨record, hrecord, hseen, hid⟩ := hbook.record_of_mem_iterateWALFrom hupdate
      exact hunseen record hrecord hid hseen
    · rintro rfl
      -- from the start of the log every record is seen, so none speaks of the id
      refine (performedOp_eq_none ?_).symm
      rintro write hwrite rfl
      obtain ⟨record, hrecord, hmem⟩ := List.mem_flatMap.mp hwrite
      refine hunseen record hrecord ?_ (hbook.seenFrom_zero hrecord)
      rw [WalRecord.ids_eq_writes]
      exact List.mem_map_of_mem hmem

end

end Chronicle

/-! ## Calls -/

theorem walKey_le_walKey {ts ts' : Nat} (hts : Nanos ts) (hts' : Nanos ts') (hlt : ts < ts')
    (id id' : Bytes) : walKey ts id ≤ walKey ts' id' := by
  rw [walKey, walKey, append_left_le_iff, decimal_nanos hts, decimal_nanos hts']
  apply le_of_lt
  rw [append_lt_append_iff (by simp),
    paddedDecimal_lt_iff (nanos_lt_width hts) (nanos_lt_width hts')]
  exact Or.inl hlt

theorem WalRecord.precedes_add {cut ts ts' : Nat} (hts : Nanos ts) (hts' : Nanos ts')
    (hlt : ts < ts') (id id' value value' : Bytes) :
    (WalRecord.add ts id value).Precedes cut (.add ts' id' value') := by
  intro update hupdate _
  rw [List.mem_singleton.mp hupdate]
  exact ⟨Int.ofNat_lt.mpr hlt, fun hseen => le_trans hseen (walKey_le_walKey hts hts' hlt id id')⟩

theorem zipIdx_pairwise {α : Type} (items : List α) (start : Nat) :
    (items.zipIdx start).Pairwise fun first second => first.2 < second.2 := by
  induction items generalizing start with
  | nil => exact List.Pairwise.nil
  | cons item items ih =>
      rw [List.zipIdx_cons]
      refine List.pairwise_cons.mpr ⟨?_, ih (start + 1)⟩
      rintro ⟨other, i⟩ hmem
      have hle := (List.mem_zipIdx hmem).1
      dsimp only
      omega

variable {s : Settings} {cut : Nat}

/-- The records of a batch stand in the order of its vectors. -/
theorem batchRecords_pairwise {baseTS : Nat} {pairs : List (Bytes × Bytes)}
    (hreadable : ∀ record ∈ batchRecords s baseTS pairs, record.Readable) :
    (batchRecords s baseTS pairs).Pairwise (WalRecord.Precedes cut) := by
  rw [batchRecords] at hreadable ⊢
  split
  next _ => exact List.pairwise_singleton _ _
  next hsingle =>
    rw [if_neg hsingle] at hreadable
    refine List.pairwise_map.mpr ((zipIdx_pairwise pairs 0).imp_of_mem ?_)
    rintro ⟨pair, i⟩ ⟨pair', j⟩ hfirst hsecond hlt
    have hnanos : ∀ item ∈ pairs.zipIdx, Nanos (baseTS + item.2) := fun item hitem =>
      (hreadable _ (List.mem_map_of_mem hitem)).nanos
    exact WalRecord.precedes_add (hnanos _ hfirst) (hnanos _ hsecond) (Nat.add_lt_add_left hlt _)
      _ _ _ _

theorem batchRecords_writes (s : Settings) (baseTS : Nat) (pairs : List (Bytes × Bytes)) :
    (batchRecords s baseTS pairs).flatMap WalRecord.writes = pairWrites pairs := by
  rw [batchRecords]
  split
  next _ => simp [WalRecord.writes]
  next _ =>
    have hmap := List.zipIdx_map_fst 0 pairs
    conv_rhs => rw [pairWrites, ← hmap, List.map_map]
    simp only [singleRecords, List.flatMap_map, WalRecord.writes]
    rw [List.map_eq_flatMap]
    rfl

/-- A refused bulk load stores nothing. -/
theorem bulkAdd_error_of_invalid {index : Hnsw} {vectors : List VectorEntry}
    (hdim : index.config.dim = s.config.index.dim) (hinvalid : ∃ entry ∈ vectors, ¬ BulkValid s entry) :
    ∃ err, (bulkAdd s index [] vectors).2 = .error err := by
  cases hbulk : (bulkAdd s index [] vectors).2 with
  | error err => exact ⟨err, rfl⟩
  | ok pairs =>
      obtain ⟨entry, hentry, hinvalid⟩ := hinvalid
      obtain ⟨-, hdims, hpairs⟩ := bulkAdd_eq_ok (Prod.ext rfl hbulk)
      obtain ⟨i, hi⟩ := List.mem_iff_getElem?.mp hentry
      obtain ⟨pair, -, ⟨hid, -, hvalue⟩, -⟩ := getElem?_of_forall₂ hpairs.flip hi
      refine absurd ⟨hid, (hdims entry hentry).trans hdim, ?_⟩ hinvalid
      rw [hvalue]
      rfl

/-- The index of a store, and the one it would load, are of the dimension that is set. -/
structure Dimensioned (s : Settings) (store : Store) : Prop where
  index : store.index.config.dim = s.config.index.dim
  snapshot : ∀ snapshot, store.snapshot = some snapshot →
    snapshot.index.config.dim = s.config.index.dim

theorem Dimensioned.openStore {order : RangeOrder} {db : Pebble} {snapshot : Option Snapshot}
    (hsnapshot : ∀ saved, snapshot = some saved → saved.index.config.dim = s.config.index.dim) :
    Dimensioned s (openStore s order db snapshot) := by
  refine ⟨?_, hsnapshot⟩
  cases hsaved : snapshot with
  | none =>
      rw [Worker.openStore, loadHNSW]
      split
      · rw [config_replayWALFrom]
        rfl
      · rfl
  | some saved =>
      have hdim : saved.index.reloaded.config.dim = s.config.index.dim := hsnapshot saved hsaved
      rw [Worker.openStore, loadHNSW]
      split
      · rw [config_replayWALFrom]
        exact hdim
      · exact hdim

variable {store : Store} {book : List WalRecord}

/-- A call that leaves in the log all it does continues the log. -/
structure Continues (s : Settings) (cut : Nat) (book : List WalRecord) (call : Call)
    (store next : Store) : Prop where
  sized : Dimensioned s next
  chronicle : Chronicle s.ns cut next.db (book ++ call.records s store)
  performed : call.performed s store = (call.records s store).flatMap WalRecord.writes

namespace Continues

section

variable (hwal : s.config.walEnabled = true) (hsized : Dimensioned s store)
  (hbook : Chronicle s.ns cut store.db book) {now : Nat}

include hwal hsized hbook

theorem storeVector {id : Bytes} {vector : Vector} {metadata : Bytes}
    (hagree : Agreeable s cut store (.storeVector now id vector metadata)) :
    Continues s cut book (.storeVector now id vector metadata) store
      (store.call s (.storeVector now id vector metadata)) := by
  obtain ⟨-, hfits⟩ := hagree
  cases hencode : encodeVector s vector metadata with
  | error err =>
      have hstore : store.call s (.storeVector now id vector metadata) = store := by
        simp [Store.call, Worker.storeVector, hencode]
      refine ⟨?_, ?_, ?_⟩
      · rw [hstore]
        exact hsized
      · rw [hstore]
        simpa [Call.records, hencode] using hbook
      · simp [Call.performed, Call.records, hencode]
  | ok value =>
      have hrecords : (Call.storeVector now id vector metadata).records s store =
          [.add now id value] := by
        simp [Call.records, hencode]
      have hdb : (store.call s (.storeVector now id vector metadata)).db =
          store.db.commit (storeVectorOps s now id value) := by
        simp [Store.call, Worker.storeVector, hencode]
      rw [hrecords] at hfits
      obtain ⟨hnanos, hid⟩ := (hfits _ (List.mem_singleton_self _)).1
      refine ⟨⟨?_, ?_⟩, ?_, ?_⟩
      · simpa [Store.call, Worker.storeVector, hencode] using hsized.index
      · simpa [Store.call, Worker.storeVector, hencode] using hsized.snapshot
      · rw [hrecords, hdb]
        exact hbook.commit (storeVectorOps_writes hwal hnanos hid value) hfits
          (List.pairwise_singleton _ _)
      · rw [hrecords]
        simp [Call.performed, hencode, WalRecord.writes]

theorem deleteVector {id : Bytes} (hagree : Agreeable s cut store (.deleteVector now id)) :
    Continues s cut book (.deleteVector now id) store (store.call s (.deleteVector now id)) := by
  obtain ⟨-, hfits⟩ := hagree
  have hnanos : Nanos now := (hfits (.delete now id) (List.mem_singleton_self _)).1
  refine ⟨⟨?_, hsized.snapshot⟩, ?_, ?_⟩
  · exact (congrArg IndexConfig.dim (Hnsw.config_delete id)).trans hsized.index
  · exact hbook.commit (deleteVectorOps_writes hwal hnanos id) hfits (List.pairwise_singleton _ _)
  · simp [Call.performed, Call.records, WalRecord.writes]

/-- A batch that is not loaded in bulk. -/
theorem storeBatch {vectors : List VectorEntry}
    (hbulk : shouldBulkLoad s store.snapshotLoaded store.index vectors.length = false)
    (hagree : Agreeable s cut store (.storeVectorBatch now vectors)) :
    Continues s cut book (.storeVectorBatch now vectors) store
      (store.call s (.storeVectorBatch now vectors)) := by
  obtain ⟨-, hfits⟩ := hagree
  by_cases hempty : vectors = []
  · subst hempty
    have hmap : ([] : List VectorEntry).mapM (encodeEntry s) = .ok [] := rfl
    have hnone : batchRecords s now [] = [] := by
      rw [batchRecords]
      split
      next hbatch => simp [usesWalBatch] at hbatch
      next _ => rfl
    have hstore : store.call s (.storeVectorBatch now []) = store := rfl
    have hrecords : (Call.storeVectorBatch now []).records s store = [] := by
      simp [Call.records, hmap, hnone]
    have hperformed : (Call.storeVectorBatch now []).performed s store = [] := by
      simp only [Call.performed, hbulk, hmap]
      rfl
    refine ⟨?_, ?_, ?_⟩
    · rw [hstore]
      exact hsized
    · rw [hstore, hrecords, List.append_nil]
      exact hbook
    · rw [hrecords, hperformed]
      rfl
  · cases hencode : vectors.mapM (encodeEntry s) with
    | error err =>
        have hstore : store.call s (.storeVectorBatch now vectors) = store := by
          simp [Store.call, storeVectorBatch, hempty, hbulk, hencode]
        have hrecords : (Call.storeVectorBatch now vectors).records s store = [] := by
          simp [Call.records, hbulk, hencode]
        refine ⟨?_, ?_, ?_⟩
        · rw [hstore]
          exact hsized
        · rw [hstore, hrecords, List.append_nil]
          exact hbook
        · rw [hrecords]
          simp [Call.performed, hbulk, hencode]
    | ok pairs =>
        have hrecords : (Call.storeVectorBatch now vectors).records s store =
            batchRecords s now pairs := by
          simp [Call.records, hbulk, hencode]
        have hdb : (store.call s (.storeVectorBatch now vectors)).db =
            store.db.commit (storeVectorBatchOps s now pairs) := by
          simp [Store.call, storeVectorBatch, hempty, hbulk, hencode]
        rw [hrecords] at hfits
        have hreadable : ∀ record ∈ batchRecords s now pairs, record.Readable :=
          fun record hrecord => (hfits record hrecord).1
        refine ⟨⟨?_, ?_⟩, ?_, ?_⟩
        · simpa [Store.call, storeVectorBatch, hempty, hbulk, hencode, addAll_config]
            using hsized.index
        · simpa [Store.call, storeVectorBatch, hempty, hbulk, hencode] using hsized.snapshot
        · rw [hrecords, hdb]
          exact hbook.commit (storeVectorBatchOps_writes_of_readable hwal hreadable) hfits
            (batchRecords_pairwise hreadable)
        · rw [hrecords, batchRecords_writes]
          simp [Call.performed, hbulk, hencode]

end

/-- A bulk load that is refused. -/
theorem bulkLoad (hsized : Dimensioned s store) (hbook : Chronicle s.ns cut store.db book) {now : Nat}
    {vectors : List VectorEntry}
    (hbulk : shouldBulkLoad s store.snapshotLoaded store.index vectors.length = true)
    (hagree : Agreeable s cut store (.storeVectorBatch now vectors)) :
    Continues s cut book (.storeVectorBatch now vectors) store
      (store.call s (.storeVectorBatch now vectors)) := by
  have hinvalid := hagree.1 hbulk
  have hempty : vectors ≠ [] := by
    rintro rfl
    simp at hinvalid
  obtain ⟨err, herr⟩ := bulkAdd_error_of_invalid hsized.index hinvalid
  have hstore : store.call s (.storeVectorBatch now vectors) =
      { store with index := (bulkAdd s store.index [] vectors).1 } := by
    have hpair : bulkAdd s store.index [] vectors =
        ((bulkAdd s store.index [] vectors).1, .error err) := Prod.ext rfl herr
    rw [Store.call, storeVectorBatch, if_neg hempty, if_pos hbulk, bulkLoadVectors, hpair]
  have hrecords : (Call.storeVectorBatch now vectors).records s store = [] := by
    simp [Call.records, hbulk]
  refine ⟨⟨?_, ?_⟩, ?_, ?_⟩
  · rw [hstore, bulkAdd_config]
    exact hsized.index
  · rw [hstore]
    exact hsized.snapshot
  · rw [hstore, hrecords, List.append_nil]
    exact hbook
  · rw [hrecords]
    simp [Call.performed, hbulk, herr]

theorem call (hwal : s.config.walEnabled = true) (hsized : Dimensioned s store)
    (hbook : Chronicle s.ns cut store.db book) {call : Call} (hagree : Agreeable s cut store call) :
    Continues s cut book call store (store.call s call) := by
  cases call with
  | storeVector now id vector metadata => exact storeVector hwal hsized hbook hagree
  | storeVectorBatch now vectors =>
      cases hbulk : shouldBulkLoad s store.snapshotLoaded store.index vectors.length with
      | false => exact storeBatch hwal hsized hbook hbulk hagree
      | true => exact bulkLoad hsized hbook hbulk hagree
  | deleteVector now id => exact deleteVector hwal hsized hbook hagree
  | saveHNSW now => exact hagree.1.elim
  | reopen order =>
      have hdb : (store.call s (.reopen order)).db = store.db := rfl
      refine ⟨Dimensioned.openStore hsized.snapshot, ?_, rfl⟩
      rw [hdb]
      simpa [Call.records] using hbook

end Continues

/-- The log of a store has what was performed. -/
def Chronicled (s : Settings) (cut : Nat) (store : Store) (performed : List VectorWrite) : Prop :=
  Dimensioned s store ∧ ∃ book, Chronicle s.ns cut store.db book ∧
    performed = book.flatMap WalRecord.writes

theorem Chronicled.call (hwal : s.config.walEnabled = true) {performed : List VectorWrite}
    (hchronicled : Chronicled s cut store performed) {call : Call}
    (hagree : Agreeable s cut store call) :
    Chronicled s cut (store.call s call) (performed ++ call.performed s store) := by
  obtain ⟨hsized, book, hbook, rfl⟩ := hchronicled
  obtain ⟨hsized', hbook', hperformed⟩ := Continues.call hwal hsized hbook hagree
  refine ⟨hsized', _, hbook', ?_⟩
  rw [List.flatMap_append, hperformed]

/-- After every run of calls that the log can take in, both readers are left with the last operation
on every id, from every start from which they are. -/
theorem walReaders_agree (s : Settings) (hwal : s.config.walEnabled = true) {db : Pebble}
    (hblank : Blank s.ns db) (order : RangeOrder) (cut : Nat) {calls : List Call}
    (hcalls : Run.Meets (Store.call s) (Agreeable s cut) (openStore s order db none) calls)
    (id : Bytes) :
    let store := Run.run (Store.call s) (openStore s order db none) calls
    let performed := Run.collect (Store.call s) (fun store call => call.performed s store)
      (openStore s order db none) calls
    streamedOp s.ns cut store.db id = replayedOp s.ns cut store.db id ∧
      (replayedOp s.ns cut store.db id = performedOp performed id ∨
        replayedOp s.ns cut store.db id = none ∧
          ∀ update ∈ iterateWALFrom s.ns cut store.db, update.id ≠ id) ∧
      (cut = 0 → replayedOp s.ns cut store.db id = performedOp performed id) := by
  intro store performed
  have hstart : Chronicled s cut (openStore s order db none) [] :=
    ⟨Dimensioned.openStore (by simp), [], Chronicle.of_blank hblank, rfl⟩
  have hend : Chronicled s cut store ([] ++ performed) :=
    Run.collect_invariant (fun _ _ _ hagree hchronicled => hchronicled.call hwal hagree) hcalls
      hstart
  obtain ⟨-, book, hbook, hperformed⟩ := hend
  rw [List.nil_append] at hperformed
  rw [hperformed]
  exact hbook.readers_agree id

/-- Singles, a deletion, a batch and a restart. -/
def plainCalls : List Call :=
  [.storeVector 1700000000000000000 (idOf 'a') [1] [],
    .storeVector 1700000000000000010 (idOf 'b') [2] [],
    .deleteVector 1700000000000000020 (idOf 'a'),
    .storeVectorBatch 1700000000000000030
      [⟨idOf 'b', [3], []⟩, ⟨idOf 'c', [4], []⟩, ⟨idOf 'b', [3], []⟩],
    .reopen RangeOrder.stored,
    .storeVector 1700000000000000040 (idOf 'c') [5] []]

def emptyStore : Store := openStore lineSettings RangeOrder.stored OrderedStore.empty none

theorem walReaders_agree_plainCalls :
    let store := Run.run (Store.call lineSettings) emptyStore plainCalls
    streamedOp [] 1700000000000000015 store.db (idOf 'b') =
        replayedOp [] 1700000000000000015 store.db (idOf 'b') ∧
      replayedOp [] 1700000000000000015 store.db (idOf 'b') =
        some (some [1, 0, 0, 0, 3, 0, 0, 0]) :=
  ⟨(walReaders_agree lineSettings rfl ⟨rfl, rfl⟩ RangeOrder.stored 1700000000000000015
    (by decide +kernel) (idOf 'b')).1, by decide +kernel⟩

/-- One batch that gives an id two values. -/
def unevenBatch : List Call :=
  [.storeVectorBatch 1700000000000000000 [⟨idOf 'b', [1], []⟩, ⟨idOf 'b', [2], []⟩]]

/-- The replay keeps the first value and the stream the second one. -/
theorem unevenBatch_disagrees :
    let store := Run.run (Store.call lineSettings) emptyStore unevenBatch
    replayedOp [] 0 store.db (idOf 'b') = some (some [1, 0, 0, 0, 1, 0, 0, 0]) ∧
      streamedOp [] 0 store.db (idOf 'b') = some (some [1, 0, 0, 0, 2, 0, 0, 0]) := by
  decide +kernel

end Vectron.Worker
