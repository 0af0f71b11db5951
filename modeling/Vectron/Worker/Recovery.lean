import Vectron.Foundation.Run
import Vectron.Worker.Storage

/-! # Crash recovery of the index

A store that is opened again loads the last snapshot and applies the newest entry of
each id that the log still has. It gets back the index it had before the crash as long
as each id's newest entry is also its newest write, and as the index takes the vectors
that are added to it. The exceptions are the records of batches, which no snapshot
truncates, ids that look like the record of a deletion, and deleted nodes in the graph.
-/

namespace Vectron.Worker

open Foundation OrderedStore Stamped

section Conditions

variable (s : Settings)

/-- The configurations the index of a store has before and after a snapshot is loaded. -/
def liveConfigs : List IndexConfig := [s.config.index.checked, s.config.index.checked.reloaded]

/-- The value a vector is stored under gives the index the same vector again. -/
def Survives (vector : Vector) (value : Bytes) : Prop :=
  match decodeVectorWithMeta s.arith value with
  | .error _ => False
  | .ok (decoded, _) => decoded.length = s.config.index.dim ∧
      ∀ before ∈ liveConfigs s, ∀ after ∈ liveConfigs s,
        kept s.arith after decoded = kept s.arith before vector

instance (vector : Vector) (value : Bytes) : Decidable (Survives s vector value) := by
  delta Survives
  split <;> infer_instance

/-- The timestamp a replay would start from. -/
def replayCut (snapshot : Option Snapshot) : Nat := snapshot.elim 0 Snapshot.ts

def isBatchKey (ns key : Bytes) : Bool :=
  batchMark.isPrefixOf (trimFront hnswWALPrefix (iteratorKey ns key))

/-- The part of `walEntries` that stands in the records of batches, or in the others. -/
def walEntriesOf (batch : Bool) (ns : Bytes) (ts : Nat) (db : Pebble) : List WalEntry :=
  ((db.scan (nsKey ns (walCut ts)) none).filter fun entry => isBatchKey ns entry.1 == batch).flatMap
    fun entry => readWal (iteratorKey ns entry.1) entry.2

/-- An id that stands in the record of a batch was not written by a single call since. -/
def BatchesCurrent (ns : Bytes) (cut : Nat) (db : Pebble) : Prop :=
  ∀ single ∈ walEntriesOf false ns cut db, ∀ entry ∈ walEntriesOf true ns cut db,
    entry.key = single.key → ∃ later ∈ walEntriesOf true ns cut db,
      later.key = single.key ∧ single.stamp < later.stamp

instance (ns : Bytes) (cut : Nat) (db : Pebble) : Decidable (BatchesCurrent ns cut db) :=
  inferInstanceAs (Decidable (∀ single ∈ _, ∀ entry ∈ _, _ → ∃ later ∈ _, _))

/-- A store and the latest timestamp that was drawn in it. -/
structure Timed where
  store : Store
  clock : Nat

/-- The latest timestamp after a call. The vectors of a batch have consecutive ones. -/
def Call.clock (clock : Nat) : Call → Nat
  | .storeVector now _ _ _ => max clock now
  | .storeVectorBatch now vectors => max clock (now + (vectors.length - 1))
  | .deleteVector now _ => max clock now
  | .saveHNSW now => max clock now
  | .reopen _ => clock

def Timed.call (t : Timed) (call : Call) : Timed := ⟨t.store.call s call, call.clock t.clock⟩

/-- A batch whose records give back what it stores. -/
def BatchSafe (now : Nat) (vectors : List VectorEntry) (pairs : List (Bytes × Bytes)) : Prop :=
  BatchReadable s now pairs ∧
    (usesWalBatch s pairs.length = true → (pairs.map Prod.fst).Nodup) ∧
    ∀ item ∈ vectors.zip pairs, Survives s item.1.vector item.2.2

instance (now : Nat) (vectors : List VectorEntry) (pairs : List (Bytes × Bytes)) :
    Decidable (BatchSafe s now vectors pairs) := by
  delta BatchSafe
  infer_instance

/-- A bulk load that is not undone behind the log's back: it succeeds and the records of
batches stay current, or it fails and had nothing of its ids to take away. -/
def BulkSafe (store : Store) (vectors : List VectorEntry) : Prop :=
  if ∀ entry ∈ vectors, BulkValid s entry then
    BatchesCurrent s.ns (replayCut store.snapshot) store.db ∧
      ∀ entry ∈ vectors, ∀ logged ∈ walEntriesOf true s.ns (replayCut store.snapshot) store.db,
        logged.key ≠ entry.id
  else ∀ entry ∈ vectors, store.index.item s.arith entry.id = none

instance (store : Store) (vectors : List VectorEntry) : Decidable (BulkSafe s store vectors) := by
  delta BulkSafe
  infer_instance

/-- A vector whose record gives it back, for an index that takes it. A call that fails stores
nothing. -/
def StoreSafe (index : Hnsw) (id : Bytes) (vector : Vector) (metadata : Bytes) : Prop :=
  match encodeVector s vector metadata with
  | .error _ => True
  | .ok value => ¬ ReadsAsDelete id ∧ Survives s vector value ∧ index.Accepts id

instance (index : Hnsw) (id : Bytes) (vector : Vector) (metadata : Bytes) :
    Decidable (StoreSafe s index id vector metadata) := by
  delta StoreSafe
  split <;> infer_instance

/-- An index that takes the vectors of a batch one after the other. -/
def TakesBatch (index : Hnsw) (vectors : List VectorEntry) : Prop :=
  Run.Meets (fun h entry => (h.add s.arith entry.id entry.vector).1)
    (fun h entry => h.Accepts entry.id) index vectors

instance (index : Hnsw) (vectors : List VectorEntry) : Decidable (TakesBatch s index vectors) :=
  inferInstanceAs (Decidable (Run.Meets _ _ _ _))

def StoreBatchSafe (store : Store) (now : Nat) (vectors : List VectorEntry) : Prop :=
  if vectors = [] then True
  else if shouldBulkLoad s store.snapshotLoaded store.index vectors.length then
    Nanos now ∧ BulkSafe s store vectors ∧ TakesBatch s store.index vectors
  else
    match vectors.mapM (encodeEntry s) with
    | .error _ => True
    | .ok pairs => BatchSafe s now vectors pairs ∧ TakesBatch s store.index vectors

instance (store : Store) (now : Nat) (vectors : List VectorEntry) :
    Decidable (StoreBatchSafe s store now vectors) := by
  delta StoreBatchSafe
  have hmatch : Decidable (match vectors.mapM (encodeEntry s) with
      | .error _ => True
      | .ok pairs => BatchSafe s now vectors pairs ∧ TakesBatch s store.index vectors) := by
    split <;> infer_instance
  infer_instance

/-- A saved index, or an empty one, that takes every vector the replay adds to it. -/
def ReplaySafe (order : RangeOrder) (db : Pebble) (snapshot : Option Snapshot) : Prop :=
  let start := snapshot.elim (Hnsw.new s.config.index) fun saved => saved.index.reloaded
  start.nextID < 2 ^ 32 ∧
    Run.Meets (fun h item => replayEntry s.arith h item.1 item.2)
      (fun h item => item.2.value.isSome = true → h.Accepts item.1) start
      (order.range (newest (walEntries s.ns (replayCut snapshot) db)))

instance (order : RangeOrder) (db : Pebble) (snapshot : Option Snapshot) :
    Decidable (ReplaySafe s order db snapshot) := by
  delta ReplaySafe
  infer_instance

/-- The calls after which a crash loses nothing. -/
def Safe (t : Timed) : Call → Prop
  | .storeVector now id vector metadata =>
      Nanos now ∧ t.clock < now ∧ StoreSafe s t.store.index id vector metadata
  | .storeVectorBatch now vectors => t.clock < now ∧ StoreBatchSafe s t.store now vectors
  | .deleteVector now _ => Nanos now ∧ t.clock < now
  | .saveHNSW now => Nanos now ∧ replayCut t.store.snapshot ≤ now ∧
      BatchesCurrent s.ns (replayCut t.store.snapshot) t.store.db
  | .reopen order => ReplaySafe s order t.store.db t.store.snapshot

instance (t : Timed) : ∀ call, Decidable (Safe s t call)
  | .storeVector _ _ _ _ => inferInstanceAs (Decidable (_ ∧ _ ∧ _))
  | .storeVectorBatch _ _ => inferInstanceAs (Decidable (_ ∧ _))
  | .deleteVector _ _ => inferInstanceAs (Decidable (_ ∧ _))
  | .saveHNSW _ => inferInstanceAs (Decidable (_ ∧ _ ∧ _))
  | .reopen order => inferInstanceAs (Decidable (ReplaySafe s order _ _))

end Conditions

variable {s : Settings}

/-! ## Entries and vectors -/

/-- The vector an id has is the one its newest entry says. -/
def Means (s : Settings) (item : Option Vector) : Option Bytes → Prop
  | none => item = none
  | some value => ∃ decoded metadata, decodeVectorWithMeta s.arith value = .ok (decoded, metadata) ∧
      decoded.length = s.config.index.dim ∧
        ∀ config ∈ liveConfigs s, item = some (kept s.arith config decoded)

theorem dim_of_mem_liveConfigs {config : IndexConfig} (hconfig : config ∈ liveConfigs s) :
    config.dim = s.config.index.dim := by
  rcases List.mem_cons.mp hconfig with rfl | hconfig
  · rfl
  · rw [List.mem_singleton.mp hconfig]
    rfl

theorem reloaded_mem_liveConfigs {config : IndexConfig} (hconfig : config ∈ liveConfigs s) :
    config.reloaded ∈ liveConfigs s := by
  apply List.mem_cons_of_mem
  rcases List.mem_cons.mp hconfig with rfl | hconfig
  · exact List.mem_singleton_self _
  · rw [List.mem_singleton.mp hconfig]
    exact List.mem_singleton_self _

theorem Survives.means {vector : Vector} {value : Bytes} (hsurvives : Survives s vector value)
    {config : IndexConfig} (hconfig : config ∈ liveConfigs s) :
    Means s (some (kept s.arith config vector)) (some value) := by
  rw [Survives] at hsurvives
  split at hsurvives
  next _ => exact hsurvives.elim
  next decoded metadata hdecode =>
    refine ⟨decoded, metadata, hdecode, hsurvives.1, ?_⟩
    intro after hafter
    rw [hsurvives.2 config hconfig after hafter]

theorem Means.entryEffect {item old : Option Vector} {entry : WalEntry}
    (hmeans : Means s item entry.value) {config : IndexConfig} (hconfig : config ∈ liveConfigs s) :
    entryEffect s.arith config old entry = item := by
  rw [Worker.entryEffect]
  cases hvalue : entry.value with
  | none =>
      rw [hvalue] at hmeans
      exact hmeans.symm
  | some value =>
      rw [hvalue] at hmeans
      obtain ⟨decoded, metadata, hdecode, hlength, hitem⟩ := hmeans
      simp only [hdecode]
      rw [if_pos (hlength.trans (dim_of_mem_liveConfigs hconfig).symm), hitem config hconfig]

/-! ## The invariant -/

/-- The entries a replay of this store would find. -/
def Store.log (s : Settings) (store : Store) : List WalEntry :=
  walEntries s.ns (replayCut store.snapshot) store.db

/-- The vector the last snapshot has for an id. -/
def Store.saved (s : Settings) (store : Store) (id : Bytes) : Option Vector :=
  store.snapshot.bind fun snapshot => snapshot.index.item s.arith id

/-- A store that gets its index back. -/
structure Recoverable (s : Settings) (t : Timed) : Prop where
  logged : Logged s.ns t.store.db
  cut : Cut (replayCut t.store.snapshot)
  cut_le : replayCut t.store.snapshot ≤ t.clock
  stamps : ∀ entry ∈ t.store.log s, entry.stamp ≤ t.clock
  distinct : Distinct (t.store.log s)
  config : t.store.index.config ∈ liveConfigs s
  savedConfig : ∀ snapshot, t.store.snapshot = some snapshot →
    snapshot.index.config ∈ liveConfigs s
  covered : ∀ id, (∀ entry ∈ t.store.log s, entry.key ≠ id) →
    t.store.index.item s.arith id = t.store.saved s id
  newest : ∀ entry, IsNewest (t.store.log s) entry →
    Means s (t.store.index.item s.arith entry.key) entry.value

namespace Recoverable

variable {t : Timed}

/-- A recoverable store that is opened has the vectors it had. -/
theorem item_loadHNSW (hwal : s.config.walEnabled = true) (hinv : Recoverable s t)
    (order : RangeOrder) (id : Bytes) :
    (loadHNSW s order t.store.db t.store.snapshot).item s.arith id =
      t.store.index.item s.arith id := by
  -- an id that is in the log has what its newest entry says, another one what was saved
  have hreplay : ∀ (h : Hnsw), h.config ∈ liveConfigs s →
      h.item s.arith id = t.store.saved s id →
      (replayWALFrom s.arith order s.ns t.store.db (replayCut t.store.snapshot) h).item
        s.arith id = t.store.index.item s.arith id := by
    intro h hconfig hsaved
    by_cases hlogged : ∃ entry ∈ t.store.log s, entry.key = id
    · obtain ⟨entry, hentry, rfl⟩ := hlogged
      obtain ⟨last, hkey, hlast⟩ := hinv.distinct.exists_isNewest hentry
      rw [← hkey, item_replayWALFrom_of_isNewest hlast]
      exact (hinv.newest last hlast).entryEffect hconfig
    · push Not at hlogged
      rw [item_replayWALFrom_of_forall_ne hlogged, hsaved, hinv.covered id hlogged]
  cases hsnapshot : t.store.snapshot with
  | none =>
      rw [hsnapshot] at hreplay
      rw [loadHNSW, if_pos hwal]
      refine hreplay _ List.mem_cons_self ?_
      rw [Store.saved, hsnapshot]
      rfl
  | some snapshot =>
      rw [hsnapshot] at hreplay
      rw [loadHNSW, if_pos hwal]
      refine hreplay _ (reloaded_mem_liveConfigs (hinv.savedConfig snapshot hsnapshot)) ?_
      rw [Store.saved, hsnapshot, Hnsw.item_reloaded]
      rfl

/-- Writes with newer timestamps whose records say what they did to the index. -/
theorem extend (hinv : Recoverable s t) {store : Store} {clock : Nat}
    {batch : List (StoreOp Bytes Bytes)} {records : List WalRecord}
    (hdb : store.db = t.store.db.commit batch) (hsnapshot : store.snapshot = t.store.snapshot)
    (hconfig : store.index.config = t.store.index.config)
    (hwrites : WritesRecords s.ns batch records) (hclock : t.clock ≤ clock)
    (hstamps : ∀ record ∈ records, t.clock < record.ts ∧ record.ts ≤ clock)
    (hdistinct : Distinct (records.flatMap WalRecord.entries))
    (hothers : ∀ id, (∀ entry ∈ records.flatMap WalRecord.entries, entry.key ≠ id) →
      store.index.item s.arith id = t.store.index.item s.arith id)
    (hnew : ∀ entry, IsNewest (records.flatMap WalRecord.entries) entry →
      Means s (store.index.item s.arith entry.key) entry.value) :
    Recoverable s ⟨store, clock⟩ := by
  have hlater : ∀ entry ∈ records.flatMap WalRecord.entries,
      (t.clock : Int) < entry.stamp ∧ entry.stamp ≤ clock := by
    intro entry hentry
    obtain ⟨record, hrecord, hentry⟩ := List.mem_flatMap.mp hentry
    rw [WalRecord.stamp_of_mem_entries hentry]
    have hstamp := hstamps record hrecord
    omega
  have hlog : ∀ entry, entry ∈ store.log s ↔
      entry ∈ t.store.log s ∨ entry ∈ records.flatMap WalRecord.entries := by
    intro entry
    rw [Store.log, hsnapshot, hdb, hwrites.mem_walEntries hinv.logged hinv.cut, List.mem_flatMap]
    · rfl
    · intro record hrecord
      exact le_trans hinv.cut_le (hstamps record hrecord).1.le
    · intro record hrecord entry hentry
      have hold := hinv.stamps entry hentry
      have hstamp := hstamps record hrecord
      omega
  -- old and new entries do not share a timestamp
  have hsplit : ∀ old ∈ t.store.log s, ∀ new ∈ records.flatMap WalRecord.entries,
      old.stamp < new.stamp := fun old hold new hnew =>
    lt_of_le_of_lt (hinv.stamps old hold) (hlater new hnew).1
  refine ⟨?_, ?_, ?_, ?_, ?_, ?_, ?_, ?_, ?_⟩
  · rw [hdb]
    exact hwrites.logged hinv.logged
  · rw [hsnapshot]
    exact hinv.cut
  · rw [hsnapshot]
    exact le_trans hinv.cut_le hclock
  · intro entry hentry
    rcases (hlog entry).mp hentry with hold | hnew
    · have hle := hinv.stamps entry hold
      dsimp only
      omega
    · exact (hlater entry hnew).2
  · intro first hfirst second hsecond hkey hstamp
    rcases (hlog first).mp hfirst with hfirst | hfirst
    · rcases (hlog second).mp hsecond with hsecond | hsecond
      · exact hinv.distinct first hfirst second hsecond hkey hstamp
      · exact absurd hstamp (hsplit first hfirst second hsecond).ne
    · rcases (hlog second).mp hsecond with hsecond | hsecond
      · exact absurd hstamp (hsplit second hsecond first hfirst).ne'
      · exact hdistinct first hfirst second hsecond hkey hstamp
  · rw [hconfig]
    exact hinv.config
  · rw [hsnapshot]
    exact hinv.savedConfig
  · intro id hid
    have hold := hinv.covered id fun entry hentry => hid entry ((hlog entry).mpr (Or.inl hentry))
    rw [hothers id fun entry hentry => hid entry ((hlog entry).mpr (Or.inr hentry)), hold,
      Store.saved, Store.saved, hsnapshot]
  · intro entry hnewest
    rcases (hlog entry).mp hnewest.1 with hold | hentry
    · -- a new entry of the same id would be newer
      have hid : ∀ new ∈ records.flatMap WalRecord.entries, new.key ≠ entry.key := by
        intro new hnew hkey
        have hlt := hsplit entry hold new hnew
        rcases hnewest.2 new ((hlog new).mpr (Or.inr hnew)) hkey with rfl | hgt
        · exact lt_irrefl _ hlt
        · exact lt_asymm hlt hgt
      rw [hothers entry.key hid]
      exact hinv.newest entry ⟨hold, fun other hother =>
        hnewest.2 other ((hlog other).mpr (Or.inl hother))⟩
    · exact hnew entry ⟨hentry, fun other hother =>
        hnewest.2 other ((hlog other).mpr (Or.inr hother))⟩

theorem later (hinv : Recoverable s t) {clock : Nat} (hclock : t.clock ≤ clock) :
    Recoverable s ⟨t.store, clock⟩ := by
  refine { hinv with cut_le := le_trans hinv.cut_le hclock, stamps := ?_ }
  intro entry hentry
  have hle := hinv.stamps entry hentry
  dsimp only
  omega

/-! ### Single vectors -/

section

variable (hinv : Recoverable s t)

include hinv

/-- A write of one entry. -/
theorem extendOne {store : Store} {now : Nat} {id : Bytes} {content : Option Bytes}
    {batch : List (StoreOp Bytes Bytes)} (record : WalRecord) (hts : record.ts = now)
    (hentries : record.entries = [⟨id, now, content⟩])
    (hdb : store.db = t.store.db.commit batch) (hsnapshot : store.snapshot = t.store.snapshot)
    (hconfig : store.index.config = t.store.index.config)
    (hwrites : WritesRecords s.ns batch [record]) (hclock : t.clock < now)
    (hothers : ∀ other ≠ id, store.index.item s.arith other = t.store.index.item s.arith other)
    (hnew : Means s (store.index.item s.arith id) content) :
    Recoverable s ⟨store, max t.clock now⟩ := by
  have hflat : [record].flatMap WalRecord.entries = [⟨id, now, content⟩] := by
    rw [List.flatMap_singleton, hentries]
  refine hinv.extend hdb hsnapshot hconfig hwrites (le_max_left _ _) ?_ ?_ ?_ ?_
  · intro record' hrecord
    rw [List.mem_singleton.mp hrecord, hts]
    exact ⟨hclock, le_max_right _ _⟩
  · intro first hfirst second hsecond _ _
    rw [hflat, List.mem_singleton] at hfirst hsecond
    rw [hfirst, hsecond]
  · intro other hother
    refine hothers other ?_
    rintro rfl
    exact hother _ (hflat ▸ List.mem_singleton_self _) rfl
  · intro entry hnewest
    have hentry := hnewest.1
    rw [hflat, List.mem_singleton] at hentry
    rw [hentry]
    exact hnew

variable (hwal : s.config.walEnabled = true) {now : Nat} {id : Bytes}

include hwal

theorem storeVector {vector : Vector} {metadata : Bytes}
    (hsafe : Safe s t (.storeVector now id vector metadata)) :
    Recoverable s (t.call s (.storeVector now id vector metadata)) := by
  obtain ⟨hnanos, hclock, hsafe⟩ := hsafe
  rw [Timed.call, Store.call, Worker.storeVector]
  cases hencode : encodeVector s vector metadata with
  | error err => exact hinv.later (le_max_left _ _)
  | ok value =>
      rw [StoreSafe, hencode] at hsafe
      have hdim : vector.length = t.store.index.config.dim :=
        (encodeVector_dim hencode).trans (dim_of_mem_liveConfigs hinv.config).symm
      refine hinv.extendOne _ rfl rfl rfl rfl (Hnsw.config_add id vector)
        (storeVectorOps_writes hwal hnanos hsafe.1 value) hclock
        (fun other hne => (Hnsw.item_add hdim id other).trans (if_neg hne)) ?_
      have hitem := @Hnsw.item_add s.arith t.store.index vector hdim id id
      rw [if_pos rfl] at hitem
      dsimp only
      rw [hitem]
      exact hsafe.2.1.means hinv.config

theorem deleteVector (hsafe : Safe s t (.deleteVector now id)) :
    Recoverable s (t.call s (.deleteVector now id)) := by
  obtain ⟨hnanos, hclock⟩ := hsafe
  exact hinv.extendOne (.delete now id) rfl rfl rfl rfl (Hnsw.config_delete id)
    (deleteVectorOps_writes hwal hnanos id) hclock
    (fun other hne => (Hnsw.item_delete id other).trans (if_neg hne))
    ((Hnsw.item_delete id id).trans (if_pos rfl))

end

end Recoverable

/-! ## Batches -/

/-- The timestamp of a vector of a batch. -/
def batchStamp (s : Settings) (now count i : Nat) : Nat := if usesWalBatch s count then now else now + i

theorem mem_batchRecords_entries {now : Nat} {pairs : List (Bytes × Bytes)} {entry : WalEntry} :
    entry ∈ (batchRecords s now pairs).flatMap WalRecord.entries ↔
      ∃ (i : Nat) (pair : Bytes × Bytes), pairs[i]? = some pair ∧
        entry = ⟨pair.1, batchStamp s now pairs.length i, some pair.2⟩ := by
  rw [batchRecords, List.mem_flatMap]
  cases hbatch : usesWalBatch s pairs.length with
  | true =>
      have hstamp : ∀ i, batchStamp s now pairs.length i = now := fun i => if_pos hbatch
      simp only [hstamp, if_true, List.mem_singleton, exists_eq_left, WalRecord.entries, List.mem_map]
      constructor
      · rintro ⟨pair, hpair, rfl⟩
        obtain ⟨i, hi⟩ := List.mem_iff_getElem?.mp hpair
        exact ⟨i, pair, hi, rfl⟩
      · rintro ⟨i, pair, hpair, rfl⟩
        exact ⟨pair, List.mem_of_getElem? hpair, rfl⟩
  | false =>
      have hstamp : ∀ i, batchStamp s now pairs.length i = now + i := fun i => by
        rw [batchStamp, hbatch]
        rfl
      simp only [hstamp, Bool.false_eq_true, if_false]
      constructor
      · rintro ⟨record, hrecord, hentry⟩
        obtain ⟨i, pair, hpair, rfl⟩ := mem_singleRecords.mp hrecord
        exact ⟨i, pair, hpair, List.mem_singleton.mp hentry⟩
      · rintro ⟨i, pair, hpair, rfl⟩
        exact ⟨_, mem_singleRecords.mpr ⟨i, pair, hpair, rfl⟩, List.mem_singleton_self _⟩

/-- Within a batch, an entry that has the timestamp of another one of its id is that
one. -/
theorem batchStamp_inj {now : Nat} {pairs : List (Bytes × Bytes)}
    (hnodup : usesWalBatch s pairs.length = true → (pairs.map Prod.fst).Nodup) {i j : Nat}
    {first second : Bytes × Bytes} (hfirst : pairs[i]? = some first)
    (hsecond : pairs[j]? = some second) (hkey : first.1 = second.1)
    (hstamp : batchStamp s now pairs.length j ≤ batchStamp s now pairs.length i) : j ≤ i := by
  cases hbatch : usesWalBatch s pairs.length with
  | true =>
      have hi : (pairs.map Prod.fst)[i]? = some first.1 := by rw [List.getElem?_map, hfirst]; rfl
      have hj : (pairs.map Prod.fst)[j]? = some first.1 := by
        rw [List.getElem?_map, hsecond, hkey]
        rfl
      have hlt := (List.getElem?_eq_some_iff.mp hj).1
      exact le_of_eq ((List.getElem?_inj hlt (hnodup hbatch)).mp (hj.trans hi.symm))
  | false =>
      rw [batchStamp, batchStamp, hbatch] at hstamp
      exact Nat.le_of_add_le_add_left hstamp

theorem getElem?_of_forall₂ {α β : Type} {relation : α → β → Prop} {first : List α} {second : List β}
    (hall : List.Forall₂ relation first second) {i : Nat} {right : β}
    (hright : second[i]? = some right) :
    ∃ left, first[i]? = some left ∧ relation left right ∧ (left, right) ∈ first.zip second := by
  induction hall generalizing i with
  | nil => cases hright
  | cons hhead htail ih =>
      cases i with
      | zero =>
          cases hright
          exact ⟨_, rfl, hhead, List.mem_cons_self⟩
      | succ i =>
          obtain ⟨left, hleft, hrelation, hzip⟩ := ih hright
          exact ⟨left, hleft, hrelation, List.mem_cons_of_mem _ hzip⟩

namespace Recoverable

variable {t : Timed}

theorem storeBatch (hwal : s.config.walEnabled = true) (hinv : Recoverable s t) {now : Nat}
    {vectors : List VectorEntry} {pairs : List (Bytes × Bytes)} (hclock : t.clock < now)
    (hencode : vectors.mapM (encodeEntry s) = .ok pairs) (hsafe : BatchSafe s now vectors pairs) :
    Recoverable s ⟨{ t.store with
      db := t.store.db.commit (storeVectorBatchOps s now pairs)
      index := (addAll s.arith t.store.index vectors).1 },
      max t.clock (now + (vectors.length - 1))⟩ := by
  obtain ⟨hreadable, hnodup, hsurvives⟩ := hsafe
  have hall := encodeEntries_eq_ok hencode
  have hlength := hall.length_eq
  have hdim : ∀ entry ∈ vectors, entry.vector.length = t.store.index.config.dim := by
    intro entry hentry
    obtain ⟨i, hi⟩ := List.mem_iff_getElem?.mp hentry
    obtain ⟨pair, _, hpair, _⟩ := getElem?_of_forall₂ hall.flip hi
    rw [dim_of_mem_liveConfigs hinv.config]
    exact encodeVector_dim (encodeEntry_eq_ok hpair).2.2
  refine hinv.extend rfl rfl (addAll_config vectors)
    (storeVectorBatchOps_writes hwal hreadable) (le_max_left _ _) ?_ ?_ ?_ ?_
  · intro record hrecord
    rw [batchRecords] at hrecord
    split at hrecord
    next _ =>
      rw [List.mem_singleton.mp hrecord]
      exact ⟨hclock, le_max_of_le_right (Nat.le_add_right _ _)⟩
    next _ =>
      obtain ⟨i, pair, hpair, rfl⟩ := mem_singleRecords.mp hrecord
      have hlt := (List.getElem?_eq_some_iff.mp hpair).1
      refine ⟨lt_of_lt_of_le hclock (Nat.le_add_right _ _), le_max_of_le_right ?_⟩
      exact Nat.add_le_add_left (by omega) _
  · intro first hfirst second hsecond hkey hstamp
    obtain ⟨i, pair, hpair, rfl⟩ := mem_batchRecords_entries.mp hfirst
    obtain ⟨j, pair', hpair', rfl⟩ := mem_batchRecords_entries.mp hsecond
    have hstamp : batchStamp s now pairs.length i = batchStamp s now pairs.length j :=
      Int.ofNat_inj.mp hstamp
    obtain rfl : i = j := le_antisymm
      (batchStamp_inj hnodup hpair' hpair hkey.symm hstamp.le)
      (batchStamp_inj hnodup hpair hpair' hkey hstamp.ge)
    rw [hpair] at hpair'
    cases hpair'
    rfl
  · intro id hid
    apply item_addAll_of_forall_ne hdim
    intro entry hentry heq
    obtain ⟨i, hi⟩ := List.mem_iff_getElem?.mp hentry
    obtain ⟨pair, hpair, hvalue, _⟩ := getElem?_of_forall₂ hall.flip hi
    have hkey := (encodeEntry_eq_ok hvalue).2.1
    exact hid _ (mem_batchRecords_entries.mpr ⟨i, pair, hpair, rfl⟩) (hkey.trans heq)
  · -- the newest entry of an id is that of its last vector in the batch
    intro entry hnewest
    obtain ⟨i, pair, hpair, rfl⟩ := mem_batchRecords_entries.mp hnewest.1
    obtain ⟨stored, hstored, hvalue, hzip⟩ := getElem?_of_forall₂ hall hpair
    have hkey := (encodeEntry_eq_ok hvalue).2.1
    have hlast : ∀ j later, i < j → vectors[j]? = some later → later.id ≠ stored.id := by
      intro j later hlt hlater heq
      obtain ⟨pair', hpair', hvalue', _⟩ := getElem?_of_forall₂ hall.flip hlater
      have hkey' : pair'.1 = pair.1 :=
        (encodeEntry_eq_ok hvalue').2.1.trans (heq.trans hkey.symm)
      have hle : batchStamp s now pairs.length j ≤ batchStamp s now pairs.length i := by
        rcases hnewest.2 _ (mem_batchRecords_entries.mpr ⟨j, pair', hpair', rfl⟩) hkey' with
          heq | hlt'
        · have hstamp := congrArg Stamped.stamp heq
          dsimp only at hstamp
          omega
        · dsimp only at hlt'
          omega
      exact absurd (batchStamp_inj hnodup hpair hpair' hkey'.symm hle) (not_le.mpr hlt)
    have hitem := @item_addAll s.arith t.store.index vectors i stored hdim hstored hlast
    dsimp only
    rw [hkey, hitem]
    exact (hsurvives _ hzip).means hinv.config

end Recoverable

/-! ## Snapshots -/

theorem isBatchKey_record {ns : Bytes} {record : WalRecord} (hnanos : Nanos record.ts) :
    isBatchKey ns (nsKey ns record.key) = record.isBatch := by
  rw [isBatchKey, iteratorKey_nsKey]
  cases record with
  | add ts id value =>
      rw [WalRecord.key, walKey, trimFront_append]
      exact not_batchMark _ _
  | delete ts id =>
      rw [WalRecord.key, walKeySuffix, trimFront_append]
      exact not_batchMark _ _
  | batch baseTS entries =>
      rw [WalRecord.key, walKeyBatch, trimFront_append]
      exact List.isPrefixOf_iff_prefix.mpr (List.prefix_append _ _)

theorem mem_walEntriesOf {ns : Bytes} {cut : Nat} {db : Pebble} (hlogged : Logged ns db)
    (hcut : Cut cut) {batch : Bool} {entry : WalEntry} :
    entry ∈ walEntriesOf batch ns cut db ↔
      ∃ record : WalRecord, record.Readable ∧ Holds ns db record ∧ record.VisibleFrom cut ∧
        record.isBatch = batch ∧ entry ∈ record.entries := by
  rw [walEntriesOf, List.mem_flatMap]
  constructor
  · rintro ⟨⟨key, value⟩, hfilter, hentry⟩
    obtain ⟨hscan, hbatch⟩ := List.mem_filter.mp hfilter
    obtain ⟨record, hreadable, rfl, rfl, hholds, hvisible⟩ :=
      hlogged.record_of_mem_scan hcut hscan (List.ne_nil_of_mem hentry)
    rw [iteratorKey_nsKey, hreadable.readWal] at hentry
    have hkind : (isBatchKey ns (nsKey ns record.key) == batch) = true := hbatch
    rw [isBatchKey_record hreadable.nanos, beq_iff_eq] at hkind
    exact ⟨record, hreadable, hholds, hvisible, hkind, hentry⟩
  · rintro ⟨record, hreadable, hholds, hvisible, hkind, hentry⟩
    refine ⟨_, List.mem_filter.mpr ⟨record.mem_scan hcut hreadable hholds hvisible, ?_⟩, ?_⟩
    · rw [isBatchKey_record hreadable.nanos, hkind]
      exact beq_self_eq_true batch
    · rw [iteratorKey_nsKey, hreadable.readWal]
      exact hentry

namespace Recoverable

variable {t : Timed}

section

variable (hinv : Recoverable s t)

include hinv

/-- The entries a snapshot leaves were there before, and where the records of batches are
current the newest of them were newest before. -/
theorem snapshot_log {store : Store} (hlogged : Logged s.ns store.db)
    (hnanos : Nanos (replayCut store.snapshot))
    (hle : replayCut t.store.snapshot ≤ replayCut store.snapshot)
    (hholds : ∀ record : WalRecord, record.Readable → record.VisibleFrom
      (replayCut store.snapshot) → (Holds s.ns store.db record ↔ Holds s.ns t.store.db record)) :
    (∀ entry ∈ store.log s, entry ∈ t.store.log s) ∧
      (BatchesCurrent s.ns (replayCut t.store.snapshot) t.store.db →
        ∀ entry, IsNewest (store.log s) entry → IsNewest (t.store.log s) entry) := by
  have hcut : Cut (replayCut store.snapshot) := Or.inr hnanos
  have hsub : ∀ entry ∈ store.log s, entry ∈ t.store.log s := by
    intro entry hentry
    obtain ⟨record, hreadable, hheld, hvisible, hentry⟩ := (mem_walEntries hlogged hcut).mp hentry
    exact (mem_walEntries hinv.logged hinv.cut).mpr ⟨record, hreadable,
      (hholds record hreadable hvisible).mp hheld, hvisible.imp_right (le_trans hle), hentry⟩
  refine ⟨hsub, ?_⟩
  intro hcurrent entry hnewest
  obtain ⟨last, hkey, hlast⟩ := hinv.distinct.exists_isNewest (hsub entry hnewest.1)
  obtain ⟨record, hreadable, hheld, hsees, hmem⟩ :=
    (mem_walEntries hinv.logged hinv.cut).mp hlast.1
  by_cases hvisible : record.VisibleFrom (replayCut store.snapshot)
  · have hkept : last ∈ store.log s := (mem_walEntries hlogged hcut).mpr ⟨record, hreadable,
      (hholds record hreadable hvisible).mpr hheld, hvisible, hmem⟩
    rcases hnewest.2 last hkept hkey with rfl | hlt
    · exact hlast
    · rcases hlast.2 entry (hsub entry hnewest.1) hkey.symm with rfl | hgt
      · exact hlast
      · exact absurd hlt (lt_asymm hgt)
  · -- the newest entry was truncated, so the one that is left is that of a batch
    exfalso
    obtain ⟨hsingle, hearly⟩ := not_or.mp hvisible
    obtain ⟨record', hreadable', hheld', hvisible', hmem'⟩ :=
      (mem_walEntries hlogged hcut).mp hnewest.1
    have hheld' := (hholds record' hreadable' hvisible').mp hheld'
    rcases hvisible' with hbatch | hlate
    · have hlastSingle : last ∈ walEntriesOf false s.ns (replayCut t.store.snapshot) t.store.db :=
        (mem_walEntriesOf hinv.logged hinv.cut).mpr
          ⟨record, hreadable, hheld, hsees, Bool.not_eq_true _ ▸ hsingle, hmem⟩
      have hentryBatch : entry ∈ walEntriesOf true s.ns (replayCut t.store.snapshot) t.store.db :=
        (mem_walEntriesOf hinv.logged hinv.cut).mpr
          ⟨record', hreadable', hheld', Or.inl hbatch, hbatch, hmem'⟩
      obtain ⟨later, hlater, hlaterKey, hlt⟩ :=
        hcurrent last hlastSingle entry hentryBatch hkey.symm
      obtain ⟨record'', hreadable'', hheld'', hsees'', _, hmem''⟩ :=
        (mem_walEntriesOf hinv.logged hinv.cut).mp hlater
      have hlaterLog : later ∈ t.store.log s := (mem_walEntries hinv.logged hinv.cut).mpr
        ⟨record'', hreadable'', hheld'', hsees'', hmem''⟩
      rcases hlast.2 later hlaterLog hlaterKey with rfl | hgt
      · exact lt_irrefl _ hlt
      · exact lt_asymm hlt hgt
    · have hstamp := WalRecord.stamp_of_mem_entries hmem
      have hstamp' := WalRecord.stamp_of_mem_entries hmem'
      rcases hlast.2 entry (hsub entry hnewest.1) hkey.symm with rfl | hlt
      · omega
      · omega

theorem saveHNSW {now : Nat} (hsafe : Safe s t (.saveHNSW now)) :
    Recoverable s (t.call s (.saveHNSW now)) := by
  obtain ⟨hnanos, hle, hcurrent⟩ := hsafe
  have hlogged : Logged s.ns (Worker.saveHNSW s now t.store).db := logged_deletes hinv.logged
  obtain ⟨hsub, hnewest⟩ := @snapshot_log s t hinv (Worker.saveHNSW s now t.store) hlogged
    hnanos hle fun record hreadable hvisible => by
      rw [Worker.saveHNSW, holds_truncate hnanos hreadable.nanos]
      exact and_iff_left hvisible
  refine ⟨hlogged, Or.inr hnanos, le_max_right _ _, ?_, ?_, hinv.config, ?_, ?_, ?_⟩
  · intro entry hentry
    have hstamp := hinv.stamps entry (hsub entry hentry)
    dsimp only [Timed.call, Call.clock]
    omega
  · intro first hfirst second hsecond
    exact hinv.distinct first (hsub first hfirst) second (hsub second hsecond)
  · intro snapshot hsnapshot
    cases hsnapshot
    exact hinv.config
  · intro id _
    rfl
  · intro entry hentry
    exact hinv.newest entry (hnewest hcurrent entry hentry)

/-! ### Bulk loads -/

theorem bulkLoad_ok {now clock : Nat} {vectors : List VectorEntry} {index : Hnsw}
    {pairs : List (Bytes × Bytes)} (hbulk : bulkAdd s t.store.index [] vectors = (index, .ok pairs))
    (hnanos : Nanos now) (hclock : t.clock < now) (hle : now ≤ clock)
    (hcurrent : BatchesCurrent s.ns (replayCut t.store.snapshot) t.store.db)
    (hapart : ∀ entry ∈ vectors, ∀ logged ∈ walEntriesOf true s.ns
      (replayCut t.store.snapshot) t.store.db, logged.key ≠ entry.id) :
    Recoverable s ⟨⟨t.store.db.commit (bulkLoadOps s pairs), some ⟨index, now⟩, index, true⟩,
      clock⟩ := by
  obtain ⟨rfl, hdim, _⟩ := bulkAdd_eq_ok hbulk
  have hconfig : (addAll s.arith t.store.index vectors).1.config ∈ liveConfigs s := by
    rw [addAll_config]
    exact hinv.config
  have hwrites := @bulkLoadOps_writes s pairs
  have hlogged : Logged s.ns (t.store.db.commit (bulkLoadOps s pairs)) := hwrites.logged hinv.logged
  have hholds : ∀ record : WalRecord, record.Readable →
      (Holds s.ns (t.store.db.commit (bulkLoadOps s pairs)) record ↔ Holds s.ns t.store.db record) := by
    intro record hreadable
    rw [Holds, get_commit_of_forall_ne]
    · rfl
    · intro op hop hkey
      obtain ⟨written, hwritten, _⟩ := hwrites.record_of_opKey hop hkey
      cases hwritten
  obtain ⟨hsub, hnewest⟩ := @snapshot_log s t hinv
    ⟨t.store.db.commit (bulkLoadOps s pairs), some ⟨_, now⟩, _, true⟩ hlogged hnanos
    (le_trans hinv.cut_le hclock.le) fun record hreadable _ => hholds record hreadable
  refine ⟨hlogged, Or.inr hnanos, hle, ?_, ?_, hconfig, ?_, ?_, ?_⟩
  · intro entry hentry
    have hstamp := hinv.stamps entry (hsub entry hentry)
    dsimp only
    omega
  · intro first hfirst second hsecond
    exact hinv.distinct first (hsub first hfirst) second (hsub second hsecond)
  · intro snapshot hsnapshot
    cases hsnapshot
    exact hconfig
  · intro id _
    rfl
  · intro entry hentry
    -- the single records are older than the snapshot, so the entry is that of a batch
    obtain ⟨record, hreadable, hheld, hvisible, hmem⟩ :=
      (mem_walEntries hlogged (Or.inr hnanos)).mp hentry.1
    have hbatch : record.isBatch = true := by
      rcases hvisible with hbatch | hlate
      · exact hbatch
      · have hstamp := hinv.stamps entry (hsub entry hentry.1)
        rw [WalRecord.stamp_of_mem_entries hmem] at hstamp
        omega
    have hbatchEntry := (mem_walEntriesOf hinv.logged hinv.cut).mpr
      ⟨record, hreadable, (hholds record hreadable).mp hheld, Or.inl hbatch, hbatch, hmem⟩
    have hitem : (addAll s.arith t.store.index vectors).1.item s.arith entry.key =
        t.store.index.item s.arith entry.key :=
      item_addAll_of_forall_ne hdim fun other hother heq =>
        hapart other hother entry hbatchEntry heq.symm
    dsimp only
    rw [hitem]
    exact hinv.newest entry (hnewest hcurrent entry hentry)

theorem bulkLoad_error {clock : Nat} {vectors : List VectorEntry} {err : StoreError}
    (hbulk : (bulkAdd s t.store.index [] vectors).2 = .error err) (hclock : t.clock ≤ clock)
    (hempty : ∀ entry ∈ vectors, t.store.index.item s.arith entry.id = none) :
    Recoverable s ⟨{ t.store with index := (bulkAdd s t.store.index [] vectors).1 }, clock⟩ := by
  have hitem : ∀ id, (bulkAdd s t.store.index [] vectors).1.item s.arith id =
      t.store.index.item s.arith id := by
    intro id
    rcases item_bulkAdd_error hbulk id with ⟨hnone, hid⟩ | ⟨hsame, _⟩
    · obtain ⟨entry, hentry, rfl⟩ := List.mem_map.mp (hid.resolve_left List.not_mem_nil)
      rw [hnone, hempty entry hentry]
    · exact hsame
  refine { hinv.later hclock with config := ?_, covered := ?_, newest := ?_ }
  · rw [bulkAdd_config]
    exact hinv.config
  · intro id hid
    exact (hitem id).trans (hinv.covered id hid)
  · intro entry hentry
    dsimp only
    rw [hitem]
    exact hinv.newest entry hentry

end

section

variable (hwal : s.config.walEnabled = true) (hinv : Recoverable s t)

include hwal hinv

theorem storeVectorBatch {now : Nat} {vectors : List VectorEntry}
    (hsafe : Safe s t (.storeVectorBatch now vectors)) :
    Recoverable s (t.call s (.storeVectorBatch now vectors)) := by
  obtain ⟨hclock, hsafe⟩ := hsafe
  rw [Timed.call, Store.call, Worker.storeVectorBatch]
  rw [StoreBatchSafe] at hsafe
  split at hsafe
  next hnil =>
    rw [if_pos hnil]
    exact hinv.later (le_max_left _ _)
  next hsome =>
    rw [if_neg hsome]
    split at hsafe
    next hbulk =>
      rw [if_pos hbulk, bulkLoadVectors]
      obtain ⟨hnanos, hsafe, _⟩ := hsafe
      have hle : now ≤ max t.clock (now + (vectors.length - 1)) :=
        le_max_of_le_right (Nat.le_add_right _ _)
      rw [BulkSafe] at hsafe
      have hdim := dim_of_mem_liveConfigs hinv.config
      cases hresult : bulkAdd s t.store.index [] vectors with
      | mk index outcome =>
          cases outcome with
          | ok pairs =>
              have hvalid : ∀ entry ∈ vectors, BulkValid s entry := by
                obtain ⟨_, hdims, hall⟩ := bulkAdd_eq_ok hresult
                intro entry hentry
                obtain ⟨i, hi⟩ := List.mem_iff_getElem?.mp hentry
                obtain ⟨pair, _, ⟨hid, _, hvalue⟩, _⟩ := getElem?_of_forall₂ hall.flip hi
                refine ⟨hid, (hdims entry hentry).trans hdim, ?_⟩
                rw [hvalue]
                rfl
              rw [if_pos hvalid] at hsafe
              exact hinv.bulkLoad_ok hresult hnanos hclock hle hsafe.1 hsafe.2
          | error err =>
              have herror : (bulkAdd s t.store.index [] vectors).2 = .error err := by rw [hresult]
              have hinvalid : ¬ ∀ entry ∈ vectors, BulkValid s entry := by
                intro hvalid
                obtain ⟨pairs, hok⟩ := @bulkAdd_of_valid s t.store.index [] vectors hdim hvalid
                rw [herror] at hok
                cases hok
              rw [if_neg hinvalid] at hsafe
              have hrecover := hinv.bulkLoad_error herror
                (le_max_left t.clock (now + (vectors.length - 1))) hsafe
              rw [hresult] at hrecover
              exact hrecover
    next hsingle =>
      rw [if_neg hsingle]
      cases hencode : vectors.mapM (encodeEntry s) with
      | error err => exact hinv.later (le_max_left _ _)
      | ok pairs =>
          rw [hencode] at hsafe
          exact hinv.storeBatch hwal hclock hencode hsafe.1

theorem reopen (order : RangeOrder) :
    Recoverable s (t.call s (.reopen order)) := by
  refine { hinv with config := ?_, covered := ?_, newest := ?_ }
  · dsimp only [Timed.call, Store.call, openStore]
    cases hsnapshot : t.store.snapshot with
    | none =>
        rw [loadHNSW, if_pos hwal, config_replayWALFrom]
        exact List.mem_cons_self
    | some snapshot =>
        rw [loadHNSW, if_pos hwal, config_replayWALFrom]
        exact reloaded_mem_liveConfigs (hinv.savedConfig snapshot hsnapshot)
  · intro id hid
    exact (hinv.item_loadHNSW hwal order id).trans (hinv.covered id hid)
  · intro entry hentry
    have hitem : (t.call s (.reopen order)).store.index.item s.arith entry.key =
        t.store.index.item s.arith entry.key := hinv.item_loadHNSW hwal order entry.key
    rw [hitem]
    exact hinv.newest entry hentry

/-- Every safe call keeps a store recoverable. -/
theorem call {call : Call} (hsafe : Safe s t call) : Recoverable s (t.call s call) := by
  cases call with
  | storeVector now id vector metadata => exact hinv.storeVector hwal hsafe
  | storeVectorBatch now vectors => exact hinv.storeVectorBatch hwal hsafe
  | deleteVector now id => exact hinv.deleteVector hwal hsafe
  | saveHNSW now => exact hinv.saveHNSW hsafe
  | reopen order => exact hinv.reopen hwal order

end

end Recoverable

/-! ## Histories -/

/-- A store that is opened for the first time on a database. -/
def freshStore (s : Settings) (order : RangeOrder) (db : Pebble) : Timed :=
  ⟨openStore s order db none, 0⟩

theorem recoverable_freshStore (hwal : s.config.walEnabled = true) {db : Pebble}
    (hempty : walEntries s.ns 0 db = []) (order : RangeOrder) :
    Recoverable s (freshStore s order db) := by
  have hlog : (freshStore s order db).store.log s = [] := hempty
  have hindex : (freshStore s order db).store.index = Hnsw.new s.config.index := by
    dsimp only [freshStore, openStore]
    rw [loadHNSW, if_pos hwal, replayWALFrom, hempty]
    have hrange : order.range (newest ([] : List WalEntry)) = [] := (order.perm []).eq_nil
    rw [hrange]
    rfl
  refine ⟨Logged.of_walEntries_eq_nil hempty, Or.inl rfl, le_rfl, ?_, ?_, ?_, ?_, ?_, ?_⟩
  · rw [hlog]
    simp
  · rw [hlog]
    intro entry hmem
    cases hmem
  · rw [hindex]
    exact List.mem_cons_self
  · intro image himage
    cases himage
  · intro id _
    rw [hindex]
    rfl
  · intro entry hentry
    rw [hlog] at hentry
    cases hentry.1

/-- Float operations that round to whole numbers. -/
def wholeNumbers : Arithmetic where
  normalize vec := vec
  normalize_length _ := rfl
  quantize vec := vec.map fun word => UInt8.ofNat word.toNat
  quantize_length _ := List.length_map _
  dequantize bytes := bytes.map fun byte => UInt32.ofNat byte.toNat
  scale _ := 1
  compress _ word := UInt8.ofNat word.toNat
  expand _ byte := UInt32.ofNat byte.toNat

/-- A store for vectors with one component under the Euclidean distance. -/
def lineSettings : Settings where
  arith := wholeNumbers
  ns := []
  config :=
    { index := ⟨1, by decide, false, false, false, false⟩
      walEnabled := true
      walBatchEnabled := true
      vectorCompressionEnabled := false
      bulkLoadEnabled := true
      bulkLoadThreshold := 1000 }

/-- The ids of the examples. -/
def idOf (char : Char) : Bytes := [char.toUInt8]

/-- Singles, a batch, a snapshot, an overwritten vector, a deletion, a crash and the deleted id
again. -/
def mixedCalls : List Call :=
  [.storeVector 1700000000000000000 (idOf 'c') [1] [],
    .storeVectorBatch 1700000000000000010 [⟨idOf 'a', [1], []⟩, ⟨idOf 'b', [1], []⟩],
    .saveHNSW 1700000000000000020,
    .storeVector 1700000000000000030 (idOf 'a') [2] [],
    .deleteVector 1700000000000000040 (idOf 'b'),
    .reopen RangeOrder.reversed,
    .storeVector 1700000000000000050 (idOf 'b') [3] []]

/-- Every call draws a later timestamp than the calls before it. -/
def DrawsLater (t : Timed) : Call → Prop
  | .storeVector now _ _ _ => t.clock < now
  | .storeVectorBatch now _ => t.clock < now
  | .deleteVector now _ => t.clock < now
  | .saveHNSW now => t.clock < now
  | .reopen _ => True

instance (t : Timed) : ∀ call, Decidable (DrawsLater t call)
  | .storeVector now _ _ _ => inferInstanceAs (Decidable (t.clock < now))
  | .storeVectorBatch now _ => inferInstanceAs (Decidable (t.clock < now))
  | .deleteVector now _ => inferInstanceAs (Decidable (t.clock < now))
  | .saveHNSW now => inferInstanceAs (Decidable (t.clock < now))
  | .reopen _ => inferInstanceAs (Decidable True)

/-- A vector of a batch is overwritten and the index is saved. -/
def overwrittenBatch : List Call :=
  [.storeVectorBatch 1700000000000000000 [⟨idOf 'a', [1], []⟩, ⟨idOf 'b', [1], []⟩],
    .storeVector 1700000000000000010 (idOf 'a') [2] [],
    .saveHNSW 1700000000000000020]

end Vectron.Worker
