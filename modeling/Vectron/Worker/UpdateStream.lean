import Vectron.Worker.Effects

/-! # The stream of updates of a shard

A search-only replica of a shard loads a snapshot of its index and then follows
`StreamHNSWUpdates`, which first reads the log from the time of the snapshot on and then
goes on with the updates that the writers publish through a hub. The hub has a channel of
bounded size for each stream and drops what does not fit. Without a hub the stream reads
the log again from time to time. When the stream ends the replica loads a snapshot and
starts over.

The model interleaves the calls on the store of one shard, the publishing of their updates
and the goroutine of one stream at a time. Updates that were sent have been received.
-/

namespace Vectron.Worker

open Foundation OrderedStore

/-- `WALUpdate`. -/
structure WALUpdate where
  id : Bytes
  value : Bytes
  delete : Bool
  ts : Int
  deriving Repr, DecidableEq

/-! ## Reading the log -/

/-- The loop of `decodeWALBatchEncoded`. -/
def decodeBatchEntries : Nat → Bytes → Option (List (Bytes × Bytes))
  | 0, _ => some []
  | count + 1, raw =>
      if raw.length < 4 then none
      else
        let idLen := (uint32 raw).toNat
        let afterLen := raw.drop 4
        if idLen = 0 ∨ afterLen.length < idLen then none
        else
          let afterId := afterLen.drop idLen
          if afterId.length < 4 then none
          else
            let valLen := (uint32 afterId).toNat
            let afterVal := afterId.drop 4
            if afterVal.length < valLen then none
            else (decodeBatchEntries count (afterVal.drop valLen)).map fun entries =>
              (afterLen.take idLen, afterVal.take valLen) :: entries

/-- `decodeWALBatchEncoded`. -/
def decodeWALBatchEncoded (buf : Bytes) : Option (List (Bytes × Bytes)) :=
  if buf.length < 4 then none
  else if (uint32 buf).toNat = 0 then none
  else decodeBatchEntries (uint32 buf).toNat (buf.drop 4)

/-- The updates of a batch, one nanosecond apart. -/
def batchUpdates (ts : Int) (entries : List (Bytes × Bytes)) : List WALUpdate :=
  entries.zipIdx.map fun item => ⟨item.1.1, item.1.2, false, ts + item.2⟩

/-- What `IterateWALFrom` reads from one key. -/
def readUpdates (key value : Bytes) : List WALUpdate :=
  let rest := trimFront hnswWALPrefix key
  if batchMark.isPrefixOf rest then
    match parseInt64 (trimFront batchMark rest) with
    | none => []
    | some ts => (decodeWALBatchEncoded value).elim [] (batchUpdates ts)
  else
    let isDelete := (underscore :: deleteWord).isSuffixOf rest
    match cutAt underscore (trimEnd (underscore :: deleteWord) rest) with
    | none => []
    | some (front, id) =>
        match parseInt64 front with
        | none => []
        | some ts => [⟨id, if isDelete then [] else value, isDelete, ts⟩]

/-- The updates `IterateWALFrom` passes to its callback. Its iterator has no upper bound. -/
def iterateWALFrom (ns : Bytes) (ts : Nat) (db : Pebble) : List WALUpdate :=
  (db.scan (nsKey ns (walCut ts)) none).flatMap fun entry =>
    readUpdates (iteratorKey ns entry.1) entry.2

/-! ## State -/

/-- What a stream is served with. -/
structure StreamSettings extends ShardSettings where
  /-- `walHub` is not nil -/
  hub : Bool
  /-- `VECTRON_WAL_STREAM_BATCH_MAX` -/
  batchMax : Int
  /-- `VECTRON_WAL_STREAM_SUB_BUF` -/
  subBuffer : Int

/-- Where a writer stands between its commit and the end of `Publish`. -/
inductive Publishing where
  | idle
  | committed (updates : List WALUpdate)
  /-- `Publish` has looked up the subscriber of this session -/
  | sending (session : Nat) (updates : List WALUpdate)
  deriving Repr, DecidableEq

/-- What became of an update that was published. -/
inductive Fate where
  /-- nobody was subscribed -/
  | unheard
  /-- the channel was full -/
  | dropped
  /-- it went into the channel of this session -/
  | accepted (session : Nat)
  deriving Repr, DecidableEq

inductive StreamPhase where
  | connecting
  /-- an iterator over the log with what is left of it; the first one, or a later one -/
  | scanning (again : Bool) (rest : List WALUpdate)
  /-- between the first iterator and `Subscribe` -/
  | caughtUp
  | live (channel : List WALUpdate)
  | polling
  | ended
  deriving Repr, DecidableEq

/-- An iterator that was opened: the time it starts from and what the database held. -/
structure Scan where
  start : Nat
  db : Pebble

structure UpdateStream where
  store : Store
  publishing : Publishing
  /-- a send on a closed channel has stopped the worker -/
  panicked : Bool
  phase : StreamPhase
  session : Nat
  fromTs : Nat
  lastTs : Nat
  batch : List WALUpdate
  sent : List WALUpdate
  /-- the updates of the writes so far, but for bulk loads -/
  committed : List WALUpdate
  fates : List (WALUpdate × Fate)
  /-- the iterators of this session -/
  scans : List Scan

inductive StreamStep where
  | storeVector (now : Nat) (id : Bytes) (vector : Vector) (metadata : Bytes)
  | storeVectorBatch (now : Nat) (vectors : List VectorEntry)
  | deleteVector (now segmentNow : Nat) (id : Bytes)
  | saveHNSW (now : Nat)
  /-- `Publish` looks up the subscribers -/
  | publish
  /-- `Publish` offers the next update to the channel -/
  | offer
  | openScan
  /-- the callback of the iterator, with the result of a `Send` it makes -/
  | scanNext (sendOk : Bool)
  | scanDone (sendOk : Bool)
  | subscribe
  | receive (sendOk : Bool)
  | tick (sendOk : Bool)
  /-- the context of the stream is done -/
  | cancel
  | reconnect
  deriving Repr, DecidableEq

/-! ## Steps -/

variable (m : StreamSettings)

def streamBatchMax : Nat := if m.batchMax < 1 then 256 else m.batchMax.toNat

def subscriberBuffer : Nat := if m.subBuffer ≤ 0 then 1024 else m.subBuffer.toNat

/-- The updates of a `StoreVector`. -/
def storeUpdates (now : Nat) (id : Bytes) (vector : Vector) (metadata : Bytes) : List WALUpdate :=
  match encodeVector m.toSettings vector metadata with
  | .error _ => []
  | .ok value => [⟨id, value, false, now⟩]

/-- The updates of a `StoreVectorBatch`. A bulk load publishes nothing. -/
def storeBatchUpdates (now : Nat) (vectors : List VectorEntry) (store : Store) : List WALUpdate :=
  if !bypassesIndex m.toShardSettings &&
      shouldBulkLoad m.toSettings store.snapshotLoaded store.index vectors.length then []
  else
    match vectors.mapM (encodeEntry m.toSettings) with
    | .error _ => []
    | .ok pairs => batchUpdates now pairs

namespace StreamPhase

/-- What the stream has yet to look at. -/
def waiting : StreamPhase → List WALUpdate
  | .scanning _ rest => rest
  | .live channel => channel
  | _ => []

end StreamPhase

namespace UpdateStream

/-- The writer has committed and goes on to `Publish`. -/
def commit (stream : UpdateStream) (store : Store) (updates : List WALUpdate) : UpdateStream :=
  { stream with
    store := store
    publishing := if m.hub && !updates.isEmpty then .committed updates else stream.publishing
    committed := stream.committed ++ updates }

/-- A call of `Update` on the store, which waits for the call before. -/
def write (stream : UpdateStream) (store : Store) (updates : List WALUpdate) : UpdateStream :=
  if stream.publishing = .idle then stream.commit m store updates else stream

def publish (stream : UpdateStream) : UpdateStream :=
  match stream.publishing with
  | .committed updates =>
      match stream.phase with
      | .live _ => { stream with publishing := .sending stream.session updates }
      | _ =>
          { stream with
            publishing := .idle
            fates := stream.fates ++ updates.map fun update => (update, .unheard) }
  | _ => stream

/-- One `select` of `Publish`. -/
def offer (stream : UpdateStream) : UpdateStream :=
  match stream.publishing with
  | .sending _ [] => { stream with publishing := .idle }
  | .sending session (update :: rest) =>
      match stream.phase with
      | .live channel =>
          if session = stream.session then
            if channel.length < subscriberBuffer m then
              { stream with
                publishing := .sending session rest
                phase := .live (channel ++ [update])
                fates := stream.fates ++ [(update, .accepted session)] }
            else
              { stream with
                publishing := .sending session rest
                fates := stream.fates ++ [(update, .dropped)] }
          else { stream with panicked := true }
      | _ => { stream with panicked := true }
  | _ => stream

/-- `sendBatch`, after which the stream goes on. -/
def sendBatch (stream : UpdateStream) (sendOk : Bool) (next : StreamPhase) : UpdateStream :=
  if stream.batch = [] then { stream with phase := next }
  else if sendOk then
    { stream with phase := next, sent := stream.sent ++ stream.batch, batch := [] }
  else { stream with phase := .ended }

/-- An update from the log or the channel. -/
def take (stream : UpdateStream) (update : WALUpdate) (sendOk : Bool) (next : StreamPhase) :
    UpdateStream :=
  let noted :=
    { stream with
      batch := stream.batch ++ [update]
      lastTs := if (stream.lastTs : Int) < update.ts then update.ts.toNat else stream.lastTs }
  if streamBatchMax m ≤ noted.batch.length then noted.sendBatch sendOk next
  else { noted with phase := next }

def openIterator (stream : UpdateStream) (again : Bool) (start : Nat) : UpdateStream :=
  { stream with
    phase := .scanning again (iterateWALFrom m.ns start stream.store.db)
    scans := stream.scans ++ [⟨start, stream.store.db⟩] }

/-- The time of the snapshot that `GetHNSWSnapshot` returns. -/
def snapshotTs (stream : UpdateStream) : Nat :=
  if m.useSegments then 0 else stream.store.snapshot.elim 0 Snapshot.ts

/-- `replicateFrom` with a new snapshot. -/
def reconnect (stream : UpdateStream) : UpdateStream :=
  { stream with
    phase := .connecting
    session := stream.session + 1
    fromTs := stream.snapshotTs m
    lastTs := stream.snapshotTs m
    batch := []
    sent := []
    scans := [] }

def act (stream : UpdateStream) : StreamStep → UpdateStream
  | .storeVector now id vector metadata =>
      stream.write m (Shard.storeVector m.toShardSettings now id vector metadata stream.store).2
        (storeUpdates m now id vector metadata)
  | .storeVectorBatch now vectors =>
      stream.write m (Shard.storeVectorBatch m.toShardSettings now vectors stream.store).2
        (storeBatchUpdates m now vectors stream.store)
  | .deleteVector now segmentNow id =>
      stream.write m (Shard.segmentDelete m.toShardSettings segmentNow id
          (Shard.deleteVector m.toShardSettings now id stream.store))
        [⟨id, [], true, now⟩]
  | .saveHNSW now => { stream with store := saveHNSW m.toSettings now stream.store }
  | .publish => stream.publish
  | .offer => stream.offer m
  | .openScan =>
      match stream.phase with
      | .connecting => stream.openIterator m false stream.fromTs
      | _ => stream
  | .scanNext sendOk =>
      match stream.phase with
      | .scanning again (update :: rest) => stream.take m update sendOk (.scanning again rest)
      | _ => stream
  | .scanDone sendOk =>
      match stream.phase with
      | .scanning again [] => stream.sendBatch sendOk (if again then .polling else .caughtUp)
      | _ => stream
  | .subscribe =>
      match stream.phase with
      | .caughtUp => { stream with phase := if m.hub then .live [] else .polling }
      | _ => stream
  | .receive sendOk =>
      match stream.phase with
      | .live (update :: rest) => stream.take m update sendOk (.live rest)
      | _ => stream
  | .tick sendOk =>
      match stream.phase with
      | .live channel => stream.sendBatch sendOk (.live channel)
      | .polling => stream.openIterator m true (stream.lastTs + 1)
      | _ => stream
  | .cancel => { stream with phase := .ended }
  | .reconnect =>
      match stream.phase with
      | .ended => stream.reconnect m
      | _ => stream

/-- Nothing happens after a panic. -/
def step (stream : UpdateStream) (step : StreamStep) : UpdateStream :=
  if stream.panicked then stream else stream.act m step

/-- A store whose first stream is about to be asked for. -/
def start (store : Store) : UpdateStream :=
  ⟨store, .idle, false, .ended, 0, 0, 0, [], [], [], [], []⟩

/-- A stream that has not ended. -/
def Open (stream : UpdateStream) : Prop := stream.panicked = false ∧ stream.phase ≠ .ended

instance (stream : UpdateStream) : Decidable stream.Open := inferInstanceAs (Decidable (_ ∧ _))

/-- What the replica has received, and what it will as the stream goes on. -/
def contents (stream : UpdateStream) : List WALUpdate :=
  stream.sent ++ (stream.batch ++ stream.phase.waiting)

end UpdateStream

/-! ## What the iterators find -/

/-- The updates a record stands for. -/
def WalRecord.updates : WalRecord → List WALUpdate
  | .add ts id value => [⟨id, value, false, ts⟩]
  | .delete ts id => [⟨id, [], true, ts⟩]
  | .batch baseTS entries => batchUpdates baseTS entries

/-- A batch that the replay finds complete decodes. -/
theorem decodeBatchEntries_of_length {count : Nat} {raw : Bytes}
    (hlength : (batchEntries count raw).length = count) :
    decodeBatchEntries count raw = some (batchEntries count raw) := by
  induction count generalizing raw with
  | zero => rfl
  | succ count ih =>
      rw [batchEntries] at hlength ⊢
      rw [decodeBatchEntries]
      grind

theorem decodeWALBatchEncoded_encode {entries : List (Bytes × Bytes)}
    (hcount : entries.length < 2 ^ 32)
    (hsmall : ∀ entry ∈ entries,
      entry.1 ≠ [] ∧ entry.1.length < 2 ^ 32 ∧ entry.2.length < 2 ^ 32) :
    (decodeWALBatchEncoded (encodeWALBatchEncoded entries)).getD [] = entries := by
  have hdrop : (encodeWALBatchEncoded entries).drop 4 = entries.flatMap encodeBatchEntry := rfl
  have hlength : (uint32 (encodeWALBatchEncoded entries)).toNat = entries.length := by
    rw [encodeWALBatchEncoded, uint32_putUint32_append, toNat_ofNat_length hcount]
  rw [decodeWALBatchEncoded, if_neg (by simp [encodeWALBatchEncoded]), hlength, hdrop]
  split
  next hempty => rw [List.eq_nil_of_length_eq_zero hempty, Option.getD_none]
  next _ =>
    have hentries := batchEntries_flatMap hsmall
    rw [decodeBatchEntries_of_length (congrArg List.length hentries), hentries, Option.getD_some]

/-- What `IterateWALFrom` passes on from a record with this key. -/
def WalKeyReading.streamed (value : Bytes) : WalKeyReading → List WALUpdate
  | .add ts id => [⟨id, value, false, ts⟩]
  | .delete ts id => [⟨id, [], true, ts⟩]
  | .batch ts => (decodeWALBatchEncoded value).elim [] (batchUpdates ts)

theorem readUpdates_eq_streamed (key value : Bytes) :
    readUpdates key value = (parseWalKey key).elim [] (WalKeyReading.streamed value) := by
  rw [readUpdates, parseWalKey]
  dsimp only
  split
  next _ =>
    cases parseInt64 (trimFront batchMark (trimFront hnswWALPrefix key)) with
    | none => rfl
    | some ts => rfl
  next _ =>
    cases cutAt underscore (trimEnd (underscore :: deleteWord) (trimFront hnswWALPrefix key)) with
    | none => rfl
    | some parts =>
        cases hts : parseInt64 parts.1 with
        | none => simp [hts]
        | some ts =>
            by_cases hdelete : (underscore :: deleteWord).isSuffixOf
                (trimFront hnswWALPrefix key) = true
            · simp [hts, hdelete, WalKeyReading.streamed]
            · simp [hts, hdelete, WalKeyReading.streamed]

theorem WalRecord.Readable.readUpdates {record : WalRecord} (hreadable : record.Readable) :
    readUpdates record.key record.value = record.updates := by
  rw [readUpdates_eq_streamed, hreadable.parsed, Option.elim_some]
  cases record with
  | add ts id value
  | delete ts id => rfl
  | batch baseTS entries =>
      have hdecode := decodeWALBatchEncoded_encode hreadable.2.1 hreadable.2.2
      rw [reading, WalKeyReading.streamed, value]
      cases hentries : decodeWALBatchEncoded (encodeWALBatchEncoded entries) with
      | none =>
          rw [hentries, Option.getD_none] at hdecode
          rw [← hdecode]
          rfl
      | some decoded =>
          rw [hentries, Option.getD_some] at hdecode
          rw [hdecode]
          rfl

/-- An iterator finds the updates of every record that it may start before. -/
theorem mem_iterateWALFrom {ns : Bytes} {cut : Nat} {db : Pebble} (hcut : Cut cut)
    {record : WalRecord} (hreadable : record.Readable) (hholds : Holds ns db record)
    {update : WALUpdate} (hupdate : update ∈ record.updates) (hts : (cut : Int) ≤ update.ts) :
    update ∈ iterateWALFrom ns cut db := by
  have hvisible : record.VisibleFrom cut := by
    cases record with
    | add ts id value
    | delete ts id =>
        rw [List.mem_singleton.mp hupdate] at hts
        exact Or.inr (Int.ofNat_le.mp hts)
    | batch baseTS entries => exact Or.inl rfl
  refine List.mem_flatMap.mpr ⟨_, record.mem_scan hcut hreadable hholds hvisible, ?_⟩
  rw [iteratorKey_nsKey, hreadable.readUpdates]
  exact hupdate

/-! ## The stream keeps what it has come across -/

/-- What a stream owes to the replica: what its iterators have found and what its channel
has taken. -/
def Owed (m : StreamSettings) (stream : UpdateStream) (update : WALUpdate) : Prop :=
  (∃ scan ∈ stream.scans, update ∈ iterateWALFrom m.ns scan.start scan.db) ∨
    (update, .accepted stream.session) ∈ stream.fates

/-- The updates that are yet to be published. -/
def Publishing.remaining : Publishing → List WALUpdate
  | .idle => []
  | .committed updates => updates
  | .sending _ updates => updates

/-- The stream is between two batches. -/
def StreamPhase.Flushed (phase : StreamPhase) : Prop :=
  phase = .connecting ∨ phase = .caughtUp ∨ phase = .polling

structure Faithful (m : StreamSettings) (stream : UpdateStream) : Prop where
  owed : stream.Open → ∀ update, Owed m stream update → update ∈ stream.contents
  flushed : stream.phase.Flushed → stream.batch = []
  sessions : ∀ update session, (update, .accepted session) ∈ stream.fates →
    session ≤ stream.session
  fates : m.hub = true → ∀ update ∈ stream.committed,
    update ∈ stream.publishing.remaining ∨ ∃ fate, (update, fate) ∈ stream.fates
  scanned : stream.Open → stream.phase ≠ .connecting →
    ∃ db, (⟨stream.fromTs, db⟩ : Scan) ∈ stream.scans

theorem faithful_start (m : StreamSettings) (store : Store) :
    Faithful m (UpdateStream.start store) where
  owed hopen := absurd rfl hopen.2
  flushed _ := rfl
  sessions _ _ hmem := by cases hmem
  fates _ _ hmem := by cases hmem
  scanned hopen := absurd rfl hopen.2

/-- The stream has gone on: its writer and its records are as before. -/
structure SameRecord (stream next : UpdateStream) : Prop where
  scans : next.scans = stream.scans
  fates : next.fates = stream.fates
  session : next.session = stream.session
  fromTs : next.fromTs = stream.fromTs
  committed : next.committed = stream.committed
  publishing : next.publishing = stream.publishing
  panicked : next.panicked = stream.panicked

namespace Faithful

variable {m : StreamSettings} {stream next : UpdateStream}

section

variable (hfaithful : Faithful m stream)

include hfaithful

/-- The stream hands updates on. -/
theorem proceed (hsame : SameRecord stream next)
    (hphase : stream.phase ≠ .connecting ∧ stream.phase ≠ .ended)
    (hcontents : next.phase ≠ .ended → next.contents = stream.contents)
    (hflushed : next.phase.Flushed → next.batch = []) : Faithful m next := by
  have hopen : next.Open → stream.Open := by
    intro hopen
    exact ⟨hsame.panicked ▸ hopen.1, hphase.2⟩
  constructor
  · intro hnext update howed
    rw [hcontents hnext.2]
    apply hfaithful.owed (hopen hnext)
    rw [Owed, hsame.scans, hsame.fates, hsame.session] at howed
    exact howed
  · exact hflushed
  · rw [hsame.fates, hsame.session]
    exact hfaithful.sessions
  · rw [hsame.fates, hsame.committed, hsame.publishing]
    exact hfaithful.fates
  · intro hnext _
    rw [hsame.scans, hsame.fromTs]
    exact hfaithful.scanned (hopen hnext) hphase.1

theorem sendBatch {sendOk : Bool} {phase : StreamPhase}
    (hphase : stream.phase ≠ .connecting ∧ stream.phase ≠ .ended)
    (hwaiting : phase.waiting = stream.phase.waiting) :
    Faithful m (stream.sendBatch sendOk phase) := by
  rw [UpdateStream.sendBatch]
  split
  next hempty =>
    refine hfaithful.proceed ⟨rfl, rfl, rfl, rfl, rfl, rfl, rfl⟩ hphase (fun _ => ?_)
      (fun _ => hempty)
    rw [UpdateStream.contents, UpdateStream.contents, hwaiting]
  next _ =>
    split
    next _ =>
      refine hfaithful.proceed ⟨rfl, rfl, rfl, rfl, rfl, rfl, rfl⟩ hphase (fun _ => ?_)
        (fun _ => rfl)
      rw [UpdateStream.contents, UpdateStream.contents, hwaiting, List.nil_append,
        List.append_assoc]
    next _ =>
      refine hfaithful.proceed ⟨rfl, rfl, rfl, rfl, rfl, rfl, rfl⟩ hphase
        (fun hended => absurd rfl hended) ?_
      rintro (h | h | h) <;> cases h

theorem take {update : WALUpdate} {sendOk : Bool} {phase : StreamPhase}
    (hphase : stream.phase ≠ .connecting ∧ stream.phase ≠ .ended)
    (hwaiting : stream.phase.waiting = update :: phase.waiting) (hflushed : ¬ phase.Flushed) :
    Faithful m (stream.take m update sendOk phase) := by
  rw [UpdateStream.take]
  dsimp only
  split
  next _ =>
    rw [UpdateStream.sendBatch, if_neg (by simp)]
    split
    next _ =>
      refine hfaithful.proceed ⟨rfl, rfl, rfl, rfl, rfl, rfl, rfl⟩ hphase (fun _ => ?_)
        (fun _ => rfl)
      simp [UpdateStream.contents, hwaiting]
    next _ =>
      refine hfaithful.proceed ⟨rfl, rfl, rfl, rfl, rfl, rfl, rfl⟩ hphase
        (fun hended => absurd rfl hended) ?_
      rintro (h | h | h) <;> cases h
  next _ =>
    refine hfaithful.proceed ⟨rfl, rfl, rfl, rfl, rfl, rfl, rfl⟩ hphase (fun _ => ?_)
      (fun h => absurd h hflushed)
    simp [UpdateStream.contents, hwaiting]

theorem openIterator {again : Bool} {cut : Nat} (hphase : stream.phase.Flushed)
    (hcut : stream.phase = .connecting → cut = stream.fromTs) :
    Faithful m (stream.openIterator m again cut) := by
  have hbatch := hfaithful.flushed hphase
  have hopen : (stream.openIterator m again cut).Open → stream.Open := by
    intro hopen
    refine ⟨hopen.1, ?_⟩
    rcases hphase with h | h | h
    · rw [h]
      exact fun heq => by cases heq
    · rw [h]
      exact fun heq => by cases heq
    · rw [h]
      exact fun heq => by cases heq
  have hwaiting : stream.phase.waiting = [] := by
    rcases hphase with h | h | h
    · rw [h]
      rfl
    · rw [h]
      rfl
    · rw [h]
      rfl
  have hcontents : (stream.openIterator m again cut).contents =
      stream.contents ++ iterateWALFrom m.ns cut stream.store.db := by
    have hnow : (stream.openIterator m again cut).contents =
        stream.sent ++ (stream.batch ++ iterateWALFrom m.ns cut stream.store.db) := rfl
    rw [hnow, UpdateStream.contents, hbatch, hwaiting]
    simp
  constructor
  · intro hnext update howed
    rw [hcontents, List.mem_append]
    rcases howed with ⟨scan, hscan, hupdate⟩ | hfate
    · rcases List.mem_append.mp hscan with hscan | hscan
      · exact Or.inl (hfaithful.owed (hopen hnext) update (Or.inl ⟨scan, hscan, hupdate⟩))
      · rw [List.mem_singleton.mp hscan] at hupdate
        exact Or.inr hupdate
    · exact Or.inl (hfaithful.owed (hopen hnext) update (Or.inr hfate))
  · rintro (h | h | h) <;> cases h
  · exact hfaithful.sessions
  · exact hfaithful.fates
  · intro hnext _
    by_cases hconnecting : stream.phase = .connecting
    · refine ⟨stream.store.db, List.mem_append_right _ ?_⟩
      rw [hcut hconnecting]
      exact List.mem_singleton_self _
    · obtain ⟨db, hdb⟩ := hfaithful.scanned (hopen hnext) hconnecting
      exact ⟨db, List.mem_append_left _ hdb⟩

theorem write (store : Store) (updates : List WALUpdate) :
    Faithful m (stream.write m store updates) := by
  rw [UpdateStream.write]
  split
  next hidle =>
    refine ⟨hfaithful.owed, hfaithful.flushed, hfaithful.sessions, ?_, hfaithful.scanned⟩
    intro hhub update hupdate
    rcases List.mem_append.mp hupdate with hupdate | hupdate
    · have hfate := hfaithful.fates hhub update hupdate
      rw [hidle] at hfate
      rcases hfate with hnone | hfate
      · cases hnone
      · exact Or.inr hfate
    · left
      have hsome : (m.hub && !updates.isEmpty) = true := by
        rw [hhub, Bool.true_and, Bool.not_eq_true', List.isEmpty_eq_false_iff]
        exact List.ne_nil_of_mem hupdate
      rw [UpdateStream.commit, if_pos hsome]
      exact hupdate
  next _ => exact hfaithful

theorem publish : Faithful m stream.publish := by
  rw [UpdateStream.publish]
  split
  next updates hcommitted =>
    split
    next channel hlive =>
      refine ⟨hfaithful.owed, hfaithful.flushed, hfaithful.sessions, ?_, hfaithful.scanned⟩
      intro hhub update hupdate
      have hfate := hfaithful.fates hhub update hupdate
      rw [hcommitted] at hfate
      exact hfate
    next _ =>
      constructor
      · intro hopen update howed
        apply hfaithful.owed hopen
        rcases howed with hscan | hfate
        · exact Or.inl hscan
        · rcases List.mem_append.mp hfate with hfate | hfate
          · exact Or.inr hfate
          · obtain ⟨_, _, heq⟩ := List.mem_map.mp hfate
            cases heq
      · exact hfaithful.flushed
      · intro update session hfate
        rcases List.mem_append.mp hfate with hfate | hfate
        · exact hfaithful.sessions update session hfate
        · obtain ⟨_, _, heq⟩ := List.mem_map.mp hfate
          cases heq
      · intro hhub update hupdate
        right
        rcases hfaithful.fates hhub update hupdate with hremaining | ⟨fate, hfate⟩
        · rw [hcommitted] at hremaining
          exact ⟨.unheard, List.mem_append_right _ (List.mem_map.mpr ⟨update, hremaining, rfl⟩)⟩
        · exact ⟨fate, List.mem_append_left _ hfate⟩
      · exact hfaithful.scanned
  next _ => exact hfaithful

theorem panic :
    Faithful m { stream with panicked := true } where
  owed hopen := by cases hopen.1
  flushed := hfaithful.flushed
  sessions := hfaithful.sessions
  fates := hfaithful.fates
  scanned hopen := by cases hopen.1

theorem offer : Faithful m (stream.offer m) := by
  rw [UpdateStream.offer]
  split
  next session hsending =>
    refine ⟨hfaithful.owed, hfaithful.flushed, hfaithful.sessions, ?_, hfaithful.scanned⟩
    intro hhub update hupdate
    have hfate := hfaithful.fates hhub update hupdate
    rw [hsending] at hfate
    exact hfate
  next session update rest hsending =>
    -- the update has a fate now, and the others are where they were
    have hfates : ∀ fate : Fate, m.hub = true → ∀ one ∈ stream.committed,
        one ∈ rest ∨ ∃ fate', (one, fate') ∈ stream.fates ++ [(update, fate)] := by
      intro fate hhub one hone
      rcases hfaithful.fates hhub one hone with hremaining | ⟨fate', hfate'⟩
      · rw [hsending] at hremaining
        rcases List.mem_cons.mp hremaining with rfl | hrest
        · exact Or.inr ⟨fate, List.mem_append_right _ (List.mem_singleton_self _)⟩
        · exact Or.inl hrest
      · exact Or.inr ⟨fate', List.mem_append_left _ hfate'⟩
    split
    next channel hlive =>
      have hscanned : ∀ next : UpdateStream, next.Open → next.panicked = stream.panicked →
          ∃ db, (⟨stream.fromTs, db⟩ : Scan) ∈ stream.scans := by
        intro next hopen hsame
        apply hfaithful.scanned
        · refine ⟨hsame ▸ hopen.1, ?_⟩
          rw [hlive]
          exact fun h => by cases h
        · rw [hlive]
          exact fun h => by cases h
      have hopen' : stream.panicked = false → stream.Open := by
        intro hpanicked
        refine ⟨hpanicked, ?_⟩
        rw [hlive]
        exact fun h => by cases h
      split
      next hsession =>
        split
        next _ =>
          constructor
          · intro hopen one howed
            have hcontents : ∀ one, one ∈ stream.contents ∨ one = update →
                one ∈ stream.sent ++ (stream.batch ++ (channel ++ [update])) := by
              intro one hone
              rw [UpdateStream.contents, hlive] at hone
              simp only [StreamPhase.waiting, List.mem_append, List.mem_singleton] at hone ⊢
              tauto
            apply hcontents
            rcases howed with hscan | hfate
            · exact Or.inl (hfaithful.owed (hopen' hopen.1) one (Or.inl hscan))
            · rcases List.mem_append.mp hfate with hfate | hfate
              · exact Or.inl (hfaithful.owed (hopen' hopen.1) one (Or.inr hfate))
              · exact Or.inr (Prod.mk.inj (List.mem_singleton.mp hfate)).1
          · rintro (h | h | h) <;> cases h
          · intro one session' hfate
            rcases List.mem_append.mp hfate with hfate | hfate
            · exact hfaithful.sessions one session' hfate
            · cases List.mem_singleton.mp hfate
              exact le_of_eq hsession
          · exact hfates _
          · exact fun hopen _ => hscanned _ hopen rfl
        next _ =>
          constructor
          · intro hopen one howed
            apply hfaithful.owed hopen
            rcases howed with hscan | hfate
            · exact Or.inl hscan
            · rcases List.mem_append.mp hfate with hfate | hfate
              · exact Or.inr hfate
              · cases List.mem_singleton.mp hfate
          · exact hfaithful.flushed
          · intro one session' hfate
            rcases List.mem_append.mp hfate with hfate | hfate
            · exact hfaithful.sessions one session' hfate
            · cases List.mem_singleton.mp hfate
          · exact hfates _
          · exact hfaithful.scanned
      next _ => exact hfaithful.panic
    next _ => exact hfaithful.panic
  next _ => exact hfaithful

theorem reconnect : Faithful m (stream.reconnect m) := by
  constructor
  · intro _ update howed
    rcases howed with ⟨scan, hscan, _⟩ | hfate
    · cases hscan
    · -- the channel of a session that has just begun has taken nothing
      have hle := hfaithful.sessions update _ hfate
      exact absurd hle (Nat.not_succ_le_self stream.session)
  · exact fun _ => rfl
  · exact fun update session hfate =>
      Nat.le_succ_of_le (hfaithful.sessions update session hfate)
  · exact hfaithful.fates
  · exact fun _ hphase => absurd rfl hphase

theorem cancel : Faithful m { stream with phase := .ended } where
  owed hopen := absurd rfl hopen.2
  flushed := by rintro (h | h | h) <;> cases h
  sessions := hfaithful.sessions
  fates := hfaithful.fates
  scanned hopen := absurd rfl hopen.2

theorem act (step : StreamStep) :
    Faithful m (stream.act m step) := by
  cases step with
  | storeVector now id vector metadata
  | storeVectorBatch now vectors
  | deleteVector now segmentNow id => exact hfaithful.write _ _
  | saveHNSW now =>
      exact ⟨hfaithful.owed, hfaithful.flushed, hfaithful.sessions, hfaithful.fates,
        hfaithful.scanned⟩
  | publish => exact hfaithful.publish
  | offer => exact hfaithful.offer
  | openScan =>
      rw [UpdateStream.act]
      split
      next hphase => exact hfaithful.openIterator (Or.inl hphase) fun _ => rfl
      next _ => exact hfaithful
  | scanNext sendOk =>
      rw [UpdateStream.act]
      split
      next again update rest hphase =>
        apply hfaithful.take
        · rw [hphase]
          simp
        · rw [hphase]
          rfl
        · rintro (h | h | h) <;> cases h
      next _ => exact hfaithful
  | scanDone sendOk =>
      rw [UpdateStream.act]
      split
      next again hphase =>
        apply hfaithful.sendBatch
        · rw [hphase]
          simp
        · rw [hphase]
          cases again with
          | true => rfl
          | false => rfl
      next _ => exact hfaithful
  | subscribe =>
      rw [UpdateStream.act]
      split
      next hphase =>
        have hbatch := hfaithful.flushed (Or.inr (Or.inl hphase))
        have hwaiting : (if m.hub then StreamPhase.live [] else .polling).waiting = [] := by
          cases m.hub with
          | true => rfl
          | false => rfl
        refine hfaithful.proceed ⟨rfl, rfl, rfl, rfl, rfl, rfl, rfl⟩ ?_ (fun _ => ?_)
          (fun _ => hbatch)
        · rw [hphase]
          simp
        · rw [UpdateStream.contents, UpdateStream.contents, hwaiting, hphase]
          rfl
      next _ => exact hfaithful
  | receive sendOk =>
      rw [UpdateStream.act]
      split
      next update rest hphase =>
        apply hfaithful.take
        · rw [hphase]
          simp
        · rw [hphase]
          rfl
        · rintro (h | h | h) <;> cases h
      next _ => exact hfaithful
  | tick sendOk =>
      rw [UpdateStream.act]
      split
      next channel hphase =>
        apply hfaithful.sendBatch
        · rw [hphase]
          simp
        · rw [hphase]
      next hphase =>
        apply hfaithful.openIterator (Or.inr (Or.inr hphase))
        intro hconnecting
        rw [hphase] at hconnecting
        cases hconnecting
      next _ => exact hfaithful
  | cancel => exact hfaithful.cancel
  | reconnect =>
      rw [UpdateStream.act]
      split
      next _ => exact hfaithful.reconnect
      next _ => exact hfaithful

theorem step (step : StreamStep) :
    Faithful m (stream.step m step) := by
  rw [UpdateStream.step]
  split
  next _ => exact hfaithful
  next _ => exact hfaithful.act step

end

end Faithful

/-! ## The stream gets to the end of what it has -/

section Drain

variable {m : StreamSettings} {stream : UpdateStream}

/-- The stream takes the next update that waits, and its sends succeed. -/
theorem take_contents (update : WALUpdate) (phase : StreamPhase)
    (hwaiting : stream.phase.waiting = update :: phase.waiting) :
    (stream.take m update true phase).contents = stream.contents ∧
      (stream.take m update true phase).phase = phase ∧
      (stream.take m update true phase).session = stream.session ∧
      (stream.take m update true phase).panicked = stream.panicked := by
  rw [UpdateStream.take]
  dsimp only
  split
  next _ =>
    rw [UpdateStream.sendBatch, if_neg (by simp), if_pos rfl]
    refine ⟨?_, rfl, rfl, rfl⟩
    simp [UpdateStream.contents, hwaiting]
  next _ =>
    refine ⟨?_, rfl, rfl, rfl⟩
    simp [UpdateStream.contents, hwaiting]

theorem sendBatch_sent (phase : StreamPhase) (hwaiting : stream.phase.waiting = []) :
    (stream.sendBatch true phase).sent = stream.contents ∧
      (stream.sendBatch true phase).session = stream.session := by
  rw [UpdateStream.contents, hwaiting, List.append_nil, UpdateStream.sendBatch]
  split
  next hempty =>
    refine ⟨?_, rfl⟩
    rw [hempty, List.append_nil]
  next _ => exact ⟨rfl, rfl⟩

variable (m) in
/-- With some more steps the replica has received all that the stream has come across. -/
def UpdateStream.Drains (stream : UpdateStream) : Prop :=
  ∃ more, (Run.run (UpdateStream.step m) stream more).sent = stream.contents ∧
    (Run.run (UpdateStream.step m) stream more).session = stream.session

/-- What waits in a phase is taken step by step, and the batch is sent after it. -/
theorem drain_phase {phase : List WALUpdate → StreamPhase} {take send : StreamStep}
    {after : StreamPhase} (hwaiting : ∀ rest, (phase rest).waiting = rest)
    (htake : ∀ (stream : UpdateStream) (update : WALUpdate) (rest : List WALUpdate),
      stream.panicked = false → stream.phase = phase (update :: rest) →
        stream.step m take = stream.take m update true (phase rest))
    (hsend : ∀ stream : UpdateStream, stream.panicked = false → stream.phase = phase [] →
      stream.step m send = stream.sendBatch true after)
    {rest : List WALUpdate} (hpanicked : stream.panicked = false)
    (hphase : stream.phase = phase rest) :
    stream.Drains m := by
  induction rest generalizing stream with
  | nil =>
      refine ⟨[send], ?_⟩
      rw [Run.run_cons, Run.run_nil, hsend stream hpanicked hphase]
      apply sendBatch_sent
      rw [hphase, hwaiting]
  | cons update rest ih =>
      obtain ⟨hcontents, hnext, hsession, hsame⟩ := @take_contents m stream
        update (phase rest) (by rw [hphase, hwaiting, hwaiting])
      obtain ⟨more, hsent, hmore⟩ := ih (hsame.trans hpanicked) hnext
      refine ⟨take :: more, ?_⟩
      rw [Run.run_cons, htake stream update rest hpanicked hphase, hsent, hmore, hcontents, hsession]
      exact ⟨rfl, rfl⟩

/-- A stream that is left alone sends all that it has come across. -/
theorem drain (hfaithful : Faithful m stream) (hopen : stream.Open) :
    stream.Drains m := by
  have hflushed : stream.phase.Flushed → stream.phase.waiting = [] →
      stream.Drains m := by
    intro hphase hwaiting
    refine ⟨[], ?_, rfl⟩
    rw [UpdateStream.contents, hwaiting, hfaithful.flushed hphase, List.append_nil,
      List.append_nil]
    rfl
  cases hphase : stream.phase with
  | connecting => exact hflushed (Or.inl hphase) (by rw [hphase]; rfl)
  | caughtUp => exact hflushed (Or.inr (Or.inl hphase)) (by rw [hphase]; rfl)
  | polling => exact hflushed (Or.inr (Or.inr hphase)) (by rw [hphase]; rfl)
  | scanning again rest =>
      refine @drain_phase m stream (.scanning again) (.scanNext true) (.scanDone true)
        (if again then .polling else .caughtUp) (fun _ => rfl) ?_ ?_ rest hopen.1 hphase
      · intro stream update rest hpanicked hphase
        rw [UpdateStream.step, hpanicked, UpdateStream.act, hphase]
        rfl
      · intro stream hpanicked hphase
        rw [UpdateStream.step, hpanicked, UpdateStream.act, hphase]
        rfl
  | live channel =>
      refine @drain_phase m stream .live (.receive true) (.tick true) (.live []) (fun _ => rfl) ?_ ?_
        channel hopen.1 hphase
      · intro stream update rest hpanicked hphase
        rw [UpdateStream.step, hpanicked, UpdateStream.act, hphase]
        rfl
      · intro stream hpanicked hphase
        rw [UpdateStream.step, hpanicked, UpdateStream.act, hphase]
        rfl
  | ended => exact absurd hphase hopen.2

end Drain

/-- What a replica is to expect of a stream that goes on: it has received, or is about to,
every update from the time it asked for on that was in the log when an iterator was opened,
and every update that was published while it was subscribed and had room in its channel.
An update of which this does not hold was published when the stream was not subscribed or
its channel was full, or is yet to be published. -/
theorem stream_delivers (m : StreamSettings) (store : Store) (steps : List StreamStep)
    (hopen : (Run.run (UpdateStream.step m) (UpdateStream.start store) steps).Open) :
    let stream := Run.run (UpdateStream.step m) (UpdateStream.start store) steps
    (stream.phase ≠ .connecting → ∃ db, (⟨stream.fromTs, db⟩ : Scan) ∈ stream.scans) ∧
      (∀ scan ∈ stream.scans, Cut scan.start → ∀ record : WalRecord, record.Readable →
        Holds m.ns scan.db record → ∀ update ∈ record.updates,
          (scan.start : Int) ≤ update.ts → update ∈ stream.contents) ∧
      (∀ update, (update, .accepted stream.session) ∈ stream.fates →
        update ∈ stream.contents) ∧
      (m.hub = true → ∀ update ∈ stream.committed,
        update ∈ stream.publishing.remaining ∨ ∃ fate, (update, fate) ∈ stream.fates) ∧
      ∃ more, (Run.run (UpdateStream.step m) stream more).sent = stream.contents ∧
        (Run.run (UpdateStream.step m) stream more).session = stream.session := by
  intro stream
  have hfaithful : Faithful m stream :=
    Run.run_preserves (Faithful m) (fun _ step hfaithful => hfaithful.step step) steps
      (faithful_start m store)
  refine ⟨hfaithful.scanned hopen, ?_, ?_, hfaithful.fates, drain hfaithful hopen⟩
  · intro scan hscan hcut record hreadable hholds update hupdate hts
    exact hfaithful.owed hopen update
      (Or.inl ⟨scan, hscan, mem_iterateWALFrom hcut hreadable hholds hupdate hts⟩)
  · intro update hfate
    exact hfaithful.owed hopen update (Or.inr hfate)

/-- A shard for vectors with one component whose streams have room for this many updates. -/
def lineStream (subBuffer : Int) : StreamSettings where
  toShardSettings := lineShard
  hub := true
  batchMax := 256
  subBuffer := subBuffer

def emptyStream (subBuffer : Int) : UpdateStream :=
  .start (newStateMachine (lineStream subBuffer).toShardSettings RangeOrder.stored
    OrderedStore.empty none).store

/-- One write before the iterator is opened and one after the stream is subscribed. -/
def followedWrites : List StreamStep :=
  [.storeVector 1700000000000000000 (idOf 'a') [1] [], .publish,
    .reconnect, .openScan, .scanNext true, .scanDone true, .subscribe,
    .deleteVector 1700000000000000010 1700000000000000010 (idOf 'a'), .publish, .offer, .offer,
    .receive true, .tick true]

theorem stream_delivers_followedWrites :
    let stream := Run.run (UpdateStream.step (lineStream 4096)) (emptyStream 4096) followedWrites
    stream.Open ∧ stream.sent.map WALUpdate.id = [idOf 'a', idOf 'a'] ∧
      stream.sent.map WALUpdate.delete = [false, true] ∧
      ∀ update, (update, .accepted stream.session) ∈ stream.fates →
        update ∈ stream.contents := by
  have hopen : (Run.run (UpdateStream.step (lineStream 4096)) (emptyStream 4096)
      followedWrites).Open := by decide +kernel
  exact ⟨hopen, by decide +kernel, by decide +kernel,
    (stream_delivers (lineStream 4096) _ followedWrites hopen).2.2.1⟩

/-- Nothing is missing from a stream that is subscribed while no writer is at work. -/
def Complete (stream : UpdateStream) : Prop :=
  ∀ update ∈ stream.committed, (stream.fromTs : Int) < update.ts → update ∈ stream.contents

instance (stream : UpdateStream) : Decidable (Complete stream) := by
  delta Complete
  infer_instance

/-- Two writes before the stream gets to receive, with room for one. -/
def fullChannel : List StreamStep :=
  [.reconnect, .openScan, .scanDone true, .subscribe,
    .storeVector 1700000000000000000 (idOf 'a') [1] [], .publish, .offer, .offer,
    .storeVector 1700000000000000010 (idOf 'b') [2] [], .publish, .offer, .offer,
    .receive true, .tick true]

/-- The second write never reaches the replica, and the stream goes on. -/
theorem fullChannel_incomplete :
    let stream := Run.run (UpdateStream.step (lineStream 1)) (emptyStream 1) fullChannel
    stream.Open ∧ stream.phase = .live [] ∧ stream.publishing = .idle ∧ stream.fromTs = 0 ∧
      stream.committed.map WALUpdate.id = [idOf 'a', idOf 'b'] ∧
      stream.sent.map WALUpdate.id = [idOf 'a'] ∧ ¬ Complete stream := by
  decide +kernel

end Vectron.Worker
