import Vectron.Worker.Storage

/-! # Snapshots in chunks

A snapshot of the index is stored in pieces of one mebibyte under numbered keys, with their
number under a key of its own. A new snapshot deletes the chunks of the one before in the
batch that writes its own.
-/

namespace Vectron.Worker.Chunked

open Foundation OrderedStore

def ascii (text : List Char) : Bytes := text.map Char.toUInt8

def hnswIndexKey : Bytes :=
  ascii ['_', 'h', 'n', 's', 'w', '_', 'i', 'n', 'd', 'e', 'x']

def hnswIndexTimestampKey : Bytes := hnswIndexKey ++ ascii ['_', 't', 's']

def hnswIndexFormatKey : Bytes := hnswIndexKey ++ ascii ['_', 'f', 'm', 't']

def hnswIndexChunkCountKey : Bytes := hnswIndexKey ++ ascii ['_', 'c', 'h', 'u', 'n', 'k', 's']

def hnswIndexChunkPrefix : Bytes := hnswIndexKey ++ ascii ['_', 'c', 'h', 'u', 'n', 'k', '_']

/-- The value under the format key. -/
def chunkedFormat : Bytes := ascii ['c', 'h', 'u', 'n', 'k', 'e', 'd']

/-- The format `%06d`. -/
def sixDigits (n : Nat) : Bytes := if n < 10 ^ 6 then paddedDecimal 6 n else decimal n

/-- `fmt.Sprintf("%s%06d", hnswIndexChunkPrefix, i)`. -/
def chunkKey (i : Nat) : Bytes := hnswIndexChunkPrefix ++ sixDigits i

/-- `maxSize` of a chunk writer. -/
def maxSize : Nat := 1 <<< 20

/-- A piece of a snapshot. -/
def chunk (content : Bytes) (i : Nat) : Bytes := (content.drop (i * maxSize)).take maxSize

abbrev Op := StoreOp Bytes Bytes

/-- `hnswChunkWriter`. -/
structure ChunkWriter where
  batch : List Op
  buf : Bytes
  count : Nat

/-- `newHNSWChunkWriter`. -/
def newHNSWChunkWriter (batch : List Op) : ChunkWriter where
  batch := batch
  buf := []
  count := 0

namespace ChunkWriter

variable (ns : Bytes)

/-- `flushChunk`. -/
def flushChunk (w : ChunkWriter) : ChunkWriter :=
  if w.buf.length = 0 then w
  else
    { batch := w.batch ++ [.set (nsKey ns (chunkKey w.count)) w.buf]
      buf := []
      count := w.count + 1 }

/-- The writer with room in its buffer, and how much there is. -/
def makeRoom (w : ChunkWriter) : ChunkWriter × Nat :=
  if maxSize ≤ w.buf.length then (w.flushChunk ns, maxSize) else (w, maxSize - w.buf.length)

theorem makeRoom_pos (w : ChunkWriter) : 0 < (w.makeRoom ns).2 := by
  have hpos : 0 < maxSize := by decide
  unfold makeRoom
  split
  · exact hpos
  · exact Nat.sub_pos_of_lt (by omega)

/-- `Write`. -/
def write (w : ChunkWriter) (p : Bytes) : ChunkWriter :=
  if _h : p = [] then w
  else
    let room := w.makeRoom ns
    let space := min room.2 p.length
    write { room.1 with buf := room.1.buf ++ p.take space } (p.drop space)
termination_by p.length
decreasing_by
  have hroom := w.makeRoom_pos ns
  have hlength : 0 < p.length := List.length_pos_iff.mpr _h
  rw [List.length_drop]
  omega

/-- `Close`. -/
def close (w : ChunkWriter) : ChunkWriter := w.flushChunk ns

end ChunkWriter

section Store

variable (ns : Bytes)

/-- What `deleteHNSWSnapshotKeys` adds to a batch. -/
def deleteHNSWSnapshotKeys (db : Pebble) : List Op :=
  [.delete (nsKey ns hnswIndexKey), .delete (nsKey ns hnswIndexFormatKey),
    .delete (nsKey ns hnswIndexChunkCountKey)] ++
  (db.scan (nsKey ns hnswIndexChunkPrefix)
    (some (nsKey ns (hnswIndexChunkPrefix ++ ascii ['~'])))).map fun entry => .delete entry.1

/-- One run of `saveHNSW`: what `Save` writes, slice by slice, and the time. -/
structure Save where
  slices : List Bytes
  ts : Nat

/-- The batch of `saveHNSW`. -/
def saveBatch (save : Save) (db : Pebble) : List Op :=
  let chunkWriter := newHNSWChunkWriter (deleteHNSWSnapshotKeys ns db)
  let chunkWriter := (save.slices.foldl (ChunkWriter.write ns) chunkWriter).close ns
  chunkWriter.batch ++
    [.set (nsKey ns hnswIndexFormatKey) chunkedFormat,
      .set (nsKey ns hnswIndexChunkCountKey) (decimal chunkWriter.count),
      .set (nsKey ns hnswIndexTimestampKey) (decimal save.ts)] ++
    (coveredKeys ns save.ts db).map .delete

/-- `saveHNSW`, when its batch is committed. -/
def saveHNSW (db : Pebble) (save : Save) : Pebble := db.commit (saveBatch ns save db)

/-- Why there is no reader. -/
inductive SnapshotError where
  | notFound
  | badCount
deriving DecidableEq, Repr

/-- The chunks of a snapshot, read one after another. -/
def readChunks (db : Pebble) (count : Nat) : Option (List Bytes) :=
  (List.range count).mapM fun i => db.get (nsKey ns (chunkKey i))

/-- `hnswSnapshotReader`: what its reader yields. -/
def hnswSnapshotReader (db : Pebble) : Except SnapshotError Bytes :=
  if db.get (nsKey ns hnswIndexFormatKey) = some chunkedFormat then
    match db.get (nsKey ns hnswIndexChunkCountKey) with
    | none => .error .notFound
    | some text =>
        match parseDecimal text with
        | none => .error .badCount
        | some count =>
            match readChunks ns db count with
            | none => .error .notFound
            | some chunks => .ok chunks.flatten
  else
    match db.get (nsKey ns hnswIndexKey) with
    | none => .error .notFound
    | some data => .ok data

end Store

/-! ## Keys -/

theorem parseDecimal_sixDigits (n : Nat) : parseDecimal (sixDigits n) = some n := by
  unfold sixDigits
  split
  next hlt => exact parseDecimal_paddedDecimal hlt
  next => exact parseDecimal_decimal n

theorem isDigit_of_mem_sixDigits {n : Nat} {byte : UInt8} (hmem : byte ∈ sixDigits n) :
    isDigit byte = true := by
  unfold sixDigits at hmem
  split at hmem
  · exact isDigit_of_mem_paddedDecimal hmem
  · exact isDigit_of_mem_decimal hmem

/-- A number has one chunk key, also when it does not fit into six digits. -/
theorem chunkKey_injective {i j : Nat} (heq : chunkKey i = chunkKey j) : i = j := by
  have hdigits := List.append_cancel_left heq
  have hparse := congrArg parseDecimal hdigits
  rw [parseDecimal_sixDigits, parseDecimal_sixDigits] at hparse
  exact Option.some.inj hparse

theorem nsKey_injective {ns key key' : Bytes} (heq : nsKey ns key = nsKey ns key') :
    key = key' := by
  rw [nsKey_eq, nsKey_eq] at heq
  exact List.append_cancel_left heq

/-- The scan for old chunks comes across every chunk key. -/
theorem chunkKey_within (ns : Bytes) (i : Nat) :
    within (nsKey ns hnswIndexChunkPrefix)
      (some (nsKey ns (hnswIndexChunkPrefix ++ ascii ['~']))) (nsKey ns (chunkKey i)) = true := by
  rw [within_iff]
  simp only [nsKey_eq, chunkKey]
  refine ⟨(append_left_le_iff _ _ _).mpr (le_append_right _ _), fun bound hbound => ?_⟩
  rw [← Option.some.inj hbound, append_left_lt_iff, append_left_lt_iff]
  cases hdigits : sixDigits i with
  | nil => exact List.nil_lt_cons _ _
  | cons byte rest =>
      have hdigit : isDigit byte = true := isDigit_of_mem_sixDigits (hdigits ▸ List.mem_cons_self)
      simp only [isDigit, Bool.and_eq_true, decide_eq_true_eq] at hdigit
      exact List.cons_lt_cons_iff.mpr (Or.inl (lt_of_le_of_lt hdigit.2 (by decide)))

/-- The keys of a snapshot and of the log start differently. -/
theorem not_covered {ns rest : Bytes} (ts : Nat) (db : Pebble) :
    nsKey ns (hnswIndexKey ++ rest) ∉ coveredKeys ns ts db := by
  intro hmem
  obtain ⟨⟨key, value⟩, hentry, hkey⟩ := List.mem_map.mp hmem
  have hlower := (within_iff.mp (mem_scan.mp hentry).2).1
  rw [show key = nsKey ns (hnswIndexKey ++ rest) from hkey, nsKey_eq, nsKey_eq,
    append_left_le_iff] at hlower
  refine absurd hlower (not_le_of_gt ?_)
  have hfront : hnswIndexKey ++ rest = ascii ['_', 'h', 'n', 's', 'w', '_'] ++
      ('i'.toUInt8 :: (ascii ['n', 'd', 'e', 'x'] ++ rest)) := rfl
  have hwal : hnswWALPrefix = ascii ['_', 'h', 'n', 's', 'w', '_'] ++
      ('w'.toUInt8 :: ascii ['a', 'l', '_']) := rfl
  rw [hfront, hwal, append_left_lt_iff]
  exact List.cons_lt_cons_iff.mpr (Or.inl (by decide))

/-! ## What is written -/

/-- The operations that store the first chunks of a content. -/
def chunkSets (ns content : Bytes) (count : Nat) : List Op :=
  (List.range count).map fun i => .set (nsKey ns (chunkKey i)) (chunk content i)

/-- A writer that was given some content after its batch had some operations: full chunks are
in the batch, and the rest is in the buffer. -/
structure ChunkWriter.Wrote (ns : Bytes) (base : List Op) (content : Bytes) (w : ChunkWriter) :
    Prop where
  batch : w.batch = base ++ chunkSets ns content w.count
  buf : w.buf = content.drop (w.count * maxSize)
  full : w.count * maxSize ≤ content.length
  room : w.buf.length ≤ maxSize

theorem chunk_append {content : Bytes} {i : Nat} (hfull : (i + 1) * maxSize ≤ content.length)
    (more : Bytes) : chunk (content ++ more) i = chunk content i := by
  have hdrop : i * maxSize ≤ content.length :=
    le_trans (Nat.mul_le_mul_right _ (Nat.le_succ i)) hfull
  rw [chunk, chunk, List.drop_append_of_le_length hdrop, List.take_append_of_le_length]
  rw [List.length_drop]
  rw [Nat.succ_mul] at hfull
  omega

theorem chunkSets_append {ns content : Bytes} {count : Nat}
    (hfull : count * maxSize ≤ content.length) (more : Bytes) :
    chunkSets ns (content ++ more) count = chunkSets ns content count := by
  refine List.map_congr_left fun i hi => ?_
  have hle : (i + 1) * maxSize ≤ count * maxSize :=
    Nat.mul_le_mul_right _ (List.mem_range.mp hi)
  rw [chunk_append (le_trans hle hfull)]

namespace ChunkWriter

variable {ns content : Bytes} {base : List Op} {w : ChunkWriter}

theorem wrote_new (ns : Bytes) (base : List Op) :
    (newHNSWChunkWriter base).Wrote ns base [] where
  batch := by simp [newHNSWChunkWriter, chunkSets]
  buf := by simp [newHNSWChunkWriter]
  full := by simp [newHNSWChunkWriter]
  room := by simp [newHNSWChunkWriter]

section

variable (hwrote : w.Wrote ns base content)

include hwrote

/-- The chunk in the buffer is the next one of the content. -/
theorem Wrote.buf_eq_chunk : w.buf = chunk content w.count := by
  have hroom := hwrote.room
  rw [hwrote.buf] at hroom
  rw [hwrote.buf, chunk, List.take_of_length_le hroom]

theorem Wrote.flushed (hne : w.buf.length ≠ 0) :
    (w.flushChunk ns).batch = base ++ chunkSets ns content (w.count + 1) := by
  rw [flushChunk, if_neg hne, hwrote.batch, hwrote.buf_eq_chunk, List.append_assoc,
    chunkSets, chunkSets, List.range_succ, List.map_append, List.map_singleton]

theorem Wrote.length_buf :
    content.length = w.count * maxSize + w.buf.length := by
  have hfull := hwrote.full
  rw [hwrote.buf, List.length_drop]
  omega

theorem Wrote.makeRoom :
    (w.makeRoom ns).1.Wrote ns base content ∧
      (w.makeRoom ns).1.buf.length + (w.makeRoom ns).2 = maxSize := by
  have hpos : 0 < maxSize := by decide
  unfold ChunkWriter.makeRoom
  split
  next hlong =>
    have hne : w.buf.length ≠ 0 := by omega
    have hexact : w.buf.length = maxSize := Nat.le_antisymm hwrote.room hlong
    have hlength : content.length = (w.count + 1) * maxSize := by
      rw [hwrote.length_buf, hexact, Nat.succ_mul]
    have hbatch := hwrote.flushed hne
    have hflush : w.flushChunk ns = ⟨(w.flushChunk ns).batch, [], w.count + 1⟩ := by
      rw [flushChunk, if_neg hne]
    rw [hflush]
    refine ⟨⟨hbatch, ?_, Nat.le_of_eq hlength.symm, Nat.zero_le _⟩, Nat.zero_add _⟩
    exact (List.drop_eq_nil_of_le (Nat.le_of_eq hlength)).symm
  next hshort =>
    refine ⟨hwrote, ?_⟩
    simp only
    omega

theorem Wrote.append {more : Bytes} (hroom : w.buf.length + more.length ≤ maxSize) :
    Wrote ns base (content ++ more) { w with buf := w.buf ++ more } where
  batch := by rw [chunkSets_append hwrote.full, hwrote.batch]
  buf := by rw [List.drop_append_of_le_length hwrote.full, hwrote.buf]
  full := le_trans hwrote.full (by simp)
  room := by simpa using hroom

/-- A slice of any length is written behind the content. -/
theorem Wrote.write (p : Bytes) :
    (w.write ns p).Wrote ns base (content ++ p) := by
  induction p using (measure List.length).wf.induction generalizing w content with
  | _ p ih =>
      rw [ChunkWriter.write]
      split
      next hempty => rwa [hempty, List.append_nil]
      next hne =>
        have hlength : 0 < p.length := List.length_pos_iff.mpr hne
        have hpos := w.makeRoom_pos ns
        obtain ⟨hmade, hspace⟩ := hwrote.makeRoom
        simp only
        have hroom : (w.makeRoom ns).1.buf.length +
            (p.take (min (w.makeRoom ns).2 p.length)).length ≤ maxSize := by
          rw [List.length_take]
          omega
        have hnext := hmade.append hroom
        have hrest := ih (p.drop (min (w.makeRoom ns).2 p.length))
          (by change (p.drop _).length < p.length; rw [List.length_drop]; omega) hnext
        rwa [List.append_assoc, List.take_append_drop] at hrest

theorem Wrote.writes (slices : List Bytes) :
    (slices.foldl (ChunkWriter.write ns) w).Wrote ns base (content ++ slices.flatten) := by
  induction slices generalizing w content with
  | nil => simpa using hwrote
  | cons slice slices ih =>
      rw [List.flatten_cons, ← List.append_assoc]
      exact ih (hwrote.write slice)

/-- A closed writer has put every byte into a chunk. -/
theorem Wrote.close :
    (w.close ns).batch = base ++ chunkSets ns content (w.close ns).count ∧
      ∀ i, i < (w.close ns).count ↔ i * maxSize < content.length := by
  have hlength := hwrote.length_buf
  rw [ChunkWriter.close]
  by_cases hempty : w.buf.length = 0
  · rw [flushChunk, if_pos hempty]
    refine ⟨hwrote.batch, fun i => ?_⟩
    rw [hlength, hempty, Nat.add_zero]
    exact (Nat.mul_lt_mul_right (by decide)).symm
  · have hcount : (w.flushChunk ns).count = w.count + 1 := by
      rw [flushChunk, if_neg hempty]
    refine ⟨by rw [hcount, hwrote.flushed hempty], fun i => ?_⟩
    rw [hcount]
    have hroom := hwrote.room
    constructor
    · intro hlt
      have hle : i * maxSize ≤ w.count * maxSize :=
        Nat.mul_le_mul_right _ (Nat.le_of_lt_succ hlt)
      omega
    · intro hlt
      by_contra hge
      have hle : (w.count + 1) * maxSize ≤ i * maxSize := Nat.mul_le_mul_right _ (by omega)
      rw [Nat.succ_mul] at hle
      omega

end

end ChunkWriter

/-! ## What is read -/

theorem flatten_chunks (content : Bytes) (count : Nat) :
    ((List.range count).map (chunk content)).flatten = content.take (count * maxSize) := by
  induction count with
  | zero => simp
  | succ count ih =>
      rw [List.range_succ, List.map_append, List.flatten_append, ih, Nat.succ_mul, List.take_add]
      simp [chunk]

theorem mapM_eq_some {α β : Type} {f : α → Option β} {g : α → β} {list : List α}
    (hsome : ∀ a ∈ list, f a = some (g a)) : list.mapM f = some (list.map g) := by
  induction list with
  | nil => rfl
  | cons a list ih =>
      rw [List.mapM_cons, hsome a List.mem_cons_self,
        ih fun b hb => hsome b (List.mem_cons_of_mem _ hb)]
      rfl

section Saved

variable {ns : Bytes} {db : Pebble}

theorem nsKey_chunkKey_ne {i : Nat} {key : Bytes} (hkey : ¬hnswIndexChunkPrefix <+: key) :
    nsKey ns key ≠ nsKey ns (chunkKey i) := by
  intro heq
  rw [nsKey_injective heq] at hkey
  exact hkey (List.prefix_append _ _)

/-- Old chunks are gone once the first part of the batch is applied. -/
theorem get_deleted (i : Nat) :
    (db.commit (deleteHNSWSnapshotKeys ns db)).get (nsKey ns (chunkKey i)) = none := by
  have hdeletes : deleteHNSWSnapshotKeys ns db =
      (([hnswIndexKey, hnswIndexFormatKey, hnswIndexChunkCountKey].map (nsKey ns)) ++
        (db.scan (nsKey ns hnswIndexChunkPrefix)
          (some (nsKey ns (hnswIndexChunkPrefix ++ ascii ['~'])))).map Prod.fst).map .delete := by
    simp [deleteHNSWSnapshotKeys]
  rw [hdeletes, get_commit_deletes]
  split
  · rfl
  next habsent =>
    cases hget : db.get (nsKey ns (chunkKey i)) with
    | none => rfl
    | some value =>
        refine absurd (List.mem_append_right _ ?_) habsent
        exact List.mem_map.mpr ⟨_, mem_scan.mpr ⟨hget, chunkKey_within ns i⟩, rfl⟩

/-- The operations of `saveHNSW` behind its deletions, for a content in some chunks. -/
def laterOps (ns : Bytes) (db : Pebble) (content : Bytes) (count ts : Nat) : List Op :=
  chunkSets ns content count ++
    [.set (nsKey ns hnswIndexFormatKey) chunkedFormat,
      .set (nsKey ns hnswIndexChunkCountKey) (decimal count),
      .set (nsKey ns hnswIndexTimestampKey) (decimal ts)] ++
    (coveredKeys ns ts db).map .delete

theorem saveHNSW_eq (save : Save) :
    ∃ count, (∀ i, i < count ↔ i * maxSize < save.slices.flatten.length) ∧
      saveHNSW ns db save = (db.commit (deleteHNSWSnapshotKeys ns db)).commit
        (laterOps ns db save.slices.flatten count save.ts) := by
  have hwrote := (ChunkWriter.wrote_new ns (deleteHNSWSnapshotKeys ns db)).writes save.slices
  rw [List.nil_append] at hwrote
  obtain ⟨hbatch, hcount⟩ := hwrote.close
  refine ⟨_, hcount, ?_⟩
  rw [saveHNSW, saveBatch, ← commit_append]
  simp only [hbatch, laterOps, List.append_assoc]

/-- An operation on one of the keys of a snapshot is not a deletion of a log record. -/
theorem mem_laterOps {content rest : Bytes} {count ts : Nat} {op : Op}
    (hop : op ∈ laterOps ns db content count ts) (hkey : opKey op = nsKey ns (hnswIndexKey ++ rest)) :
    (∃ i < count, op = .set (nsKey ns (chunkKey i)) (chunk content i)) ∨
      op = .set (nsKey ns hnswIndexFormatKey) chunkedFormat ∨
      op = .set (nsKey ns hnswIndexChunkCountKey) (decimal count) ∨
      op = .set (nsKey ns hnswIndexTimestampKey) (decimal ts) := by
  simp only [laterOps, chunkSets, List.mem_append, List.mem_map, List.mem_range, List.mem_cons,
    List.not_mem_nil, or_false] at hop
  rcases hop with (⟨i, hi, rfl⟩ | hmeta) | ⟨key, hcovered, rfl⟩
  · exact Or.inl ⟨i, hi, rfl⟩
  · exact Or.inr hmeta
  · rw [show key = nsKey ns (hnswIndexKey ++ rest) from hkey] at hcovered
    exact absurd hcovered (not_covered ts db)

theorem chunkKey_eq (i : Nat) :
    chunkKey i = hnswIndexKey ++ (ascii ['_', 'c', 'h', 'u', 'n', 'k', '_'] ++ sixDigits i) :=
  List.append_assoc _ _ _

/-- The chunks in the store after a save are those of its content. -/
theorem get_chunkKey_saveHNSW (save : Save) (i : Nat) :
    (saveHNSW ns db save).get (nsKey ns (chunkKey i)) =
      if i * maxSize < save.slices.flatten.length then some (chunk save.slices.flatten i)
      else none := by
  obtain ⟨count, hcount, hsaved⟩ := @saveHNSW_eq ns db save
  rw [hsaved]
  -- the only operation on the key of a chunk is the one that sets it
  have honly : ∀ op ∈ laterOps ns db save.slices.flatten count save.ts,
      opKey op = nsKey ns (chunkKey i) →
        i < count ∧ op = .set (nsKey ns (chunkKey i)) (chunk save.slices.flatten i) := by
    intro op hop hkey
    have hkey' := hkey
    rw [chunkKey_eq] at hkey'
    rcases mem_laterOps hop hkey' with ⟨j, hj, rfl⟩ | rfl | rfl | rfl
    · obtain rfl := chunkKey_injective (nsKey_injective hkey)
      exact ⟨hj, rfl⟩
    · exact absurd hkey (nsKey_chunkKey_ne (by decide))
    · exact absurd hkey (nsKey_chunkKey_ne (by decide))
    · exact absurd hkey (nsKey_chunkKey_ne (by decide))
  split
  next hlt =>
    refine get_commit_of_set ?_ fun op hop hkey => (honly op hop hkey).2
    simp only [laterOps, chunkSets, List.mem_append, List.mem_map, List.mem_range]
    exact Or.inl (Or.inl ⟨i, (hcount i).mpr hlt, rfl⟩)
  next hge =>
    rw [get_commit_of_forall_ne fun op hop hkey => hge ((hcount i).mp (honly op hop hkey).1)]
    exact get_deleted i

/-- What a save leaves under the format key and under the count key. -/
theorem get_meta_saveHNSW (save : Save) :
    ∃ count, (∀ i, i < count ↔ i * maxSize < save.slices.flatten.length) ∧
      (saveHNSW ns db save).get (nsKey ns hnswIndexFormatKey) = some chunkedFormat ∧
      (saveHNSW ns db save).get (nsKey ns hnswIndexChunkCountKey) = some (decimal count) := by
  obtain ⟨count, hcount, hsaved⟩ := @saveHNSW_eq ns db save
  have hsame : ∀ {key other : Bytes}, key ≠ other → nsKey ns other ≠ nsKey ns key :=
    fun hne heq => hne (nsKey_injective heq).symm
  refine ⟨count, hcount, ?_, ?_⟩
  · rw [hsaved]
    refine get_commit_of_set (by simp [laterOps]) fun op hop hkey => ?_
    rcases mem_laterOps hop hkey with ⟨j, hj, rfl⟩ | rfl | rfl | rfl
    · exact absurd hkey.symm (nsKey_chunkKey_ne (by decide))
    · rfl
    · exact absurd hkey (hsame (by decide))
    · exact absurd hkey (hsame (by decide))
  · rw [hsaved]
    refine get_commit_of_set (by simp [laterOps]) fun op hop hkey => ?_
    rcases mem_laterOps hop hkey with ⟨j, hj, rfl⟩ | rfl | rfl | rfl
    · exact absurd hkey.symm (nsKey_chunkKey_ne (by decide))
    · exact absurd hkey (hsame (by decide))
    · rfl
    · exact absurd hkey (hsame (by decide))

theorem hnswSnapshotReader_saveHNSW (save : Save) :
    hnswSnapshotReader ns (saveHNSW ns db save) = .ok save.slices.flatten := by
  obtain ⟨count, hcount, hformat, hnumber⟩ := @get_meta_saveHNSW ns db save
  have hchunks : readChunks ns (saveHNSW ns db save) count =
      some ((List.range count).map (chunk save.slices.flatten)) := by
    refine mapM_eq_some fun i hi => ?_
    rw [get_chunkKey_saveHNSW, if_pos ((hcount i).mp (List.mem_range.mp hi))]
  have hwhole : save.slices.flatten.length ≤ count * maxSize := by
    by_contra hlt
    exact Nat.lt_irrefl count ((hcount count).mpr (Nat.lt_of_not_le hlt))
  rw [hnswSnapshotReader, if_pos hformat, hnumber]
  simp only [parseDecimal_decimal, hchunks, flatten_chunks, List.take_of_length_le hwhole]

end Saved

/-- After any saves into any store the reader yields what the last one wrote, and the chunks in
the store are those of the last one. -/
theorem last_snapshot_restored (ns : Bytes) (db : Pebble) (earlier : List Save) (last : Save) :
    hnswSnapshotReader ns ((earlier ++ [last]).foldl (saveHNSW ns) db) =
        .ok last.slices.flatten ∧
      ∀ i, ((earlier ++ [last]).foldl (saveHNSW ns) db).get (nsKey ns (chunkKey i)) =
        if i * maxSize < last.slices.flatten.length then some (chunk last.slices.flatten i)
        else none := by
  rw [List.foldl_append]
  exact ⟨hnswSnapshotReader_saveHNSW last, get_chunkKey_saveHNSW last⟩

end Vectron.Worker.Chunked
