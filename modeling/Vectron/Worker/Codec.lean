import Vectron.Foundation.Bounded
import Vectron.Worker.UpdateStream

/-! # The codecs of the store, byte by byte

A stored vector has one encoder and three decoders: two in `storage`, one of which takes its
result from a pool of slices, and a copy in `segment`. A batch record of the log has one
encoder and two decoders. Here each decoder moves its offset over the whole buffer, with
every access checked; none of them leaves the buffer, and each computes what the decoder of
the log does that reads on in the rest.
-/

namespace Vectron.Worker.Codec

open Foundation Bounded

/-! ## Stored vectors -/

section Vectors

variable (arith : Arithmetic) (data : Bytes)

/-- One compressed component: `float32(int8(data[8+i])) * mult`, where `mult` comes from the
scale, and a scale of zero counts as one. -/
def component (scaleBits : UInt32) (i : Nat) : Except OutOfRange UInt32 := do
  let byte ← at? data (8 + i)
  pure (arith.expand scaleBits byte)

/-- `data[expectedLen:]`, or no metadata. -/
def metadataFrom (expectedLen : Nat) : Except OutOfRange Bytes :=
  if expectedLen < data.length then slice data expectedLen data.length else .ok []

/-- The body that `decodeVectorWithMeta` and `decodeVectorWithMetaPooled` share. They differ in
the slice of a given length that they write the vector to. -/
def decodeInto (room : Nat → Vector) : Except OutOfRange (Except String (Vector × Bytes)) :=
  if data.length = 0 then .ok (.ok ([], []))
  else if data.length < 4 then .ok (.error "data too short to contain vector length")
  else do
    let vecLen32 ← wordAt data 0
    let vecLen := (vecLen32 &&& ~~~vectorCompressionFlag).toNat
    if vecLen32 &&& vectorCompressionFlag = 0 then
      let expectedLen := 4 + vecLen * 4
      if data.length < expectedLen then
        .ok (.error "data too short for declared vector length")
      else do
        let vector ← fill (fun i => wordAt data (4 + i * 4)) vecLen 0 (room vecLen)
        let metadata ← metadataFrom data expectedLen
        pure (.ok (vector, metadata))
    else
      let expectedLen := 4 + 4 + vecLen
      if data.length < expectedLen then
        .ok (.error "data too short for declared compressed vector length")
      else do
        let scaleBits ← wordAt data 4
        let vector ← fill (component arith data scaleBits) vecLen 0 (room vecLen)
        let metadata ← metadataFrom data expectedLen
        pure (.ok (vector, metadata))

/-- `make([]float32, vecLen)`. -/
def zeros (vecLen : Nat) : Vector := List.replicate vecLen 0

/-- The slice from `decodeVecPool`, given up to its capacity, or a new one. -/
def pooled (buffer : Vector) (vecLen : Nat) : Vector :=
  if buffer.length < vecLen then zeros vecLen else buffer.take vecLen

/-- `decodeVectorWithMeta`. -/
def decodeVectorWithMeta : Except OutOfRange (Except String (Vector × Bytes)) :=
  decodeInto arith data zeros

/-- `decodeVectorWithMetaPooled`, with a slice that the pool hands out. -/
def decodeVectorWithMetaPooled (buffer : Vector) :
    Except OutOfRange (Except String (Vector × Bytes)) :=
  decodeInto arith data (pooled buffer)

/-- The loop of `decodePrimaryVector` over the words of a vector, with its own offset. -/
def primaryWords : Nat → Nat → Nat → Vector → Except OutOfRange Vector
  | 0, _, _, out => .ok out
  | count + 1, i, off, out => do
      let word ← wordAt data off
      let out ← put out i word
      primaryWords count (i + 1) (off + 4) out

/-- `decodePrimaryVector`. -/
def decodePrimaryVector : Except OutOfRange (Except String Vector) :=
  if data.length < 4 then .ok (.error "invalid vector payload")
  else do
    let vecLen32 ← wordAt data 0
    let vecLen := (vecLen32 &&& ~~~((1 : UInt32) <<< 31)).toNat
    if vecLen32 &&& ((1 : UInt32) <<< 31) = 0 then
      if data.length < 4 + vecLen * 4 then .ok (.error "short vector payload")
      else do
        let out ← primaryWords data vecLen 0 4 (zeros vecLen)
        pure (.ok out)
    else
      if data.length < 8 + vecLen then .ok (.error "short compressed vector payload")
      else do
        let scaleBits ← wordAt data 4
        let out ← fill (component arith data scaleBits) vecLen 0 (zeros vecLen)
        pure (.ok out)

end Vectors

section Vectors

variable {arith : Arithmetic} {data : Bytes}

theorem words_eq_map (count : Nat) (data : Bytes) :
    words count data = (List.range count).map fun i => uint32 (data.drop (i * 4)) := by
  induction count generalizing data with
  | zero => rfl
  | succ count ih =>
      rw [words, ih, List.range_succ_eq_map, List.map_cons, List.map_map]
      congr 1
      refine List.map_congr_left fun i _ => ?_
      rw [List.drop_drop, Function.comp_apply, Nat.succ_mul, Nat.add_comm 4]

/-- The words of a vector, wherever they are written to. -/
theorem fill_words {vecLen : Nat} (hle : 4 + vecLen * 4 ≤ data.length) {out : Vector}
    (hout : out.length = vecLen) :
    fill (fun i => wordAt data (4 + i * 4)) vecLen 0 out = .ok (words vecLen (data.drop 4)) := by
  rw [words_eq_map]
  simp only [List.drop_drop]
  exact fill_zero (fun i hlt => wordAt_of_le (by omega)) hout

/-- The components of a compressed vector, wherever they are written to. -/
theorem fill_component {vecLen : Nat} (hle : 4 + 4 + vecLen ≤ data.length) (scaleBits : UInt32)
    {out : Vector} (hout : out.length = vecLen) :
    fill (component arith data scaleBits) vecLen 0 out =
      .ok (((data.drop 8).take vecLen).map (arith.expand scaleBits)) := by
  have hread : ∀ i < vecLen, component arith data scaleBits i =
      .ok (arith.expand scaleBits (data.getD (8 + i) 0)) := by
    intro i hlt
    have hin : 8 + i < data.length := by omega
    rw [component, at?_of_lt hin, List.getD_eq_getElem _ _ hin]
    rfl
  rw [fill_zero hread hout]
  congr 1
  apply List.ext_getElem
  · simp
    omega
  · intro i hi _
    have hin : 8 + i < data.length := by
      simp at hi
      omega
    simp [List.getElem?_eq_getElem hin]

theorem metadataFrom_of_le {expectedLen : Nat} (hle : expectedLen ≤ data.length) :
    metadataFrom data expectedLen = .ok (data.drop expectedLen) := by
  unfold metadataFrom
  split
  next hlt => rw [slice, if_pos ⟨hle, Nat.le_refl _⟩, List.take_of_length_le (by simp)]
  next => rw [List.drop_eq_nil_of_le (by omega)]

@[simp] theorem length_zeros (vecLen : Nat) : (zeros vecLen).length = vecLen :=
  List.length_replicate

@[simp] theorem length_pooled (buffer : Vector) (vecLen : Nat) :
    (pooled buffer vecLen).length = vecLen := by
  unfold pooled
  split
  · simp
  · simp
    omega

theorem primaryWords_eq_fill (data : Bytes) (count i : Nat) (out : Vector) :
    primaryWords data count i (4 + i * 4) out =
      fill (fun i => wordAt data (4 + i * 4)) count i out := by
  induction count generalizing i out with
  | zero => rfl
  | succ count ih =>
      rw [primaryWords, fill]
      have hoff : 4 + i * 4 + 4 = 4 + (i + 1) * 4 := by omega
      simp only [hoff, ih]

/-- The decoder stays inside its input, and what it writes to does not matter. -/
theorem decodeInto_eq (arith : Arithmetic) (data : Bytes) {room : Nat → Vector}
    (hroom : ∀ vecLen, (room vecLen).length = vecLen) :
    decodeInto arith data room = .ok (Worker.decodeVectorWithMeta arith data) := by
  unfold decodeInto Worker.decodeVectorWithMeta
  split
  · rfl
  split
  · rfl
  next hfour =>
    rw [wordAt_of_le (by omega), ok_bind, List.drop_zero]
    simp only
    split
    next hflag =>
      split
      · rfl
      next hlong =>
        rw [fill_words (by omega) (hroom _), ok_bind, metadataFrom_of_le (by omega), ok_bind]
        rfl
    next hflag =>
      split
      · rfl
      next hlong =>
        rw [wordAt_of_le (by omega), ok_bind, fill_component (by omega) _ (hroom _), ok_bind,
          metadataFrom_of_le (by omega), ok_bind]
        rfl

/-- The error texts of `decodePrimaryVector`. -/
def primaryError (data : Bytes) : String :=
  if data.length < 4 then "invalid vector payload"
  else if uint32 data &&& vectorCompressionFlag = 0 then "short vector payload"
  else "short compressed vector payload"

/-- The decoder of the segments accepts what those of the store accept, but for the empty
value, and returns the same vector. -/
theorem decodePrimaryVector_eq (arith : Arithmetic) (hne : data ≠ []) :
    decodePrimaryVector arith data = .ok
      (((Worker.decodeVectorWithMeta arith data).map Prod.fst).mapError
        fun _ => primaryError data) := by
  have hlength : data.length ≠ 0 := by simpa using hne
  have hflag : (1 : UInt32) <<< 31 = vectorCompressionFlag := by decide
  unfold decodePrimaryVector Worker.decodeVectorWithMeta primaryError
  rw [if_neg hlength, hflag]
  split
  · rfl
  next hfour =>
    rw [wordAt_of_le (by omega), ok_bind, List.drop_zero]
    simp only
    split
    next hplain =>
      split
      · rfl
      next hlong =>
        have hwords := primaryWords_eq_fill data
          (uint32 data &&& ~~~vectorCompressionFlag).toNat 0
            (zeros (uint32 data &&& ~~~vectorCompressionFlag).toNat)
        rw [Nat.zero_mul, Nat.add_zero] at hwords
        rw [hwords, fill_words (by omega) (length_zeros _), ok_bind]
        rfl
    next hcompressed =>
      split
      · rfl
      next hlong =>
        rw [wordAt_of_le (by omega), ok_bind, fill_component (by omega) _ (length_zeros _), ok_bind]
        rfl

/-- A vector is read back as it was written, and on every value that is long enough for a length
the three decoders agree: all reject it, or all return one vector, whatever an earlier use left
in the slice from the pool. None of them leaves its input. -/
theorem vector_codec (arith : Arithmetic) :
    (∀ (vector : Vector) (metadata : Bytes), vector.length < 2 ^ 31 →
        ∃ data, encodeVectorWithMeta arith vector metadata false = .ok data ∧
          decodeVectorWithMeta arith data = .ok (.ok (vector, metadata))) ∧
      ∀ data : Bytes, 4 ≤ data.length →
        (∃ err err', ∀ buffer, decodeVectorWithMeta arith data = .ok (.error err) ∧
          decodeVectorWithMetaPooled arith data buffer = .ok (.error err) ∧
          decodePrimaryVector arith data = .ok (.error err')) ∨
        ∃ vector metadata, ∀ buffer,
          decodeVectorWithMeta arith data = .ok (.ok (vector, metadata)) ∧
          decodeVectorWithMetaPooled arith data buffer = .ok (.ok (vector, metadata)) ∧
          decodePrimaryVector arith data = .ok (.ok vector) := by
  have hplain : ∀ data, decodeVectorWithMeta arith data = .ok (Worker.decodeVectorWithMeta arith data) :=
    fun data => decodeInto_eq arith data length_zeros
  have hpooled : ∀ data buffer, decodeVectorWithMetaPooled arith data buffer =
      .ok (Worker.decodeVectorWithMeta arith data) :=
    fun data buffer => decodeInto_eq arith data (length_pooled buffer)
  constructor
  · intro vector metadata hlength
    refine ⟨_, rfl, ?_⟩
    rw [hplain, decodeVectorWithMeta_uncompressed arith hlength]
  · intro data hfour
    have hne : data ≠ [] := by
      rintro rfl
      simp at hfour
    have hprimary := decodePrimaryVector_eq arith hne
    cases hdecode : Worker.decodeVectorWithMeta arith data with
    | error err =>
        refine Or.inl ⟨err, primaryError data, fun buffer => ?_⟩
        rw [hplain, hpooled, hprimary, hdecode]
        exact ⟨rfl, rfl, rfl⟩
    | ok result =>
        obtain ⟨vector, metadata⟩ := result
        refine Or.inr ⟨vector, metadata, fun buffer => ?_⟩
        rw [hplain, hpooled, hprimary, hdecode]
        exact ⟨rfl, rfl, rfl⟩

end Vectors

/-! ## Batch records -/

section Batches

/-- `encodeWALBatchEncoded`. -/
def encodeWALBatchEncoded (ids values : List Bytes) : Bytes :=
  if ids.length = 0 ∨ ids.length ≠ values.length then []
  else
    putUint32 (UInt32.ofNat ids.length) ++
      (List.zipWith (fun id val => putUint32 (UInt32.ofNat id.length) ++ id ++
        putUint32 (UInt32.ofNat val.length) ++ val) ids values).flatten

variable {β : Type}

/-- The loop of both decoders over the entries of a record, with what they return where an
entry is cut short or has no id, what they return at the end, and how they add an entry. -/
def entryLoop (stop done : β) (add : Bytes × Bytes → β → β) (buf : Bytes) :
    Nat → Nat → Except OutOfRange β
  | 0, _ => .ok done
  | count + 1, offset =>
      if buf.length < offset + 4 then .ok stop
      else do
        let idLen := (← wordAt buf offset).toNat
        let offset := offset + 4
        if idLen = 0 ∨ buf.length < offset + idLen then .ok stop
        else do
          let id ← slice buf offset (offset + idLen)
          let offset := offset + idLen
          if buf.length < offset + 4 then .ok stop
          else do
            let valLen := (← wordAt buf offset).toNat
            let offset := offset + 4
            if buf.length < offset + valLen then .ok stop
            else do
              let val ← slice buf offset (offset + valLen)
              let rest ← entryLoop stop done add buf count (offset + valLen)
              pure (add (id, val) rest)

/-- `decodeWALBatchEncoded`. -/
def decodeWALBatchEncoded (buf : Bytes) : Except OutOfRange (Option (List (Bytes × Bytes))) :=
  if buf.length < 4 then .ok none
  else do
    let count := (← wordAt buf 0).toNat
    if count = 0 then .ok none
    else entryLoop none (some []) (fun entry rest => rest.map (entry :: ·)) buf count 4

/-- What `replayWALFrom` reads from the value of a batch record. -/
def replayBatch (raw : Bytes) : Except OutOfRange (List (Bytes × Bytes)) :=
  if raw.length < 4 then .ok []
  else do
    let count := (← wordAt raw 0).toNat
    entryLoop [] [] List.cons raw count 4

/-- A loop over offsets computes what a loop does that drops what it has read. -/
theorem entryLoop_eq {stop done : β} {add : Bytes × Bytes → β → β} {loop : Nat → Bytes → β}
    (hzero : ∀ raw, loop 0 raw = done)
    (hsucc : ∀ count raw, loop (count + 1) raw =
      if raw.length < 4 then stop
      else if (uint32 raw).toNat = 0 ∨ (raw.drop 4).length < (uint32 raw).toNat then stop
      else if ((raw.drop 4).drop (uint32 raw).toNat).length < 4 then stop
      else if (((raw.drop 4).drop (uint32 raw).toNat).drop 4).length <
          (uint32 ((raw.drop 4).drop (uint32 raw).toNat)).toNat then stop
      else add ((raw.drop 4).take (uint32 raw).toNat,
          (((raw.drop 4).drop (uint32 raw).toNat).drop 4).take
            (uint32 ((raw.drop 4).drop (uint32 raw).toNat)).toNat)
        (loop count ((((raw.drop 4).drop (uint32 raw).toNat).drop 4).drop
          (uint32 ((raw.drop 4).drop (uint32 raw).toNat)).toNat)))
    {buf : Bytes} {offset : Nat} (count : Nat) (hoffset : offset ≤ buf.length) :
    entryLoop stop done add buf count offset = .ok (loop count (buf.drop offset)) := by
  induction count generalizing offset with
  | zero => rw [hzero, entryLoop]
  | succ count ih =>
      rw [hsucc, entryLoop]
      simp only [List.drop_drop, List.length_drop]
      by_cases hword : buf.length < offset + 4
      · rw [if_pos hword, if_pos (by omega)]
      rw [if_neg hword, if_neg (by omega), wordAt_of_le (by omega), ok_bind]
      generalize (uint32 (buf.drop offset)).toNat = idLen
      by_cases hid : idLen = 0 ∨ buf.length < offset + 4 + idLen
      · rw [if_pos hid, if_pos (by omega)]
      rw [if_neg hid, if_neg (by omega), slice_add (by omega), ok_bind]
      by_cases hvalWord : buf.length < offset + 4 + idLen + 4
      · rw [if_pos hvalWord, if_pos (by omega)]
      rw [if_neg hvalWord, if_neg (by omega), wordAt_of_le (by omega), ok_bind]
      generalize (uint32 (buf.drop (offset + 4 + idLen))).toNat = valLen
      by_cases hval : buf.length < offset + 4 + idLen + 4 + valLen
      · rw [if_pos hval, if_pos (by omega)]
      rw [if_neg hval, if_neg (by omega), slice_add (by omega), ok_bind, ih (by omega)]
      rfl

/-- The decoder of the replay is the one the replay is modelled with. -/
theorem replayBatch_eq_replay (raw : Bytes) :
    replayBatch raw =
      .ok (if raw.length < 4 then [] else batchEntries (uint32 raw).toNat (raw.drop 4)) := by
  unfold replayBatch
  split
  · rfl
  next hlong =>
    rw [wordAt_of_le (by omega), ok_bind, List.drop_zero]
    exact entryLoop_eq (fun raw => rfl) (fun count raw => rfl) _ (by omega)

/-- One entry from the front of what is left of a record. -/
def readEntry : Reader ReadError (Bytes × Bytes) := do
  let idLen ← Reader.word
  if idLen.toNat = 0 then throw .eof
  else do
    let id ← Reader.readFull idLen.toNat
    let valLen ← Reader.word
    let val ← Reader.readFull valLen.toNat
    pure (id, val)

theorem local_readEntry : Reader.Local readEntry := by
  refine Reader.Local.word.bind fun idLen => Reader.Local.ite ?_ ?_
  · intro input value rest hread
    cases hread
  · exact (Reader.Local.readFull _).bind fun id => Reader.Local.word.bind fun valLen =>
      (Reader.Local.readFull _).bind fun val => Reader.Local.pure _

theorem reads_readEntry {entry : Bytes × Bytes} (hid : entry.1 ≠ [])
    (hidLen : entry.1.length < 2 ^ 32) (hvalLen : entry.2.length < 2 ^ 32) :
    Reader.Reads readEntry (encodeBatchEntry entry) entry := by
  have hpos : (UInt32.ofNat entry.1.length).toNat ≠ 0 := by
    rw [toNat_ofNat_length hidLen]
    simpa using hid
  refine (Reader.Reads.word _).bind ?_
  rw [if_neg hpos, toNat_ofNat_length hidLen]
  refine (Reader.Reads.readFull entry.1).bind ((Reader.Reads.word _).bind ?_)
  rw [toNat_ofNat_length hvalLen]
  have hval := (Reader.Reads.readFull entry.2).map fun val => (entry.1, val)
  exact hval

/-- What one round of the loop does is decided by reading an entry behind its offset. -/
theorem entryLoop_succ (stop done : β) (add : Bytes × Bytes → β → β) {buf : Bytes} {offset : Nat}
    (count : Nat) (hoffset : offset ≤ buf.length) :
    (∃ err, readEntry.run (buf.drop offset) = .error err ∧
        entryLoop stop done add buf (count + 1) offset = .ok stop) ∨
      ∃ entry next, readEntry.run (buf.drop offset) = .ok (entry, buf.drop next) ∧
        next ≤ buf.length ∧ entryLoop stop done add buf (count + 1) offset =
          (entryLoop stop done add buf count next).map (add entry) := by
  rw [entryLoop]
  by_cases hword : buf.length < offset + 4
  · obtain ⟨err, hrun⟩ := @word_run_of_lt (buf.drop offset) (by simp; omega)
    exact Or.inl ⟨err, run_bind_error hrun, if_pos hword⟩
  have hidWord := @word_run_of_le (buf.drop offset) (by simp; omega)
  rw [if_neg hword, wordAt_of_le (by omega), ok_bind, readEntry, Reader.run_bind_ok hidWord,
    List.drop_drop]
  generalize (uint32 (buf.drop offset)).toNat = idLen
  by_cases hzero : idLen = 0
  · refine Or.inl ⟨.eof, ?_, if_pos (Or.inl hzero)⟩
    rw [if_pos hzero]
    rfl
  rw [if_neg hzero]
  by_cases hid : buf.length < offset + 4 + idLen
  · obtain ⟨err, hrun⟩ := @readFull_run_of_lt (buf.drop (offset + 4)) idLen (by simp; omega)
    exact Or.inl ⟨err, run_bind_error hrun, if_pos (Or.inr hid)⟩
  rw [if_neg (by omega), slice_add (by omega), ok_bind, Reader.run_bind_ok
    (Reader.readFull_run_of_le (by simp; omega)), List.drop_drop]
  by_cases hvalWord : buf.length < offset + 4 + idLen + 4
  · obtain ⟨err, hrun⟩ := @word_run_of_lt (buf.drop (offset + 4 + idLen)) (by simp; omega)
    exact Or.inl ⟨err, run_bind_error hrun, if_pos hvalWord⟩
  rw [if_neg hvalWord, wordAt_of_le (by omega), ok_bind,
    Reader.run_bind_ok (word_run_of_le (by simp; omega)), List.drop_drop]
  generalize (uint32 (buf.drop (offset + 4 + idLen))).toNat = valLen
  by_cases hval : buf.length < offset + 4 + idLen + 4 + valLen
  · obtain ⟨err, hrun⟩ := @readFull_run_of_lt (buf.drop (offset + 4 + idLen + 4)) valLen
      (by simp; omega)
    exact Or.inl ⟨err, run_bind_error hrun, if_pos hval⟩
  · rw [if_neg hval, slice_add (by omega), ok_bind, Reader.run_bind_ok
      (Reader.readFull_run_of_le (by simp; omega)), List.drop_drop]
    exact Or.inr ⟨_, _, rfl, by omega, rfl⟩

/-- The decoder of the log reads entries until one fails. -/
theorem entryLoop_decode {buf : Bytes} {offset : Nat} (count : Nat) (hoffset : offset ≤ buf.length) :
    entryLoop none (some []) (fun entry rest => rest.map (entry :: ·)) buf count offset =
      .ok (((Reader.times readEntry count).run (buf.drop offset)).toOption.map Prod.fst) := by
  induction count generalizing offset with
  | zero => rfl
  | succ count ih =>
      rcases entryLoop_succ none (some []) (fun entry rest => rest.map (entry :: ·)) count hoffset
        with ⟨err, hrun, hloop⟩ | ⟨entry, next, hrun, hnext, hloop⟩
      · rw [hloop, Reader.times, run_bind_error hrun]
        rfl
      · rw [hloop, ih hnext, Reader.times, Reader.run_bind_ok hrun, StateT.run_bind]
        cases (Reader.times readEntry count).run (buf.drop next) with
        | error err => rfl
        | ok result => rfl

/-- The reader of a whole record. -/
def readBatch : Reader ReadError (List (Bytes × Bytes)) := do
  let count ← Reader.word
  if count.toNat = 0 then throw .eof else Reader.times readEntry count.toNat

theorem decodeWALBatchEncoded_eq (buf : Bytes) :
    decodeWALBatchEncoded buf = .ok ((readBatch.run buf).toOption.map Prod.fst) := by
  unfold decodeWALBatchEncoded
  split
  next hshort =>
    obtain ⟨err, hrun⟩ := word_run_of_lt hshort
    rw [readBatch, run_bind_error hrun]
    rfl
  next hlong =>
    rw [wordAt_of_le (by omega), ok_bind, readBatch, Reader.run_bind_ok (word_run_of_le (by omega)),
      List.drop_zero]
    by_cases hzero : (uint32 buf).toNat = 0
    · simp only [hzero, if_true]
      rfl
    · simp only [hzero, if_false]
      exact entryLoop_decode _ (by omega)

theorem local_readBatch : Reader.Local readBatch := by
  refine Reader.Local.word.bind fun count => Reader.Local.ite ?_ (local_readEntry.times _)
  intro input value rest hread
  cases hread

/-- Entries that fit the format: with an id, and with lengths that are words. -/
def Fits (entries : List (Bytes × Bytes)) : Prop :=
  entries.length < 2 ^ 32 ∧ ∀ entry ∈ entries,
    entry.1 ≠ [] ∧ entry.1.length < 2 ^ 32 ∧ entry.2.length < 2 ^ 32

theorem encodeWALBatchEncoded_eq {entries : List (Bytes × Bytes)} (hne : entries ≠ []) :
    encodeWALBatchEncoded (entries.map Prod.fst) (entries.map Prod.snd) =
      putUint32 (UInt32.ofNat entries.length) ++ entries.flatMap encodeBatchEntry := by
  have hzip : List.zipWith (fun id val => putUint32 (UInt32.ofNat id.length) ++ id ++
      putUint32 (UInt32.ofNat val.length) ++ val) (entries.map Prod.fst) (entries.map Prod.snd) =
        entries.map encodeBatchEntry := by
    rw [List.zipWith_map, List.zipWith_self]
    simp [encodeBatchEntry]
  rw [encodeWALBatchEncoded, if_neg (by simpa using hne), hzip, List.length_map, List.flatMap_def]

theorem reads_readBatch {entries : List (Bytes × Bytes)} (hne : entries ≠ [])
    (hfits : Fits entries) :
    Reader.Reads readBatch
      (encodeWALBatchEncoded (entries.map Prod.fst) (entries.map Prod.snd)) entries := by
  have hpos : (UInt32.ofNat entries.length).toNat ≠ 0 := by
    rw [toNat_ofNat_length hfits.1]
    simpa using hne
  rw [encodeWALBatchEncoded_eq hne]
  refine (Reader.Reads.word _).bind ?_
  rw [if_neg hpos, toNat_ofNat_length hfits.1]
  exact Reader.Reads.times fun entry hentry =>
    have hentry := hfits.2 entry hentry
    reads_readEntry hentry.1 hentry.2.1 hentry.2.2

/-- Both decoders read the entries of a batch back, the decoder of the log rejects every proper
initial part of it, and neither leaves its input, whatever the bytes are. -/
theorem batch_codec :
    (∀ entries : List (Bytes × Bytes), entries ≠ [] → Fits entries →
        decodeWALBatchEncoded
            (encodeWALBatchEncoded (entries.map Prod.fst) (entries.map Prod.snd)) =
          .ok (some entries) ∧
        replayBatch (encodeWALBatchEncoded (entries.map Prod.fst) (entries.map Prod.snd)) =
          .ok entries ∧
        ∀ front, front <+: encodeWALBatchEncoded (entries.map Prod.fst) (entries.map Prod.snd) →
          front ≠ encodeWALBatchEncoded (entries.map Prod.fst) (entries.map Prod.snd) →
          decodeWALBatchEncoded front = .ok none) ∧
      ∀ buf, (∃ result, decodeWALBatchEncoded buf = .ok result) ∧
        ∃ entries, replayBatch buf = .ok entries := by
  constructor
  · intro entries hne hfits
    have hreads := reads_readBatch hne hfits
    have hwhole := hreads []
    rw [List.append_nil] at hwhole
    refine ⟨?_, ?_, fun front hfront hproper => ?_⟩
    · rw [decodeWALBatchEncoded_eq, hwhole]
      rfl
    · have hdrop : (putUint32 (UInt32.ofNat entries.length) ++
          entries.flatMap encodeBatchEntry).drop 4 = entries.flatMap encodeBatchEntry := rfl
      rw [replayBatch_eq_replay, encodeWALBatchEncoded_eq hne, if_neg (by simp),
        uint32_putUint32_append, hdrop, toNat_ofNat_length hfits.1, batchEntries_flatMap hfits.2]
    · obtain ⟨err, hrun⟩ := hreads.refuses local_readBatch hfront hproper
      rw [decodeWALBatchEncoded_eq, hrun]
      rfl
  · intro buf
    exact ⟨⟨_, decodeWALBatchEncoded_eq buf⟩, _, replayBatch_eq_replay buf⟩

end Batches

end Vectron.Worker.Codec
