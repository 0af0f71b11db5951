import Vectron.Foundation.Newest
import Vectron.Worker.Index
import Vectron.Worker.Namespace

/-! # The write-ahead log of the index

Every write leaves a record in Pebble from which the index can be brought up to date
after a crash. A single vector and a deletion have the timestamp first in their key, so
that the records up to a snapshot are a range of keys. The vectors of a batch share one
record, whose key starts with a letter and sorts behind all the others.
-/

namespace Vectron.Worker

open Foundation OrderedStore

def hnswWALPrefix : Bytes :=
  ['_', 'h', 'n', 's', 'w', '_', 'w', 'a', 'l', '_'].map Char.toUInt8

def batchMark : Bytes := ['b', 'a', 't', 'c', 'h', '_'].map Char.toUInt8

def underscore : UInt8 := '_'.toUInt8

/-- The suffix of the records of deletions, without its underscore. -/
def deleteWord : Bytes := ['d', 'e', 'l', 'e', 't', 'e'].map Char.toUInt8

/-! ## Keys -/

/-- `vectorKey`. -/
def vectorKey (id : Bytes) : Bytes := 'v'.toUInt8 :: underscore :: id

/-- `walKey`. -/
def walKey (ts : Nat) (id : Bytes) : Bytes := hnswWALPrefix ++ (decimal ts ++ underscore :: id)

/-- `walKeySuffix`. -/
def walKeySuffix (ts : Nat) (id suffix : Bytes) : Bytes :=
  hnswWALPrefix ++ (decimal ts ++ underscore :: (id ++ underscore :: suffix))

/-- `walKeyBatch`. -/
def walKeyBatch (baseTS : Nat) : Bytes := hnswWALPrefix ++ (batchMark ++ decimal baseTS)

/-- The key from which `replayWALFrom` reads and up to which `saveHNSW` truncates. -/
def walCut (ts : Nat) : Bytes := hnswWALPrefix ++ decimal ts

/-! ## Values -/

/-- `vectorCompressionFlag`. -/
def vectorCompressionFlag : UInt32 := 0x80000000

/-- `encodeVectorWithMeta`. -/
def encodeVectorWithMeta (arith : Arithmetic) (vector : Vector) (metadata : Bytes)
    (compress : Bool) : Except String Bytes :=
  if compress then
    if vector.length > (~~~vectorCompressionFlag).toNat then .error "vector length too large"
    else
      let scale := arith.scale vector
      .ok (putUint32 (UInt32.ofNat vector.length ||| vectorCompressionFlag) ++
        (putUint32 scale ++ (vector.map (arith.compress scale) ++ metadata)))
  else
    .ok (putUint32 (UInt32.ofNat vector.length) ++ (vector.flatMap putUint32 ++ metadata))

/-- The words of a vector. -/
def words : Nat → Bytes → Vector
  | 0, _ => []
  | count + 1, data => uint32 data :: words count (data.drop 4)

/-- `decodeVectorWithMeta`. -/
def decodeVectorWithMeta (arith : Arithmetic) (data : Bytes) : Except String (Vector × Bytes) :=
  if data.length = 0 then .ok ([], [])
  else if data.length < 4 then .error "data too short to contain vector length"
  else
    let vecLen := (uint32 data &&& ~~~vectorCompressionFlag).toNat
    if uint32 data &&& vectorCompressionFlag = 0 then
      if data.length < 4 + vecLen * 4 then .error "data too short for declared vector length"
      else .ok (words vecLen (data.drop 4), data.drop (4 + vecLen * 4))
    else
      if data.length < 4 + 4 + vecLen then
        .error "data too short for declared compressed vector length"
      else
        .ok (((data.drop 8).take vecLen).map (arith.expand (uint32 (data.drop 4))),
          data.drop (4 + 4 + vecLen))

/-- One id and value of a batch record. -/
def encodeBatchEntry (entry : Bytes × Bytes) : Bytes :=
  putUint32 (UInt32.ofNat entry.1.length) ++ (entry.1 ++
    (putUint32 (UInt32.ofNat entry.2.length) ++ entry.2))

/-- `encodeWALBatchEncoded`. It is given at least two entries. -/
def encodeWALBatchEncoded (entries : List (Bytes × Bytes)) : Bytes :=
  putUint32 (UInt32.ofNat entries.length) ++ entries.flatMap encodeBatchEntry

/-! ## Reading the log -/

/-- What a record says about one id: its new value, or none for a deletion. -/
abbrev WalEntry := Stamped Bytes (Option Bytes)

/-- The loop of `replayWALFrom` over a batch record. It stops at the first entry that is
cut short or has no id. -/
def batchEntries : Nat → Bytes → List (Bytes × Bytes)
  | 0, _ => []
  | count + 1, raw =>
      if raw.length < 4 then []
      else
        let idLen := (uint32 raw).toNat
        let afterLen := raw.drop 4
        if idLen = 0 ∨ afterLen.length < idLen then []
        else
          let afterId := afterLen.drop idLen
          if afterId.length < 4 then []
          else
            let valLen := (uint32 afterId).toNat
            let afterVal := afterId.drop 4
            if afterVal.length < valLen then []
            else (afterLen.take idLen, afterVal.take valLen) ::
              batchEntries count (afterVal.drop valLen)

/-- What `replayWALFrom` reads from one key. A key of another shape is skipped. -/
def readWal (key value : Bytes) : List WalEntry :=
  let rest := trimFront hnswWALPrefix key
  if batchMark.isPrefixOf rest then
    match parseInt64 (trimFront batchMark rest) with
    | none => []
    | some ts =>
        if value.length < 4 then []
        else (batchEntries (uint32 value).toNat (value.drop 4)).map fun entry =>
          ⟨entry.1, ts, some entry.2⟩
  else
    let isDelete := (underscore :: deleteWord).isSuffixOf rest
    match cutAt underscore (trimEnd (underscore :: deleteWord) rest) with
    | none => []
    | some (front, id) =>
        match parseInt64 front with
        | none => []
        | some ts => [⟨id, ts, if isDelete then none else some value⟩]

/-- The entries `replayWALFrom` finds. Its iterator has no upper bound. -/
def walEntries (ns : Bytes) (ts : Nat) (db : Pebble) : List WalEntry :=
  (db.scan (nsKey ns (walCut ts)) none).flatMap fun entry =>
    readWal (iteratorKey ns entry.1) entry.2

/-- One item of the replay. -/
def replayEntry (arith : Arithmetic) (h : Hnsw) (id : Bytes) (entry : WalEntry) : Hnsw :=
  match entry.value with
  | none => h.delete id
  | some value =>
      match decodeVectorWithMeta arith value with
      | .error _ => h
      | .ok (vector, _) => (h.add arith id vector).1

/-- `replayWALFrom`. The latest entries are applied by several workers in an order that
nothing determines. -/
def replayWALFrom (arith : Arithmetic) (order : RangeOrder) (ns : Bytes) (db : Pebble) (ts : Nat)
    (h : Hnsw) : Hnsw :=
  (order.range (Stamped.newest (walEntries ns ts db))).foldl
    (fun h item => replayEntry arith h item.1 item.2) h

/-! ## Records -/

/-- A record of the log. -/
inductive WalRecord where
  | add (ts : Nat) (id value : Bytes)
  | delete (ts : Nat) (id : Bytes)
  | batch (baseTS : Nat) (entries : List (Bytes × Bytes))
  deriving Repr, DecidableEq

/-- A clock reading in nanoseconds between the years 2001 and 2262, which has nineteen
digits. -/
def Nanos (ts : Nat) : Prop := 10 ^ 18 ≤ ts ∧ ts < 2 ^ 63

instance (ts : Nat) : Decidable (Nanos ts) := inferInstanceAs (Decidable (_ ∧ _))

/-- A record of this id under a single key would be taken for that of a deletion. -/
def ReadsAsDelete (id : Bytes) : Prop := underscore :: deleteWord <:+ underscore :: id

instance (id : Bytes) : Decidable (ReadsAsDelete id) :=
  decidable_of_iff ((underscore :: deleteWord).isSuffixOf (underscore :: id) = true)
    List.isSuffixOf_iff_suffix

namespace WalRecord

def key : WalRecord → Bytes
  | .add ts id _ => walKey ts id
  | .delete ts id => walKeySuffix ts id deleteWord
  | .batch baseTS _ => walKeyBatch baseTS

def value : WalRecord → Bytes
  | .add _ _ value => value
  | .delete _ _ => []
  | .batch _ entries => encodeWALBatchEncoded entries

def ts : WalRecord → Nat
  | .add ts _ _ => ts
  | .delete ts _ => ts
  | .batch baseTS _ => baseTS

def isBatch : WalRecord → Bool
  | .batch _ _ => true
  | _ => false

/-- What the record is meant to say. -/
def entries : WalRecord → List WalEntry
  | .add ts id value => [⟨id, ts, some value⟩]
  | .delete ts id => [⟨id, ts, none⟩]
  | .batch baseTS entries => entries.map fun entry => ⟨entry.1, baseTS, some entry.2⟩

/-- The records that say what they are meant to. -/
def Readable : WalRecord → Prop
  | .add ts id _ => Nanos ts ∧ ¬ ReadsAsDelete id
  | .delete ts _ => Nanos ts
  | .batch baseTS entries => Nanos baseTS ∧ entries.length < 2 ^ 32 ∧
      ∀ entry ∈ entries, entry.1 ≠ [] ∧ entry.1.length < 2 ^ 32 ∧ entry.2.length < 2 ^ 32

/-- A replay from this timestamp comes across the record. -/
def VisibleFrom (ts : Nat) (record : WalRecord) : Prop := record.isBatch = true ∨ ts ≤ record.ts

theorem Readable.nanos {record : WalRecord} (hreadable : record.Readable) : Nanos record.ts := by
  cases record with
  | add ts id value => exact hreadable.1
  | delete ts id => exact hreadable
  | batch baseTS entries => exact hreadable.1

theorem stamp_of_mem_entries {record : WalRecord} {entry : WalEntry}
    (hentry : entry ∈ record.entries) : entry.stamp = record.ts := by
  cases record with
  | add ts id value
  | delete ts id => rw [List.mem_singleton.mp hentry]; rfl
  | batch baseTS entries =>
      obtain ⟨pair, _, rfl⟩ := List.mem_map.mp hentry
      rfl

end WalRecord

theorem decimal_nanos {ts : Nat} (hts : Nanos ts) : decimal ts = paddedDecimal 19 ts :=
  decimal_eq_paddedDecimal hts.1 (lt_trans hts.2 (by decide))

theorem nanos_lt_width {ts : Nat} (hts : Nanos ts) : ts < 10 ^ 19 := lt_trans hts.2 (by decide)

theorem underscore_notMem_decimal (n : Nat) : underscore ∉ decimal n :=
  notMem_decimal (by decide) n

theorem not_batchMark (n : Nat) (rest : Bytes) :
    batchMark.isPrefixOf (decimal n ++ rest) = false := by
  obtain ⟨byte, digits, hdecimal, hdigit⟩ := decimal_eq_cons n
  have hne : ('b'.toUInt8 == byte) = false := by
    rw [beq_eq_false_iff_ne]
    rintro rfl
    revert hdigit
    decide
  rw [hdecimal]
  simp only [batchMark, List.map_cons, List.cons_append, List.isPrefixOf, hne, Bool.false_and]

/-- A word behind the last underscore is found there and not earlier. -/
theorem suffix_cons_append_iff {sep : UInt8} {word front rest : Bytes} (hfront : sep ∉ front) :
    sep :: word <:+ front ++ sep :: rest ↔ sep :: word <:+ sep :: rest := by
  constructor
  · rintro ⟨before, heq⟩
    rcases List.append_eq_append_iff.mp heq with ⟨gap, hgap, hword⟩ | ⟨gap, hgap, hrest⟩
    · cases gap with
      | nil =>
          rw [List.nil_append] at hword
          rw [hword]
      | cons byte gap =>
          rw [List.cons_append] at hword
          have hbyte := (List.cons.inj hword).1
          exact absurd (hgap ▸ List.mem_append_right _ (hbyte ▸ List.mem_cons_self)) hfront
    · exact ⟨gap, hrest.symm⟩
  · intro hsuffix
    exact hsuffix.trans (List.suffix_append _ _)

/-! ## Reading records back -/

theorem batchEntries_flatMap {entries : List (Bytes × Bytes)}
    (hsmall : ∀ entry ∈ entries,
      entry.1 ≠ [] ∧ entry.1.length < 2 ^ 32 ∧ entry.2.length < 2 ^ 32) :
    batchEntries entries.length (entries.flatMap encodeBatchEntry) = entries := by
  induction entries with
  | nil => rfl
  | cons entry entries ih =>
      obtain ⟨hid, hidLen, hvalLen⟩ := hsmall entry List.mem_cons_self
      have htail := ih fun entry hmem => hsmall entry (List.mem_cons_of_mem _ hmem)
      have hpos : entry.1.length ≠ 0 := fun hzero => hid (List.eq_nil_of_length_eq_zero hzero)
      have hdrop : ∀ (word : UInt32) (rest : Bytes), (putUint32 word ++ rest).drop 4 = rest :=
        fun _ _ => rfl
      rw [List.flatMap_cons, List.length_cons, encodeBatchEntry, batchEntries]
      simp only [List.append_assoc, uint32_putUint32_append, hdrop, toNat_ofNat_length hidLen,
        toNat_ofNat_length hvalLen, List.drop_left, List.take_left, htail]
      rw [if_neg (by simp), if_neg (by simp [hpos]), if_neg (by simp), if_neg (by simp)]

/-- What a reader finds in a key. -/
inductive WalKeyReading where
  | add (ts : Int) (id : Bytes)
  | delete (ts : Int) (id : Bytes)
  | batch (ts : Int)
  deriving Repr, DecidableEq

/-- The key parsing that `replayWALFrom` and `IterateWALFrom` have in common. Keys of another
shape are skipped. -/
def parseWalKey (key : Bytes) : Option WalKeyReading :=
  let rest := trimFront hnswWALPrefix key
  if batchMark.isPrefixOf rest then (parseInt64 (trimFront batchMark rest)).map .batch
  else
    let isDelete := (underscore :: deleteWord).isSuffixOf rest
    (cutAt underscore (trimEnd (underscore :: deleteWord) rest)).bind fun parts =>
      (parseInt64 parts.1).map fun ts =>
        if isDelete then .delete ts parts.2 else .add ts parts.2

/-- What `replayWALFrom` takes from a record with this key. -/
def WalKeyReading.replayed (value : Bytes) : WalKeyReading → List WalEntry
  | .add ts id => [⟨id, ts, some value⟩]
  | .delete ts id => [⟨id, ts, none⟩]
  | .batch ts =>
      if value.length < 4 then []
      else (batchEntries (uint32 value).toNat (value.drop 4)).map fun entry =>
        ⟨entry.1, ts, some entry.2⟩

/-- The reader sees no more of a key than its parts. -/
theorem readWal_eq_replayed (key value : Bytes) :
    readWal key value = (parseWalKey key).elim [] (WalKeyReading.replayed value) := by
  rw [readWal, parseWalKey]
  dsimp only
  split
  next _ =>
    cases parseInt64 (trimFront batchMark (trimFront hnswWALPrefix key)) with
    | none => rfl
    | some ts => rfl
  next _ =>
    cases cutAt underscore (trimEnd (underscore :: deleteWord) (trimFront hnswWALPrefix key)) with
    | none => rfl
    | some parts =>
        cases hts : parseInt64 parts.1 with
        | none => simp [hts]
        | some ts =>
            by_cases hdelete : (underscore :: deleteWord).isSuffixOf
                (trimFront hnswWALPrefix key) = true
            · simp [hts, hdelete, WalKeyReading.replayed]
            · simp [hts, hdelete, WalKeyReading.replayed]

theorem parseWalKey_batch {ts : Nat} (hts : ts < 2 ^ 63) :
    parseWalKey (walKeyBatch ts) = some (.batch ts) := by
  have hmark : batchMark.isPrefixOf (batchMark ++ decimal ts) = true :=
    List.isPrefixOf_iff_prefix.mpr (List.prefix_append _ _)
  rw [parseWalKey, walKeyBatch, trimFront_append]
  dsimp only
  rw [if_pos hmark, trimFront_append, parseInt64_decimal hts]
  rfl

theorem parseWalKey_delete {ts : Nat} (hts : ts < 2 ^ 63) (id : Bytes) :
    parseWalKey (walKeySuffix ts id deleteWord) = some (.delete ts id) := by
  have happend : decimal ts ++ underscore :: (id ++ underscore :: deleteWord) =
      (decimal ts ++ underscore :: id) ++ underscore :: deleteWord := by
    simp
  have hsuffix : (underscore :: deleteWord).isSuffixOf
      ((decimal ts ++ underscore :: id) ++ underscore :: deleteWord) = true :=
    List.isSuffixOf_iff_suffix.mpr (List.suffix_append _ _)
  have hmark : batchMark.isPrefixOf
      ((decimal ts ++ underscore :: id) ++ underscore :: deleteWord) = false := by
    rw [List.append_assoc]
    exact not_batchMark _ _
  rw [parseWalKey, walKeySuffix, trimFront_append, happend, trimEnd_append]
  simp only [hmark, hsuffix, cutAt_append (underscore_notMem_decimal ts),
    parseInt64_decimal hts, Bool.false_eq_true, if_false, if_true, Option.bind_some,
    Option.map_some]

theorem isSuffixOf_walKey (ts : Nat) (id : Bytes) :
    (underscore :: deleteWord).isSuffixOf (decimal ts ++ underscore :: id) = true ↔
      ReadsAsDelete id := by
  rw [List.isSuffixOf_iff_suffix, suffix_cons_append_iff (underscore_notMem_decimal ts)]
  rfl

theorem parseWalKey_add {ts : Nat} (hts : ts < 2 ^ 63) {id : Bytes} (hid : ¬ ReadsAsDelete id) :
    parseWalKey (walKey ts id) = some (.add ts id) := by
  have hsuffix : (underscore :: deleteWord).isSuffixOf (decimal ts ++ underscore :: id) = false := by
    rw [Bool.eq_false_iff]
    exact mt (isSuffixOf_walKey ts id).mp hid
  rw [parseWalKey, walKey, trimFront_append]
  simp [not_batchMark, trimEnd, hsuffix,
    cutAt_append (underscore_notMem_decimal ts), parseInt64_decimal hts]

/-- What a reader should find in the key of a record. -/
def WalRecord.reading : WalRecord → WalKeyReading
  | .add ts id _ => .add ts id
  | .delete ts id => .delete ts id
  | .batch baseTS _ => .batch baseTS

theorem WalRecord.Readable.parsed {record : WalRecord} (hreadable : record.Readable) :
    parseWalKey record.key = some record.reading := by
  cases record with
  | add ts id value => exact parseWalKey_add hreadable.1.2 hreadable.2
  | delete ts id => exact parseWalKey_delete hreadable.2 id
  | batch baseTS entries => exact parseWalKey_batch hreadable.1.2

/-- A replay reads from a record what it is meant to say. -/
theorem WalRecord.Readable.readWal {record : WalRecord} (hreadable : record.Readable) :
    readWal record.key record.value = record.entries := by
  rw [readWal_eq_replayed, hreadable.parsed, Option.elim_some]
  cases record with
  | add ts id value
  | delete ts id => rfl
  | batch baseTS entries =>
      have hdrop : (encodeWALBatchEncoded entries).drop 4 = entries.flatMap encodeBatchEntry := rfl
      rw [reading, WalKeyReading.replayed, value, hdrop, if_neg (by simp [encodeWALBatchEncoded]),
        encodeWALBatchEncoded, uint32_putUint32_append, toNat_ofNat_length hreadable.2.1,
        batchEntries_flatMap hreadable.2.2]
      rfl

/-- A replay reads nothing from the key of a vector. -/
theorem readWal_vectorKey (id value : Bytes) : readWal (vectorKey id) value = [] := by
  have hfront : trimFront hnswWALPrefix (vectorKey id) = vectorKey id := by
    rw [trimFront, if_neg]
    intro hfront
    obtain ⟨rest, heq⟩ := List.isPrefixOf_iff_prefix.mp hfront
    exact absurd (List.cons.inj heq).1 (by decide)
  have hmark : ¬ batchMark.isPrefixOf (vectorKey id) = true := by
    intro hmark
    obtain ⟨rest, heq⟩ := List.isPrefixOf_iff_prefix.mp hmark
    exact absurd (List.cons.inj heq).1 (by decide)
  -- what is left before the first underscore is not a number
  have hcut : ∀ rest, cutAt underscore ('v'.toUInt8 :: underscore :: rest) =
      some (['v'.toUInt8], rest) := fun _ => rfl
  have hparse : parseInt64 ['v'.toUInt8] = none := by decide
  rw [readWal, hfront, if_neg hmark]
  have hkeep : ∃ rest, trimEnd (underscore :: deleteWord) (vectorKey id) =
      'v'.toUInt8 :: underscore :: rest ∨
      trimEnd (underscore :: deleteWord) (vectorKey id) = ['v'.toUInt8] := by
    rw [trimEnd]
    split
    next hsuffix =>
      obtain ⟨before, heq⟩ := List.isSuffixOf_iff_suffix.mp hsuffix
      have htake : (vectorKey id).take
          ((vectorKey id).length - (underscore :: deleteWord).length) = before := by
        rw [← heq]
        simp
      rw [htake]
      cases before with
      | nil =>
          exact absurd (List.cons.inj heq).1 (by decide)
      | cons byte before =>
          cases before with
          | nil => exact ⟨[], Or.inr (by rw [(List.cons.inj heq).1])⟩
          | cons byte' before =>
              have hbytes := List.cons.inj heq
              have hbytes' := List.cons.inj hbytes.2
              exact ⟨before, Or.inl (by rw [hbytes.1, hbytes'.1])⟩
    next _ => exact ⟨id, Or.inl rfl⟩
  obtain ⟨rest, htrim | htrim⟩ := hkeep
  · simp only [htrim, hcut, hparse]
  · simp only [htrim]
    rfl

/-! ## Cutting the log -/

/-- A timestamp a replay may start from: that of a snapshot, or zero without one. -/
def Cut (ts : Nat) : Prop := ts = 0 ∨ Nanos ts

theorem walCut_le_single {cut ts : Nat} (hcut : Cut cut) (hts : Nanos ts) (rest : Bytes) :
    walCut cut ≤ hnswWALPrefix ++ (decimal ts ++ underscore :: rest) ↔ cut ≤ ts := by
  rw [walCut, append_left_le_iff, ← not_lt, ← not_lt]
  rcases hcut with rfl | hcut
  · obtain ⟨byte, digits, hdecimal, hdigit⟩ := decimal_eq_cons _
    have hle : ¬ byte < digitChar 0 := by
      rw [isDigit, Bool.and_eq_true] at hdigit
      exact not_lt.mpr (of_decide_eq_true hdigit.1)
    have hnil : ¬ digits ++ underscore :: rest < [] := List.not_lt_nil _
    rw [hdecimal, List.cons_append, decimal, if_pos rfl, List.cons_lt_cons_iff]
    simp [hle, hnil]
  · have hnil : ¬ underscore :: rest < [] := List.not_lt_nil _
    rw [← List.append_nil (decimal cut), decimal_nanos hcut, decimal_nanos hts,
      append_lt_append_iff (by simp), paddedDecimal_lt_iff (nanos_lt_width hts) (nanos_lt_width hcut)]
    simp [hnil]

theorem walCut_le_batch {cut : Nat} (hcut : Cut cut) (rest : Bytes) :
    walCut cut ≤ hnswWALPrefix ++ (batchMark ++ rest) := by
  rw [walCut, append_left_le_iff]
  apply le_of_lt
  rcases hcut with rfl | hcut
  · exact List.cons_lt_cons_iff.mpr (Or.inl (by decide))
  · obtain ⟨byte, digits, hdecimal, hdigit⟩ := decimal_eq_cons _
    rw [hdecimal]
    refine List.cons_lt_cons_iff.mpr (Or.inl ?_)
    rw [isDigit, Bool.and_eq_true] at hdigit
    exact lt_of_le_of_lt (of_decide_eq_true hdigit.2) (by decide)

/-- The records from a cut on are those with a later timestamp and all batches. -/
theorem WalRecord.walCut_le_key {cut : Nat} (hcut : Cut cut) {record : WalRecord}
    (hts : Nanos record.ts) : walCut cut ≤ record.key ↔ record.VisibleFrom cut := by
  cases record with
  | add ts id value =>
      have hts : Nanos ts := hts
      rw [key, walKey, walCut_le_single hcut hts]
      simp [VisibleFrom, isBatch, WalRecord.ts]
  | delete ts id =>
      have hts : Nanos ts := hts
      rw [key, walKeySuffix, walCut_le_single hcut hts]
      simp [VisibleFrom, isBatch, WalRecord.ts]
  | batch baseTS entries =>
      have hle : walCut cut ≤ walKeyBatch baseTS := walCut_le_batch hcut _
      simp [VisibleFrom, isBatch, key, hle]

theorem WalRecord.walPrefix_le_key (record : WalRecord) : hnswWALPrefix ≤ record.key := by
  cases record with
  | add ts id value
  | delete ts id
  | batch baseTS entries => exact le_append_right _ _

/-- Two records under one key are of one kind and have one timestamp. -/
theorem WalRecord.ts_eq_of_key_eq {first second : WalRecord} (hfirst : Nanos first.ts)
    (hsecond : Nanos second.ts) (hkey : first.key = second.key) : first.ts = second.ts := by
  have hsingle : ∀ {ts ts' : Nat} {rest rest' : Bytes}, Nanos ts → Nanos ts' →
      decimal ts ++ rest = decimal ts' ++ rest' → ts = ts' := by
    intro ts ts' rest rest' hts hts' heq
    rw [decimal_nanos hts, decimal_nanos hts'] at heq
    exact paddedDecimal_injective (nanos_lt_width hts) (nanos_lt_width hts')
      (List.append_inj heq (by simp)).1
  have hmixed : ∀ {ts : Nat} {rest rest' : Bytes}, Nanos ts →
      decimal ts ++ rest ≠ batchMark ++ rest' := by
    intro ts rest rest' hts heq
    have hmark := not_batchMark ts rest
    rw [heq, List.isPrefixOf_iff_prefix.mpr (List.prefix_append _ _)] at hmark
    cases hmark
  cases first with
  | add ts id value
  | delete ts id =>
      cases second with
      | add ts' id' value'
      | delete ts' id' => exact hsingle hfirst hsecond (List.append_cancel_left hkey)
      | batch ts' entries => exact absurd (List.append_cancel_left hkey) (hmixed hfirst)
  | batch ts entries =>
      cases second with
      | add ts' id' value'
      | delete ts' id' => exact absurd (List.append_cancel_left hkey).symm (hmixed hsecond)
      | batch ts' entries' =>
          have heq : decimal ts ++ [] = decimal ts' ++ [] := by
            rw [List.append_nil, List.append_nil]
            exact List.append_cancel_left (List.append_cancel_left hkey)
          exact hsingle hfirst hsecond heq

/-! ## The log of a database -/

/-- The database has this record. -/
def Holds (ns : Bytes) (db : Pebble) (record : WalRecord) : Prop :=
  db.get (nsKey ns record.key) = some record.value

/-- Everything a replay reads in the database stands in a readable record. -/
def Logged (ns : Bytes) (db : Pebble) : Prop :=
  ∀ key value, nsKey ns (walCut 0) ≤ key → db.get key = some value →
    readWal (iteratorKey ns key) value ≠ [] →
    ∃ record : WalRecord, record.Readable ∧ key = nsKey ns record.key ∧ value = record.value

theorem nsKey_le_iff (ns first second : Bytes) :
    nsKey ns first ≤ nsKey ns second ↔ first ≤ second := by
  rw [nsKey_eq, nsKey_eq, append_left_le_iff]

theorem nsKey_inj {ns first second : Bytes} : nsKey ns first = nsKey ns second ↔ first = second := by
  rw [nsKey_eq, nsKey_eq, List.append_cancel_left_eq]

theorem walCut_zero_le (cut : Nat) : walCut 0 ≤ walCut cut := by
  obtain ⟨byte, digits, hdecimal⟩ := List.exists_cons_of_ne_nil (decimal_ne_nil cut)
  have hdigit : isDigit byte = true := isDigit_of_mem_decimal (hdecimal ▸ List.mem_cons_self)
  have hle : ¬ byte < digitChar 0 := by
    rw [isDigit, Bool.and_eq_true] at hdigit
    exact not_lt.mpr (of_decide_eq_true hdigit.1)
  have hnil : ¬ digits < [] := List.not_lt_nil _
  rw [walCut, walCut, append_left_le_iff, ← not_lt, hdecimal, decimal, if_pos rfl,
    List.cons_lt_cons_iff]
  simp [hle, hnil]

/-- A database in which a replay finds nothing. -/
theorem Logged.of_walEntries_eq_nil {ns : Bytes} {db : Pebble} (hempty : walEntries ns 0 db = []) :
    Logged ns db := by
  intro key value hle hget hread
  have hscan : (key, value) ∈ db.scan (nsKey ns (walCut 0)) none :=
    mem_scan.mpr ⟨hget, within_iff.mpr ⟨hle, nofun⟩⟩
  exact absurd (List.flatMap_eq_nil_iff.mp hempty _ hscan) hread

/-- What stands at a key that a replay visits. -/
theorem Logged.record_of_mem_scan {ns : Bytes} {db : Pebble} (hlogged : Logged ns db) {cut : Nat}
    (hcut : Cut cut) {key value : Bytes} (hscan : (key, value) ∈ db.scan (nsKey ns (walCut cut)) none)
    (hread : readWal (iteratorKey ns key) value ≠ []) :
    ∃ record : WalRecord, record.Readable ∧ key = nsKey ns record.key ∧ value = record.value ∧
      Holds ns db record ∧ record.VisibleFrom cut := by
  obtain ⟨hget, hwithin⟩ := mem_scan.mp hscan
  have hle := (within_iff.mp hwithin).1
  have hstart : nsKey ns (walCut 0) ≤ key :=
    le_trans ((nsKey_le_iff ns _ _).mpr (walCut_zero_le cut)) hle
  obtain ⟨record, hreadable, rfl, rfl⟩ := hlogged key value hstart hget hread
  rw [nsKey_le_iff] at hle
  exact ⟨record, hreadable, rfl, rfl, hget, (WalRecord.walCut_le_key hcut hreadable.nanos).mp hle⟩

theorem WalRecord.mem_scan {ns : Bytes} {db : Pebble} {cut : Nat} (hcut : Cut cut)
    {record : WalRecord} (hreadable : record.Readable) (hholds : Holds ns db record)
    (hvisible : record.VisibleFrom cut) :
    (nsKey ns record.key, record.value) ∈ db.scan (nsKey ns (walCut cut)) none := by
  refine OrderedStore.mem_scan.mpr ⟨hholds, within_iff.mpr ⟨?_, nofun⟩⟩
  rw [nsKey_le_iff]
  exact (WalRecord.walCut_le_key hcut hreadable.nanos).mpr hvisible

/-- The entries of a log are those of its visible records. -/
theorem mem_walEntries {ns : Bytes} {cut : Nat} {db : Pebble} (hlogged : Logged ns db)
    (hcut : Cut cut) {entry : WalEntry} :
    entry ∈ walEntries ns cut db ↔
      ∃ record : WalRecord, record.Readable ∧ Holds ns db record ∧ record.VisibleFrom cut ∧
        entry ∈ record.entries := by
  rw [walEntries, List.mem_flatMap]
  constructor
  · rintro ⟨⟨key, value⟩, hscan, hentry⟩
    obtain ⟨record, hreadable, rfl, rfl, hholds, hvisible⟩ :=
      hlogged.record_of_mem_scan hcut hscan (List.ne_nil_of_mem hentry)
    rw [iteratorKey_nsKey, hreadable.readWal] at hentry
    exact ⟨record, hreadable, hholds, hvisible, hentry⟩
  · rintro ⟨record, hreadable, hholds, hvisible, hentry⟩
    refine ⟨_, record.mem_scan hcut hreadable hholds hvisible, ?_⟩
    rw [iteratorKey_nsKey, hreadable.readWal]
    exact hentry

/-- A batch that sets records and keys no replay reads keeps the log in order. -/
theorem Logged.commit {ns : Bytes} {db : Pebble} (hlogged : Logged ns db)
    {batch : List (StoreOp Bytes Bytes)}
    (hbatch : ∀ key value, .set key value ∈ batch → readWal (iteratorKey ns key) value ≠ [] →
      ∃ record : WalRecord, record.Readable ∧ key = nsKey ns record.key ∧ value = record.value) :
    Logged ns (db.commit batch) := by
  intro key value hle hget hread
  rcases get_commit_cases hget with ⟨hbefore, _⟩ | hset
  · exact hlogged key value hle hbefore hread
  · exact hbatch key value hset hread

theorem vectorKey_ne_walKey (id : Bytes) (record : WalRecord) : vectorKey id ≠ record.key := by
  intro heq
  cases record with
  | add ts id' value
  | delete ts id'
  | batch baseTS entries => exact absurd (List.cons.inj heq).1 (by decide)

/-- A commit of vectors together with the records of its writes. -/
structure WritesRecords (ns : Bytes) (batch : List (StoreOp Bytes Bytes))
    (records : List WalRecord) : Prop where
  only : ∀ op ∈ batch, (∃ id, opKey op = nsKey ns (vectorKey id)) ∨
    ∃ record ∈ records, op = .set (nsKey ns record.key) record.value
  sets : ∀ record ∈ records, .set (nsKey ns record.key) record.value ∈ batch
  readable : ∀ record ∈ records, record.Readable
  keys : ∀ first ∈ records, ∀ second ∈ records, first.key = second.key → first = second

namespace WritesRecords

variable {ns : Bytes} {db : Pebble} {batch : List (StoreOp Bytes Bytes)}
  {records : List WalRecord}

section

variable (hwrites : WritesRecords ns batch records)

include hwrites

theorem record_of_opKey {record : WalRecord} {op : StoreOp Bytes Bytes} (hop : op ∈ batch)
    (hkey : opKey op = nsKey ns record.key) :
    ∃ written ∈ records, written.key = record.key ∧
      op = .set (nsKey ns written.key) written.value := by
  rcases hwrites.only op hop with ⟨id, hvector⟩ | ⟨written, hwritten, rfl⟩
  · rw [hvector, nsKey_inj] at hkey
    exact absurd hkey (vectorKey_ne_walKey id record)
  · exact ⟨written, hwritten, nsKey_inj.mp hkey, rfl⟩

theorem logged (hlogged : Logged ns db) :
    Logged ns (db.commit batch) := by
  apply hlogged.commit
  intro key value hset hread
  rcases hwrites.only _ hset with ⟨id, hvector⟩ | ⟨record, hrecord, heq⟩
  · rw [opKey] at hvector
    rw [hvector, iteratorKey_nsKey, readWal_vectorKey] at hread
    exact absurd rfl hread
  · obtain ⟨rfl, rfl⟩ := StoreOp.set.inj heq
    exact ⟨record, hwrites.readable record hrecord, rfl, rfl⟩

theorem holds_written {record : WalRecord} (hrecord : record ∈ records) :
    Holds ns (db.commit batch) record := by
  refine get_commit_of_set (hwrites.sets record hrecord) ?_
  intro op hop hkey
  obtain ⟨written, hwritten, heq, rfl⟩ := hwrites.record_of_opKey hop hkey
  rw [hwrites.keys written hwritten record hrecord heq]

/-- A record with another timestamp stays. -/
theorem holds_commit {record : WalRecord} (hnanos : Nanos record.ts) (hholds : Holds ns db record)
    (hne : ∀ written ∈ records, written.ts ≠ record.ts) : Holds ns (db.commit batch) record := by
  rw [Holds, get_commit_of_forall_ne]
  · exact hholds
  · intro op hop hkey
    obtain ⟨written, hwritten, heq, rfl⟩ := hwrites.record_of_opKey hop hkey
    exact hne written hwritten
      (WalRecord.ts_eq_of_key_eq (hwrites.readable written hwritten).nanos hnanos heq)

/-- A record after the commit is one from before, or it reads like a new one. -/
theorem entries_of_holds {record : WalRecord} (hreadable : record.Readable)
    (hholds : Holds ns (db.commit batch) record) :
    Holds ns db record ∨ ∃ written ∈ records, written.entries = record.entries := by
  rcases get_commit_cases hholds with ⟨hbefore, _⟩ | hset
  · exact Or.inl hbefore
  · right
    obtain ⟨written, hwritten, hkey, heq⟩ := hwrites.record_of_opKey hset rfl
    refine ⟨written, hwritten, ?_⟩
    rw [← (hwrites.readable written hwritten).readWal, hkey, ← (StoreOp.set.inj heq).2,
      hreadable.readWal]

/-- The log has the entries of the new records besides the ones it had. -/
theorem mem_walEntries (hlogged : Logged ns db) {cut : Nat} (hcut : Cut cut)
    (hvisible : ∀ record ∈ records, cut ≤ record.ts)
    (hnewer : ∀ record ∈ records, ∀ entry ∈ walEntries ns cut db, entry.stamp < record.ts)
    {entry : WalEntry} :
    entry ∈ walEntries ns cut (db.commit batch) ↔
      entry ∈ walEntries ns cut db ∨ ∃ record ∈ records, entry ∈ record.entries := by
  rw [Worker.mem_walEntries (hwrites.logged hlogged) hcut]
  constructor
  · rintro ⟨record, hreadable, hholds, hsees, hentry⟩
    rcases hwrites.entries_of_holds hreadable hholds with hbefore | ⟨written, hwritten, heq⟩
    · left
      exact (Worker.mem_walEntries hlogged hcut).mpr ⟨record, hreadable, hbefore, hsees, hentry⟩
    · right
      refine ⟨written, hwritten, ?_⟩
      rw [heq]
      exact hentry
  · rintro (hold | ⟨record, hrecord, hentry⟩)
    · obtain ⟨record, hreadable, hholds, hsees, hentry⟩ :=
        (Worker.mem_walEntries hlogged hcut).mp hold
      refine ⟨record, hreadable, hwrites.holds_commit hreadable.nanos hholds ?_, hsees, hentry⟩
      intro written hwritten hts
      have hlt := hnewer written hwritten entry hold
      rw [WalRecord.stamp_of_mem_entries hentry, hts] at hlt
      exact absurd hlt (lt_irrefl _)
    · exact ⟨record, hwrites.readable record hrecord, hwrites.holds_written hrecord,
        Or.inr (hvisible record hrecord), hentry⟩

end

end WritesRecords

/-! ## Replay -/

section Replay

variable {arith : Arithmetic}

/-- What applying an entry makes of the vector its id had. -/
def entryEffect (arith : Arithmetic) (config : IndexConfig) (old : Option Vector)
    (entry : WalEntry) : Option Vector :=
  match entry.value with
  | none => none
  | some value =>
      match decodeVectorWithMeta arith value with
      | .error _ => old
      | .ok (vector, _) =>
          if vector.length = config.dim then some (kept arith config vector) else none

theorem item_replayEntry (h : Hnsw) (id other : Bytes) (entry : WalEntry) :
    (replayEntry arith h id entry).item arith other =
      if other = id then entryEffect arith h.config (h.item arith id) entry
      else h.item arith other := by
  cases hvalue : entry.value with
  | none =>
      simp only [replayEntry, entryEffect, hvalue]
      exact Hnsw.item_delete id other
  | some value =>
      cases hdecode : decodeVectorWithMeta arith value with
      | error message =>
          simp only [replayEntry, entryEffect, hvalue, hdecode]
          split
          next heq => rw [heq]
          next _ => rfl
      | ok decoded =>
          simp only [replayEntry, entryEffect, hvalue, hdecode]
          by_cases hdim : decoded.1.length = h.config.dim
          · rw [if_pos hdim]
            exact Hnsw.item_add hdim id other
          · rw [if_neg hdim]
            exact Hnsw.item_add_of_ne hdim id other

@[simp] theorem config_replayEntry (h : Hnsw) (id : Bytes) (entry : WalEntry) :
    (replayEntry arith h id entry).config = h.config := by
  rw [replayEntry]
  split
  next _ => exact Hnsw.config_delete id
  next value _ =>
    split
    next _ => rfl
    next vector metadata _ => exact Hnsw.config_add id vector

theorem item_foldl_replayEntry_of_notMem {items : List (Bytes × WalEntry)} {id : Bytes}
    (hid : id ∉ items.map Prod.fst) (h : Hnsw) :
    (items.foldl (fun h item => replayEntry arith h item.1 item.2) h).item arith id =
      h.item arith id := by
  induction items generalizing h with
  | nil => rfl
  | cons head items ih =>
      obtain ⟨hhead, htail⟩ := not_or.mp fun hmem => hid (List.mem_cons.mpr hmem)
      rw [List.foldl_cons, ih htail, item_replayEntry, if_neg hhead]

theorem item_foldl_replayEntry_of_mem {items : List (Bytes × WalEntry)}
    (hnodup : (items.map Prod.fst).Nodup) {id : Bytes} {entry : WalEntry}
    (hmem : (id, entry) ∈ items) (h : Hnsw) :
    (items.foldl (fun h item => replayEntry arith h item.1 item.2) h).item arith id =
      entryEffect arith h.config (h.item arith id) entry := by
  induction items generalizing h with
  | nil => cases hmem
  | cons head items ih =>
      obtain ⟨hhead, hnodup⟩ := List.nodup_cons.mp hnodup
      rw [List.foldl_cons]
      rcases List.mem_cons.mp hmem with rfl | hmem
      · rw [item_foldl_replayEntry_of_notMem hhead, item_replayEntry, if_pos rfl]
      · have hne : id ≠ head.1 := by
          rintro rfl
          exact hhead (List.mem_map.mpr ⟨_, hmem, rfl⟩)
        rw [ih hnodup hmem, config_replayEntry, item_replayEntry, if_neg hne]

variable {order : RangeOrder} {ns : Bytes} {db : Pebble} {cut : Nat} {h : Hnsw}

/-- A replay leaves ids alone that have no entry. -/
theorem item_replayWALFrom_of_forall_ne {id : Bytes}
    (hid : ∀ entry ∈ walEntries ns cut db, entry.key ≠ id) :
    (replayWALFrom arith order ns db cut h).item arith id = h.item arith id := by
  apply item_foldl_replayEntry_of_notMem
  intro hmem
  obtain ⟨⟨key, entry⟩, hentry, rfl⟩ := List.mem_map.mp hmem
  have hlookup := RangeOrder.mem_range.mp hentry
  rw [Stamped.lookup_newest_of_forall_ne hid] at hlookup
  cases hlookup

/-- A replay gives an id what its newest entry says. -/
theorem item_replayWALFrom_of_isNewest {entry : WalEntry}
    (hnewest : Stamped.IsNewest (walEntries ns cut db) entry) :
    (replayWALFrom arith order ns db cut h).item arith entry.key =
      entryEffect arith h.config (h.item arith entry.key) entry :=
  item_foldl_replayEntry_of_mem (RangeOrder.range_keys_nodup order _)
    (RangeOrder.mem_range.mpr hnewest.lookup_newest) h

@[simp] theorem config_replayWALFrom :
    (replayWALFrom arith order ns db cut h).config = h.config := by
  rw [replayWALFrom]
  generalize order.range (Stamped.newest (walEntries ns cut db)) = items
  induction items generalizing h with
  | nil => rfl
  | cons head items ih => rw [List.foldl_cons, ih, config_replayEntry]

end Replay

/-! ## Values read back -/

theorem words_flatMap (vector : Vector) (rest : Bytes) :
    words vector.length (vector.flatMap putUint32 ++ rest) = vector := by
  induction vector with
  | nil => rfl
  | cons word vector ih =>
      have hdrop : ∀ rest : Bytes, (putUint32 word ++ rest).drop 4 = rest := fun _ => rfl
      rw [List.flatMap_cons, List.length_cons, List.append_assoc, words, uint32_putUint32_append,
        hdrop, ih]

theorem length_flatMap_putUint32 (vector : Vector) :
    (vector.flatMap putUint32).length = vector.length * 4 := by
  induction vector with
  | nil => rfl
  | cons word vector ih =>
      rw [List.flatMap_cons, List.length_append, ih, putUint32_length, List.length_cons]
      omega

theorem length_word_uncompressed {vector : Vector} (hlength : vector.length < 2 ^ 31) :
    UInt32.ofNat vector.length &&& vectorCompressionFlag = 0 ∧
      (UInt32.ofNat vector.length &&& ~~~vectorCompressionFlag).toNat = vector.length := by
  have hnat : (UInt32.ofNat vector.length).toNat = vector.length :=
    toNat_ofNat_length (lt_trans hlength (by decide))
  have hflag : ∀ n : Nat, n < 2 ^ 31 → n &&& 2 ^ 31 = 0 := by
    intro n hn
    rw [Nat.and_two_pow, Nat.testBit_lt_two_pow hn]
    rfl
  constructor
  · apply UInt32.toNat_inj.mp
    rw [UInt32.toNat_and, hnat]
    exact hflag _ hlength
  · rw [UInt32.toNat_and, hnat]
    have hmask : (~~~vectorCompressionFlag).toNat = 2 ^ 31 - 1 := by decide
    rw [hmask, Nat.and_two_pow_sub_one_eq_mod, Nat.mod_eq_of_lt hlength]

/-- A value that is not compressed is read back as it was written. -/
theorem decodeVectorWithMeta_uncompressed (arith : Arithmetic) {vector : Vector}
    (hlength : vector.length < 2 ^ 31) (metadata : Bytes) :
    decodeVectorWithMeta arith (putUint32 (UInt32.ofNat vector.length) ++
      (vector.flatMap putUint32 ++ metadata)) = .ok (vector, metadata) := by
  obtain ⟨hflag, hcount⟩ := length_word_uncompressed hlength
  have hdrop : ∀ (word : UInt32) (rest : Bytes), (putUint32 word ++ rest).drop 4 = rest :=
    fun _ _ => rfl
  rw [decodeVectorWithMeta, if_neg (by simp), if_neg (by simp)]
  simp only [uint32_putUint32_append, hflag, hcount, if_true]
  rw [if_neg (by simp), hdrop, words_flatMap, ← List.drop_drop, hdrop,
    ← length_flatMap_putUint32, List.drop_left]

end Vectron.Worker
