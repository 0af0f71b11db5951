import Vectron.Foundation.Reader

/-! # Replicated commands of a shard

A write of a shard travels through its Raft log as bytes. `EncodeCommand` writes
the versioned binary format; `DecodeCommand` also accepts the two older formats,
which it tells apart by the first byte. Floats are the 32-bit words they are stored
as, and a nil slice is an empty one.
-/

namespace Vectron.Worker

open Foundation

/-- `VectorEntry`. -/
structure VectorEntry where
  id : Bytes
  vector : List UInt32
  metadata : Bytes
  deriving Repr, DecidableEq

/-- `Command`. The type is a Go `int`, of which the format keeps the low 32 bits. -/
structure Command where
  type : Int
  id : Bytes
  vector : List UInt32
  metadata : Bytes
  vectors : List VectorEntry
  deriving Repr, DecidableEq

def commandEncodingGob : UInt8 := 1

def commandEncodingBinary : UInt8 := 2

/-- The two older decoders, `encoding/json` and `encoding/gob`, with the texts of
their errors. -/
structure LegacyDecoders where
  unmarshalJson : Bytes → Except String Command
  decodeGob : Bytes → Except String Command

/-! ## Writing -/

/-- `writeUint32`. Writes to a `bytes.Buffer` do not fail. -/
def writeUint32 (word : UInt32) : Bytes := putUint32 word

/-- A slice as a word that counts its elements, then the elements. -/
def writeSlice {α : Type} (write : α → Bytes) (values : List α) : Bytes :=
  writeUint32 (UInt32.ofNat values.length) ++ values.flatMap write

/-- `writeBytes`. -/
def writeBytes (bytes : Bytes) : Bytes := writeUint32 (UInt32.ofNat bytes.length) ++ bytes

/-- `writeString`. -/
def writeString (s : Bytes) : Bytes := writeBytes s

/-- `writeFloat32Slice`. -/
def writeFloat32Slice (values : List UInt32) : Bytes := writeSlice writeUint32 values

def writeVectorEntry (entry : VectorEntry) : Bytes :=
  writeString entry.id ++ (writeFloat32Slice entry.vector ++ writeBytes entry.metadata)

/-- `uint32(cmd.Type)`. -/
def typeWord (type : Int) : UInt32 := UInt32.ofNat (type % 2 ^ 32).toNat

/-- The fields of a command behind the version byte. -/
def writeCommand (cmd : Command) : Bytes :=
  writeUint32 (typeWord cmd.type) ++ (writeString cmd.id ++ (writeFloat32Slice cmd.vector ++
    (writeBytes cmd.metadata ++ writeSlice writeVectorEntry cmd.vectors)))

/-- `EncodeCommand`. -/
def encodeCommand (cmd : Command) : Bytes := commandEncodingBinary :: writeCommand cmd

/-! ## Reading -/

/-- `readUint32`. -/
def readUint32 : Reader ReadError UInt32 := Reader.word

/-- `readBytes`, which reads nothing further for an empty slice. -/
def readBytes : Reader ReadError Bytes := do
  let n ← readUint32
  if n = 0 then pure [] else Reader.readFull n.toNat

/-- `readString`. -/
def readString : Reader ReadError Bytes := readBytes

/-- `readFloat32Slice`. -/
def readFloat32Slice : Reader ReadError (List UInt32) := do
  let n ← readUint32
  if n = 0 then pure [] else Reader.times readUint32 n.toNat

/-- One round of the loop over the batch entries. -/
def readVectorEntry : Reader ReadError VectorEntry := do
  let id ← readString
  let vec ← readFloat32Slice
  let metadata ← readBytes
  pure ⟨id, vec, metadata⟩

/-- The batch of a command: its count, then its entries if there are any. -/
def readVectorEntries : Reader ReadError (List VectorEntry) := do
  let vecCount ← readUint32
  if 0 < vecCount then Reader.times readVectorEntry vecCount.toNat else pure []

/-- The binary case of `DecodeCommand`. Bytes after the last field are not looked at. -/
def readCommand : Reader ReadError Command := do
  let typ ← readUint32
  let id ← readString
  let vector ← readFloat32Slice
  let metadata ← readBytes
  let vectors ← readVectorEntries
  pure ⟨(typ.toNat : Int), id, vector, metadata, vectors⟩

/-- The text of `io.EOF` and of `io.ErrUnexpectedEOF`. -/
def readErrorText : ReadError → String
  | .eof => "EOF"
  | .unexpectedEof => "unexpected EOF"

/-- `DecodeCommand`. -/
def decodeCommand (legacy : LegacyDecoders) : Bytes → Except String Command
  | [] => .error "empty command payload"
  | version :: data =>
      if version = '{'.toUInt8 then legacy.unmarshalJson (version :: data)
      else if version = commandEncodingGob then legacy.decodeGob data
      else if version = commandEncodingBinary then
        match readCommand.run data with
        | .ok (cmd, _) => .ok cmd
        | .error err => .error (readErrorText err)
      else .error s!"unknown command encoding version: {version}"

/-! ## Round trip -/

/-- The lengths of a batch entry fit the words that carry them. -/
structure VectorEntry.Encodable (entry : VectorEntry) : Prop where
  id_lt : entry.id.length < 2 ^ 32
  vector_lt : entry.vector.length < 2 ^ 32
  metadata_lt : entry.metadata.length < 2 ^ 32

/-- The type and every length of a command fit the words that carry them. -/
structure Command.Encodable (cmd : Command) : Prop where
  type_nonneg : 0 ≤ cmd.type
  type_lt : cmd.type < 2 ^ 32
  id_lt : cmd.id.length < 2 ^ 32
  vector_lt : cmd.vector.length < 2 ^ 32
  metadata_lt : cmd.metadata.length < 2 ^ 32
  vectors_lt : cmd.vectors.length < 2 ^ 32
  vectors_encodable : ∀ entry ∈ cmd.vectors, entry.Encodable

open Reader

theorem reads_uint32 (word : UInt32) : Reads readUint32 (writeUint32 word) word := Reads.word word

theorem local_readUint32 : Local readUint32 := Local.word

theorem length_word_eq_zero {α : Type} {values : List α} (hlt : values.length < 2 ^ 32) :
    UInt32.ofNat values.length = 0 ↔ values = [] := by
  rw [← UInt32.toNat_inj, toNat_ofNat_length hlt, ← List.length_eq_zero_iff]
  rfl

theorem reads_bytes {bytes : Bytes} (hlt : bytes.length < 2 ^ 32) :
    Reads readBytes (writeBytes bytes) bytes := by
  apply Reads.bind (reads_uint32 _)
  split
  next hzero =>
    rw [(length_word_eq_zero hlt).mp hzero]
    exact Reads.pure []
  next _ =>
    rw [toNat_ofNat_length hlt]
    exact Reads.readFull bytes

theorem local_readBytes : Local readBytes :=
  local_readUint32.bind fun _ => (Local.pure []).ite (Local.readFull _)

/-- A counted slice reads back when each of its elements does. -/
theorem reads_slice {α : Type} {reader : Reader ReadError α} {write : α → Bytes}
    {values : List α} (hlt : values.length < 2 ^ 32)
    (hreads : ∀ value ∈ values, Reads reader (write value) value) :
    Reads (times reader (UInt32.ofNat values.length).toNat) (values.flatMap write) values := by
  rw [toNat_ofNat_length hlt]
  exact Reads.times hreads

theorem reads_float32Slice {values : List UInt32} (hlt : values.length < 2 ^ 32) :
    Reads readFloat32Slice (writeFloat32Slice values) values := by
  apply Reads.bind (reads_uint32 _)
  split
  next hzero =>
    rw [(length_word_eq_zero hlt).mp hzero]
    exact Reads.pure []
  next _ => exact reads_slice hlt fun value _ => reads_uint32 value

theorem local_readFloat32Slice : Local readFloat32Slice :=
  local_readUint32.bind fun _ => (Local.pure []).ite (local_readUint32.times _)

theorem reads_vectorEntry {entry : VectorEntry} (hentry : entry.Encodable) :
    Reads readVectorEntry (writeVectorEntry entry) entry := by
  apply Reads.bind (reads_bytes hentry.id_lt)
  apply Reads.bind (reads_float32Slice hentry.vector_lt)
  rw [← List.append_nil (writeBytes entry.metadata)]
  exact Reads.bind (reads_bytes hentry.metadata_lt) (Reads.pure entry)

theorem local_readVectorEntry : Local readVectorEntry :=
  local_readBytes.bind fun _ => local_readFloat32Slice.bind fun _ =>
    local_readBytes.bind fun _ => Local.pure _

theorem typeWord_toNat {type : Int} (hnonneg : 0 ≤ type) (hlt : type < 2 ^ 32) :
    ((typeWord type).toNat : Int) = type := by
  rw [typeWord, Int.emod_eq_of_lt hnonneg hlt, UInt32.toNat_ofNat',
    Nat.mod_eq_of_lt (by omega)]
  exact Int.toNat_of_nonneg hnonneg

theorem reads_vectorEntries {entries : List VectorEntry} (hlt : entries.length < 2 ^ 32)
    (hentries : ∀ entry ∈ entries, entry.Encodable) :
    Reads readVectorEntries (writeSlice writeVectorEntry entries) entries := by
  apply Reads.bind (reads_uint32 _)
  split
  next _ => exact reads_slice hlt fun entry hmem => reads_vectorEntry (hentries entry hmem)
  next hzero =>
    have hempty : entries = [] := by
      apply (length_word_eq_zero hlt).mp
      exact UInt32.le_zero_iff.mp (UInt32.not_lt.mp hzero)
    rw [hempty]
    exact Reads.pure []

theorem local_readVectorEntries : Local readVectorEntries :=
  local_readUint32.bind fun _ => (local_readVectorEntry.times _).ite (Local.pure [])

theorem reads_command {cmd : Command} (hcmd : cmd.Encodable) :
    Reads readCommand (writeCommand cmd) cmd := by
  apply Reads.bind (reads_uint32 _)
  apply Reads.bind (reads_bytes hcmd.id_lt)
  apply Reads.bind (reads_float32Slice hcmd.vector_lt)
  apply Reads.bind (reads_bytes hcmd.metadata_lt)
  rw [← List.append_nil (writeSlice writeVectorEntry cmd.vectors)]
  apply Reads.bind (reads_vectorEntries hcmd.vectors_lt hcmd.vectors_encodable)
  rw [typeWord_toNat hcmd.type_nonneg hcmd.type_lt]
  exact Reads.pure cmd

theorem local_readCommand : Local readCommand :=
  local_readUint32.bind fun _ => local_readBytes.bind fun _ =>
    local_readFloat32Slice.bind fun _ => local_readBytes.bind fun _ =>
      local_readVectorEntries.bind fun _ => Local.pure _

theorem decodeCommand_binary (legacy : LegacyDecoders) (data : Bytes) :
    decodeCommand legacy (commandEncodingBinary :: data) =
      match readCommand.run data with
      | .ok (cmd, _) => .ok cmd
      | .error err => .error (readErrorText err) := rfl

/-- Every command reads back as itself, and no proper initial part of its encoding
reads as a command. -/
theorem decodeCommand_encodeCommand (legacy : LegacyDecoders) (cmd : Command)
    (hcmd : cmd.Encodable) :
    decodeCommand legacy (encodeCommand cmd) = .ok cmd ∧
      ∀ data, data <+: encodeCommand cmd → data ≠ encodeCommand cmd →
        ∃ err, decodeCommand legacy data = .error err := by
  constructor
  · have hread := reads_command hcmd []
    rw [List.append_nil] at hread
    rw [encodeCommand, decodeCommand_binary, hread]
  · intro data hfront hproper
    cases data with
    | nil => exact ⟨_, rfl⟩
    | cons version rest =>
        obtain ⟨rfl, hrest⟩ := List.cons_prefix_cons.mp hfront
        have hproper' : rest ≠ writeCommand cmd := by
          intro heq
          rw [heq] at hproper
          exact hproper rfl
        obtain ⟨err, herr⟩ := (reads_command hcmd).refuses local_readCommand hrest hproper'
        refine ⟨readErrorText err, ?_⟩
        rw [decodeCommand_binary, herr]

/-- A batch of two vectors, the second one with no metadata. -/
def batchCommand : Command where
  type := 2
  id := []
  vector := []
  metadata := []
  vectors := [⟨[97], [0x3f800000, 0], [1, 2, 3]⟩, ⟨[98, 99], [0x40000000], []⟩]

theorem batchCommand_encodable : batchCommand.Encodable where
  type_nonneg := by decide
  type_lt := by decide
  id_lt := by decide
  vector_lt := by decide
  metadata_lt := by decide
  vectors_lt := by decide
  vectors_encodable := by
    intro entry hmem
    simp only [batchCommand, List.mem_cons, List.not_mem_nil, or_false] at hmem
    rcases hmem with rfl | rfl
    · exact ⟨by decide, by decide, by decide⟩
    · exact ⟨by decide, by decide, by decide⟩

/-- Decoders that refuse everything. -/
def noLegacyDecoders : LegacyDecoders where
  unmarshalJson _ := .error "invalid character"
  decodeGob _ := .error "unexpected EOF"

theorem decodeCommand_batchCommand :
    batchCommand.Encodable ∧
      decodeCommand noLegacyDecoders (encodeCommand batchCommand) = .ok batchCommand ∧
      ∀ data, data <+: encodeCommand batchCommand → data ≠ encodeCommand batchCommand →
        ∃ err, decodeCommand noLegacyDecoders data = .error err :=
  ⟨batchCommand_encodable,
    decodeCommand_encodeCommand noLegacyDecoders batchCommand batchCommand_encodable⟩

end Vectron.Worker
