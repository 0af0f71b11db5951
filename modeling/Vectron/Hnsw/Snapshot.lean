import Vectron.Hnsw.Maintenance

/-! # Snapshots of an HNSW index

`Save` and `Load` of `hnsw.go`, byte by byte. A node is written with one vector only, its
floats if it has any, and a vector of length zero is read back as none. What `Load` makes of
the bytes of `Save` is therefore the saved index with every node reread in this way.
-/

namespace Vectron.Hnsw

open Foundation
open Worker (Vector)

/-! ## The words of the format -/

/-- `writeUint32` of an unsigned value; larger ones are cut to 32 bits. -/
def writeUint32 (n : Nat) : Bytes := putUint32 (UInt32.ofNat n)

/-- `writeInt64`: the low word stands before the high one. -/
def writeInt64 (v : Int) : Bytes :=
  let bits := (v % 2 ^ 64).toNat
  writeUint32 bits ++ writeUint32 (bits / 2 ^ 32)

def writeBool (v : Bool) : Bytes := [if v then 1 else 0]

def writeString (s : Bytes) : Bytes := writeUint32 s.length ++ s

/-- `readUint32` and `readUint32AsInt`. -/
def readUint32 : Reader ReadError Nat := do
  let value ← Reader.word
  pure value.toNat

def readByte : Reader ReadError UInt8 := do
  let buf ← Reader.readFull 1
  pure (buf.headD 0)

def readBool : Reader ReadError Bool := do
  let byte ← readByte
  pure (byte != 0)

def readInt64 : Reader ReadError Int := do
  let buf ← Reader.readFull 8
  pure (Int.bmod ((uint32 buf).toNat + 2 ^ 32 * (uint32 (buf.drop 4)).toNat : Nat) (2 ^ 64))

def readString : Reader ReadError Bytes := do
  let n ← readUint32
  if n = 0 then pure [] else Reader.readFull n

/-! ## Writing -/

/-- The vector of a node in `Save`, behind its type and length: the floats if there are any. -/
def writeVectors (node : Node) : Bytes :=
  match node.vec, node.qvec with
  | some vec, _ => [1] ++ writeUint32 vec.length ++ vec.flatMap putUint32
  | none, some qvec => [2] ++ writeUint32 qvec.length ++ qvec
  | none, none => [0] ++ writeUint32 0

/-- One node of `Save`. -/
def writeNode (node : Node) : Bytes :=
  writeUint32 node.id ++ writeUint32 node.layer ++
    writeVectors node ++ putUint32 node.norm ++ writeUint32 node.neighbors.length ++
    node.neighbors.flatMap fun list => writeUint32 list.length ++ list.flatMap writeUint32

/-- One entry of the id map. -/
def writeEntry (entry : Bytes × Nat) : Bytes := writeString entry.1 ++ writeUint32 entry.2

/-- `hnswSnapshotMagic`, the string `"HNSW"`. -/
def hnswSnapshotMagic : Bytes := [72, 78, 83, 87]

/-- `hnswSnapshotVersion`. -/
def hnswSnapshotVersion : UInt8 := 2

namespace Index

/-- The nodes of the table, in its order. -/
def storedNodes (h : Index) : List Node := h.nodes.filterMap id

/-- `Save`, with the order of its loop over the id map. -/
def save (order : RangeOrder) (h : Index) : Bytes :=
  hnswSnapshotMagic ++ [hnswSnapshotVersion] ++
    (putUint32 (UInt32.ofInt h.config.m) ++ putUint32 (UInt32.ofInt h.config.efConstruction) ++
      putUint32 (UInt32.ofInt h.config.efSearch) ++ putUint32 (UInt32.ofInt h.config.maxLevel) ++
      writeString h.config.distance ++ writeBool h.config.persistNodes ++
      writeBool h.config.enableNorms ++ writeBool h.config.normalizeVectors ++
      writeBool h.config.quantizeVectors ++ writeUint32 h.dim ++ writeUint32 h.entry ++
      writeUint32 h.maxLayer ++ writeInt64 h.deletedCount ++ writeUint32 h.nextID ++
      writeUint32 h.storedNodes.length ++ h.storedNodes.flatMap writeNode ++
      writeUint32 (order.range h.idToUint32).length ++
      (order.range h.idToUint32).flatMap writeEntry)

end Index

/-! ## Reading -/

/-- The float vector of a node, of a length that was read. -/
def readFloats (length : Nat) : Reader ReadError (Option Vector) :=
  if 0 < length then do
    let vec ← Reader.times Reader.word length
    pure (some vec)
  else pure none

/-- The vectors of a node; version 1 has floats only. -/
def readVectors (version : UInt8) : Reader ReadError (Option Vector × Option Bytes) :=
  if version = 1 then do
    let length ← readUint32
    let vec ← readFloats length
    pure (vec, none)
  else do
    let vecType ← readByte
    let length ← readUint32
    if vecType = 1 then
      let vec ← readFloats length
      pure (vec, none)
    else if vecType = 2 ∧ 0 < length then
      let qvec ← Reader.readFull length
      pure (none, some qvec)
    else pure (none, none)

/-- One neighbour list. -/
def readList : Reader ReadError (List Nat) := do
  let count ← readUint32
  Reader.times readUint32 count

def readNode (version : UInt8) : Reader ReadError Node := do
  let id ← readUint32
  let layer ← readUint32
  let vectors ← readVectors version
  let norm ← Reader.word
  let layerCount ← readUint32
  let neighbors ← Reader.times readList layerCount
  pure ⟨id, vectors.1, vectors.2, norm, layer, neighbors⟩

def readEntry : Reader ReadError (Bytes × Nat) := do
  let id ← readString
  let internalID ← readUint32
  pure (id, internalID)

/-- What `Load` decodes before it changes the index; nodes stand with the slot they go to. -/
structure Decoded where
  config : Config
  dim : Nat
  entry : Nat
  maxLayer : Nat
  deletedCount : Int
  nextID : Nat
  nodes : List (Nat × Node)
  idToUint32 : GoMap Bytes Nat
  uint32ToID : GoMap Nat Bytes

/-- Both id maps from the entries that were read. -/
def idMaps (entries : List (Bytes × Nat)) : GoMap Bytes Nat × GoMap Nat Bytes :=
  (entries.foldl (fun ids entry => ids.insert entry.1 entry.2) ∅,
    entries.foldl (fun names entry => names.insert entry.2 entry.1) ∅)

/-- The body of the binary format. The options that are not written are off. -/
def readSnapshot (version : UInt8) : Reader ReadError Decoded := do
  let m ← readUint32
  let efConstruction ← readUint32
  let efSearch ← readUint32
  let maxLevel ← readUint32
  let distance ← readString
  let persistNodes ← readBool
  let enableNorms ← readBool
  let normalizeVectors ← readBool
  let quantizeVectors ← (if version = 1 then pure false else readBool : Reader ReadError Bool)
  let dim ← readUint32
  let entry ← readUint32
  let maxLayer ← readUint32
  let deletedCount ← readInt64
  let nextID ← readUint32
  let nodeCount ← readUint32
  let nodes ← Reader.times (readNode version) nodeCount
  let idCount ← readUint32
  let entries ← Reader.times readEntry idCount
  pure
    { config := ⟨m, efConstruction, efSearch, maxLevel, distance, persistNodes, enableNorms,
        normalizeVectors, quantizeVectors, false, 0, false, false⟩
      dim := dim
      entry := entry
      maxLayer := maxLayer
      deletedCount := deletedCount
      nextID := nextID
      nodes := nodes.map fun node => (node.id, node)
      idToUint32 := (idMaps entries).1
      uint32ToID := (idMaps entries).2 }

/-- The errors of `Load`. -/
inductive LoadError where
  | unsupportedVersion (version : UInt8)
  | read (err : ReadError)
  | gob
deriving DecidableEq, Repr

/-- Put a decoded node into its slot, behind the end of the table if need be. -/
def putSlot (nodes : List (Option Node)) (entry : Nat × Node) : List (Option Node) :=
  (nodes ++ List.replicate (entry.1 + 1 - nodes.length) none).set entry.1 (some entry.2)

namespace Index

/-- The assignments at the end of `Load`. The cached flags of the configuration and the
candidates for pruning are not assigned. -/
def install (h : Index) (decoded : Decoded) : Index :=
  let nodes := decoded.nodes.foldl putSlot (List.replicate (decoded.nextID + 1) none)
  { h with
    config := decoded.config
    dim := decoded.dim
    entry := decoded.entry
    maxLayer := decoded.maxLayer
    nodes := nodes
    nodeCount := decoded.nodes.length
    idToUint32 := decoded.idToUint32
    uint32ToID := decoded.uint32ToID
    nextID := decoded.nextID
    deletedCount := decoded.deletedCount
    extIDCache := (List.range nodes.length).map fun id => (decoded.uint32ToID.lookup id).getD [] }

/-- `Load`. Bytes without the magic string are given to the decoder of the older format. -/
def load (gob : Bytes → Option Decoded) (h : Index) (input : Bytes) : Except LoadError Index :=
  match input.take 4 == hnswSnapshotMagic, input.drop 4 with
  | true, version :: body =>
      if version ≠ hnswSnapshotVersion ∧ version ≠ 1 then .error (.unsupportedVersion version)
      else
        match (readSnapshot version).run body with
        | .ok (decoded, _) => .ok (h.install decoded)
        | .error err => .error (.read err)
  | _, _ =>
      match gob input with
      | some decoded => .ok (h.install decoded)
      | none => .error .gob

end Index

/-! ## Reading back -/

open Reader (Reads)

theorem reads_uint32 {n : Nat} (hlt : n < 2 ^ 32) : Reads readUint32 (writeUint32 n) n := by
  have hread := (Reads.word (UInt32.ofNat n)).map UInt32.toNat
  rw [UInt32.toNat_ofNat', Nat.mod_eq_of_lt hlt] at hread
  exact hread

theorem reads_int (v : Int) :
    Reads readUint32 (putUint32 (UInt32.ofInt v)) (UInt32.ofInt v).toNat :=
  (Reads.word (UInt32.ofInt v)).map UInt32.toNat

theorem reads_byte (byte : UInt8) : Reads readByte [byte] byte :=
  (Reads.readFull [byte]).map fun buf => buf.headD 0

theorem reads_bool (v : Bool) : Reads readBool (writeBool v) v := by
  have hread := (reads_byte (if v then 1 else 0)).map fun byte => byte != 0
  cases v <;> exact hread

theorem reads_int64 {v : Int} (hlow : -2 ^ 63 ≤ v) (hhigh : v < 2 ^ 63) :
    Reads readInt64 (writeInt64 v) v := by
  intro rest
  have hlength : (writeInt64 v).length = 8 := rfl
  have hfull := Reads.readFull (writeInt64 v) rest
  rw [hlength] at hfull
  rw [readInt64, Reader.run_bind_ok hfull]
  have hbits : (uint32 (writeInt64 v)).toNat + 2 ^ 32 * (uint32 ((writeInt64 v).drop 4)).toNat =
      (v % 2 ^ 64).toNat := by
    have hdrop : (writeInt64 v).drop 4 = writeUint32 ((v % 2 ^ 64).toNat / 2 ^ 32) := rfl
    rw [hdrop, writeInt64, writeUint32, writeUint32, uint32_putUint32_append, uint32_putUint32,
      UInt32.toNat_ofNat', UInt32.toNat_ofNat']
    omega
  have hvalue : Int.bmod ((v % 2 ^ 64).toNat : Nat) (2 ^ 64) = v := by
    rw [Int.toNat_of_nonneg (by omega)]
    have hbmod := Int.emod_bmod v (2 ^ 64)
    rw [Nat.cast_pow, Nat.cast_ofNat] at hbmod
    rw [hbmod]
    exact Int.bmod_eq_of_le (by omega) (by omega)
  rw [hbits, hvalue]
  rfl

theorem reads_string {s : Bytes} (hlt : s.length < 2 ^ 32) : Reads readString (writeString s) s := by
  refine Reads.bind (reads_uint32 hlt) ?_
  split
  next hzero =>
    rw [List.eq_nil_of_length_eq_zero hzero]
    exact Reads.pure []
  next => exact Reads.readFull s

/-- A node as it is read back: with its floats or its quantised vector but not both, and
with neither if its length is zero. -/
def Node.reread (node : Node) : Node :=
  { node with
    vec := node.vec.filter fun vec => !vec.isEmpty
    qvec := if node.vec.isSome then none else node.qvec.filter fun qvec => !qvec.isEmpty }

/-- The lengths and numbers of a node fit into the 32 bits they are written in. -/
def Node.Fits (node : Node) : Prop :=
  node.id < 2 ^ 32 ∧ node.layer < 2 ^ 32 ∧ (∀ vec ∈ node.vec, vec.length < 2 ^ 32) ∧
    (∀ qvec ∈ node.qvec, qvec.length < 2 ^ 32) ∧ node.neighbors.length < 2 ^ 32 ∧
    ∀ list ∈ node.neighbors, list.length < 2 ^ 32 ∧ ∀ e ∈ list, e < 2 ^ 32

instance (node : Node) : Decidable node.Fits := by
  delta Node.Fits
  infer_instance

theorem reads_floats (vec : Vector) : Reads (readFloats vec.length) (vec.flatMap putUint32)
    (if vec.isEmpty then none else some vec) := by
  unfold readFloats
  cases vec with
  | nil => exact Reads.pure none
  | cons first rest =>
      have htimes : Reads (Reader.times Reader.word (first :: rest).length)
          ((first :: rest).flatMap putUint32) (first :: rest) :=
        Reads.times fun value _ => Reads.word value
      exact htimes.map some

theorem reads_list {list : List Nat} (hlength : list.length < 2 ^ 32) (hids : ∀ e ∈ list, e < 2 ^ 32) :
    Reads readList (writeUint32 list.length ++ list.flatMap writeUint32) list :=
  (reads_uint32 hlength).bind (Reads.times fun e he => reads_uint32 (hids e he))

theorem reads_vectors {node : Node} (hfits : node.Fits) :
    Reads (readVectors hnswSnapshotVersion) (writeVectors node)
      (node.reread.vec, node.reread.qvec) := by
  obtain ⟨_, _, hvec, hqvec, _, _⟩ := hfits
  unfold readVectors writeVectors Node.reread
  rw [if_neg (by decide)]
  cases hfloats : node.vec with
  | some vec =>
      change Reads _ ([1] ++ (writeUint32 vec.length ++ vec.flatMap putUint32)) _
      refine (reads_byte 1).bind ((reads_uint32 (hvec vec hfloats)).bind ?_)
      rw [if_pos rfl]
      have hread := (reads_floats vec).map fun vec => (vec, (none : Option Bytes))
      cases vec <;> exact hread
  | none =>
      cases hcode : node.qvec with
      | some qvec =>
          change Reads _ ([2] ++ (writeUint32 qvec.length ++ qvec)) _
          refine (reads_byte 2).bind ((reads_uint32 (hqvec qvec hcode)).bind ?_)
          rw [if_neg (by decide)]
          cases qvec with
          | nil => exact Reads.pure _
          | cons first rest =>
              exact (Reads.readFull (first :: rest)).map fun qvec => ((none : Option Vector), some qvec)
      | none =>
          refine (reads_byte 0).bind ?_
          have hread := (reads_uint32 (show 0 < 2 ^ 32 by decide)).map
            fun _ => ((none : Option Vector), (none : Option Bytes))
          exact hread

theorem reads_node {node : Node} (hfits : node.Fits) :
    Reads (readNode hnswSnapshotVersion) (writeNode node) node.reread := by
  have hvectors := reads_vectors hfits
  obtain ⟨hid, hlayer, _, _, hcount, hlists⟩ := hfits
  have hwrite : writeNode node = writeUint32 node.id ++ (writeUint32 node.layer ++
      (writeVectors node ++ (putUint32 node.norm ++ (writeUint32 node.neighbors.length ++
        node.neighbors.flatMap fun list => writeUint32 list.length ++ list.flatMap writeUint32)))) := by
    simp only [writeNode, List.append_assoc]
  rw [hwrite]
  refine (reads_uint32 hid).bind ((reads_uint32 hlayer).bind (hvectors.bind
    ((Reads.word node.norm).bind ((reads_uint32 hcount).bind ?_))))
  have htimes : Reads (Reader.times readList node.neighbors.length)
      (node.neighbors.flatMap fun list => writeUint32 list.length ++ list.flatMap writeUint32)
      node.neighbors := Reads.times fun list hlist =>
    reads_list (hlists list hlist).1 (hlists list hlist).2
  exact htimes.map fun neighbors =>
    (⟨node.id, node.reread.vec, node.reread.qvec, node.norm, node.layer, neighbors⟩ : Node)

theorem reads_entry {entry : Bytes × Nat} (hlength : entry.1.length < 2 ^ 32)
    (hid : entry.2 < 2 ^ 32) : Reads readEntry (writeEntry entry) entry :=
  (reads_string hlength).bind ((reads_uint32 hid).map fun internalID => (entry.1, internalID))

namespace Index

/-- Every length and number that `Save` writes fits into the bits it is written in. -/
structure Fits (h : Index) : Prop where
  distance : h.config.distance.length < 2 ^ 32
  dim : h.dim < 2 ^ 32
  maxLayer : h.maxLayer < 2 ^ 32
  deleted : -2 ^ 63 ≤ h.deletedCount ∧ h.deletedCount < 2 ^ 63
  count : h.storedNodes.length < 2 ^ 32
  nodes : ∀ node ∈ h.storedNodes, node.Fits
  entries : h.idToUint32.entries.length < 2 ^ 32
  ids : ∀ entry ∈ h.idToUint32.entries, entry.1.length < 2 ^ 32 ∧ entry.2 < 2 ^ 32

instance (h : Index) : Decidable (Fits h) :=
  decidable_of_iff
    (h.config.distance.length < 2 ^ 32 ∧ h.dim < 2 ^ 32 ∧ h.maxLayer < 2 ^ 32 ∧
      (-2 ^ 63 ≤ h.deletedCount ∧ h.deletedCount < 2 ^ 63) ∧ h.storedNodes.length < 2 ^ 32 ∧
      (∀ node ∈ h.storedNodes, node.Fits) ∧ h.idToUint32.entries.length < 2 ^ 32 ∧
      ∀ entry ∈ h.idToUint32.entries, entry.1.length < 2 ^ 32 ∧ entry.2 < 2 ^ 32)
    ⟨fun hall => ⟨hall.1, hall.2.1, hall.2.2.1, hall.2.2.2.1, hall.2.2.2.2.1, hall.2.2.2.2.2.1,
        hall.2.2.2.2.2.2.1, hall.2.2.2.2.2.2.2⟩,
      fun hfits => ⟨hfits.distance, hfits.dim, hfits.maxLayer, hfits.deleted, hfits.count,
        hfits.nodes, hfits.entries, hfits.ids⟩⟩

/-- What `Load` decodes from the bytes of `Save`. -/
def written (order : RangeOrder) (h : Index) : Decoded where
  config := ⟨(UInt32.ofInt h.config.m).toNat, (UInt32.ofInt h.config.efConstruction).toNat,
    (UInt32.ofInt h.config.efSearch).toNat, (UInt32.ofInt h.config.maxLevel).toNat,
    h.config.distance, h.config.persistNodes, h.config.enableNorms, h.config.normalizeVectors,
    h.config.quantizeVectors, false, 0, false, false⟩
  dim := h.dim
  entry := h.entry
  maxLayer := h.maxLayer
  deletedCount := h.deletedCount
  nextID := h.nextID
  nodes := (h.storedNodes.map Node.reread).map fun node => (node.id, node)
  idToUint32 := (idMaps (order.range h.idToUint32)).1
  uint32ToID := (idMaps (order.range h.idToUint32)).2

section

variable {h : Index} (hentry : h.entry < 2 ^ 32) (hnext : h.nextID < 2 ^ 32) (hfits : Fits h)
  (order : RangeOrder)

include hentry hnext hfits

theorem reads_snapshot :
    ∃ body, h.save order = hnswSnapshotMagic ++ hnswSnapshotVersion :: body ∧
      Reads (readSnapshot hnswSnapshotVersion) body (h.written order) := by
  have hlength : (order.range h.idToUint32).length = h.idToUint32.entries.length := by
    rw [RangeOrder.range, (order.perm _).length_eq, List.length_map]
  have hnodes : Reads (Reader.times (readNode hnswSnapshotVersion) h.storedNodes.length)
      (h.storedNodes.flatMap writeNode) (h.storedNodes.map Node.reread) :=
    Reads.times_map fun node hnode => reads_node (hfits.nodes node hnode)
  have hentries : Reads (Reader.times readEntry (order.range h.idToUint32).length)
      ((order.range h.idToUint32).flatMap writeEntry) (order.range h.idToUint32) := by
    refine Reads.times fun entry hmem => ?_
    obtain ⟨stored, hstored, rfl⟩ := List.mem_map.mp ((order.perm _).mem_iff.mp hmem)
    exact reads_entry (hfits.ids stored hstored).1 (hfits.ids stored hstored).2
  refine ⟨_, by rw [save, List.append_assoc]; rfl, ?_⟩
  simp only [List.append_assoc]
  refine (reads_int _).bind ((reads_int _).bind ((reads_int _).bind ((reads_int _).bind
    ((reads_string hfits.distance).bind ((reads_bool _).bind ((reads_bool _).bind
    ((reads_bool _).bind ((reads_bool _).bind ((reads_uint32 hfits.dim).bind
    ((reads_uint32 hentry).bind ((reads_uint32 hfits.maxLayer).bind
    ((reads_int64 hfits.deleted.1 hfits.deleted.2).bind ((reads_uint32 hnext).bind
    ((reads_uint32 hfits.count).bind (hnodes.bind
    ((reads_uint32 (by rw [hlength]; exact hfits.entries)).bind ?_))))))))))))))))
  exact hentries.map _

/-- `Load` of what `Save` wrote succeeds, and does not look at what follows. -/
theorem load_save_append (gob : Bytes → Option Decoded) (receiver : Index) (rest : Bytes) :
    load gob receiver (h.save order ++ rest) = .ok (receiver.install (h.written order)) := by
  obtain ⟨body, hsave, hreads⟩ := reads_snapshot hentry hnext hfits order
  have htake : (hnswSnapshotMagic ++ hnswSnapshotVersion :: body ++ rest).take 4 =
      hnswSnapshotMagic := rfl
  have hdrop : (hnswSnapshotMagic ++ hnswSnapshotVersion :: body ++ rest).drop 4 =
      hnswSnapshotVersion :: (body ++ rest) := rfl
  rw [load, hsave, htake, hdrop, beq_self_eq_true]
  simp only [ne_eq, not_true_eq_false, false_and, if_false, hreads rest]

end

theorem load_save {h : Index} (hcoherent : Coherent h) (hfits : Fits h) (order : RangeOrder)
    (gob : Bytes → Option Decoded) (receiver : Index) :
    load gob receiver (h.save order) = .ok (receiver.install (h.written order)) := by
  have hload := load_save_append (hcoherent.layered.entry_lt.trans hcoherent.bounded)
    hcoherent.bounded hfits order gob receiver []
  rw [List.append_nil] at hload
  exact hload

/-! ## The index that is loaded -/

theorem getElem?_putSlot (nodes : List (Option Node)) (id : Nat) (node : Node) (i : Nat) :
    (putSlot nodes (id, node))[i]?.join = if i = id then some node else nodes[i]?.join := by
  unfold putSlot
  rw [List.getElem?_set]
  by_cases hi : i = id
  · subst hi
    rw [if_pos rfl, if_pos rfl, if_pos (by simp; omega)]
    rfl
  · rw [if_neg (fun heq => hi heq.symm), if_neg hi, List.getElem?_append]
    split
    next => rfl
    next hge =>
      rw [@List.getElem?_eq_none _ nodes i (by omega), List.getElem?_replicate]
      split <;> rfl

/-- A slot filled by the loop of `Load` over nodes in distinct slots. -/
theorem getElem?_foldl_putSlot {entries : List (Nat × Node)} (nodes : List (Option Node))
    (hnodup : (entries.map Prod.fst).Nodup) (i : Nat) (node : Node) :
    (entries.foldl putSlot nodes)[i]?.join = some node ↔
      (i, node) ∈ entries ∨ i ∉ entries.map Prod.fst ∧ nodes[i]?.join = some node := by
  induction entries generalizing nodes with
  | nil => simp
  | cons first rest ih =>
      obtain ⟨id, stored⟩ := first
      rw [List.map_cons, List.nodup_cons] at hnodup
      rw [List.foldl_cons, ih _ hnodup.2, getElem?_putSlot, List.map_cons]
      by_cases hi : i = id
      · subst hi
        have hnot : ∀ other, (i, other) ∉ rest := fun other hmem =>
          hnodup.1 (List.mem_map.mpr ⟨(i, other), hmem, rfl⟩)
        have hnotMem : i ∉ rest.map Prod.fst := hnodup.1
        simp only [hnot, hnotMem, if_true, List.mem_cons, Prod.mk.injEq, true_and, false_or,
          or_false, not_false_eq_true, not_true_eq_false, false_and, Option.some.injEq]
        exact eq_comm
      · simp [hi]

theorem length_foldl_putSlot {entries : List (Nat × Node)} {nodes : List (Option Node)}
    (hbelow : ∀ entry ∈ entries, entry.1 < nodes.length) :
    (entries.foldl putSlot nodes).length = nodes.length := by
  induction entries generalizing nodes with
  | nil => rfl
  | cons first rest ih =>
      have hone : (putSlot nodes first).length = nodes.length := by
        have hlt := hbelow first List.mem_cons_self
        simp only [putSlot, List.length_set, List.length_append, List.length_replicate]
        omega
      rw [List.foldl_cons, ih, hone]
      intro entry hentry
      rw [hone]
      exact hbelow entry (List.mem_cons_of_mem _ hentry)

/-- The index `h'` is `h` as it was saved and loaded again, into an index with these flags. -/
structure Reloaded (receiver h h' : Index) : Prop where
  slot : ∀ i, h'.getNodeFast i = (h.getNodeFast i).map Node.reread
  ids : ∀ id, h'.idToUint32.lookup id = h.idToUint32.lookup id
  names : ∀ n, h'.uint32ToID.lookup n = h.uint32ToID.lookup n
  entry : h'.entry = h.entry
  maxLayer : h'.maxLayer = h.maxLayer
  nodeCount : h'.nodeCount = h.nodeCount
  deletedCount : h'.deletedCount = h.deletedCount
  nextID : h'.nextID = h.nextID
  dim : h'.dim = h.dim
  length : h'.nodes.length = h.nextID + 1
  cache : h'.extIDCache = (List.range h'.nodes.length).map fun id =>
    (h'.uint32ToID.lookup id).getD []
  config : h'.config = (h.written RangeOrder.stored).config
  metric : h'.metric = receiver.metric

variable {h : Index}

theorem mem_storedNodes (hlayered : Layered h) {node : Node} :
    node ∈ h.storedNodes ↔ h.getNodeFast node.id = some node := by
  constructor
  · intro hmem
    obtain ⟨slot, hslot, hsome⟩ := List.mem_filterMap.mp hmem
    obtain ⟨i, hi, rfl⟩ := List.getElem_of_mem hslot
    rw [nodes_getElem hi] at hsome
    have hget : h.getNodeFast i = some node := hsome
    rw [(hlayered.node i node hget).id]
    exact hget
  · intro hget
    have hlt := lt_length_of_getNodeFast hget
    refine List.mem_filterMap.mpr ⟨h.nodes[node.id], List.getElem_mem hlt, ?_⟩
    rw [nodes_getElem hlt]
    exact hget

theorem mem_storedNodes_of_slot (hlayered : Layered h) {i : Nat} {node : Node}
    (hnode : h.getNodeFast i = some node) : node ∈ h.storedNodes := by
  rw [mem_storedNodes hlayered, (hlayered.node i node hnode).id]
  exact hnode

theorem storedNodes_nodup (hlayered : Layered h) : (h.storedNodes.map Node.id).Nodup := by
  refine List.pairwise_map.mpr (List.pairwise_filterMap.mpr (List.pairwise_iff_getElem.mpr ?_))
  intro i j hi hj hlt first hfirst second hsecond
  rw [nodes_getElem hi] at hfirst
  rw [nodes_getElem hj] at hsecond
  rw [(hlayered.node i first hfirst).id, (hlayered.node j second hsecond).id]
  omega

theorem storedNodes_length : h.storedNodes.length = h.nodes.countP Option.isSome := by
  rw [storedNodes, List.length_filterMap_eq_countP]
  rfl

/-- The internal ids of the id map are distinct. -/
theorem Tables.range_nodup (htables : Tables h) (order : RangeOrder) :
    ((order.range h.idToUint32).map Prod.snd).Nodup := by
  refine List.Nodup.map_on ?_ (List.Nodup.of_map _ (order.range_keys_nodup h.idToUint32))
  rintro ⟨id, n⟩ hfirst ⟨id', n'⟩ hsecond heq
  have heq : n = n' := heq
  subst heq
  have hname := (htables.inverse id n).mp (RangeOrder.mem_range.mp hfirst)
  rw [(htables.inverse id' n).mp (RangeOrder.mem_range.mp hsecond)] at hname
  rw [Option.some.inj hname]

theorem reloaded_install (hcoherent : Coherent h) (order : RangeOrder) (receiver : Index) :
    Reloaded receiver h (receiver.install (h.written order)) := by
  have hids : (h.written order).nodes.map Prod.fst = h.storedNodes.map Node.id := by
    simp only [written, List.map_map]
    rfl
  have hbelow : ∀ entry ∈ (h.written order).nodes, entry.1 < h.nextID := by
    intro entry hentry
    have hid : entry.1 ∈ (h.written order).nodes.map Prod.fst := List.mem_map.mpr ⟨entry, hentry, rfl⟩
    rw [hids] at hid
    obtain ⟨node, hnode, heq⟩ := List.mem_map.mp hid
    rw [← heq]
    exact (hcoherent.layered.node node.id node ((mem_storedNodes hcoherent.layered).mp hnode)).lt
  have hempty : ∀ i : Nat, (List.replicate (h.nextID + 1) (none : Option Node))[i]?.join = none := by
    intro i
    rw [List.getElem?_replicate]
    split <;> rfl
  refine
    { slot := fun i => ?_
      ids := fun id => ?_
      names := fun n => ?_
      entry := rfl
      maxLayer := rfl
      nodeCount := ?_
      deletedCount := rfl
      nextID := rfl
      dim := rfl
      length := ?_
      cache := rfl
      config := rfl
      metric := rfl }
  · apply Option.ext
    intro node
    have hslot := getElem?_foldl_putSlot (List.replicate (h.nextID + 1) none)
      (by rw [hids]; exact storedNodes_nodup hcoherent.layered) i node
    rw [hempty] at hslot
    refine hslot.trans ?_
    simp only [written, List.map_map, List.mem_map, Function.comp, Prod.mk.injEq, reduceCtorEq,
      and_false, or_false, Option.map_eq_some_iff]
    constructor
    · rintro ⟨stored, hstored, rfl, rfl⟩
      exact ⟨stored, (mem_storedNodes hcoherent.layered).mp hstored, rfl⟩
    · rintro ⟨stored, hstored, rfl⟩
      exact ⟨stored, mem_storedNodes_of_slot hcoherent.layered hstored,
        (hcoherent.layered.node i stored hstored).id, rfl⟩
  · apply Option.ext
    intro n
    refine (GoMap.lookup_foldl_insert (order.range_keys_nodup h.idToUint32) ∅ id n).trans ?_
    rw [AList.lookup_empty]
    simp only [reduceCtorEq, and_false, or_false]
    rw [← @RangeOrder.mem_range _ _ _ order]
    constructor
    · rintro ⟨entry, hentry, rfl, rfl⟩
      exact hentry
    · intro hmem
      exact ⟨_, hmem, rfl, rfl⟩
  · apply Option.ext
    intro id
    refine (GoMap.lookup_foldl_insert (hcoherent.tables.range_nodup order) ∅ n id).trans ?_
    rw [AList.lookup_empty]
    simp only [reduceCtorEq, and_false, or_false]
    rw [← hcoherent.tables.inverse, ← @RangeOrder.mem_range _ _ _ order]
    constructor
    · rintro ⟨entry, hentry, rfl, rfl⟩
      exact hentry
    · intro hmem
      exact ⟨_, hmem, rfl, rfl⟩
  · have hlength : (h.written order).nodes.length = h.storedNodes.length := by
      simp [written]
    rw [hcoherent.tables.count, ← storedNodes_length, ← hlength]
    rfl
  · have hlong := @length_foldl_putSlot (h.written order).nodes
      (List.replicate (h.nextID + 1) none) (fun entry hentry => by
        rw [List.length_replicate]
        exact (hbelow entry hentry).trans (Nat.lt_succ_self _))
    rw [List.length_replicate] at hlong
    exact hlong

theorem countP_any (q : Node → Bool) (nodes : List (Option Node)) :
    nodes.countP (fun slot => slot.any q) = ((nodes.filterMap id).filter q).length := by
  induction nodes with
  | nil => rfl
  | cons slot rest ih =>
      cases slot with
      | none => simpa using ih
      | some node =>
          have hcons : (some node :: rest).filterMap id = node :: rest.filterMap id := rfl
          rw [List.countP_cons, ih, hcons, List.filter_cons]
          cases hq : q node <;> simp [hq]

/-- Two tables whose slots agree in a property hold as many nodes that have it. -/
theorem countP_of_slots {h' : Index} (hlayered : Layered h) (hlayered' : Layered h')
    {q : Node → Bool} (hsame : ∀ i, (h'.getNodeFast i).any q = (h.getNodeFast i).any q) :
    h'.nodes.countP (fun slot => slot.any q) = h.nodes.countP fun slot => slot.any q := by
  have hmem : ∀ {h : Index}, Layered h → ∀ i,
      i ∈ (h.storedNodes.filter q).map Node.id ↔ (h.getNodeFast i).any q = true := by
    intro h hlayered i
    rw [List.mem_map, Option.any_eq_true]
    constructor
    · rintro ⟨node, hnode, rfl⟩
      obtain ⟨hstored, hq⟩ := List.mem_filter.mp hnode
      exact ⟨node, (mem_storedNodes hlayered).mp hstored, hq⟩
    · rintro ⟨node, hstored, hq⟩
      exact ⟨node, List.mem_filter.mpr ⟨mem_storedNodes_of_slot hlayered hstored, hq⟩,
        (hlayered.node i node hstored).id⟩
  have hnodup : ∀ {h : Index}, Layered h → ((h.storedNodes.filter q).map Node.id).Nodup :=
    fun hlayered => (storedNodes_nodup hlayered).sublist (List.filter_sublist.map _)
  have hperm : ((h'.storedNodes.filter q).map Node.id).Perm
      ((h.storedNodes.filter q).map Node.id) := by
    refine (List.perm_ext_iff_of_nodup (hnodup hlayered') (hnodup hlayered)).mpr fun i => ?_
    rw [hmem hlayered', hmem hlayered, hsame]
  have hlength := hperm.length_eq
  rw [List.length_map, List.length_map] at hlength
  rw [countP_any, countP_any]
  exact hlength

/-- No stored vector is empty, so that each is read back. -/
def Solid (h : Index) : Prop :=
  ∀ node ∈ h.storedNodes, node.vec ≠ some [] ∧ node.qvec ≠ some []

instance (h : Index) : Decidable h.Solid := by
  delta Solid
  infer_instance

theorem live_reread {node : Node} (hvec : node.vec ≠ some []) (hqvec : node.qvec ≠ some []) :
    node.reread.live = node.live := by
  unfold Node.live Node.reread
  rcases hfloats : node.vec with _ | vec
  · rcases hcode : node.qvec with _ | qvec
    · rfl
    · cases qvec with
      | nil => exact absurd hcode hqvec
      | cons => rfl
  · cases vec with
    | nil => exact absurd hfloats hvec
    | cons => rfl

theorem live_of_reread {node : Node} (hlive : node.reread.live = true) : node.live = true := by
  obtain ⟨id, vec, qvec, norm, layer, neighbors⟩ := node
  cases vec with
  | some vec => rfl
  | none =>
      cases qvec with
      | some qvec => rfl
      | none => exact hlive

namespace Reloaded

variable {receiver h' : Index}

section

variable (hreloaded : Reloaded receiver h h')

include hreloaded

theorem layered (hlayered : Layered h) : Layered h' := by
  refine hlayered.weaken hreloaded.nextID (hreloaded.entry ▸ hlayered.entry_lt) ?_ ?_
  · intro i node' hnode'
    rw [hreloaded.slot] at hnode'
    obtain ⟨node, hnode, rfl⟩ := Option.map_eq_some_iff.mp hnode'
    exact ⟨node, hnode, rfl, rfl, rfl, fun l list hlist => ⟨list, hlist, List.Subset.refl _⟩⟩
  · intro node' hnode'
    rw [hreloaded.slot, hreloaded.entry] at hnode'
    obtain ⟨node, hnode, rfl⟩ := Option.map_eq_some_iff.mp hnode'
    rw [hreloaded.maxLayer]
    exact hlayered.entry node hnode

theorem flagged (hflags : Flagged h) (hsame : receiver.metric = h.metric) : Flagged h' := by
  have hmetric := hreloaded.metric.trans hsame
  simp only [Index.metric, Prod.mk.injEq] at hmetric
  obtain ⟨hcosine, hnormalized, hnorms, hquantize⟩ := hmetric
  refine ⟨?_, ?_, ?_, ?_, ?_⟩
  · rw [hcosine, hflags.isCosine, hreloaded.config]
    rfl
  · rw [hnormalized, hflags.isNormalized, hreloaded.config]
    rfl
  · rw [hnorms, hflags.useNorms, hreloaded.config]
    rfl
  · rw [hquantize, hflags.useQuantize, hreloaded.config]
    rfl
  · rw [hreloaded.config]
    exact hflags.quantized

theorem tables (hlayered : Layered h) (htables : Tables h) (hsame : receiver.metric = h.metric) :
    Tables h' where
  flags := hreloaded.flagged htables.flags hsame
  caches := by rw [hreloaded.cache, List.length_map, List.length_range]
  inverse id n := by
    rw [hreloaded.ids, hreloaded.names]
    exact htables.inverse id n
  handed n id hname := by
    rw [hreloaded.names] at hname
    rw [hreloaded.nextID]
    exact htables.handed n id hname
  node i node' hnode' := by
    have hlt := lt_length_of_getNodeFast hnode'
    rw [hreloaded.slot] at hnode'
    obtain ⟨node, hnode, rfl⟩ := Option.map_eq_some_iff.mp hnode'
    have hnamed := htables.node i node hnode
    obtain ⟨id, hname, _⟩ := hnamed.named
    have hname' : h'.uint32ToID.lookup i = some id := by
      rw [hreloaded.names]
      exact hname
    refine ⟨⟨id, hname', ?_⟩, fun vec hvec => ?_, fun qvec hqvec => ?_, fun hplain => ?_⟩
    · rw [hreloaded.cache, List.getElem?_map, List.getElem?_range hlt, Option.map_some, hname']
      rfl
    · rw [hreloaded.dim]
      exact hnamed.vec vec (Option.filter_eq_some_iff.mp hvec).1
    · rw [hreloaded.dim]
      have hqvec : (if node.vec.isSome then none else node.qvec.filter fun qvec => !qvec.isEmpty) =
          some qvec := hqvec
      split at hqvec
      next => cases hqvec
      next => exact hnamed.qvec qvec (Option.filter_eq_some_iff.mp hqvec).1
    · rw [hreloaded.config] at hplain
      have hnone := hnamed.plain hplain
      simp [Node.reread, hnone]
  count := by
    rw [hreloaded.nodeCount, htables.count]
    have hsome : ∀ slot : Option Node, slot.isSome = slot.any fun _ => true := by
      intro slot
      cases slot <;> rfl
    have hcount := @countP_of_slots h h' hlayered (hreloaded.layered hlayered) (fun _ => true)
      (fun i => by rw [← hsome, ← hsome, hreloaded.slot, Option.isSome_map])
    simp only [← hsome] at hcount
    rw [hcount]

theorem coherent (hcoherent : Coherent h) (hsame : receiver.metric = h.metric) : Coherent h' where
  layered := hreloaded.layered hcoherent.layered
  tables := hreloaded.tables hcoherent.layered hcoherent.tables hsame
  bounded := by
    rw [hreloaded.nextID]
    exact hcoherent.bounded

theorem getNode (hlayered : Layered h) (hsolid : h.Solid) (i : Nat) :
    h'.getNode i = (h.getNode i).map Node.reread := by
  rw [Index.getNode, hreloaded.slot, Index.getNode]
  cases hnode : h.getNodeFast i with
  | none => rfl
  | some node =>
      have hstored := mem_storedNodes_of_slot hlayered hnode
      have hlive := live_reread (hsolid node hstored).1 (hsolid node hstored).2
      simp only [Option.map_some, Option.filter_some, hlive]
      split <;> rfl

/-- What is loaded has no live ids of its own. -/
theorem live {id : Bytes} (hlive : Live h' id) :
    Live h id := by
  obtain ⟨n, node', hlookup, hnode'⟩ := hlive
  rw [hreloaded.ids] at hlookup
  obtain ⟨hfast, hlive⟩ := getNode_eq_some.mp hnode'
  rw [hreloaded.slot] at hfast
  obtain ⟨node, hnode, rfl⟩ := Option.map_eq_some_iff.mp hfast
  exact ⟨n, node, hlookup, getNode_eq_some.mpr ⟨hnode, live_of_reread hlive⟩⟩

theorem live_iff (hlayered : Layered h) (hsolid : h.Solid) (id : Bytes) :
    Live h' id ↔ Live h id := by
  refine ⟨hreloaded.live, ?_⟩
  rintro ⟨n, node, hlookup, hnode⟩
  refine ⟨n, node.reread, ?_, ?_⟩
  · rw [hreloaded.ids]
    exact hlookup
  · rw [hreloaded.getNode hlayered hsolid, hnode]
    rfl

theorem deletedNodes (hlayered : Layered h) (hsolid : h.Solid) :
    h'.deletedNodes = h.deletedNodes := by
  refine countP_of_slots hlayered (hreloaded.layered hlayered) fun i => ?_
  rw [hreloaded.slot]
  cases hnode : h.getNodeFast i with
  | none => rfl
  | some node =>
      have hstored := mem_storedNodes_of_slot hlayered hnode
      simp [live_reread (hsolid node hstored).1 (hsolid node hstored).2]

end

end Reloaded

/-- The loaded index restores the nodes, the id maps, the entry point and the counters. -/
structure Restores (h h' : Index) : Prop where
  slot : ∀ i, h'.getNodeFast i = h.getNodeFast i
  ids : ∀ id, h'.idToUint32.lookup id = h.idToUint32.lookup id
  names : ∀ n, h'.uint32ToID.lookup n = h.uint32ToID.lookup n
  entry : h'.entry = h.entry
  maxLayer : h'.maxLayer = h.maxLayer
  nodeCount : h'.nodeCount = h.nodeCount
  deletedCount : h'.deletedCount = h.deletedCount
  nextID : h'.nextID = h.nextID

/-- Every node has one vector at most, and that one is not empty. -/
def Single (h : Index) : Prop :=
  ∀ node ∈ h.storedNodes, (node.vec = none ∨ node.qvec = none) ∧ node.vec ≠ some [] ∧
    node.qvec ≠ some []

instance (h : Index) : Decidable h.Single := by
  delta Single
  infer_instance

theorem reread_eq_iff {node : Node} : node.reread = node ↔
    (node.vec = none ∨ node.qvec = none) ∧ node.vec ≠ some [] ∧ node.qvec ≠ some [] := by
  obtain ⟨id, vec, qvec, norm, layer, neighbors⟩ := node
  rcases vec with _ | _ | ⟨first, rest⟩ <;> rcases qvec with _ | _ | ⟨first', rest'⟩ <;>
    simp [Node.reread]

/-- What is loaded is what was saved exactly if no node has two vectors or an empty one. -/
theorem Reloaded.restores_iff {receiver h' : Index} (hreloaded : Reloaded receiver h h')
    (hlayered : Layered h) : Restores h h' ↔ h.Single := by
  constructor
  · intro hrestores node hnode
    have hstored := (mem_storedNodes hlayered).mp hnode
    have hslot := hrestores.slot node.id
    rw [hreloaded.slot, hstored, Option.map_some] at hslot
    exact reread_eq_iff.mp (Option.some.inj hslot)
  · intro hsingle
    refine ⟨fun i => ?_, hreloaded.ids, hreloaded.names, hreloaded.entry, hreloaded.maxLayer,
      hreloaded.nodeCount, hreloaded.deletedCount, hreloaded.nextID⟩
    rw [hreloaded.slot]
    cases hnode : h.getNodeFast i with
    | none => rfl
    | some node =>
        have hstored := mem_storedNodes_of_slot hlayered hnode
        rw [Option.map_some, reread_eq_iff.mpr (hsingle node hstored)]

end Index

end Vectron.Hnsw
