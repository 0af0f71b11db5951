import Vectron.Foundation.Latest
import Vectron.Worker.Index

/-! # The files of a segment

A sealed segment is a directory of five files: the saved index, the vectors one after the
other, where each of them begins, the ids in the same order, and the times of the segment.
Sealing and compaction write these files one after the other, so that a process that stops
leaves some of them out or unfinished.
-/

namespace Vectron.Segment

open Foundation
open Worker (Arithmetic Hnsw IndexConfig Vector)

/-- `SegmentID`, which spells out the clock and the counter of `GenerateSegmentID`. -/
structure SegmentID where
  now : Nat
  seq : Nat
  deriving DecidableEq, Repr

/-- The times in `SegmentMeta`, in nanoseconds; 0 is the zero time. -/
structure SegmentMeta where
  createdAt : Nat
  sealedAt : Nat
  deriving DecidableEq, Repr

/-- What a shard is configured with. -/
structure Config where
  arith : Arithmetic
  /-- `Dimension` and `HNSWConfig` -/
  index : IndexConfig
  /-- segments do not set `KeepFloatVectors` -/
  no_floats : index.keepFloatVectors = false
  maxVectors : Int
  maxBytes : Int
  maxAge : Nat
  compactionFanIn : Int
  shardID : UInt64
  ns : Bytes
  /-- `VECTRON_SEGMENT_ASYNC_INDEX` -/
  asyncIndex : Bool
  /-- `VECTRON_SEGMENT_INDEX_QUEUE_SIZE` -/
  queueSize : Nat
  /-- the vector `decodePrimaryVector` reads from the value the store keeps for a vector,
  which is another one if values are compressed -/
  stored : Vector → Vector
  stored_length : ∀ vec, (stored vec).length = vec.length

/-- `NewHNSW` with the options of a segment. -/
def Config.newIndex (c : Config) : Hnsw := Hnsw.new c.index

/-! ## Directories -/

/-- A file that is written in one go. -/
inductive File (α : Type) where
  | absent
  | torn
  | whole (contents : α)

structure SegmentDir where
  /-- `index.hnsw` -/
  index : File Hnsw
  /-- `vectors.bin` as far as it is written -/
  vectors : List Vector
  /-- `offsets.bin` as far as it is written -/
  offsets : List Nat
  /-- `ids.json` -/
  ids : File (List Bytes)
  /-- `meta.json` -/
  info : File SegmentMeta

/-- The segment directories of a shard. -/
abbrev Disk := GoMap SegmentID SegmentDir

def SegmentDir.empty : SegmentDir := ⟨.absent, [], [], .absent, .absent⟩

/-- One write to a file of a segment. A file that is replaced is empty first. -/
inductive FileWrite where
  | tearIndex
  | index (hnsw : Hnsw)
  | createVectors
  | vector (vec : Vector)
  | createOffsets
  | offset (off : Nat)
  | tearIds
  | ids (ids : List Bytes)
  | tearInfo
  | info (info : SegmentMeta)

namespace SegmentDir

def write (dir : SegmentDir) : FileWrite → SegmentDir
  | .tearIndex => { dir with index := .torn }
  | .index hnsw => { dir with index := .whole hnsw }
  | .createVectors => { dir with vectors := [] }
  | .vector vec => { dir with vectors := dir.vectors ++ [vec] }
  | .createOffsets => { dir with offsets := [] }
  | .offset off => { dir with offsets := dir.offsets ++ [off] }
  | .tearIds => { dir with ids := .torn }
  | .ids ids => { dir with ids := .whole ids }
  | .tearInfo => { dir with info := .torn }
  | .info info => { dir with info := .whole info }

end SegmentDir

/-- One step on the disk. -/
inductive DiskStep where
  | mkdir (id : SegmentID)
  | write (id : SegmentID) (write : FileWrite)
  | removeAll (id : SegmentID)

namespace Disk

def apply (disk : Disk) : DiskStep → Disk
  | .mkdir id => disk.insert id ((disk.lookup id).getD SegmentDir.empty)
  | .write id write =>
      match disk.lookup id with
      | some dir => disk.insert id (dir.write write)
      | none => disk
  | .removeAll id => disk.erase id

/-- All of a list of steps. -/
def applyAll (disk : Disk) (steps : List DiskStep) : Disk := steps.foldl apply disk

end Disk

/-! ## The payload -/

/-- The bytes `writeVectorPayload` writes. -/
def payloadBytes (vec : Vector) : Nat := 4 + vec.length * 4

/-- Where vectors begin that are written from a place on. -/
def offsetsFrom : Nat → List Vector → List Nat
  | _, [] => []
  | off, vec :: rest => off :: offsetsFrom (off + payloadBytes vec) rest

/-- The vector that begins at an offset of `vectors.bin`. -/
def recordAt : List Vector → Nat → Option Vector
  | [], _ => none
  | vec :: rest, off =>
      if off = 0 then some vec
      else if payloadBytes vec ≤ off then recordAt rest (off - payloadBytes vec)
      else none

theorem offsetsFrom_length (off : Nat) (vectors : List Vector) :
    (offsetsFrom off vectors).length = vectors.length := by
  induction vectors generalizing off with
  | nil => rfl
  | cons vec rest ih => rw [offsetsFrom, List.length_cons, ih, List.length_cons]

theorem le_of_mem_offsetsFrom {off base : Nat} {vectors : List Vector}
    (hoff : off ∈ offsetsFrom base vectors) : base ≤ off := by
  induction vectors generalizing base with
  | nil => cases hoff
  | cons vec rest ih =>
      rcases List.mem_cons.mp hoff with rfl | hrest
      · exact le_rfl
      · exact le_trans (Nat.le_add_right _ _) (ih hrest)

/-- Every vector is found again where it begins. -/
theorem recordAt_offsetsFrom (base : Nat) (vectors : List Vector) {i off : Nat}
    (hoff : (offsetsFrom base vectors)[i]? = some off) :
    recordAt vectors (off - base) = vectors[i]? := by
  induction vectors generalizing base i with
  | nil => cases hoff
  | cons vec rest ih =>
      cases i with
      | zero =>
          cases hoff
          rw [Nat.sub_self]
          rfl
      | succ i =>
          rw [offsetsFrom, List.getElem?_cons_succ] at hoff
          have hle := le_of_mem_offsetsFrom (List.mem_of_getElem? hoff)
          have hpos : 0 < payloadBytes vec := by
            unfold payloadBytes
            omega
          rw [recordAt, if_neg (by omega), if_pos (by omega), List.getElem?_cons_succ,
            ← ih (base + payloadBytes vec) hoff]
          congr 1
          omega

/-! ## Immutable segments -/

structure ImmutableSegment where
  id : SegmentID
  hnsw : Hnsw
  vectors : List Vector
  offsets : List Nat
  ids : List Bytes
  info : SegmentMeta

namespace ImmutableSegment

/-- `vectorAtLocked`. -/
def vectorAtLocked (seg : ImmutableSegment) (i : Nat) : Option Vector := do
  let off ← seg.offsets[i]?
  recordAt seg.vectors off

/-- `idIndex`: where an id stands last. -/
def idIndex (seg : ImmutableSegment) (id : Bytes) : Option Nat :=
  (latest Prod.fst seg.ids.zipIdx id).map Prod.snd

/-- `VectorByID`. -/
def vectorByID (seg : ImmutableSegment) (id : Bytes) : Option Vector := do
  let i ← seg.idIndex id
  seg.vectorAtLocked i

end ImmutableSegment

/-- `LoadImmutableSegment`. A missing index is an empty one, and unreadable times are none. -/
def loadImmutableSegment (c : Config) (disk : Disk) (id : SegmentID) : Option ImmutableSegment := do
  let dir ← disk.lookup id
  let hnsw ← match dir.index with
    | .absent => some c.newIndex
    | .torn => none
    | .whole hnsw => some hnsw.reloaded
  let ids ← match dir.ids with
    | .absent => some []
    | .torn => none
    | .whole ids => some ids
  let info := match dir.info with
    | .whole info => info
    | _ => ⟨0, 0⟩
  pure ⟨id, hnsw, dir.vectors, dir.offsets, ids, info⟩

/-- A directory with all of its files, for the documents it was written with. -/
structure SegmentDir.Holds (dir : SegmentDir) (hnsw : Hnsw) (docs : List (Bytes × Vector))
    (info : SegmentMeta) : Prop where
  index : dir.index = .whole hnsw
  vectors : dir.vectors = docs.map Prod.snd
  offsets : dir.offsets = offsetsFrom 0 (docs.map Prod.snd)
  ids : dir.ids = .whole (docs.map Prod.fst)
  info : dir.info = .whole info

/-- A segment with these documents. -/
def ImmutableSegment.ofDocs (id : SegmentID) (hnsw : Hnsw) (docs : List (Bytes × Vector))
    (info : SegmentMeta) : ImmutableSegment :=
  ⟨id, hnsw.reloaded, docs.map Prod.snd, offsetsFrom 0 (docs.map Prod.snd), docs.map Prod.fst, info⟩

section Load

variable {c : Config} {disk : Disk} {id : SegmentID} {hnsw : Hnsw} {docs : List (Bytes × Vector)}
  {info : SegmentMeta}

/-- What was written is loaded. -/
theorem SegmentDir.Holds.load {dir : SegmentDir} (hholds : dir.Holds hnsw docs info)
    (hdir : disk.lookup id = some dir) :
    loadImmutableSegment c disk id = some (.ofDocs id hnsw docs info) := by
  unfold loadImmutableSegment
  rw [hdir]
  simp only [Option.bind_eq_bind, Option.bind_some, hholds.index, hholds.vectors, hholds.offsets,
    hholds.ids, hholds.info]
  rfl

/-- A segment gives back the document that was written last for an id. -/
theorem vectorByID_ofDocs (key : Bytes) :
    (ImmutableSegment.ofDocs id hnsw docs info).vectorByID key =
      (latest Prod.fst docs key).map Prod.snd := by
  have hzip : (docs.map Prod.fst).zipIdx =
      docs.zipIdx.map fun entry => (entry.1.1, entry.2) := by
    rw [List.zipIdx_map]
    rfl
  have hindex : (ImmutableSegment.ofDocs id hnsw docs info).idIndex key =
      (latest (Prod.fst ∘ Prod.fst) docs.zipIdx key).map Prod.snd := by
    have hread : (ImmutableSegment.ofDocs id hnsw docs info).idIndex key =
        (latest Prod.fst (docs.map Prod.fst).zipIdx key).map Prod.snd := rfl
    rw [hread, hzip, latest_map, Option.map_map]
    rfl
  have hdocs : latest Prod.fst docs key =
      (latest (Prod.fst ∘ Prod.fst) docs.zipIdx key).map Prod.fst := by
    rw [← latest_map, List.zipIdx_map_fst]
  unfold ImmutableSegment.vectorByID
  rw [hindex, hdocs, Option.map_map]
  cases hlatest : latest (Prod.fst ∘ Prod.fst) docs.zipIdx key with
  | none => rfl
  | some entry =>
      obtain ⟨hmem, _⟩ := mem_of_latest hlatest
      have hget : docs[entry.2]? = some entry.1 := List.mem_zipIdx_iff_getElem?.mp hmem
      have hvec : (docs.map Prod.snd)[entry.2]? = some entry.1.2 := by
        rw [List.getElem?_map, hget]
        rfl
      have hlt : entry.2 < (offsetsFrom 0 (docs.map Prod.snd)).length := by
        rw [offsetsFrom_length]
        exact (List.getElem?_eq_some_iff.mp hvec).1
      have hoff := List.getElem?_eq_getElem hlt
      have hrecord := recordAt_offsetsFrom 0 (docs.map Prod.snd) hoff
      simp only [Option.map_some, Option.bind_eq_bind, Option.bind_some,
        ImmutableSegment.vectorAtLocked, ImmutableSegment.ofDocs, hoff, Function.comp_apply]
      rw [← hvec, ← hrecord, Nat.sub_zero]

theorem ids_ofDocs : (ImmutableSegment.ofDocs id hnsw docs info).ids = docs.map Prod.fst := rfl

end Load

/-! ## Writing a segment -/

/-- The writes of `persistVectors` up to the ids. -/
def payloadWrites (docs : List (Bytes × Vector)) : List FileWrite :=
  [.createVectors, .createOffsets] ++ (docs.map fun doc => .vector doc.2) ++
    ((offsetsFrom 0 (docs.map Prod.snd)).map FileWrite.offset) ++
    [.tearIds, .ids (docs.map Prod.fst)]

/-- The writes of `Seal`. -/
def sealWrites (hnsw : Hnsw) (docs : List (Bytes × Vector)) (info : SegmentMeta) : List FileWrite :=
  [.tearIndex, .index hnsw] ++ payloadWrites docs ++ [.tearInfo, .info info]

/-- The writes of `compactSegments`. -/
def compactWrites (hnsw : Hnsw) (docs : List (Bytes × Vector)) (info : SegmentMeta) :
    List FileWrite :=
  payloadWrites docs ++ [.tearIndex, .index hnsw] ++ [.tearInfo, .info info]

def SegmentDir.writeAll (dir : SegmentDir) (writes : List FileWrite) : SegmentDir :=
  writes.foldl SegmentDir.write dir

namespace SegmentDir

section

variable (dir : SegmentDir)

theorem writeAll_append (first second : List FileWrite) :
    dir.writeAll (first ++ second) = (dir.writeAll first).writeAll second :=
  List.foldl_append

theorem writeAll_vectors (docs : List (Bytes × Vector)) :
    dir.writeAll (docs.map fun doc => .vector doc.2) =
      { dir with vectors := dir.vectors ++ docs.map Prod.snd } := by
  induction docs generalizing dir with
  | nil => simp [writeAll]
  | cons doc rest ih =>
      have hcons : dir.writeAll ((doc :: rest).map fun doc => .vector doc.2) =
          (dir.write (.vector doc.2)).writeAll (rest.map fun doc => .vector doc.2) := rfl
      rw [hcons, ih]
      simp [write]

theorem writeAll_offsets (offsets : List Nat) :
    dir.writeAll (offsets.map FileWrite.offset) =
      { dir with offsets := dir.offsets ++ offsets } := by
  induction offsets generalizing dir with
  | nil => simp [writeAll]
  | cons off rest ih =>
      have hcons : dir.writeAll ((off :: rest).map FileWrite.offset) =
          (dir.write (.offset off)).writeAll (rest.map FileWrite.offset) := rfl
      rw [hcons, ih]
      simp [write]

theorem writeAll_payload (docs : List (Bytes × Vector)) :
    dir.writeAll (payloadWrites docs) =
      { dir with
        vectors := docs.map Prod.snd
        offsets := offsetsFrom 0 (docs.map Prod.snd)
        ids := .whole (docs.map Prod.fst) } := by
  have hstart : dir.writeAll [.createVectors, .createOffsets] =
      { dir with vectors := [], offsets := [] } := rfl
  rw [payloadWrites, writeAll_append, writeAll_append, writeAll_append, hstart, writeAll_vectors,
    writeAll_offsets]
  rfl

theorem holds_sealWrites (hnsw : Hnsw) (docs : List (Bytes × Vector)) (info : SegmentMeta) :
    (dir.writeAll (sealWrites hnsw docs info)).Holds hnsw docs info := by
  rw [sealWrites, writeAll_append, writeAll_append, writeAll_payload]
  exact ⟨rfl, rfl, rfl, rfl, rfl⟩

theorem holds_compactWrites (hnsw : Hnsw) (docs : List (Bytes × Vector)) (info : SegmentMeta) :
    (dir.writeAll (compactWrites hnsw docs info)).Holds hnsw docs info := by
  rw [compactWrites, writeAll_append, writeAll_append, writeAll_payload]
  exact ⟨rfl, rfl, rfl, rfl, rfl⟩

end

end SegmentDir

namespace Disk

variable {disk : Disk}

theorem applyAll_append (first second : List DiskStep) :
    disk.applyAll (first ++ second) = (disk.applyAll first).applyAll second :=
  List.foldl_append

/-- Writes to one directory. -/
theorem lookup_applyAll_writes {id : SegmentID} {dir : SegmentDir}
    (hdir : disk.lookup id = some dir) (writes : List FileWrite) (other : SegmentID) :
    (disk.applyAll (writes.map (DiskStep.write id))).lookup other =
      if other = id then some (dir.writeAll writes) else disk.lookup other := by
  induction writes generalizing disk dir with
  | nil =>
      split
      next heq =>
        rw [heq]
        exact hdir
      next => rfl
  | cons write rest ih =>
      have hstep : disk.applyAll ((write :: rest).map (DiskStep.write id)) =
          Disk.applyAll (disk.insert id (dir.write write)) (rest.map (DiskStep.write id)) := by
        simp only [applyAll, List.map_cons, List.foldl_cons, apply, hdir]
      rw [hstep, ih (AList.lookup_insert disk)]
      split
      next => rfl
      next hne => rw [AList.lookup_insert_ne hne]

theorem lookup_applyAll_removals (ids : List SegmentID) (other : SegmentID) :
    (disk.applyAll (ids.map DiskStep.removeAll)).lookup other =
      if other ∈ ids then none else disk.lookup other := by
  induction ids generalizing disk with
  | nil => rfl
  | cons id rest ih =>
      have hstep : disk.applyAll ((id :: rest).map DiskStep.removeAll) =
          Disk.applyAll (disk.erase id) (rest.map DiskStep.removeAll) := rfl
      rw [hstep, ih, GoMap.lookup_erase_if]
      by_cases hrest : other ∈ rest
      · simp [hrest]
      · by_cases hid : other = id
        · simp [hid]
        · simp [hrest, hid]

end Disk

end Vectron.Segment
