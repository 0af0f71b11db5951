import Vectron.Segment.Files
import Vectron.Worker.Codec

/-! # The bytes of a payload

`vectors.bin` has one record for each vector: its length, and its words. A read takes an offset
from another file and a length from the record, and checks both.
-/

namespace Vectron.Segment.Mapped

open Foundation Bounded Worker Worker.Codec

/-- `writeVectorPayload`. -/
def writeVectorPayload (vec : Worker.Vector) : Bytes :=
  putUint32 (UInt32.ofNat vec.length) ++ vec.flatMap putUint32

/-- `vectorAtLocked` behind its checks of the offset. -/
def readRecord (mapped : Bytes) (off : Nat) : Except OutOfRange (Except String Worker.Vector) := do
  let buf ← slice mapped off mapped.length
  let n ← wordAt buf 0
  if buf.length < 4 + n.toNat * 4 then pure (.error "invalid vector payload size")
  else
    let vec ← primaryWords buf n.toNat 0 4 (zeros n.toNat)
    pure (.ok vec)

/-- `vectorAtLocked`. Behind the first check of an offset the second one does not wrap around. -/
def vectorAtLocked (offsets : List Nat) (mapped : Bytes) (i : Nat) :
    Except OutOfRange (Except String Worker.Vector) :=
  match offsets[i]? with
  | none => .ok (.error "vector index out of range")
  | some off =>
      if mapped.length = 0 then .ok (.error "vector index out of range")
      else if mapped.length < off ∨ mapped.length < off + 4 then
        .ok (.error "invalid vector offset")
      else readRecord mapped off

/-- `VectorByID`. -/
def vectorByID (seg : ImmutableSegment) (mapped id : Bytes) :
    Except OutOfRange (Option Worker.Vector) :=
  match seg.idIndex id with
  | none => .ok none
  | some i => (vectorAtLocked seg.offsets mapped i).map Except.toOption

theorem length_writeVectorPayload (vec : Worker.Vector) :
    (writeVectorPayload vec).length = payloadBytes vec := by
  rw [writeVectorPayload, List.length_append, length_flatMap_putUint32, putUint32_length,
    payloadBytes]

/-- A read stays inside the mapped bytes. -/
theorem readRecord_eq {mapped : Bytes} {off : Nat} (hle : off + 4 ≤ mapped.length) :
    readRecord mapped off =
      .ok (if mapped.length - off < 4 + (uint32 (mapped.drop off)).toNat * 4 then
          .error "invalid vector payload size"
        else .ok (words (uint32 (mapped.drop off)).toNat ((mapped.drop off).drop 4))) := by
  have hslice : slice mapped off mapped.length = .ok (mapped.drop off) := by
    rw [slice, if_pos ⟨by omega, le_rfl⟩, List.take_of_length_le (by simp)]
  have hlength : (mapped.drop off).length = mapped.length - off := List.length_drop
  have hword : wordAt (mapped.drop off) 0 = .ok (uint32 (mapped.drop off)) :=
    wordAt_of_le (by omega)
  rw [readRecord, hslice, ok_bind, hword, ok_bind, hlength]
  generalize (uint32 (mapped.drop off)).toNat = n
  split
  next _ => rfl
  next _ =>
    have hwords : primaryWords (mapped.drop off) n 0 4 (zeros n) = _ :=
      (primaryWords_eq_fill _ n 0 _).trans (fill_words (by omega) (length_zeros n))
    rw [hwords]
    rfl

theorem readRecord_written (front rest : Bytes) {vec : Worker.Vector} (hshort : vec.length < 2 ^ 32) :
    readRecord (front ++ (writeVectorPayload vec ++ rest)) front.length = .ok (.ok vec) := by
  have hlength := length_writeVectorPayload vec
  rw [payloadBytes] at hlength
  have hcount : (uint32 (writeVectorPayload vec ++ rest)).toNat = vec.length := by
    rw [writeVectorPayload, List.append_assoc, uint32_putUint32_append]
    exact Nat.mod_eq_of_lt hshort
  have hdrop : (writeVectorPayload vec ++ rest).drop 4 = vec.flatMap putUint32 ++ rest := rfl
  rw [readRecord_eq (by simp only [List.length_append]; omega), List.drop_left, hcount, hdrop,
    words_flatMap, if_neg (by simp only [List.length_append]; omega)]

/-- Every vector is read where it begins. -/
theorem readRecord_offsetsFrom {vectors : List Worker.Vector}
    (hshort : ∀ vec ∈ vectors, vec.length < 2 ^ 32) (front : Bytes) {i off : Nat}
    (hoff : (offsetsFrom front.length vectors)[i]? = some off) :
    let mapped := front ++ vectors.flatMap writeVectorPayload
    ∃ vec, vectors[i]? = some vec ∧ off + 4 ≤ mapped.length ∧
      readRecord mapped off = .ok (.ok vec) := by
  induction vectors generalizing front i with
  | nil => cases hoff
  | cons vec rest ih =>
      have hlength := length_writeVectorPayload vec
      cases i with
      | zero =>
          cases hoff
          refine ⟨vec, rfl, ?_, readRecord_written front _ (hshort vec List.mem_cons_self)⟩
          rw [payloadBytes] at hlength
          simp only [List.flatMap_cons, List.length_append]
          omega
      | succ i =>
          rw [List.flatMap_cons, ← List.append_assoc]
          apply ih fun other hother => hshort other (List.mem_cons_of_mem _ hother)
          rw [List.length_append, hlength]
          exact hoff

theorem vectorAtLocked_in_bounds (offsets : List Nat) (mapped : Bytes) (i : Nat) :
    ∃ answer, vectorAtLocked offsets mapped i = .ok answer := by
  rw [vectorAtLocked]
  repeat' split
  · exact ⟨_, rfl⟩
  · exact ⟨_, rfl⟩
  · exact ⟨_, rfl⟩
  · rw [readRecord_eq (by omega)]
    exact ⟨_, rfl⟩

/-- A segment that is loaded from the bytes of its vectors finds under every id the vector that was
written last for it, and none under another id. Whatever is in the files, no read leaves the mapped
bytes. -/
theorem payload_read_back (id : SegmentID) (hnsw : Hnsw) (docs : List (Bytes × Worker.Vector))
    (info : SegmentMeta) (hshort : ∀ doc ∈ docs, doc.2.length < 2 ^ 32) :
    let mapped := (docs.map Prod.snd).flatMap writeVectorPayload
    (∀ key, vectorByID (.ofDocs id hnsw docs info) mapped key =
      .ok ((latest Prod.fst docs key).map Prod.snd)) ∧
      ∀ offsets mapped i, ∃ answer, vectorAtLocked offsets mapped i = .ok answer := by
  refine ⟨fun key => ?_, vectorAtLocked_in_bounds⟩
  have hvectors : ∀ vec ∈ docs.map Prod.snd, vec.length < 2 ^ 32 := by
    intro vec hvec
    obtain ⟨doc, hdoc, rfl⟩ := List.mem_map.mp hvec
    exact hshort doc hdoc
  rw [← @vectorByID_ofDocs id hnsw docs info key, vectorByID, ImmutableSegment.vectorByID]
  cases ImmutableSegment.idIndex (.ofDocs id hnsw docs info) key with
  | none => rfl
  | some i =>
      simp only [Option.bind_eq_bind, Option.bind_some, vectorAtLocked,
        ImmutableSegment.vectorAtLocked, ImmutableSegment.ofDocs]
      cases hoff : (offsetsFrom 0 (docs.map Prod.snd))[i]? with
      | none => rfl
      | some off =>
          obtain ⟨vec, hvec, hle, hread⟩ := readRecord_offsetsFrom hvectors [] hoff
          rw [List.nil_append] at hle hread
          have hrecord := recordAt_offsetsFrom 0 (docs.map Prod.snd) hoff
          rw [Nat.sub_zero, hvec] at hrecord
          simp only [Option.bind_some, hrecord, hread]
          rw [if_neg (by omega), if_neg (by omega)]
          rfl

/-- Three documents, the last of which has the id of the first. -/
theorem payload_read_back_again :
    let segment := ImmutableSegment.ofDocs ⟨0, 0⟩ (Worker.Hnsw.new lineSettings.config.index)
      [([7], [1, 2]), ([8], [3]), ([7], [4, 5])] ⟨0, 0⟩
    let mapped : Bytes := [2, 0, 0, 0, 1, 0, 0, 0, 2, 0, 0, 0, 1, 0, 0, 0, 3, 0, 0, 0,
      2, 0, 0, 0, 4, 0, 0, 0, 5, 0, 0, 0]
    vectorByID segment mapped [7] = .ok (some [4, 5]) ∧
      vectorByID segment mapped [8] = .ok (some [3]) ∧ vectorByID segment mapped [9] = .ok none := by
  intro segment mapped
  have hread := (payload_read_back ⟨0, 0⟩ (Worker.Hnsw.new lineSettings.config.index)
    [([7], [1, 2]), ([8], [3]), ([7], [4, 5])] ⟨0, 0⟩ (by decide)).1
  exact ⟨hread [7], hread [8], hread [9]⟩

end Vectron.Segment.Mapped
