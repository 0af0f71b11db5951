import Vectron.Foundation.Backed
import Vectron.Segment.Tombstones

/-! # Compaction

Compaction merges the segments at the front of the manifest into a new one and removes their
directories. Where several of them have a document, the one furthest back in the manifest
counts. The loop that takes the merged segments off the manifest runs over a slice of the
list it changes.
-/

namespace Vectron.Segment

open Foundation
open Worker (Hnsw Pebble Vector kept)

/-! ## Documents -/

/-- The vector written last for an id. -/
def docOf (docs : List (Bytes × Vector)) (id : Bytes) : Option Vector :=
  (latest Prod.fst docs id).map Prod.snd

@[simp] theorem docOf_nil (id : Bytes) : docOf [] id = none := rfl

theorem docOf_concat (docs : List (Bytes × Vector)) (doc : Bytes × Vector) (id : Bytes) :
    docOf (docs ++ [doc]) id = if id = doc.1 then some doc.2 else docOf docs id := by
  rw [docOf, latest_concat]
  by_cases hid : doc.1 = id
  · rw [if_pos hid, if_pos hid.symm]
    rfl
  · rw [if_neg hid, if_neg (Ne.symm hid)]
    rfl

theorem docOf_eq_none {docs : List (Bytes × Vector)} {id : Bytes} :
    docOf docs id = none ↔ id ∉ docs.map Prod.fst := by
  rw [docOf, Option.map_eq_none_iff, latest_eq_none]
  constructor
  · rintro hall hmem
    obtain ⟨doc, hdoc, rfl⟩ := List.mem_map.mp hmem
    exact hall doc hdoc rfl
  · intro hnot doc hdoc heq
    exact hnot (List.mem_map.mpr ⟨doc, hdoc, heq⟩)

theorem isSome_docOf {docs : List (Bytes × Vector)} {id : Bytes} :
    (docOf docs id).isSome ↔ id ∈ docs.map Prod.fst := by
  have hnone := @docOf_eq_none docs id
  cases hdoc : docOf docs id with
  | none
  | some vec => simpa [hdoc] using hnone

/-- A segment has a vector only for an id it lists. -/
theorem mem_ids_of_vectorByID {seg : ImmutableSegment} {id : Bytes} {vec : Vector}
    (hvec : seg.vectorByID id = some vec) : id ∈ seg.ids := by
  obtain ⟨i, hindex, _⟩ := Option.bind_eq_some_iff.mp hvec
  obtain ⟨entry, hlatest, _⟩ := Option.map_eq_some_iff.mp hindex
  obtain ⟨hmem, hid⟩ := mem_of_latest hlatest
  have hget : seg.ids[entry.2]? = some entry.1 := List.mem_zipIdx_iff_getElem?.mp hmem
  rw [← hid]
  exact List.mem_of_getElem? hget

/-! ## Merging -/

section Merge

variable (c : Config) (dead : Bytes → Bool)

/-- One round of the inner loop of `compactSegments`; the documents so far if the index
refuses a vector. -/
def mergeDoc (seg : ImmutableSegment) (merged : List (Bytes × Vector) × Hnsw) (id : Bytes) :
    Except (List (Bytes × Vector)) (List (Bytes × Vector) × Hnsw) :=
  if dead id then .ok merged
  else if id ∈ merged.1.map Prod.fst then .ok merged
  else
    match seg.vectorByID id with
    | none => .ok merged
    | some vec =>
        let added := merged.2.add c.arith id vec
        if added.2 then .ok (merged.1 ++ [(id, vec)], added.1) else .error merged.1

/-- The loop over the ids of a segment. -/
def mergeDocs (seg : ImmutableSegment) : List Bytes → List (Bytes × Vector) × Hnsw →
    Except (List (Bytes × Vector)) (List (Bytes × Vector) × Hnsw)
  | [], merged => .ok merged
  | id :: rest, merged =>
      match mergeDoc c dead seg merged id with
      | .error docs => .error docs
      | .ok merged => mergeDocs seg rest merged

/-- The loop of `compactSegments` over the segments in the order it visits them. -/
def mergeSegments (disk : Disk) : List SegmentID → List (Bytes × Vector) × Hnsw →
    Except (List (Bytes × Vector)) (List (Bytes × Vector) × Hnsw)
  | [], merged => .ok merged
  | segID :: rest, merged =>
      match loadImmutableSegment c disk segID with
      | none => .error merged.1
      | some seg =>
          match mergeDocs c dead seg seg.ids merged with
          | .error docs => .error docs
          | .ok merged => mergeSegments disk rest merged

variable {c dead}

/-- The index of a merge holds its documents. -/
structure Merges (c : Config) (merged : List (Bytes × Vector) × Hnsw) : Prop where
  nodup : (merged.1.map Prod.fst).Nodup
  config : merged.2.config = c.newIndex.config
  items : ∀ id, merged.2.item c.arith id =
    (docOf merged.1 id).map (kept c.arith c.newIndex.config)

theorem merges_empty : Merges c ([], c.newIndex) := ⟨List.nodup_nil, rfl, fun _ => rfl⟩

theorem mergeDoc_spec {seg : ImmutableSegment} {merged merged' : List (Bytes × Vector) × Hnsw}
    {id : Bytes} (hmerges : Merges c merged)
    (hmerge : mergeDoc c dead seg merged id = .ok merged') :
    Merges c merged' ∧ ∀ other, docOf merged'.1 other = (docOf merged.1 other).or
      (if other = id ∧ dead other = false then seg.vectorByID other else none) := by
  have hsame : merged' = merged → (dead id = true ∨ id ∈ merged.1.map Prod.fst ∨
      seg.vectorByID id = none) → Merges c merged' ∧ ∀ other, docOf merged'.1 other =
        (docOf merged.1 other).or
          (if other = id ∧ dead other = false then seg.vectorByID other else none) := by
    rintro rfl hwhy
    refine ⟨hmerges, fun other => ?_⟩
    split
    next hother =>
      obtain ⟨rfl, halive⟩ := hother
      rcases hwhy with hdead | hmem | hnone
      · rw [hdead] at halive
        cases halive
      · obtain ⟨vec, hvec⟩ := Option.isSome_iff_exists.mp (isSome_docOf.mpr hmem)
        rw [hvec]
        rfl
      · rw [hnone, Option.or_none]
    next => rw [Option.or_none]
  unfold mergeDoc at hmerge
  split at hmerge
  next hdead => exact hsame (by cases hmerge; rfl) (Or.inl hdead)
  next hdead =>
    split at hmerge
    next hmem => exact hsame (by cases hmerge; rfl) (Or.inr (Or.inl hmem))
    next hmem =>
      split at hmerge
      next hnone => exact hsame (by cases hmerge; rfl) (Or.inr (Or.inr hnone))
      next vec hvec =>
        simp only at hmerge
        split at hmerge
        next hadded =>
          obtain rfl := Except.ok.inj hmerge
          have hdim := (Hnsw.add_succeeds id vec).mp hadded
          refine ⟨⟨?_, ?_, fun other => ?_⟩, fun other => ?_⟩
          · rw [List.map_append, List.map_singleton]
            refine List.nodup_append.mpr ⟨hmerges.nodup, List.nodup_singleton _, ?_⟩
            intro old hold new hnew heq
            obtain rfl := List.mem_singleton.mp hnew
            exact hmem (heq ▸ hold)
          · rw [Hnsw.config_add]
            exact hmerges.config
          · rw [Hnsw.item_add hdim, docOf_concat, hmerges.items, hmerges.config]
            split <;> rfl
          · have hfresh := docOf_eq_none.mpr hmem
            rw [docOf_concat]
            by_cases hother : other = id
            · subst hother
              simp [hfresh, hdead, hvec]
            · simp [hother]
        next => cases hmerge

theorem mergeDocs_spec {seg : ImmutableSegment} {ids : List Bytes}
    {merged merged' : List (Bytes × Vector) × Hnsw} (hmerges : Merges c merged)
    (hmerge : mergeDocs c dead seg ids merged = .ok merged') :
    Merges c merged' ∧ ∀ other, docOf merged'.1 other = (docOf merged.1 other).or
      (if other ∈ ids ∧ dead other = false then seg.vectorByID other else none) := by
  induction ids generalizing merged with
  | nil =>
      cases hmerge
      exact ⟨hmerges, fun other => by simp⟩
  | cons id rest ih =>
      rw [mergeDocs] at hmerge
      split at hmerge
      next => cases hmerge
      next middle hmiddle =>
        obtain ⟨hmerges', hfirst⟩ := mergeDoc_spec hmerges hmiddle
        obtain ⟨hlast, hrest⟩ := ih hmerges' hmerge
        refine ⟨hlast, fun other => ?_⟩
        rw [hrest, hfirst, Option.or_assoc]
        congr 1
        by_cases hid : other = id
        · subst hid
          by_cases hmem : other ∈ rest
          · cases hdead : dead other <;> simp [hmem]
          · cases hdead : dead other <;> simp [hmem]
        · simp [hid]

/-- The loaded segments of a list, if all of them can be loaded. -/
def loadAll (c : Config) (disk : Disk) : List SegmentID → Option (List ImmutableSegment)
  | [] => some []
  | segID :: rest => do
      let seg ← loadImmutableSegment c disk segID
      let segs ← loadAll c disk rest
      pure (seg :: segs)

theorem mergeSegments_spec {disk : Disk} {segIDs : List SegmentID}
    {merged merged' : List (Bytes × Vector) × Hnsw} (hmerges : Merges c merged)
    (hmerge : mergeSegments c dead disk segIDs merged = .ok merged') :
    ∃ segs, loadAll c disk segIDs = some segs ∧ Merges c merged' ∧
      ∀ other, docOf merged'.1 other = (docOf merged.1 other).or
        (if dead other then none else segs.findSome? fun seg => seg.vectorByID other) := by
  induction segIDs generalizing merged with
  | nil =>
      cases hmerge
      exact ⟨[], rfl, hmerges, fun other => by simp⟩
  | cons segID rest ih =>
      rw [mergeSegments] at hmerge
      split at hmerge
      next => cases hmerge
      next seg hload =>
        split at hmerge
        next => cases hmerge
        next middle hmiddle =>
          obtain ⟨hmerges', hfirst⟩ := mergeDocs_spec hmerges hmiddle
          obtain ⟨segs, hall, hlast, hrest⟩ := ih hmerges' hmerge
          refine ⟨seg :: segs, ?_, hlast, fun other => ?_⟩
          · rw [loadAll, hload, hall]
            rfl
          · rw [hrest, hfirst, Option.or_assoc]
            congr 1
            cases hdead : dead other with
            | true => simp
            | false =>
                simp only [and_true, Bool.false_eq_true, if_false]
                cases hvec : seg.vectorByID other with
                | none => simp [hvec]
                | some vec => simp [hvec, mem_ids_of_vectorByID hvec]

/-- A merge goes through if the segments can be loaded and have vectors of the dimension. -/
theorem mergeDocs_succeeds {seg : ImmutableSegment}
    (hdims : ∀ id vec, seg.vectorByID id = some vec → vec.length = c.newIndex.config.dim)
    {ids : List Bytes} {merged : List (Bytes × Vector) × Hnsw}
    (hconfig : merged.2.config = c.newIndex.config) :
    ∃ merged', mergeDocs c dead seg ids merged = .ok merged' ∧
      merged'.2.config = c.newIndex.config := by
  induction ids generalizing merged with
  | nil => exact ⟨merged, rfl, hconfig⟩
  | cons id rest ih =>
      have hdoc : ∃ middle, mergeDoc c dead seg merged id = .ok middle ∧
          middle.2.config = c.newIndex.config := by
        unfold mergeDoc
        split
        next => exact ⟨merged, rfl, hconfig⟩
        next =>
          split
          next => exact ⟨merged, rfl, hconfig⟩
          next =>
            split
            next => exact ⟨merged, rfl, hconfig⟩
            next vec hvec =>
              have hadded : (merged.2.add c.arith id vec).2 = true :=
                (Hnsw.add_succeeds id vec).mpr (by rw [hconfig]; exact hdims id vec hvec)
              simp only [hadded, if_true]
              exact ⟨_, rfl, by rw [Hnsw.config_add]; exact hconfig⟩
      obtain ⟨middle, hmiddle, hsame⟩ := hdoc
      obtain ⟨last, hlast, hend⟩ := ih hsame
      refine ⟨last, ?_, hend⟩
      rw [mergeDocs, hmiddle]
      exact hlast

theorem mergeSegments_succeeds {disk : Disk} {segIDs : List SegmentID}
    (hsegs : ∀ segID ∈ segIDs, ∃ seg, loadImmutableSegment c disk segID = some seg ∧
      ∀ id vec, seg.vectorByID id = some vec → vec.length = c.newIndex.config.dim)
    {merged : List (Bytes × Vector) × Hnsw} (hconfig : merged.2.config = c.newIndex.config) :
    ∃ merged', mergeSegments c dead disk segIDs merged = .ok merged' := by
  induction segIDs generalizing merged with
  | nil => exact ⟨merged, rfl⟩
  | cons segID rest ih =>
      obtain ⟨seg, hload, hdims⟩ := hsegs segID List.mem_cons_self
      obtain ⟨middle, hmiddle, hsame⟩ := @mergeDocs_succeeds c dead seg hdims seg.ids merged hconfig
      obtain ⟨last, hlast⟩ := ih (fun other hother => hsegs other (List.mem_cons_of_mem _ hother)) hsame
      refine ⟨last, ?_⟩
      rw [mergeSegments, hload]
      simp only [hmiddle]
      exact hlast

end Merge

/-! ## Compaction -/

/-- What `RunCompaction` can end with. -/
inductive Compaction where
  /-- there are too few segments -/
  | idle
  /-- the process ends: the fan-in is negative -/
  | panics
  /-- `compactSegments` returns an error -/
  | fails (disk : Disk)
  | done (disk : Disk) (segments : List SegmentID)

section Compact

variable (c : Config)

/-- The manifest list that `RunCompaction` leaves: each segment of the front is removed, in a
loop over the front itself, and the new one is appended. -/
def replaceFront (fanIn : Nat) (segments : List SegmentID) (newSegID : SegmentID) :
    List SegmentID :=
  ((Backed.full segments).removeFront fanIn).toList ++ [newSegID]

/-- The steps of `compactSegments` on the disk. -/
def compactSteps (segIDs : List SegmentID) (newSegID : SegmentID)
    (merged : List (Bytes × Vector) × Hnsw) (now : Nat) : List DiskStep :=
  .mkdir newSegID :: ((compactWrites merged.2 merged.1 ⟨now, now⟩).map (DiskStep.write newSegID) ++
    segIDs.map DiskStep.removeAll)

/-- The steps before `compactSegments` gives up. -/
def abandonedSteps (newSegID : SegmentID) (docs : List (Bytes × Vector)) : List DiskStep :=
  let writes : List FileWrite :=
    [.createVectors, .createOffsets] ++ docs.map fun doc => .vector doc.2
  .mkdir newSegID :: writes.map (DiskStep.write newSegID)

/-- `RunCompaction` on the list of the manifest. -/
def runCompaction (disk : Disk) (db : Pebble) (segments : List SegmentID) (newSegID : SegmentID)
    (now : Nat) : Compaction :=
  if segments.length < 2 then .idle
  else if (segments.length : Int) < c.compactionFanIn then .idle
  else if c.compactionFanIn < 0 then .panics
  else
    let front := segments.take c.compactionFanIn.toNat
    let tombstones := getTombstones c db
    match mergeSegments c (fun id => (tombstones.lookup id).isSome) disk front.reverse
        ([], c.newIndex) with
    | .error docs => .fails (disk.applyAll (abandonedSteps newSegID docs))
    | .ok merged =>
        .done (disk.applyAll (compactSteps front newSegID merged now))
          (replaceFront c.compactionFanIn.toNat segments newSegID)

variable {c}

/-- A compaction that went through. -/
theorem runCompaction_eq_done {disk disk' : Disk} {db : Pebble} {segments segments' : List SegmentID}
    {newSegID : SegmentID} {now : Nat}
    (hdone : runCompaction c disk db segments newSegID now = .done disk' segments') :
    2 ≤ segments.length ∧ 0 ≤ c.compactionFanIn ∧ c.compactionFanIn ≤ segments.length ∧
      ∃ merged, mergeSegments c (fun id => ((getTombstones c db).lookup id).isSome) disk
          (segments.take c.compactionFanIn.toNat).reverse ([], c.newIndex) = .ok merged ∧
        disk' = disk.applyAll
          (compactSteps (segments.take c.compactionFanIn.toNat) newSegID merged now) ∧
        segments' = replaceFront c.compactionFanIn.toNat segments newSegID := by
  unfold runCompaction at hdone
  split at hdone
  next => cases hdone
  next hmany =>
    split at hdone
    next => cases hdone
    next henough =>
      split at hdone
      next => cases hdone
      next hpos =>
        simp only at hdone
        split at hdone
        next => cases hdone
        next merged hmerged =>
          cases hdone
          exact ⟨by omega, by omega, by omega, merged, hmerged, rfl, rfl⟩

/-- A compaction that gave up has only written to the directory of the new segment. -/
theorem runCompaction_eq_fails {disk disk' : Disk} {db : Pebble} {segments : List SegmentID}
    {newSegID : SegmentID} {now : Nat}
    (hfails : runCompaction c disk db segments newSegID now = .fails disk') :
    ∃ docs, disk' = disk.applyAll (abandonedSteps newSegID docs) := by
  unfold runCompaction at hfails
  split at hfails
  next => cases hfails
  next =>
    split at hfails
    next => cases hfails
    next =>
      split at hfails
      next => cases hfails
      next =>
        simp only at hfails
        split at hfails
        next docs _ =>
          cases hfails
          exact ⟨docs, rfl⟩
        next => cases hfails

theorem filter_notMem_take {segments : List SegmentID} (hnodup : segments.Nodup) (n : Nat) :
    segments.filter (· ∉ segments.take n) = segments.drop n := by
  have hsplit := List.take_append_drop n segments
  have hdisjoint : ∀ id ∈ segments.drop n, id ∉ segments.take n := by
    intro id hdrop htake
    rw [← hsplit] at hnodup
    exact (List.nodup_append.mp hnodup).2.2 id htake id hdrop rfl
  conv_lhs => rw [← hsplit]
  rw [List.filter_append, List.take_append_drop, List.filter_eq_nil_iff.mpr (by simp),
    List.filter_eq_self.mpr (by simpa using hdisjoint), List.nil_append]

theorem replaceFront_eq_iff {segments : List SegmentID} (hnodup : segments.Nodup) {fanIn : Nat}
    (hle : fanIn ≤ segments.length) (newSegID : SegmentID) :
    replaceFront fanIn segments newSegID = segments.drop fanIn ++ [newSegID] ↔
      fanIn ≤ 1 ∨ segments.length ≤ 2 := by
  rw [replaceFront, List.append_left_inj]
  exact Backed.toList_removeFront_eq_drop_iff hnodup hle

/-- A compaction that goes through leaves the other segments and the new one in the manifest,
in their order, exactly if it merges at most one segment or there are only two. -/
theorem compacted_manifest_iff {disk disk' : Disk} {db : Pebble}
    {segments segments' : List SegmentID} {newSegID : SegmentID} {now : Nat}
    (hnodup : segments.Nodup)
    (hdone : runCompaction c disk db segments newSegID now = .done disk' segments') :
    segments' = segments.filter (· ∉ segments.take c.compactionFanIn.toNat) ++ [newSegID] ↔
      c.compactionFanIn ≤ 1 ∨ segments.length = 2 := by
  obtain ⟨hmany, hpos, hle, _, _, _, rfl⟩ := runCompaction_eq_done hdone
  rw [filter_notMem_take hnodup, replaceFront_eq_iff hnodup (by omega)]
  omega

end Compact

/-! ### Segments of one document -/

/-- Vectors with one component, indexed at once. -/
def lineConfig (fanIn : Int) : Config where
  arith := Worker.wholeNumbers
  index := Worker.lineSettings.config.index
  no_floats := rfl
  maxVectors := 1
  maxBytes := 1000
  maxAge := 600000000000
  compactionFanIn := fanIn
  shardID := 1
  ns := []
  asyncIndex := false
  queueSize := 20000
  stored vec := vec
  stored_length := Worker.wholeNumbers.normalize_length

/-- The segments of examples. -/
def segmentOf (n : Nat) : SegmentID := ⟨n, n⟩

/-- A directory for each of the first segments, with one document in it. -/
def sealedDisk (fanIn : Int) (n : Nat) : Disk :=
  (List.range n).foldl
    (fun disk i =>
      let doc := (Worker.idOf 'a' ++ Worker.idOf (Char.ofNat (97 + i)), [UInt32.ofNat i])
      let hnsw := ((lineConfig fanIn).newIndex.add Worker.wholeNumbers doc.1 doc.2).1
      disk.applyAll (.mkdir (segmentOf i) ::
        (sealWrites hnsw [doc] ⟨i, i⟩).map (DiskStep.write (segmentOf i)))) ∅

/-- The manifest list after a compaction that went through. -/
def Compaction.segments? : Compaction → Option (List SegmentID)
  | .done _ segments => some segments
  | _ => none

theorem Compaction.exists_of_segments? {compaction : Compaction} {segments : List SegmentID}
    (hsome : compaction.segments? = some segments) : ∃ disk, compaction = .done disk segments := by
  cases compaction with
  | done disk list =>
      cases hsome
      exact ⟨disk, rfl⟩
  | idle
  | panics
  | fails disk => cases hsome

theorem compacted_manifest_iff_pair :
    ∃ disk', runCompaction (lineConfig 2) (sealedDisk 2 2) OrderedStore.empty
        [segmentOf 0, segmentOf 1] (segmentOf 9) 9 = .done disk' [segmentOf 9] ∧
      ([segmentOf 9] = [segmentOf 0, segmentOf 1].filter
          (· ∉ [segmentOf 0, segmentOf 1].take (lineConfig 2).compactionFanIn.toNat) ++
            [segmentOf 9] ↔
        (lineConfig 2).compactionFanIn ≤ 1 ∨ [segmentOf 0, segmentOf 1].length = 2) := by
  have hsegments : (runCompaction (lineConfig 2) (sealedDisk 2 2) OrderedStore.empty
      [segmentOf 0, segmentOf 1] (segmentOf 9) 9).segments? = some [segmentOf 9] := by
    decide +kernel
  obtain ⟨disk', hdone⟩ := Compaction.exists_of_segments? hsegments
  exact ⟨disk', hdone, compacted_manifest_iff (by decide) hdone⟩

/-- Six segments, of which the default fan-in merges four: two of the merged ones stay in the
manifest, and the two that were not merged are dropped from it. -/
theorem unmerged_segments_dropped :
    (runCompaction (lineConfig 4) (sealedDisk 4 6) OrderedStore.empty
      ((List.range 6).map segmentOf) (segmentOf 9) 9).segments? =
        some [segmentOf 1, segmentOf 3, segmentOf 9] ∧
      ((List.range 6).map segmentOf).filter
          (· ∉ ((List.range 6).map segmentOf).take (lineConfig 4).compactionFanIn.toNat) ++
        [segmentOf 9] = [segmentOf 4, segmentOf 5, segmentOf 9] := by
  constructor
  · decide +kernel
  · decide +kernel

end Vectron.Segment
