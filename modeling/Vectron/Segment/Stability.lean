import Vectron.Segment.Upkeep

/-! # Compactions and restarts

The invariant of a shard through the steps that replace segments: a compaction that takes
off the manifest what it merged, and opening the shard again. With these it holds
throughout every orderly run.
-/

namespace Vectron.Segment

open Foundation
open Worker (Hnsw Pebble Vector kept)

/-! ## Compaction -/

theorem mem_of_loadAll {c : Config} {disk : Disk} {segIDs : List SegmentID}
    {segs : List ImmutableSegment} (hall : loadAll c disk segIDs = some segs)
    {seg : ImmutableSegment} :
    seg ∈ segs ↔ ∃ segID ∈ segIDs, loadImmutableSegment c disk segID = some seg := by
  induction segIDs generalizing segs with
  | nil =>
      cases hall
      simp
  | cons segID rest ih =>
      obtain ⟨first, hfirst, hrest⟩ := Option.bind_eq_some_iff.mp hall
      obtain ⟨others, hothers, hpure⟩ := Option.bind_eq_some_iff.mp hrest
      obtain rfl := Option.some.inj hpure
      rw [List.mem_cons, ih hothers]
      simp [hfirst, eq_comm]

section Compact

variable {c : Config} {shard : Shard} {m : Manager} {merged : List (Bytes × Vector) × Hnsw}
  {segIDs : List SegmentID}

/-- The directories after `compactSegments`. -/
theorem lookup_compactSteps {disk : Disk} {newSegID : SegmentID} (now : Nat) (other : SegmentID) :
    (disk.applyAll (compactSteps segIDs newSegID merged now)).lookup other =
      if other ∈ segIDs then none
      else if other = newSegID then
        some (((disk.lookup newSegID).getD SegmentDir.empty).writeAll
          (compactWrites merged.2 merged.1 ⟨now, now⟩))
      else disk.lookup other := by
  have hsplit : disk.applyAll (compactSteps segIDs newSegID merged now) =
      Disk.applyAll (disk.applyAll (.mkdir newSegID ::
        (compactWrites merged.2 merged.1 ⟨now, now⟩).map (DiskStep.write newSegID)))
        (segIDs.map DiskStep.removeAll) := by
    rw [← Disk.applyAll_append]
    rfl
  rw [hsplit, Disk.lookup_applyAll_removals, Disk.lookup_mkdir_writes]

/-- What is loaded of a segment that a compaction wrote. -/
def mergedSegment (newSegID : SegmentID) (merged : List (Bytes × Vector) × Hnsw) (now : Nat) :
    ImmutableSegment :=
  .ofDocs newSegID merged.2 merged.1 ⟨now, now⟩

theorem load_merged {disk : Disk} {newSegID : SegmentID} (hnew : newSegID ∉ segIDs) (now : Nat) :
    loadImmutableSegment c (disk.applyAll (compactSteps segIDs newSegID merged now)) newSegID =
      some (mergedSegment newSegID merged now) :=
  (SegmentDir.holds_compactWrites ..).load (by rw [lookup_compactSteps, if_neg hnew, if_pos rfl])

section

variable {disk : Disk} {db : Pebble}
  (hcomplete : ∀ segID ∈ segIDs, Complete c (Dead c db) disk segID)
  (hmerge : mergeSegments c (fun id => ((getTombstones c db).lookup id).isSome) disk segIDs
    ([], c.newIndex) = .ok merged)

include hcomplete hmerge

/-- The documents of a merge of complete segments: the first one found for a live id. -/
theorem merged_spec :
    Payload c (Dead c db) merged.2 merged.1 ∧
      (∀ id, merged.2.item c.arith id = (docOf merged.1 id).map c.kept) ∧
      ∃ segs, loadAll c disk segIDs = some segs ∧ ∀ id, docOf merged.1 id =
        if ((getTombstones c db).lookup id).isSome then none
        else segs.findSome? fun seg => seg.vectorByID id := by
  obtain ⟨segs, hall, hmerges, hdocs⟩ := mergeSegments_spec merges_empty hmerge
  have hdocs' : ∀ id, docOf merged.1 id =
      if ((getTombstones c db).lookup id).isSome then none
      else segs.findSome? fun seg => seg.vectorByID id := by
    intro id
    rw [hdocs, docOf_nil, Option.none_or]
  refine ⟨⟨hmerges.config, fun id vec hvec => ?_, fun id hsome => ?_, fun id _ hitem => ?_⟩,
    hmerges.items, segs, hall, hdocs'⟩
  · rw [hdocs'] at hvec
    split at hvec
    next => cases hvec
    next =>
      obtain ⟨seg, hseg, hfound⟩ := List.exists_of_findSome?_eq_some hvec
      obtain ⟨segID, hin, hload⟩ := (mem_of_loadAll hall).mp hseg
      obtain ⟨seg', hload', hdims, _⟩ := (hcomplete segID hin).load
      rw [hload] at hload'
      obtain rfl := Option.some.inj hload'
      exact hdims id vec hfound
  · rw [hmerges.items]
    simpa using hsome
  · rw [hmerges.items] at hitem
    simpa using hitem

/-- A live document in the index of a merged segment is in the new one. -/
theorem merged_covers {segID : SegmentID} (hin : segID ∈ segIDs) {seg : ImmutableSegment}
    (hload : loadImmutableSegment c disk segID = some seg) {id : Bytes} (halive : ¬ Dead c db id)
    (hitem : (seg.hnsw.item c.arith id).isSome) : (merged.2.item c.arith id).isSome := by
  obtain ⟨_, hitems, segs, hall, hdocs⟩ := merged_spec hcomplete hmerge
  obtain ⟨seg', hload', _, _, _, hwritten⟩ := (hcomplete segID hin).load
  rw [hload] at hload'
  obtain rfl := Option.some.inj hload'
  have hfound : (segs.findSome? fun seg => seg.vectorByID id).isSome := by
    rw [List.findSome?_isSome_iff]
    exact ⟨seg, (mem_of_loadAll hall).mpr ⟨segID, hin, hload⟩, hwritten id halive hitem⟩
  have halive' : ¬ ((getTombstones c db).lookup id).isSome = true := halive
  rw [hitems, hdocs, if_neg halive']
  simpa using hfound

end

/-- Complete segments can be merged. -/
theorem runCompaction_ne_fails {disk disk' : Disk} {db : Pebble} {segments : List SegmentID}
    (hcomplete : ∀ segID ∈ segments, Complete c (Dead c db) disk segID) (newSegID : SegmentID)
    (now : Nat) : runCompaction c disk db segments newSegID now ≠ .fails disk' := by
  intro hfails
  have hmerged := @mergeSegments_succeeds c (fun id => ((getTombstones c db).lookup id).isSome) disk
    (segments.take c.compactionFanIn.toNat).reverse
    (fun segID hin => by
      obtain ⟨seg, hload, hdims, _⟩ :=
        (hcomplete segID (List.mem_of_mem_take (List.mem_reverse.mp hin))).load
      exact ⟨seg, hload, hdims⟩) ([], c.newIndex) rfl
  obtain ⟨merged, hmerge⟩ := hmerged
  unfold runCompaction at hfails
  split at hfails
  next => cases hfails
  next =>
    split at hfails
    next => cases hfails
    next =>
      split at hfails
      next => cases hfails
      next =>
        simp only at hfails
        rw [hmerge] at hfails
        cases hfails

/-- The loaded segments of a manifest that did not change. -/
theorem Tended.reconciled (htended : Tended c shard m) (segID : SegmentID) :
    (Shard.reconcile c shard.disk m.manifest.immutableSegments m.manifest.immutableSegments
      m.immutables).lookup segID = m.immutables.lookup segID := by
  rw [Shard.lookup_reconcile, htended.loaded]
  split
  next => cases loadImmutableSegment c shard.disk segID <;> rfl
  next => rfl

/-- The manifest and the disk after a compaction that takes its front off. -/
structure Compacted (c : Config) (shard : Shard) (segments : List SegmentID) (newSegID : SegmentID)
    (now : Nat) (merged : List (Bytes × Vector) × Hnsw) (disk : Disk) (after : List SegmentID) :
    Prop where
  merge : mergeSegments c (fun id => ((getTombstones c shard.tombstoneDb).lookup id).isSome)
    shard.disk (segments.take c.compactionFanIn.toNat).reverse ([], c.newIndex) = .ok merged
  disk : disk = shard.disk.applyAll
    (compactSteps (segments.take c.compactionFanIn.toNat) newSegID merged now)
  after : after = segments.drop c.compactionFanIn.toNat ++ [newSegID]

theorem compacted_of_done {segments after : List SegmentID} (hnodup : segments.Nodup)
    (htakes : TakesFront c segments) {newSegID : SegmentID} {now : Nat} {disk : Disk}
    (hdone : runCompaction c shard.disk shard.tombstoneDb segments newSegID now =
      .done disk after) : ∃ merged, Compacted c shard segments newSegID now merged disk after := by
  obtain ⟨hmany, hpos, hle, merged, hmerge, rfl, rfl⟩ := runCompaction_eq_done hdone
  refine ⟨merged, hmerge, rfl, (replaceFront_eq_iff hnodup (by omega) newSegID).mpr ?_⟩
  unfold TakesFront at htakes
  omega

theorem mem_take_or_drop {segments : List SegmentID} (n : Nat) {segID : SegmentID}
    (hin : segID ∈ segments) : segID ∈ segments.take n ∨ segID ∈ segments.drop n := by
  rw [← List.take_append_drop n segments] at hin
  exact List.mem_append.mp hin

theorem notMem_take_of_mem_drop {segments : List SegmentID} (hnodup : segments.Nodup) {n : Nat}
    {segID : SegmentID} (hin : segID ∈ segments.drop n) : segID ∉ segments.take n := by
  intro htake
  rw [← List.take_append_drop n segments] at hnodup
  exact (List.nodup_append.mp hnodup).2.2 segID htake segID hin rfl

/-- The directories of the segments that are not merged stay. -/
theorem Compacted.lookup {segments after : List SegmentID} {newSegID : SegmentID} {now : Nat}
    {disk : Disk} (hcompacted : Compacted c shard segments newSegID now merged disk after)
    {segID : SegmentID} (hnot : segID ∉ segments.take c.compactionFanIn.toNat)
    (hne : segID ≠ newSegID) : disk.lookup segID = shard.disk.lookup segID := by
  rw [hcompacted.disk, lookup_compactSteps, if_neg hnot, if_neg hne]

/-- The new segment is complete when all files are written. -/
theorem complete_merged {disk : Disk} {db : Pebble}
    (hcomplete : ∀ segID ∈ segIDs.reverse, Complete c (Dead c db) disk segID)
    (hmerge : mergeSegments c (fun id => ((getTombstones c db).lookup id).isSome) disk
      segIDs.reverse ([], c.newIndex) = .ok merged)
    {newSegID : SegmentID} (hnew : newSegID ∉ segIDs) (now : Nat) :
    Complete c (Dead c db) (disk.applyAll (compactSteps segIDs newSegID merged now)) newSegID :=
  ⟨_, _, _, _, by rw [lookup_compactSteps, if_neg hnew, if_pos rfl],
    SegmentDir.holds_compactWrites .., (merged_spec hcomplete hmerge).1⟩

section Done

variable {now : Nat} {disk : Disk} {after : List SegmentID}

theorem ne_of_unused {segID newSegID : SegmentID} (hunused : shard.disk.lookup newSegID = none)
    (hsome : shard.disk.lookup segID ≠ none) : segID ≠ newSegID := by
  intro heq
  subst heq
  exact hsome hunused

section

variable {manifest : Manifest} {dead : Bytes → Prop} (hbacked : manifest.Backed c dead shard.disk)
  {newSegID : SegmentID} (hunused : shard.disk.lookup newSegID = none)

include hbacked hunused

theorem Manifest.Backed.fresh : newSegID ∉ manifest.immutableSegments :=
  fun hin => ne_of_unused hunused (hbacked.complete _ hin).lookup_ne_none rfl

/-- The segments that are not merged are found where they were. -/
theorem Compacted.lookup_drop
    (hcompacted : Compacted c shard manifest.immutableSegments newSegID now merged disk after)
    {segID : SegmentID} (hin : segID ∈ manifest.immutableSegments.drop c.compactionFanIn.toNat) :
    disk.lookup segID = shard.disk.lookup segID := by
  refine hcompacted.lookup (notMem_take_of_mem_drop hbacked.nodup hin) fun heq => ?_
  subst heq
  exact hbacked.fresh hunused (List.mem_of_mem_drop hin)

end

section

variable (hkept : Kept c shard) (htended : Tended c shard m) {newSegID : SegmentID}
  (hunused : shard.disk.lookup newSegID = none)
  (hcompacted : Compacted c shard m.manifest.immutableSegments newSegID now merged disk after)

include hkept htended hunused hcompacted

theorem Compacted.backed :
    Manifest.Backed c (Dead c shard.tombstoneDb) disk
      { m.manifest with immutableSegments := after } := by
  have hbacked := hkept.backed m.manifest htended.saved
  have hfresh := hbacked.fresh hunused
  obtain ⟨hdir, hcur⟩ := htended.current_spec hkept
  have hne := ne_of_unused hunused hdir
  rw [hcompacted.after]
  refine ⟨⟨_, htended.current, ?_, ?_⟩, ?_, fun segID hin => ?_⟩
  · rw [hcompacted.lookup (fun hin => hcur (List.mem_of_mem_take hin)) hne]
    exact hdir
  · simp only [List.mem_append, List.mem_singleton, not_or]
    exact ⟨fun hin => hcur (List.mem_of_mem_drop hin), hne⟩
  · refine List.nodup_append.mpr ⟨hbacked.nodup.sublist (List.drop_sublist _ _),
      List.nodup_singleton _, ?_⟩
    intro old hold last hlast heq
    rw [List.mem_singleton.mp hlast] at heq
    subst heq
    exact hfresh (List.mem_of_mem_drop hold)
  · rcases List.mem_append.mp hin with hold | hlast
    · exact (hbacked.complete segID (List.mem_of_mem_drop hold)).congr
        (hcompacted.lookup_drop hbacked hunused hold)
    · obtain rfl := List.mem_singleton.mp hlast
      rw [hcompacted.disk]
      exact complete_merged
        (fun segID hin => hbacked.complete segID (List.mem_of_mem_take (List.mem_reverse.mp hin)))
        hcompacted.merge (fun hin => hfresh (List.mem_of_mem_take hin)) now

/-- After a compaction the loaded segments are again those of the manifest. -/
theorem Compacted.loaded (segID : SegmentID) :
    (Shard.reconcile c disk m.manifest.immutableSegments after m.immutables).lookup segID =
      if segID ∈ after then loadImmutableSegment c disk segID else none := by
  have hbacked := hkept.backed m.manifest htended.saved
  rw [Shard.lookup_reconcile]
  split
  next hin =>
    rw [htended.loaded]
    rw [hcompacted.after] at hin
    rcases List.mem_append.mp hin with hold | hlast
    · rw [if_pos (List.mem_of_mem_drop hold),
        loadImmutableSegment_congr (hcompacted.lookup_drop hbacked hunused hold)]
      cases loadImmutableSegment c shard.disk segID <;> rfl
    · obtain rfl := List.mem_singleton.mp hlast
      rw [if_neg (hbacked.fresh hunused), Option.none_or]
  next =>
    split
    next => rfl
    next hbefore => rw [htended.loaded, if_neg hbefore]

/-- A live document of a loaded segment is in one of those loaded after the compaction. -/
theorem Compacted.covers {segID : SegmentID} {seg : ImmutableSegment}
    (hseg : m.immutables.lookup segID = some seg) {id : Bytes}
    (halive : ¬ Dead c shard.tombstoneDb id) (hitem : (seg.hnsw.item c.arith id).isSome) :
    ∃ segID seg, (Shard.reconcile c disk m.manifest.immutableSegments after
      m.immutables).lookup segID = some seg ∧ (seg.hnsw.item c.arith id).isSome := by
  have hbacked := hkept.backed m.manifest htended.saved
  have hloaded := hcompacted.loaded hkept htended hunused
  rw [htended.loaded] at hseg
  split at hseg
  next hin =>
    rcases mem_take_or_drop c.compactionFanIn.toNat hin with htake | hdrop
    · -- the segment was merged
      have hfresh : newSegID ∉ m.manifest.immutableSegments.take c.compactionFanIn.toNat :=
        fun hin => hbacked.fresh hunused (List.mem_of_mem_take hin)
      refine ⟨newSegID, mergedSegment newSegID merged now, ?_, ?_⟩
      · rw [hloaded, hcompacted.after, if_pos (by simp), hcompacted.disk]
        exact load_merged hfresh now
      · have hsome := merged_covers
          (fun segID hin => hbacked.complete segID (List.mem_of_mem_take (List.mem_reverse.mp hin)))
          hcompacted.merge (List.mem_reverse.mpr htake) hseg halive hitem
        simpa [mergedSegment, ImmutableSegment.ofDocs] using hsome
    · refine ⟨segID, seg, ?_, hitem⟩
      rw [hloaded, hcompacted.after, if_pos (List.mem_append_left _ hdrop),
        loadImmutableSegment_congr (hcompacted.lookup_drop hbacked hunused hdrop)]
      exact hseg
  next => cases hseg

end

end Done

theorem Upright.compact (hkept : Kept c shard) (htended : Tended c shard m)
    (htakes : TakesFront c m.manifest.immutableSegments) {now : Nat}
    (hunused : shard.disk.lookup ⟨now, shard.seq + 1⟩ = none) :
    Upright c (shard.compact c m now) := by
  have hbacked := hkept.backed m.manifest htended.saved
  unfold Shard.compact
  simp only
  split
  next =>
    refine ⟨⟨hkept.dims, hkept.entombs, nofun, fun manifest hmanifest => ?_⟩, fun m' hm' => ?_⟩
    · obtain rfl := Option.some.inj hmanifest
      exact hbacked
    · obtain rfl := Option.some.inj hm'
      refine ⟨htended.tombstones, rfl, htended.current, htended.indexed, fun segID => ?_,
        htended.pending, htended.rooted, fun id halive hstored => ?_⟩
      · simp only
        rw [htended.reconciled]
        exact htended.loaded segID
      · simp only [htended.reconciled]
        exact htended.covered id halive hstored
  next => exact ⟨hkept.of_mgr _ _, fun m' hm' => by cases hm'⟩
  next disk hfails => exact absurd hfails (runCompaction_ne_fails hbacked.complete _ _)
  next disk after hdone =>
    obtain ⟨merged, hcompacted⟩ := compacted_of_done hbacked.nodup htakes hdone
    have hafter := hcompacted.backed hkept htended hunused
    refine ⟨⟨hkept.dims, hkept.entombs, nofun, fun manifest hmanifest => ?_⟩, fun m' hm' => ?_⟩
    · obtain rfl := Option.some.inj hmanifest
      exact hafter
    · obtain rfl := Option.some.inj hm'
      refine ⟨htended.tombstones, rfl, htended.current, htended.indexed,
        hcompacted.loaded hkept htended hunused, htended.pending, htended.rooted,
        fun id halive hstored => ?_⟩
      rcases htended.covered id halive hstored with hop | hitem | ⟨segID, seg, hseg, hitem⟩
      · exact Or.inl hop
      · exact Or.inr (Or.inl hitem)
      · exact Or.inr (Or.inr (hcompacted.covers hkept htended hunused hseg halive hitem))

end Compact

/-! ## Opening the shard -/

/-- A shard that was opened again. -/
structure Reopened (c : Config) (shard : Shard) (manifest : Manifest) (after : Shard) (m : Manager) :
    Prop where
  mgr : after.mgr = some m
  primary : after.primary = shard.primary
  db : after.tombstoneDb = shard.tombstoneDb
  saved : after.saved = some manifest
  disk : ∀ segID, after.disk.lookup segID = shard.disk.lookup segID
  listed : m.manifest = manifest
  current : manifest.mutableSegmentID = some m.mutable.id
  indexed : m.mutable.Indexed c
  loaded : ∀ segID, m.immutables.lookup segID =
    if segID ∈ manifest.immutableSegments then loadImmutableSegment c shard.disk segID else none
  tombstones : m.tombstones = getTombstones c shard.tombstoneDb
  pending : m.pending = []
  items : ∀ id, m.mutable.item c id =
    if ((getTombstones c shard.tombstoneDb).lookup id).isNone ∧ id ∉ Shard.sealedIDs m.immutables then
      (shard.primary.lookup id).map c.kept
    else none

section Open

variable {c : Config} {shard : Shard}

/-- Opening loads the segments of the manifest and puts the other documents into the mutable
segment. -/
theorem exists_reopened
    (hdims : ∀ id vec, shard.primary.lookup id = some vec → vec.length = c.index.dim)
    {manifest : Manifest} (hsaved : shard.saved = some manifest) {cur : SegmentID}
    (hcur : manifest.mutableSegmentID = some cur) (hdir : shard.disk.lookup cur ≠ none) (now : Nat) :
    ∃ m, Reopened c shard manifest (shard.openShard c now) m := by
  have hlengths : ∀ doc ∈ Shard.unsealedDocs shard.primary (getTombstones c shard.tombstoneDb)
      (Shard.loadListed c shard.disk manifest.immutableSegments), doc.2.length = c.index.dim :=
    fun doc hdoc => hdims doc.1 doc.2 (mem_loadVectors hdoc)
  obtain ⟨hok, hindexed, hid, hitems⟩ := MutableSegment.applyAddBatch_spec
    (@MutableSegment.indexed_new c cur now) hlengths
  refine ⟨⟨((newMutableSegment c cur now).applyAddBatch c (Shard.unsealedDocs shard.primary
    (getTombstones c shard.tombstoneDb)
    (Shard.loadListed c shard.disk manifest.immutableSegments))).1,
    Shard.loadListed c shard.disk manifest.immutableSegments, manifest,
    getTombstones c shard.tombstoneDb, [], []⟩, ?_⟩
  unfold Shard.openShard
  simp only [hsaved, Option.getD_some, hcur, hok, if_true]
  refine ⟨rfl, rfl, rfl, rfl, fun segID => ?_, rfl, by rw [hcur, hid]; rfl, hindexed,
    Shard.lookup_loadListed _ _, rfl, rfl, fun id => ?_⟩
  · rw [Disk.lookup_mkdir]
    split
    next heq =>
      subst heq
      obtain ⟨dir, hsome⟩ := Option.ne_none_iff_exists'.mp hdir
      rw [hsome]
      rfl
    next => rfl
  · rw [hitems, MutableSegment.item_new, Option.or_none, Shard.docOf_unsealedDocs]
    split <;> rfl

section

variable (hkept : Kept c shard) {manifest : Manifest} (hsaved : shard.saved = some manifest)

include hkept hsaved

theorem Kept.reopened (now : Nat) :
    ∃ m, Reopened c shard manifest (shard.openShard c now) m := by
  obtain ⟨cur, hcur, hdir, _⟩ := (hkept.backed manifest hsaved).current
  exact exists_reopened hkept.dims hsaved hcur hdir now

section

variable {after : Shard} {m : Manager} (hreopened : Reopened c shard manifest after m)

include hreopened

theorem Reopened.tended : Tended c after m := by
  have hbacked := hkept.backed manifest hsaved
  constructor
  case tombstones =>
    intro id
    rw [hreopened.tombstones, hreopened.db]
    rfl
  case saved =>
    rw [hreopened.saved, hreopened.listed]
  case current =>
    rw [hreopened.listed]
    exact hreopened.current
  case indexed => exact hreopened.indexed
  case loaded =>
    intro segID
    rw [hreopened.loaded, hreopened.listed, loadImmutableSegment_congr (hreopened.disk segID)]
  case pending =>
    intro op hop
    rw [hreopened.pending] at hop
    cases hop
  case rooted =>
    intro id _ hitem
    rw [hreopened.items] at hitem
    rw [hreopened.primary]
    split at hitem
    next => simpa using hitem
    next => cases hitem
  case covered =>
    intro id halive hstored
    rw [hreopened.db] at halive
    rw [hreopened.primary] at hstored
    by_cases hsealed : id ∈ Shard.sealedIDs m.immutables
    · obtain ⟨segID, seg, hseg, hin⟩ := Shard.mem_sealedIDs.mp hsealed
      refine Or.inr (Or.inr ⟨segID, seg, hseg, ?_⟩)
      rw [hreopened.loaded] at hseg
      split at hseg
      next hlisted =>
        obtain ⟨seg', hload, _, hheld, _⟩ := (hbacked.complete segID hlisted).load
        rw [hseg] at hload
        obtain rfl := Option.some.inj hload
        exact hheld id hin
      next => cases hseg
    · refine Or.inr (Or.inl ?_)
      have hnone : ((getTombstones c shard.tombstoneDb).lookup id).isNone = true := by
        simpa [Dead] using halive
      rw [hreopened.items, if_pos ⟨hnone, hsealed⟩]
      simpa using hstored

theorem Reopened.kept :
    Kept c after := by
  have hbacked := hkept.backed manifest hsaved
  constructor
  case dims =>
    rw [hreopened.primary]
    exact hkept.dims
  case entombs =>
    rw [hreopened.db]
    exact hkept.entombs
  case unopened =>
    rw [hreopened.saved]
    exact nofun
  case backed =>
    intro manifest' hmanifest
    rw [hreopened.saved] at hmanifest
    obtain rfl := Option.some.inj hmanifest
    obtain ⟨cur, hcur, hdir, hnot⟩ := hbacked.current
    rw [hreopened.db]
    refine ⟨⟨cur, hcur, by rw [hreopened.disk]; exact hdir, hnot⟩, hbacked.nodup,
      fun segID hin => ?_⟩
    exact (hbacked.complete segID hin).congr (hreopened.disk segID)

end

end

theorem Upright.openShard (hkept : Kept c shard) (now : Nat) :
    Upright c (shard.openShard c now) := by
  cases hsaved : shard.saved with
  | none =>
      have hblank := hkept.unopened hsaved
      unfold Shard.openShard
      simp only [hsaved, Option.getD_none, createDefaultManifest]
      refine ⟨⟨hkept.dims, hkept.entombs, nofun, fun manifest hmanifest => ?_⟩, fun m hm => ?_⟩
      · obtain rfl := Option.some.inj hmanifest
        refine ⟨⟨_, rfl, ?_, nofun⟩, List.nodup_nil, nofun⟩
        rw [Disk.lookup_mkdir, if_pos rfl]
        exact nofun
      · obtain rfl := Option.some.inj hm
        refine ⟨fun _ => Iff.rfl, rfl, rfl, MutableSegment.indexed_new _ _, fun segID => ?_, nofun,
          nofun, fun id _ hstored => ?_⟩
        · simp only
          rw [Shard.lookup_loadListed]
          rfl
        · simp only at hstored
          rw [hblank] at hstored
          cases hstored
  | some manifest =>
      obtain ⟨m, hreopened⟩ := hkept.reopened hsaved now
      refine ⟨hreopened.kept hkept hsaved, fun m' hm' => ?_⟩
      obtain rfl := Option.some.inj (hreopened.mgr.symm.trans hm')
      exact hreopened.tended hkept hsaved

end Open

/-! ## Whole runs -/

section Runs

variable {c : Config} {shard : Shard} {m : Manager}

theorem Tended.saved_ne_none (htended : Tended c shard m) : shard.saved ≠ none := by
  rw [htended.saved]
  exact nofun

theorem Tended.isStore (hkept : Kept c shard) (htended : Tended c shard m) {event : Event}
    (hstore : event.isStore = true) (haccepted : event.accepted c = true) :
    Manager.Stores c (Shard.storeAll c shard.primary event.docs) event.docs m
      (m.stored c (Shard.storeAll c shard.primary event.docs) event) := by
  have hdocs := event.dims_of_accepted haccepted
  have hafter := hkept.store htended.saved_ne_none hdocs none
  refine Manager.stores_of_docs htended.indexed hafter.dims hdocs (fun id hid => ?_) hstore
  exact Shard.isSome_storeAll.mpr (Or.inl hid)

theorem Upright.store (hkept : Kept c shard) (htended : Tended c shard m)
    (hupright : Upright c shard) {event : Event} (hstore : event.isStore = true) :
    Upright c (shard.serve c m event) := by
  rw [Shard.serve_of_isStore hstore]
  split
  next haccepted =>
    refine ⟨hkept.store htended.saved_ne_none (event.dims_of_accepted haccepted) _,
      fun m' hm' => ?_⟩
    obtain rfl := Option.some.inj hm'
    exact htended.store (htended.isStore hkept hstore haccepted)
  next => exact hupright

/-- One step. -/
theorem Upright.step (hupright : Upright c shard) {event : Event} (horderly : Orderly c shard event) :
    Upright c (shard.step c event) := by
  have hkept := hupright.kept
  cases hmgr : shard.mgr with
  | none =>
      cases event with
      | open_ now =>
          have hkept' := hkept.booted now.nanos
          exact Upright.openShard hkept' _
      | _ =>
          simp only [Shard.step, hmgr]
          exact hupright
  | some m =>
      have htended := hupright.tended m hmgr
      cases event with
      | open_ now =>
          have hkept' := hkept.booted now.nanos
          exact Upright.openShard hkept' _
      | store id vec
      | storeBatch docs =>
          simp only [Shard.step, hmgr]
          exact Upright.store hkept htended hupright rfl
      | delete id now =>
          simp only [Shard.step, hmgr, Shard.serve]
          refine ⟨hkept.delete htended.saved_ne_none id now _, fun m' hm' => ?_⟩
          obtain rfl := Option.some.inj hm'
          exact htended.delete hkept id now
      | take =>
          simp only [Shard.step, hmgr, Shard.serve]
          split
          next op rest hchannel =>
            refine ⟨hkept.of_mgr _ _, fun m' hm' => ?_⟩
            obtain rfl := Option.some.inj hm'
            exact htended.take hchannel
          next => exact hupright
      | apply =>
          simp only [Shard.step, hmgr, Shard.serve]
          split
          next op rest hbuffer =>
            refine ⟨hkept.of_mgr _ _, fun m' hm' => ?_⟩
            obtain rfl := Option.some.inj hm'
            exact htended.apply hkept hbuffer
          next => exact hupright
      | triggerSeal now =>
          have hunused := Option.isNone_iff_eq_none.mp horderly
          simp only [Shard.step, hmgr, Shard.serve]
          split
          next =>
            split
            next hdrained =>
              exact Upright.sealMutable (hkept.of_mgr _ _) (htended.of_shard _ _) hdrained hunused
            next => exact ⟨hkept.of_mgr _ _, fun m' hm' => by cases hm'⟩
          next =>
            refine ⟨hkept.of_mgr _ _, fun m' hm' => ?_⟩
            obtain rfl := Option.some.inj hm'
            exact htended.of_shard _ _
      | runCompaction now =>
          have hunused := Option.isNone_iff_eq_none.mp horderly.1
          simp only [Shard.step, hmgr, Shard.serve]
          exact Upright.compact (hkept.of_mgr _ _) (htended.of_shard _ _) (horderly.2 m hmgr) hunused

end Runs

end Vectron.Segment
