import Vectron.Segment.Visibility

/-! # The versions of a document in sealed segments

A document that is added again after it was sealed is sealed again in a later segment. The
manifest lists segments in the order they were sealed in, and a compaction takes the vector
of the last one that has the document. But the segment it writes goes to the end of the
list, and the old version in it then hides a newer one in a segment that was not merged.
-/

namespace Vectron.Segment

open Foundation
open Worker (Hnsw Pebble Vector idOf kept)

/-! ## Versions -/

/-- The vector that the last of some segments with the document has for it. -/
def supplied (c : Config) (disk : Disk) (segments : List SegmentID) (id : Bytes) : Option Vector :=
  segments.reverse.findSome? fun segID =>
    (loadImmutableSegment c disk segID).bind fun seg => seg.vectorByID id

/-- The documents that an event seals. -/
def sealedDocs (c : Config) (shard : Shard) : Event → List (Bytes × Vector)
  | .triggerSeal now =>
      match shard.mgr with
      | some m =>
          if m.mutable.shouldSeal c now.nanos && decide m.Drained then
            Shard.persisted shard.primary m.mutable
          else []
      | none => []
  | _ => []

/-- All sealed versions of a run, in the order they were sealed in. -/
def versions (c : Config) (events : List Event) : List (Bytes × Vector) :=
  Run.collect (Shard.step c) (sealedDocs c) Shard.fresh events

/-- The live documents of the segments that are merged have no other vector in those that are
left. -/
def SeparatesAt (c : Config) (shard : Shard) (m : Manager) (front rest : List SegmentID) : Prop :=
  ∀ segID ∈ rest, ∀ seg ∈ loadImmutableSegment c shard.disk segID, ∀ id ∈ seg.ids,
    (m.tombstones.lookup id).isSome = true ∨ supplied c shard.disk front id = none ∨
      supplied c shard.disk front id = supplied c shard.disk rest id

instance (c : Config) (shard : Shard) (m : Manager) (front rest : List SegmentID) :
    Decidable (SeparatesAt c shard m front rest) :=
  inferInstanceAs (Decidable (∀ segID ∈ rest, ∀ seg ∈ loadImmutableSegment c shard.disk segID,
    ∀ id ∈ seg.ids, _ ∨ _ ∨ _))

/-- The same for the segments of a compaction. -/
def Separates (c : Config) (shard : Shard) (m : Manager) : Prop :=
  SeparatesAt c shard m (m.manifest.immutableSegments.take c.compactionFanIn.toNat)
    (m.manifest.immutableSegments.drop c.compactionFanIn.toNat)

instance (c : Config) (shard : Shard) (m : Manager) : Decidable (Separates c shard m) :=
  inferInstanceAs (Decidable (SeparatesAt ..))

/-- The run is orderly, and compactions merge no document that has another vector in a segment
they leave. -/
def Separate (c : Config) (shard : Shard) : Event → Prop
  | .runCompaction now => Orderly c shard (.runCompaction now) ∧
      ∀ m ∈ shard.mgr, Compacts c m.manifest.immutableSegments → Separates c shard m
  | event => Orderly c shard event

instance (c : Config) (shard : Shard) : ∀ event, Decidable (Separate c shard event)
  | .store _ _ => isTrue trivial
  | .storeBatch _ => isTrue trivial
  | .delete _ _ => isTrue trivial
  | .take => isTrue trivial
  | .apply => isTrue trivial
  | .triggerSeal now => inferInstanceAs (Decidable (Orderly c shard (.triggerSeal now)))
  | .runCompaction now => inferInstanceAs (Decidable (Orderly c shard (.runCompaction now) ∧ _))
  | .open_ _ => isTrue trivial

section Supplied

variable {c : Config} {disk : Disk}

theorem supplied_append (first second : List SegmentID) (id : Bytes) :
    supplied c disk (first ++ second) id =
      (supplied c disk second id).or (supplied c disk first id) := by
  unfold supplied
  rw [List.reverse_append, List.findSome?_append]

theorem supplied_singleton (segID : SegmentID) (id : Bytes) :
    supplied c disk [segID] id =
      (loadImmutableSegment c disk segID).bind fun seg => seg.vectorByID id := by
  simp [supplied]

theorem supplied_congr {disk' : Disk} {segments : List SegmentID}
    (hsame : ∀ segID ∈ segments, disk'.lookup segID = disk.lookup segID) (id : Bytes) :
    supplied c disk' segments id = supplied c disk segments id := by
  unfold supplied
  induction segments using List.reverseRecOn with
  | nil => rfl
  | append_singleton segments last ih =>
      rw [List.reverse_append, List.reverse_singleton, List.singleton_append, List.findSome?_cons,
        List.findSome?_cons,
        loadImmutableSegment_congr (hsame last (List.mem_append_right _ (List.mem_singleton_self _))),
        ih fun segID hin => hsame segID (List.mem_append_left _ hin)]

theorem mem_of_supplied {segments : List SegmentID} {id : Bytes} {vec : Vector}
    (hvec : supplied c disk segments id = some vec) :
    ∃ segID ∈ segments, ∃ seg, loadImmutableSegment c disk segID = some seg ∧ id ∈ seg.ids := by
  obtain ⟨segID, hin, hfound⟩ := List.exists_of_findSome?_eq_some hvec
  obtain ⟨seg, hload, hseg⟩ := Option.bind_eq_some_iff.mp hfound
  exact ⟨segID, List.mem_reverse.mp hin, seg, hload, mem_ids_of_vectorByID hseg⟩

/-- The segments of a merge supply what the last of them has. -/
theorem findSome?_of_loadAll {segIDs : List SegmentID} {segs : List ImmutableSegment}
    (hall : loadAll c disk segIDs.reverse = some segs) (id : Bytes) :
    (segs.findSome? fun seg => seg.vectorByID id) = supplied c disk segIDs id := by
  unfold supplied
  generalize segIDs.reverse = list at hall ⊢
  induction list generalizing segs with
  | nil =>
      cases hall
      rfl
  | cons segID rest ih =>
      obtain ⟨first, hfirst, hrest⟩ := Option.bind_eq_some_iff.mp hall
      obtain ⟨others, hothers, hpure⟩ := Option.bind_eq_some_iff.mp hrest
      obtain rfl := Option.some.inj hpure
      rw [List.findSome?_cons, List.findSome?_cons, hfirst, Option.bind_some, ih hothers]

end Supplied

theorem docOf_append (first second : List (Bytes × Vector)) (id : Bytes) :
    docOf (first ++ second) id = (docOf second id).or (docOf first id) := by
  unfold docOf
  rw [latest_append]
  cases latest Prod.fst second id <;> rfl

/-! ## The invariant -/

/-- The segments of the manifest supply the latest sealed version of every live document. -/
structure Versioned (c : Config) (shard : Shard) (sealedVersions : List (Bytes × Vector)) :
    Prop where
  upright : Upright c shard
  unopened : shard.saved = none → sealedVersions = []
  latest : ∀ manifest, shard.saved = some manifest → ∀ id, ¬ Dead c shard.tombstoneDb id →
    supplied c shard.disk manifest.immutableSegments id = docOf sealedVersions id

section Steps

variable {c : Config} {shard : Shard} {m : Manager} {sealedVersions : List (Bytes × Vector)}

theorem Versioned.congr (hversioned : Versioned c shard sealedVersions) {after : Shard}
    (hupright : Upright c after) (hsaved : after.saved = shard.saved)
    (hdisk : ∀ segID, after.disk.lookup segID = shard.disk.lookup segID)
    (hdead : ∀ id, Dead c shard.tombstoneDb id → Dead c after.tombstoneDb id) :
    Versioned c after sealedVersions where
  upright := hupright
  unopened hnone := hversioned.unopened (hsaved ▸ hnone)
  latest manifest hmanifest id halive := by
    rw [supplied_congr fun segID _ => hdisk segID]
    exact hversioned.latest manifest (hsaved ▸ hmanifest) id fun h => halive (hdead id h)

/-- A seal adds the newest versions at the end. -/
theorem Versioned.sealMutable (htended : Tended c shard m)
    (hversioned : Versioned c shard sealedVersions) (hdrained : m.Drained) {now : Nat}
    (hunused : shard.disk.lookup ⟨now, shard.seq + 1⟩ = none) :
    Versioned c (shard.sealMutable c m now)
      (sealedVersions ++ Shard.persisted shard.primary m.mutable) := by
  have hkept := hversioned.upright.kept
  have hupright := Upright.sealMutable hkept htended hdrained hunused
  obtain ⟨hdir, hnot⟩ := htended.current_spec hkept
  refine ⟨hupright, nofun, fun manifest hmanifest id halive => ?_⟩
  obtain rfl := Option.some.inj hmanifest
  have hold := hversioned.latest m.manifest htended.saved id halive
  have hbacked := hkept.backed m.manifest htended.saved
  have hrest : supplied c (shard.sealMutable c m now).disk m.manifest.immutableSegments id =
      supplied c shard.disk m.manifest.immutableSegments id := by
    refine supplied_congr (fun segID hin => ?_) id
    have hne : segID ≠ m.mutable.id := by
      intro heq
      subst heq
      exact hnot hin
    exact lookup_sealMutable hne (ne_of_unused hunused (hbacked.complete segID hin).lookup_ne_none)
  have hlast : supplied c (shard.sealMutable c m now).disk [m.mutable.id] id =
      docOf (Shard.persisted shard.primary m.mutable) id := by
    have hloaded := (hupright.tended _ rfl).loaded m.mutable.id
    rw [@lookup_immutables_sealMutable c shard m now _ rfl, if_pos rfl, if_pos (by simp)] at hloaded
    rw [supplied_singleton, ← hloaded, Option.bind_some, sealedSegment, vectorByID_ofDocs]
    rfl
  simp only
  rw [supplied_append, hrest, hlast, hold, docOf_append]

/-- What the merged segments and the others supply does not depend on which of them come
last. -/
theorem Separates.supplied_comm (hversioned : Versioned c shard sealedVersions)
    (htended : Tended c shard m) (hseparates : Separates c shard m) {id : Bytes}
    (halive : ¬ Dead c shard.tombstoneDb id) :
    (supplied c shard.disk (m.manifest.immutableSegments.take c.compactionFanIn.toNat) id).or
        (supplied c shard.disk (m.manifest.immutableSegments.drop c.compactionFanIn.toNat) id) =
      docOf sealedVersions id := by
  have hold := hversioned.latest m.manifest htended.saved id halive
  rw [← List.take_append_drop c.compactionFanIn.toNat m.manifest.immutableSegments,
    supplied_append] at hold
  rw [← hold]
  cases hrest : supplied c shard.disk
      (m.manifest.immutableSegments.drop c.compactionFanIn.toNat) id with
  | none => rw [Option.or_none, Option.none_or]
  | some vec =>
      obtain ⟨segID, hin, seg, hload, hid⟩ := mem_of_supplied hrest
      rcases hseparates segID hin seg hload id hid with hdead | hnone | hsame
      · exact absurd ((htended.tombstones id).mp hdead) halive
      · rw [hnone]
        rfl
      · rw [hsame, hrest, Option.some_or]

theorem Versioned.compact (htended : Tended c shard m)
    (hversioned : Versioned c shard sealedVersions)
    (htakes : TakesFront c m.manifest.immutableSegments)
    (hseparates : Compacts c m.manifest.immutableSegments → Separates c shard m) {now : Nat}
    (hunused : shard.disk.lookup ⟨now, shard.seq + 1⟩ = none) :
    Versioned c (shard.compact c m now) sealedVersions := by
  have hkept := hversioned.upright.kept
  have hbacked := hkept.backed m.manifest htended.saved
  have hupright := Upright.compact hkept htended htakes hunused
  unfold Shard.compact at hupright ⊢
  simp only at hupright ⊢
  cases hrun : runCompaction c shard.disk shard.tombstoneDb m.manifest.immutableSegments
      ⟨now, shard.seq + 1⟩ now with
  | idle =>
      rw [hrun] at hupright
      refine ⟨hupright, nofun, fun manifest hmanifest id halive => ?_⟩
      obtain rfl := Option.some.inj hmanifest
      exact hversioned.latest m.manifest htended.saved id halive
  | panics =>
      rw [hrun] at hupright
      exact hversioned.congr hupright rfl (fun _ => rfl) fun _ h => h
  | fails disk => exact absurd hrun (runCompaction_ne_fails hbacked.complete _ _)
  | done disk after =>
      rw [hrun] at hupright
      obtain ⟨merged, hcompacted⟩ := compacted_of_done hbacked.nodup htakes hrun
      obtain ⟨hmany, hpos, hle, _⟩ := runCompaction_eq_done hrun
      refine ⟨hupright, nofun, fun manifest hmanifest id halive => ?_⟩
      obtain rfl := Option.some.inj hmanifest
      have hfresh : (⟨now, shard.seq + 1⟩ : SegmentID) ∉
          m.manifest.immutableSegments.take c.compactionFanIn.toNat :=
        fun hin => hbacked.fresh hunused (List.mem_of_mem_take hin)
      obtain ⟨_, _, segs, hall, hdocs⟩ := merged_spec
        (fun segID hin => hbacked.complete segID (List.mem_of_mem_take (List.mem_reverse.mp hin)))
        hcompacted.merge
      have halive' : ¬ ((getTombstones c shard.tombstoneDb).lookup id).isSome = true := halive
      have hlast : supplied c disk [⟨now, shard.seq + 1⟩] id = supplied c shard.disk
          (m.manifest.immutableSegments.take c.compactionFanIn.toNat) id := by
        rw [supplied_singleton, hcompacted.disk, load_merged hfresh, Option.bind_some,
          mergedSegment, vectorByID_ofDocs]
        have hdoc := hdocs id
        rw [if_neg halive', findSome?_of_loadAll hall] at hdoc
        exact hdoc
      simp only
      rw [hcompacted.after, supplied_append, hlast, supplied_congr fun segID hin =>
        hcompacted.lookup_drop hbacked hunused hin]
      exact (hseparates ⟨hmany, hpos, hle⟩).supplied_comm hversioned htended halive

theorem Versioned.openShard (hversioned : Versioned c shard sealedVersions) (now : Nat) :
    Versioned c (shard.openShard c now) sealedVersions := by
  have hkept := hversioned.upright.kept
  have hupright := Upright.openShard hkept now
  cases hsaved : shard.saved with
  | none =>
      have hnone := hversioned.unopened hsaved
      refine ⟨hupright, fun _ => hnone, fun manifest hmanifest id _ => ?_⟩
      unfold Shard.openShard at hmanifest
      simp only [hsaved, Option.getD_none, createDefaultManifest] at hmanifest
      obtain rfl := Option.some.inj hmanifest
      rw [hnone]
      rfl
  | some manifest =>
      obtain ⟨m, hreopened⟩ := hkept.reopened hsaved now
      refine hversioned.congr hupright (by rw [hreopened.saved, hsaved]) hreopened.disk
        fun id hdead => ?_
      rw [hreopened.db]
      exact hdead

theorem Separate.orderly {event : Event} (hseparate : Separate c shard event) :
    Orderly c shard event := by
  cases event with
  | runCompaction now => exact hseparate.1
  | _ => exact hseparate

/-- Calls and the index worker leave the manifest and the directories alone. -/
def Event.isCall : Event → Bool
  | .triggerSeal _ => false
  | .runCompaction _ => false
  | .open_ _ => false
  | _ => true

theorem step_of_isCall {event : Event} (hcall : event.isCall = true) :
    (shard.step c event).saved = shard.saved ∧ (shard.step c event).disk = shard.disk := by
  cases hm : shard.mgr with
  | none =>
      cases event with
      | open_ now => cases hcall
      | _ =>
          simp only [Shard.step, hm]
          exact ⟨trivial, trivial⟩
  | some m =>
      cases event with
      | triggerSeal now
      | runCompaction now
      | open_ now => cases hcall
      | delete id now =>
          simp only [Shard.step, hm, Shard.serve]
          exact ⟨trivial, trivial⟩
      | _ =>
          simp only [Shard.step, hm, Shard.serve]
          split <;> exact ⟨rfl, rfl⟩

theorem sealedDocs_of_isCall {event : Event} (hcall : event.isCall = true) :
    sealedDocs c shard event = [] := by
  cases event with
  | triggerSeal now => cases hcall
  | _ => rfl

theorem Dead.step (hkept : Kept c shard) {id : Bytes} (hdead : Dead c shard.tombstoneDb id)
    (event : Event) : Dead c (shard.step c event).tombstoneDb id := by
  cases @effect c shard event with
  | quiet _ _ hdb _ =>
      rw [hdb]
      exact hdead
  | stored _ _ _ _ hstep =>
      rw [hstep]
      exact hdead
  | deleted _ _ hstep =>
      rw [hstep]
      exact (dead_writeTombstone hkept.entombs _ _ id).mpr (Or.inr hdead)

section

variable (hversioned : Versioned c shard sealedVersions)

include hversioned

theorem Versioned.ticked {m : Manager} (hm : shard.mgr = some m) (clock : Nat) :
    Versioned c { shard with clock := clock, mgr := some m } sealedVersions := by
  refine hversioned.congr ⟨hversioned.upright.kept.of_mgr _ _, fun m' hm' => ?_⟩ rfl
    (fun _ => rfl) fun _ h => h
  obtain rfl := Option.some.inj hm'
  exact (hversioned.upright.tended m hm).of_shard _ _

theorem Versioned.triggerSeal {now : Instant} (horderly : Orderly c shard (.triggerSeal now)) :
    Versioned c (shard.step c (.triggerSeal now))
      (sealedVersions ++ sealedDocs c shard (.triggerSeal now)) := by
  have hafter := hversioned.upright.step horderly
  have hunused := Option.isNone_iff_eq_none.mp horderly
  cases hm : shard.mgr with
  | none =>
      simp only [Shard.step, hm, sealedDocs, List.append_nil]
      exact hversioned
  | some m =>
      have htended := hversioned.upright.tended m hm
      have hticked := hversioned.ticked hm now.nanos
      simp only [Shard.step, hm, Shard.serve, sealedDocs] at hafter ⊢
      by_cases hseal : m.mutable.shouldSeal c now.nanos = true
      · by_cases hdrained : m.Drained
        · simp only [hseal, hdrained, decide_true, Bool.and_true, if_true]
          exact hticked.sealMutable (htended.of_shard _ _) hdrained hunused
        · simp only [hseal, hdrained, decide_false, Bool.and_false, Bool.false_eq_true,
            if_false, if_true, List.append_nil] at hafter ⊢
          exact hversioned.congr hafter rfl (fun _ => rfl) fun _ h => h
      · simp only [hseal, Bool.false_and, Bool.false_eq_true, if_false, List.append_nil]
        exact hticked

theorem Versioned.runCompaction {now : Instant} (hseparate : Separate c shard (.runCompaction now)) :
    Versioned c (shard.step c (.runCompaction now)) sealedVersions := by
  have hunused := Option.isNone_iff_eq_none.mp hseparate.1.1
  cases hm : shard.mgr with
  | none =>
      simp only [Shard.step, hm]
      exact hversioned
  | some m =>
      have htended := hversioned.upright.tended m hm
      have hticked := hversioned.ticked hm now.nanos
      simp only [Shard.step, hm, Shard.serve]
      exact hticked.compact (htended.of_shard _ _) (hseparate.1.2 m hm) (hseparate.2 m hm) hunused

theorem Versioned.step {event : Event} (hseparate : Separate c shard event) :
    Versioned c (shard.step c event) (sealedVersions ++ sealedDocs c shard event) := by
  have hafter := hversioned.upright.step hseparate.orderly
  have hkept := hversioned.upright.kept
  have hcall : event.isCall = true →
      Versioned c (shard.step c event) (sealedVersions ++ sealedDocs c shard event) := by
    intro hcall
    obtain ⟨hsaved, hdisk⟩ := @step_of_isCall c shard event hcall
    rw [sealedDocs_of_isCall hcall, List.append_nil]
    exact hversioned.congr hafter hsaved (fun _ => by rw [hdisk]) fun _ h => h.step hkept event
  cases event with
  | triggerSeal now => exact hversioned.triggerSeal hseparate
  | runCompaction now =>
      have hnone : sealedDocs c shard (.runCompaction now) = [] := rfl
      rw [hnone, List.append_nil]
      exact hversioned.runCompaction hseparate
  | open_ now =>
      have hnone : sealedDocs c shard (.open_ now) = [] := rfl
      have hupright : Upright c { shard with boot := now.nanos, clock := now.nanos } :=
        ⟨⟨hkept.dims, hkept.entombs, hkept.unopened, hkept.backed⟩, fun m hm => by
          have htended := hversioned.upright.tended m hm
          exact ⟨htended.tombstones, htended.saved, htended.current, htended.indexed,
            htended.loaded, htended.pending, htended.rooted, htended.covered⟩⟩
      have hbefore : Versioned c { shard with boot := now.nanos, clock := now.nanos }
          sealedVersions := hversioned.congr hupright rfl (fun _ => rfl) fun _ h => h
      rw [hnone, List.append_nil]
      exact hbefore.openShard _
  | _ => exact hcall rfl

end

end Steps

/-- In every run whose compactions separate, the sealed segments of the manifest supply for
every live document the version that was sealed last. -/
theorem newest_supplied {c : Config} {events : List Event}
    (hmeets : Run.Meets (Shard.step c) (Separate c) Shard.fresh events) {m : Manager}
    (hm : (Run.run (Shard.step c) Shard.fresh events).mgr = some m) {id : Bytes}
    (halive : (m.tombstones.lookup id).isNone = true) :
    supplied c (Run.run (Shard.step c) Shard.fresh events).disk m.manifest.immutableSegments id =
      docOf (versions c events) id := by
  have hstart : Versioned c Shard.fresh [] :=
    ⟨upright_fresh c, fun _ => rfl, fun _ hsaved => by cases hsaved⟩
  have hrun := @Run.collect_invariant _ _ (Shard.step c) _ (Separate c) (sealedDocs c) (Versioned c)
    (fun _ _ _ hseparate hversioned => hversioned.step hseparate) _ _ _ hmeets hstart
  rw [List.nil_append] at hrun
  have htended := hrun.upright.tended m hm
  refine hrun.latest m.manifest htended.saved id fun hdead => ?_
  have hsome := (htended.tombstones id).mpr hdead
  rw [Option.isNone_iff_eq_none.mp halive] at hsome
  cases hsome

/-- Two versions of a document are sealed and merged. -/
def mergedRun : List Event :=
  [.open_ (moment 1), .store (idOf 'a') (number 1), .triggerSeal (moment 2),
    .store (idOf 'a') (number 2), .triggerSeal (moment 3), .runCompaction (moment 4)]

theorem newest_supplied_mergedRun :
    Run.Meets (Shard.step (lineConfig 2)) (Separate (lineConfig 2)) Shard.fresh mergedRun ∧
      ∃ m, (Run.run (Shard.step (lineConfig 2)) Shard.fresh mergedRun).mgr = some m ∧
        (m.tombstones.lookup (idOf 'a')).isNone = true ∧
        docOf (versions (lineConfig 2) mergedRun) (idOf 'a') = some (number 2) ∧
        supplied (lineConfig 2) (Run.run (Shard.step (lineConfig 2)) Shard.fresh mergedRun).disk
          m.manifest.immutableSegments (idOf 'a') =
            docOf (versions (lineConfig 2) mergedRun) (idOf 'a') := by
  have hmeets : Run.Meets (Shard.step (lineConfig 2)) (Separate (lineConfig 2)) Shard.fresh
      mergedRun := by decide +kernel
  have halive : ((Run.run (Shard.step (lineConfig 2)) Shard.fresh mergedRun).mgr.any fun m =>
      (m.tombstones.lookup (idOf 'a')).isNone) = true := by decide +kernel
  obtain ⟨m, hm, hnone⟩ := (Option.any_eq_true _ _).mp halive
  exact ⟨hmeets, m, hm, hnone, by decide +kernel, newest_supplied hmeets hm hnone⟩

/-- Five segments, of which the first and the last have versions of one document, and a
compaction with the default fan-in. -/
def staleRun : List Event :=
  [.open_ (moment 1), .store (idOf 'a') (number 1), .triggerSeal (moment 2),
    .store (idOf 'b') (number 1), .triggerSeal (moment 3),
    .store (idOf 'c') (number 1), .triggerSeal (moment 4),
    .store (idOf 'd') (number 1), .triggerSeal (moment 5),
    .store (idOf 'a') (number 2), .triggerSeal (moment 6), .runCompaction (moment 7)]

/-- The merged segments have the old version, which the list then ends with. -/
theorem stale_version_supplied :
    docOf (versions (lineConfig 4) staleRun) (idOf 'a') = some (number 2) ∧
      ((Run.run (Shard.step (lineConfig 4)) Shard.fresh staleRun).mgr.any fun m =>
        decide ((m.tombstones.lookup (idOf 'a')).isNone = true ∧
          supplied (lineConfig 4) (Run.run (Shard.step (lineConfig 4)) Shard.fresh staleRun).disk
            m.manifest.immutableSegments (idOf 'a') = some (number 1))) = true ∧
      docOf (versions (lineConfig 1) (mergedRun)) (idOf 'a') = some (number 2) ∧
      ((Run.run (Shard.step (lineConfig 1)) Shard.fresh mergedRun).mgr.any fun m =>
        decide ((m.tombstones.lookup (idOf 'a')).isNone = true ∧
          supplied (lineConfig 1) (Run.run (Shard.step (lineConfig 1)) Shard.fresh mergedRun).disk
            m.manifest.immutableSegments (idOf 'a') = some (number 1))) = true := by
  decide +kernel

end Vectron.Segment
