import Vectron.Segment.Visibility

/-! # Interrupted seals and compactions

A seal writes the files of the segment, makes the directory of the next one and saves the
manifest. A compaction writes a new segment, removes the directories of those it merged and
saves the manifest only then. The process may stop between any two of these steps, and each
of them may fail. What an interrupted seal leaves is a directory that no manifest lists. A
compaction that is interrupted after it began to remove directories leaves a manifest with
segments that are gone.
-/

namespace Vectron.Segment

open Foundation
open Worker (Hnsw Pebble Vector idOf kept)

/-! ## The shard with interruptions -/

/-- Where a seal is interrupted. -/
inductive SealPoint where
  /-- after some of the steps on the directory of the segment -/
  | writing (n : Nat)
  /-- when the sealed segment is read back -/
  | loading
  /-- when the directory of the next segment is made -/
  | creating
  /-- when the manifest is saved -/
  | saving
  deriving DecidableEq

/-- Where a compaction is interrupted. -/
inductive CompactionPoint where
  /-- after some of the steps on the directory of the new segment -/
  | writing (n : Nat)
  /-- after some of the merged segments were removed, or at one of them -/
  | removing (n : Nat)
  /-- when the manifest is saved -/
  | saving
  deriving DecidableEq

inductive Incident where
  /-- a step without interruption -/
  | undisturbed (event : Event)
  /-- the process stops between two steps -/
  | stops
  | sealStops (now : Instant) (point : SealPoint)
  | sealFails (now : Instant) (point : SealPoint)
  | compactionStops (now : Instant) (point : CompactionPoint)
  | compactionFails (now : Instant) (point : CompactionPoint)

/-- A shard, and whether its mutable segment is past a seal that did not go through. -/
structure Site where
  shard : Shard
  refusing : Bool

namespace Site

variable (c : Config)

def fresh : Site := ⟨Shard.fresh, false⟩

/-- The process stops. -/
def stop (site : Site) (disk : Disk) : Site :=
  ⟨{ site.shard with disk := disk, mgr := none }, false⟩

/-- A step of a manager whose mutable segment takes no additions. A deletion that is made at
once is refused as well, with the document off the storage already. -/
def refuse (shard : Shard) (m : Manager) : Event → Shard
  | .store id vec =>
      if Shard.accepts c vec then
        { shard with primary := Shard.storeAll c shard.primary [(id, vec)] }
      else shard
  | .storeBatch docs =>
      if Shard.acceptsBatch c docs then
        { shard with primary := Shard.storeAll c shard.primary docs }
      else shard
  | .delete id now =>
      if c.asyncIndex then shard.serve c m (.delete id now)
      else { shard with primary := shard.primary.erase id, clock := now.nanos }
  | .apply =>
      match m.buffer with
      | op :: rest =>
          match op.opType with
          | .add => { shard with mgr := some { m with buffer := rest } }
          | .delete => shard.serve c m .apply
      | [] => shard
  | .triggerSeal now =>
      if m.mutable.shouldSeal c now.nanos && !decide m.Drained then { shard with mgr := none }
      else shard
  | event => shard.serve c m event

/-- A step without interruption. -/
def undisturbed (site : Site) (event : Event) : Site :=
  match event with
  | .open_ now => ⟨site.shard.step c (.open_ now), false⟩
  | event =>
      if site.refusing then
        match site.shard.mgr with
        | some m => { site with shard := refuse c site.shard m event }
        | none => site
      else { site with shard := site.shard.step c event }

/-- The manager, if a seal starts. -/
def sealing (site : Site) (now : Nat) : Option Manager :=
  site.shard.mgr.filter fun m =>
    !site.refusing && m.mutable.shouldSeal c now && decide m.Drained

/-- The disk at a point of a seal. -/
def sealDisk (shard : Shard) (m : Manager) (now : Nat) : SealPoint → Disk
  | .writing n => shard.disk.applyAll ((Shard.sealSteps shard.primary m.mutable now).take n)
  | .loading => shard.disk.applyAll (Shard.sealSteps shard.primary m.mutable now)
  | .creating => shard.disk.applyAll (Shard.sealSteps shard.primary m.mutable now)
  | .saving =>
      (shard.disk.applyAll (Shard.sealSteps shard.primary m.mutable now)).apply
        (.mkdir ⟨now, shard.seq + 1⟩)

/-- What `triggerSeal` leaves when one of its steps fails. A sealed segment that cannot be read
back is only missing in memory, and so is the new manifest if it cannot be saved. Without
a directory for the next segment the sealed one stays where it is. -/
def failedSeal (shard : Shard) (m : Manager) (now : Nat) : SealPoint → Site
  | .writing n => ⟨{ shard with clock := now, disk := sealDisk shard m now (.writing n) }, true⟩
  | .loading =>
      let after := Shard.sealMutable c { shard with clock := now } m now
      ⟨{ after with mgr := after.mgr.map fun m' => { m' with immutables := m.immutables } }, false⟩
  | .creating =>
      ⟨{ shard with
          clock := now
          disk := sealDisk shard m now .creating
          seq := shard.seq + 1
          mgr := some
            { m with
              immutables :=
                match loadImmutableSegment c (sealDisk shard m now .creating) m.mutable.id with
                | some seg => m.immutables.insert m.mutable.id seg
                | none => m.immutables
              manifest := { m.manifest with
                immutableSegments := m.manifest.immutableSegments ++ [m.mutable.id] } } }, true⟩
  | .saving =>
      ⟨{ Shard.sealMutable c { shard with clock := now } m now with saved := shard.saved }, false⟩

/-- What a compaction merges, if it starts. -/
def merging (shard : Shard) (m : Manager) :
    Option (Except (List (Bytes × Vector)) (List (Bytes × Vector) × Hnsw)) :=
  if Compacts c m.manifest.immutableSegments then
    some (mergeSegments c (fun id => ((getTombstones c shard.tombstoneDb).lookup id).isSome)
      shard.disk (m.manifest.immutableSegments.take c.compactionFanIn.toNat).reverse
      ([], c.newIndex))
  else none

/-- The steps of a compaction on the disk: those that write the new segment, and those that
remove the merged ones. -/
def compactionSteps (shard : Shard) (m : Manager) (now : Nat) : List DiskStep × List DiskStep :=
  let newSegID : SegmentID := ⟨now, shard.seq + 1⟩
  match merging c shard m with
  | none => ([], [])
  | some (.error docs) => (abandonedSteps newSegID docs, [])
  | some (.ok merged) =>
      (.mkdir newSegID ::
          (compactWrites merged.2 merged.1 ⟨now, now⟩).map (DiskStep.write newSegID),
        (m.manifest.immutableSegments.take c.compactionFanIn.toNat).map DiskStep.removeAll)

/-- The disk at a point of a compaction. -/
def compactionDisk (shard : Shard) (m : Manager) (now : Nat) : CompactionPoint → Disk
  | .writing n => shard.disk.applyAll ((compactionSteps c shard m now).1.take n)
  | .removing n =>
      shard.disk.applyAll
        ((compactionSteps c shard m now).1 ++ (compactionSteps c shard m now).2.take n)
  | .saving =>
      shard.disk.applyAll ((compactionSteps c shard m now).1 ++ (compactionSteps c shard m now).2)

/-- The manifest a compaction leaves in memory. -/
def compactedManifest (shard : Shard) (m : Manager) (now : Nat) : Manifest :=
  { m.manifest with
    immutableSegments := replaceFront c.compactionFanIn.toNat m.manifest.immutableSegments
      ⟨now, shard.seq + 1⟩ }

/-- What `runCompaction` leaves when one of its steps fails. A directory that cannot be
removed is left behind. -/
def failedCompaction (shard : Shard) (m : Manager) (now : Nat) (point : CompactionPoint) : Shard :=
  match merging c shard m with
  | none =>
      match point with
      | .saving =>
          -- the slice of a negative length is taken before anything is saved
          if 2 ≤ m.manifest.immutableSegments.length ∧ c.compactionFanIn < 0 then
            shard.compact c m now
          else shard
      | _ => shard.compact c m now
  | some (.error _) =>
      match point with
      | .writing n =>
          { shard with disk := compactionDisk c shard m now (.writing n), seq := shard.seq + 1 }
      | _ => shard.compact c m now
  | some (.ok _) =>
      match point with
      | .writing n =>
          { shard with disk := compactionDisk c shard m now (.writing n), seq := shard.seq + 1 }
      | .removing n =>
          let disk := shard.disk.applyAll ((compactionSteps c shard m now).1 ++
            (compactionSteps c shard m now).2.eraseIdx n)
          let manifest := compactedManifest c shard m now
          { shard with
            disk := disk
            seq := shard.seq + 1
            saved := some manifest
            mgr := some
              { m with
                manifest := manifest
                immutables := Shard.reconcile c disk m.manifest.immutableSegments
                  manifest.immutableSegments m.immutables } }
      | .saving =>
          { shard with
            disk := compactionDisk c shard m now .saving
            seq := shard.seq + 1
            mgr := some { m with manifest := compactedManifest c shard m now } }

/-- One step, with or without an interruption. -/
def step (site : Site) : Incident → Site
  | .undisturbed event => site.undisturbed c event
  | .stops => site.stop site.shard.disk
  | .sealStops now point =>
      match site.sealing c now.nanos with
      | some m => site.stop (sealDisk site.shard m now.nanos point)
      | none => site.stop site.shard.disk
  | .sealFails now point =>
      match site.sealing c now.nanos with
      | some m => failedSeal c site.shard m now.nanos point
      | none => site.undisturbed c (.triggerSeal now)
  | .compactionStops now point =>
      match site.shard.mgr with
      | some m => site.stop (compactionDisk c site.shard m now.nanos point)
      | none => site
  | .compactionFails now point =>
      match site.shard.mgr with
      | some m => { site with
          shard := failedCompaction c { site.shard with clock := now.nanos } m now.nanos point }
      | none => site

end Site

/-! ## Steps on one directory -/

/-- A step that makes or fills a directory. -/
def DiskStep.Builds (id : SegmentID) : DiskStep → Prop
  | .mkdir other => other = id
  | .write other _ => other = id
  | .removeAll _ => False

/-- Steps that make and fill one directory. -/
def Builds (id : SegmentID) (steps : List DiskStep) : Prop := ∀ step ∈ steps, step.Builds id

section Directories

variable {disk : Disk} {id : SegmentID} {steps : List DiskStep}

theorem lookup_of_builds (hbuilds : Builds id steps) {other : SegmentID} (hne : other ≠ id) :
    (disk.applyAll steps).lookup other = disk.lookup other := by
  induction steps generalizing disk with
  | nil => rfl
  | cons step rest ih =>
      have hcons : disk.applyAll (step :: rest) = (disk.apply step).applyAll rest := rfl
      have hstep := hbuilds step List.mem_cons_self
      rw [hcons, ih fun step hin => hbuilds step (List.mem_cons_of_mem _ hin)]
      cases step with
      | mkdir made =>
          obtain rfl : made = id := hstep
          rw [Disk.lookup_mkdir, if_neg hne]
      | write made write =>
          obtain rfl : made = id := hstep
          unfold Disk.apply
          simp only
          split
          next => exact AList.lookup_insert_ne hne
          next => rfl
      | removeAll made => exact hstep.elim

theorem ne_none_of_builds (hbuilds : Builds id steps) {other : SegmentID}
    (hsome : disk.lookup other ≠ none) : (disk.applyAll steps).lookup other ≠ none := by
  induction steps generalizing disk with
  | nil => exact hsome
  | cons step rest ih =>
      have hcons : disk.applyAll (step :: rest) = (disk.apply step).applyAll rest := rfl
      have hstep := hbuilds step List.mem_cons_self
      rw [hcons]
      refine ih (fun step hin => hbuilds step (List.mem_cons_of_mem _ hin)) ?_
      cases step with
      | mkdir made =>
          rw [Disk.lookup_mkdir]
          split
          next => exact nofun
          next => exact hsome
      | write made write =>
          unfold Disk.apply
          simp only
          split
          next =>
            rw [GoMap.lookup_insert_if]
            split
            next => exact nofun
            next => exact hsome
          next => exact hsome
      | removeAll made => exact hstep.elim

theorem Builds.take (hbuilds : Builds id steps) (n : Nat) : Builds id (steps.take n) :=
  fun step hin => hbuilds step (List.mem_of_mem_take hin)

theorem builds_writes (id : SegmentID) (writes : List FileWrite) :
    Builds id (.mkdir id :: writes.map (DiskStep.write id)) := by
  intro step hin
  rcases List.mem_cons.mp hin with rfl | hrest
  · rfl
  · obtain ⟨write, _, rfl⟩ := List.mem_map.mp hrest
    rfl

end Directories

/-! ## What the disk must hold -/

/-- A segment with all of its files, whose index has every document beside it. -/
def Whole (c : Config) (disk : Disk) (segID : SegmentID) : Prop :=
  ∃ dir hnsw docs info, disk.lookup segID = some dir ∧ dir.Holds hnsw docs info ∧
    ∀ id, (docOf docs id).isSome → (hnsw.item c.arith id).isSome

/-- A manifest whose segments are whole, and whose mutable segment is none of them. -/
structure Manifest.Sound (c : Config) (disk : Disk) (manifest : Manifest) : Prop where
  current : ∃ cur, manifest.mutableSegmentID = some cur ∧ disk.lookup cur ≠ none ∧
    cur ∉ manifest.immutableSegments
  nodup : manifest.immutableSegments.Nodup
  whole : ∀ segID ∈ manifest.immutableSegments, Whole c disk segID

/-- Both the manifest in the database and the one in memory are sound, and neither lists the
segment that is filled. -/
structure Durable (c : Config) (shard : Shard) : Prop where
  dims : ∀ id vec, shard.primary.lookup id = some vec → vec.length = c.index.dim
  saved : ∀ manifest, shard.saved = some manifest → manifest.Sound c shard.disk
  mgr : ∀ m, shard.mgr = some m → m.manifest.Sound c shard.disk ∧
    m.manifest.mutableSegmentID = some m.mutable.id ∧ m.mutable.Indexed c ∧
    ∃ manifest, shard.saved = some manifest ∧ m.mutable.id ∉ manifest.immutableSegments

section Sound

variable {c : Config} {disk disk' : Disk} {manifest : Manifest}

theorem Whole.lookup_ne_none {segID : SegmentID} (hwhole : Whole c disk segID) :
    disk.lookup segID ≠ none := by
  obtain ⟨dir, _, _, _, hdir, _⟩ := hwhole
  rw [hdir]
  exact nofun

theorem Whole.congr {segID : SegmentID} (hwhole : Whole c disk segID)
    (hsame : disk'.lookup segID = disk.lookup segID) : Whole c disk' segID := by
  obtain ⟨dir, hnsw, docs, info, hdir, hrest⟩ := hwhole
  exact ⟨dir, hnsw, docs, info, hsame.trans hdir, hrest⟩

namespace Manifest.Sound

theorem fresh (hsound : manifest.Sound c disk) {segID : SegmentID}
    (hunused : disk.lookup segID = none) : segID ∉ manifest.immutableSegments :=
  fun hin => (hsound.whole segID hin).lookup_ne_none hunused

/-- Filling a directory that the manifest does not list changes nothing for it. -/
theorem builds (hsound : manifest.Sound c disk) {id : SegmentID} {steps : List DiskStep}
    (hbuilds : Builds id steps) (hnot : id ∉ manifest.immutableSegments) :
    manifest.Sound c (disk.applyAll steps) where
  current := by
    obtain ⟨cur, hcur, hdir, hout⟩ := hsound.current
    exact ⟨cur, hcur, ne_none_of_builds hbuilds hdir, hout⟩
  nodup := hsound.nodup
  whole segID hin := by
    refine (hsound.whole segID hin).congr (lookup_of_builds hbuilds fun heq => ?_)
    subst heq
    exact hnot hin

end Manifest.Sound

end Sound

namespace Durable

variable {c : Config} {shard : Shard} {m : Manager}

section

variable (hdurable : Durable c shard)

include hdurable

theorem current (hm : shard.mgr = some m) :
    shard.disk.lookup m.mutable.id ≠ none ∧ m.mutable.id ∉ m.manifest.immutableSegments := by
  obtain ⟨hsound, hcurrent, _⟩ := hdurable.mgr m hm
  obtain ⟨cur, hcur, hdir, hnot⟩ := hsound.current
  rw [hcurrent] at hcur
  obtain rfl := Option.some.inj hcur
  exact ⟨hdir, hnot⟩

/-- The segment that is filled is not in the saved manifest. -/
theorem notMem_saved (hm : shard.mgr = some m) {manifest : Manifest}
    (hsaved : shard.saved = some manifest) : m.mutable.id ∉ manifest.immutableSegments := by
  obtain ⟨_, _, _, other, hother, hnot⟩ := hdurable.mgr m hm
  obtain rfl := Option.some.inj (hsaved.symm.trans hother)
  exact hnot

/-- Changes that touch neither the manifests nor the directories. -/
theorem of_mutable {after : Shard}
    (hdims : ∀ id vec, after.primary.lookup id = some vec → vec.length = c.index.dim)
    (hsaved : after.saved = shard.saved) (hdisk : after.disk = shard.disk)
    (hmgr : ∀ m', after.mgr = some m' → ∃ m, shard.mgr = some m ∧ m'.manifest = m.manifest ∧
      m'.mutable.id = m.mutable.id ∧ m'.mutable.Indexed c) :
    Durable c after where
  dims := hdims
  saved manifest hmanifest := by
    rw [hdisk]
    exact hdurable.saved manifest (hsaved ▸ hmanifest)
  mgr m' hm' := by
    obtain ⟨m, hm, hmanifest, hid, hindexed⟩ := hmgr m' hm'
    obtain ⟨hsound, hcurrent, _, hother⟩ := hdurable.mgr m hm
    rw [hdisk, hmanifest, hid, hsaved]
    exact ⟨hsound, hcurrent, hindexed, hother⟩

/-- A directory that neither manifest lists is filled, and the process goes on or stops. -/
theorem builds {id : SegmentID} {steps : List DiskStep} (hbuilds : Builds id steps)
    (hsaved : ∀ manifest, shard.saved = some manifest → id ∉ manifest.immutableSegments)
    (hmemory : ∀ m, shard.mgr = some m → id ∉ m.manifest.immutableSegments) (seq clock : Nat)
    {mgr : Option Manager} (hmgr : mgr = shard.mgr ∨ mgr = none) :
    Durable c { shard with disk := shard.disk.applyAll steps, seq := seq, clock := clock,
                           mgr := mgr } where
  dims := hdurable.dims
  saved manifest hmanifest := (hdurable.saved manifest hmanifest).builds hbuilds
    (hsaved manifest hmanifest)
  mgr m hm := by
    rcases hmgr with hsame | hnone
    · have hm' : shard.mgr = some m := hsame.symm.trans hm
      obtain ⟨hsound, hrest⟩ := hdurable.mgr m hm'
      exact ⟨hsound.builds hbuilds (hmemory m hm'), hrest⟩
    · exact absurd (hnone.symm.trans hm) nofun

/-- The process stops. -/
theorem stopped : Durable c { shard with mgr := none } where
  dims := hdurable.dims
  saved := hdurable.saved
  mgr _ hm := by cases hm

/-! ### Calls -/

section

variable (hm : shard.mgr = some m)

include hm

theorem store {event : Event} (hstore : event.isStore = true) :
    Durable c (shard.serve c m event) := by
  rw [Shard.serve_of_isStore hstore]
  split
  next haccepted =>
    have hdocs := event.dims_of_accepted haccepted
    have hdims := Shard.dims_storeAll hdurable.dims hdocs
    obtain ⟨_, _, hindexed, _⟩ := hdurable.mgr m hm
    have hstores : Manager.Stores c (Shard.storeAll c shard.primary event.docs) event.docs m
        (m.stored c (Shard.storeAll c shard.primary event.docs) event) :=
      Manager.stores_of_docs hindexed hdims hdocs
        (fun id hid => Shard.isSome_storeAll.mpr (Or.inl hid)) hstore
    refine hdurable.of_mutable hdims rfl rfl fun m' hm' => ⟨m, hm, ?_⟩
    obtain rfl := Option.some.inj hm'
    exact ⟨hstores.manifest, hstores.id, hstores.indexed⟩
  next => exact hdurable

theorem delete (id : Bytes) (now : Instant) :
    Durable c (shard.serve c m (.delete id now)) := by
  obtain ⟨_, _, hindexed, _⟩ := hdurable.mgr m hm
  obtain ⟨halike, _⟩ := @Manager.delete_cases c (shard.primary.erase id) m hindexed id now
  refine hdurable.of_mutable (Shard.dims_erase hdurable.dims id) rfl rfl fun m' hm' => ⟨m, hm, ?_⟩
  obtain rfl := Option.some.inj hm'
  exact ⟨halike.manifest, halike.id, halike.indexed⟩

theorem take :
    Durable c (shard.serve c m .take) := by
  obtain ⟨_, _, hindexed, _⟩ := hdurable.mgr m hm
  unfold Shard.serve
  simp only
  split
  next =>
    refine hdurable.of_mutable hdurable.dims rfl rfl fun m' hm' => ⟨m, hm, ?_⟩
    obtain rfl := Option.some.inj hm'
    exact ⟨rfl, rfl, hindexed⟩
  next => exact hdurable

theorem apply :
    Durable c (shard.serve c m .apply) := by
  obtain ⟨_, _, hindexed, _⟩ := hdurable.mgr m hm
  unfold Shard.serve
  simp only
  split
  next op rest _ =>
    obtain ⟨hafter, hid⟩ := applyIndexOp_indexed hindexed hdurable.dims op
    refine hdurable.of_mutable hdurable.dims rfl rfl fun m' hm' => ⟨m, hm, ?_⟩
    obtain rfl := Option.some.inj hm'
    exact ⟨rfl, hid, hafter⟩
  next => exact hdurable

end

end

/-! ### Seals -/

theorem builds_sealSteps (shard : Shard) (m : Manager) (now : Nat) :
    Builds m.mutable.id (Shard.sealSteps shard.primary m.mutable now) := builds_writes _ _

theorem whole_sealed (hindexed : m.mutable.Indexed c) (now : Nat) :
    Whole c (shard.disk.applyAll (Shard.sealSteps shard.primary m.mutable now)) m.mutable.id := by
  refine ⟨_, _, _, _, by rw [lookup_sealSteps, if_pos rfl], SegmentDir.holds_sealWrites ..,
    fun id hsome => ?_⟩
  unfold Shard.persisted at hsome
  rw [docOf_loadVectors] at hsome
  split at hsome
  next hin => exact (MutableSegment.mem_activeIDs hindexed id).mp hin
  next => cases hsome

/-- The manifest of a seal. -/
def sealedManifest (shard : Shard) (m : Manager) (now : Nat) : Manifest :=
  ⟨some ⟨now, shard.seq + 1⟩, m.manifest.immutableSegments ++ [m.mutable.id]⟩

section

variable (hdurable : Durable c shard) (hm : shard.mgr = some m) {now : Nat}
  (hunused : shard.disk.lookup ⟨now, shard.seq + 1⟩ = none)

include hdurable hm hunused

/-- A seal that went through, whether or not its manifest is saved. -/
theorem sealed {after : Shard} (hprimary : after.primary = shard.primary)
    (hdisk : after.disk = (shard.disk.applyAll (Shard.sealSteps shard.primary m.mutable now)).apply
      (.mkdir ⟨now, shard.seq + 1⟩))
    (hsaved : after.saved = shard.saved ∨ after.saved = some (sealedManifest shard m now))
    (hmgr : ∀ m', after.mgr = some m' → m'.manifest = sealedManifest shard m now ∧
      m'.mutable = newMutableSegment c ⟨now, shard.seq + 1⟩ now) :
    Durable c after := by
  obtain ⟨hsound, _, hindexed, other, hother, hout⟩ := hdurable.mgr m hm
  obtain ⟨hdir, hnot⟩ := hdurable.current hm
  have hne : m.mutable.id ≠ (⟨now, shard.seq + 1⟩ : SegmentID) := ne_of_unused hunused hdir
  have hmade : Builds (⟨now, shard.seq + 1⟩ : SegmentID) [.mkdir ⟨now, shard.seq + 1⟩] :=
    builds_writes _ []
  have hfilled : after.disk = Disk.applyAll (shard.disk.applyAll
      (Shard.sealSteps shard.primary m.mutable now)) [.mkdir ⟨now, shard.seq + 1⟩] := hdisk
  have hold : ∀ manifest : Manifest, manifest.Sound c shard.disk →
      m.mutable.id ∉ manifest.immutableSegments → manifest.Sound c after.disk := by
    intro manifest hmanifest hnotin
    rw [hfilled]
    exact (hmanifest.builds (builds_sealSteps shard m now) hnotin).builds hmade
      (hmanifest.fresh hunused)
  have hnew : (sealedManifest shard m now).Sound c after.disk := by
    refine ⟨⟨_, rfl, ?_, ?_⟩, ?_, fun segID hin => ?_⟩
    · rw [hdisk, Disk.lookup_mkdir, if_pos rfl]
      exact nofun
    · simp only [sealedManifest, List.mem_append, List.mem_singleton, not_or]
      exact ⟨hsound.fresh hunused, hne.symm⟩
    · refine List.nodup_append.mpr ⟨hsound.nodup, List.nodup_singleton _, ?_⟩
      intro old hin last hlast heq
      rw [List.mem_singleton.mp hlast] at heq
      subst heq
      exact hnot hin
    · rcases List.mem_append.mp hin with hin | hlast
      · exact (hold m.manifest hsound hnot).whole segID hin
      · obtain rfl := List.mem_singleton.mp hlast
        refine (@whole_sealed c shard m hindexed now).congr ?_
        rw [hdisk, Disk.lookup_mkdir, if_neg hne]
  refine ⟨by rw [hprimary]; exact hdurable.dims, fun manifest hmanifest => ?_, fun m' hm' => ?_⟩
  · rcases hsaved with hsame | hset
    · have hbefore : shard.saved = some manifest := hsame.symm.trans hmanifest
      exact hold manifest (hdurable.saved manifest hbefore) (hdurable.notMem_saved hm hbefore)
    · obtain rfl := Option.some.inj (hset.symm.trans hmanifest)
      exact hnew
  · obtain ⟨hmanifest, hmutable⟩ := hmgr m' hm'
    rw [hmanifest, hmutable]
    refine ⟨hnew, rfl, MutableSegment.indexed_new _ _, ?_⟩
    rcases hsaved with hsame | hset
    · exact ⟨other, hsame.trans hother, (hdurable.saved other hother).fresh hunused⟩
    · refine ⟨_, hset, ?_⟩
      simp only [newMutableSegment, sealedManifest, List.mem_append, List.mem_singleton, not_or]
      exact ⟨hsound.fresh hunused, hne.symm⟩

theorem sealMutable :
    Durable c (shard.sealMutable c m now) := by
  refine hdurable.sealed hm hunused rfl rfl (Or.inr rfl) fun m' hm' => ?_
  obtain rfl := Option.some.inj hm'
  exact ⟨rfl, rfl⟩

/-- A seal that stops. -/
theorem sealStopped (point : SealPoint) :
    Durable c { shard with disk := Site.sealDisk shard m now point, mgr := none } := by
  have hfilling : ∀ n, Durable c
      { shard with
        disk := shard.disk.applyAll ((Shard.sealSteps shard.primary m.mutable now).take n)
        mgr := none } :=
    fun n => hdurable.builds ((builds_sealSteps shard m now).take n)
      (fun manifest hsaved => hdurable.notMem_saved hm hsaved)
      (fun m' hm' => by
        obtain rfl := Option.some.inj (hm.symm.trans hm')
        exact (hdurable.current hm).2) shard.seq shard.clock (Or.inr rfl)
  have hfilled := hfilling (Shard.sealSteps shard.primary m.mutable now).length
  rw [List.take_length] at hfilled
  cases point with
  | writing n => exact hfilling n
  | loading => exact hfilled
  | creating => exact hfilled
  | saving =>
      have hsaving : Durable c { shard with disk := Site.sealDisk shard m now .saving, mgr := none } :=
        hdurable.sealed hm hunused rfl rfl (Or.inl rfl) fun m' hm' => by cases hm'
      exact hsaving

/-- A seal one of whose steps fails, other than the directory of the next segment. -/
theorem sealFailed {point : SealPoint} (hpoint : point ≠ .creating) :
    Durable c (Site.failedSeal c shard m now point).shard := by
  have hticked : Durable c { shard with clock := now } :=
    ⟨hdurable.dims, hdurable.saved, hdurable.mgr⟩
  cases point with
  | writing n =>
      exact hdurable.builds ((builds_sealSteps shard m now).take n)
        (fun manifest hsaved => hdurable.notMem_saved hm hsaved)
        (fun m' hm' => by
          obtain rfl := Option.some.inj (hm.symm.trans hm')
          exact (hdurable.current hm).2) shard.seq now (Or.inl rfl)
  | loading =>
      refine hticked.sealed hm hunused rfl rfl (Or.inr rfl) fun m' hm' => ?_
      obtain rfl := Option.some.inj hm'
      exact ⟨rfl, rfl⟩
  | creating => exact absurd rfl hpoint
  | saving =>
      refine hticked.sealed hm hunused rfl rfl (Or.inl rfl) fun m' hm' => ?_
      obtain rfl := Option.some.inj hm'
      exact ⟨rfl, rfl⟩

end

/-! ### Compactions -/

theorem whole_merged {disk : Disk} {segIDs : List SegmentID} {dead : Bytes → Bool}
    {merged : List (Bytes × Vector) × Hnsw}
    (hmerge : mergeSegments c dead disk segIDs ([], c.newIndex) = .ok merged)
    (newSegID : SegmentID) (now : Nat) :
    Whole c (disk.applyAll (.mkdir newSegID ::
      (compactWrites merged.2 merged.1 ⟨now, now⟩).map (DiskStep.write newSegID))) newSegID := by
  obtain ⟨_, _, hmerges, _⟩ := mergeSegments_spec merges_empty hmerge
  refine ⟨_, _, _, _, by rw [Disk.lookup_mkdir_writes, if_pos rfl],
    SegmentDir.holds_compactWrites .., fun id hsome => ?_⟩
  rw [hmerges.items]
  simpa using hsome

section

variable (hdurable : Durable c shard)

include hdurable

/-- A compaction that went through, whether or not every merged segment could be removed. If
its manifest is not saved, nothing may have been removed. -/
theorem compacted (hm : shard.mgr = some m) {now : Nat}
    (hunused : shard.disk.lookup ⟨now, shard.seq + 1⟩ = none)
    (htakes : TakesFront c m.manifest.immutableSegments)
    (hcompacts : Compacts c m.manifest.immutableSegments) {dead : Bytes → Bool}
    {merged : List (Bytes × Vector) × Hnsw}
    (hmerge : mergeSegments c dead shard.disk
      (m.manifest.immutableSegments.take c.compactionFanIn.toNat).reverse ([], c.newIndex) =
      .ok merged)
    {removed : List SegmentID}
    (hremoved : ∀ segID ∈ removed, segID ∈ m.manifest.immutableSegments.take c.compactionFanIn.toNat)
    {after : Shard} (hprimary : after.primary = shard.primary)
    (hdisk : after.disk = Disk.applyAll (shard.disk.applyAll
      (.mkdir ⟨now, shard.seq + 1⟩ :: (compactWrites merged.2 merged.1 ⟨now, now⟩).map
      (DiskStep.write ⟨now, shard.seq + 1⟩))) (removed.map DiskStep.removeAll))
    (hsaved : after.saved = some (Site.compactedManifest c shard m now) ∨
      after.saved = shard.saved ∧ removed = [])
    (hmgr : ∀ m', after.mgr = some m' → m'.manifest = Site.compactedManifest c shard m now ∧
      m'.mutable = m.mutable) :
    Durable c after := by
  obtain ⟨hsound, hcurrent, hindexed, other, hother, hout⟩ := hdurable.mgr m hm
  obtain ⟨hdir, hnot⟩ := hdurable.current hm
  have hne : m.mutable.id ≠ (⟨now, shard.seq + 1⟩ : SegmentID) := ne_of_unused hunused hdir
  have hfresh := hsound.fresh hunused
  have hbuilds := builds_writes (⟨now, shard.seq + 1⟩ : SegmentID)
    (compactWrites merged.2 merged.1 ⟨now, now⟩)
  have hlist : (Site.compactedManifest c shard m now).immutableSegments =
      m.manifest.immutableSegments.drop c.compactionFanIn.toNat ++ [⟨now, shard.seq + 1⟩] := by
    refine (replaceFront_eq_iff hsound.nodup ?_ _).mpr ?_
    · have hle := hcompacts.2.2
      have hpos := hcompacts.2.1
      omega
    · unfold TakesFront at htakes
      have hle := hcompacts.2.2
      omega
  have hlookup : ∀ segID, segID ∉ m.manifest.immutableSegments.take c.compactionFanIn.toNat →
      after.disk.lookup segID = (shard.disk.applyAll (.mkdir ⟨now, shard.seq + 1⟩ ::
        (compactWrites merged.2 merged.1 ⟨now, now⟩).map
          (DiskStep.write ⟨now, shard.seq + 1⟩))).lookup segID := by
    intro segID hout
    rw [hdisk, Disk.lookup_applyAll_removals, if_neg fun hin => hout (hremoved segID hin)]
  have hcur : after.disk.lookup m.mutable.id ≠ none := by
    rw [hlookup _ fun hin => hnot (List.mem_of_mem_take hin)]
    exact ne_none_of_builds hbuilds hdir
  have hnotin : m.mutable.id ∉ (Site.compactedManifest c shard m now).immutableSegments := by
    rw [hlist, List.mem_append, List.mem_singleton, not_or]
    exact ⟨fun hin => hnot (List.mem_of_mem_drop hin), hne⟩
  have hnew : (Site.compactedManifest c shard m now).Sound c after.disk := by
    refine ⟨⟨_, hcurrent, hcur, hnotin⟩, ?_, fun segID hin => ?_⟩
    · rw [hlist]
      refine List.nodup_append.mpr ⟨hsound.nodup.sublist (List.drop_sublist _ _),
        List.nodup_singleton _, ?_⟩
      intro old hold last hlast heq
      rw [List.mem_singleton.mp hlast] at heq
      subst heq
      exact hfresh (List.mem_of_mem_drop hold)
    · rw [hlist] at hin
      rcases List.mem_append.mp hin with hold | hlast
      · have hkeep := notMem_take_of_mem_drop hsound.nodup hold
        refine (hsound.whole segID (List.mem_of_mem_drop hold)).congr ?_
        rw [hlookup segID hkeep, lookup_of_builds hbuilds]
        intro heq
        subst heq
        exact hfresh (List.mem_of_mem_drop hold)
      · obtain rfl := List.mem_singleton.mp hlast
        exact (whole_merged hmerge _ now).congr
          (hlookup _ fun hin => hfresh (List.mem_of_mem_take hin))
  refine ⟨by rw [hprimary]; exact hdurable.dims, fun manifest hmanifest => ?_, fun m' hm' => ?_⟩
  · rcases hsaved with hset | ⟨hsame, hnone⟩
    · obtain rfl := Option.some.inj (hset.symm.trans hmanifest)
      exact hnew
    · have hbefore := hdurable.saved manifest (hsame.symm.trans hmanifest)
      rw [hdisk, hnone]
      exact hbefore.builds hbuilds (hbefore.fresh hunused)
  · obtain ⟨hmanifest, hmutable⟩ := hmgr m' hm'
    rw [hmanifest, hmutable]
    refine ⟨hnew, hcurrent, hindexed, ?_⟩
    rcases hsaved with hset | ⟨hsame, _⟩
    · exact ⟨_, hset, hnotin⟩
    · exact ⟨other, hsame.trans hother, hout⟩

/-- A compaction that fills the directory of the new segment and leaves the manifests. -/
theorem writing {newSegID : SegmentID} (hunused : shard.disk.lookup newSegID = none)
    {steps : List DiskStep} (hbuilds : Builds newSegID steps) (seq clock : Nat)
    {mgr : Option Manager} (hmgr : mgr = shard.mgr ∨ mgr = none) :
    Durable c { shard with disk := shard.disk.applyAll steps, seq := seq, clock := clock,
                           mgr := mgr } :=
  hdurable.builds hbuilds (fun manifest hsaved => (hdurable.saved manifest hsaved).fresh hunused)
    (fun m hm => (hdurable.mgr m hm).1.fresh hunused) seq clock hmgr

/-- A round that finds too few segments saves the manifest all the same. -/
theorem saves (hm : shard.mgr = some m) (immutables : GoMap SegmentID ImmutableSegment) :
    Durable c { shard with
      saved := some m.manifest
      mgr := some { m with immutables := immutables } } := by
  obtain ⟨hsound, hcurrent, hindexed, _⟩ := hdurable.mgr m hm
  refine ⟨hdurable.dims, fun manifest hmanifest => ?_, fun m' hm' => ?_⟩
  · obtain rfl := Option.some.inj hmanifest
    exact hsound
  · obtain rfl := Option.some.inj hm'
    exact ⟨hsound, hcurrent, hindexed, _, rfl, (hdurable.current hm).2⟩

theorem compact (hm : shard.mgr = some m) {now : Nat}
    (hunused : shard.disk.lookup ⟨now, shard.seq + 1⟩ = none)
    (htakes : TakesFront c m.manifest.immutableSegments) : Durable c (shard.compact c m now) := by
  unfold Shard.compact
  simp only
  split
  next => exact hdurable.saves hm _
  next => exact hdurable.stopped
  next disk hfails =>
    obtain ⟨docs, rfl⟩ := runCompaction_eq_fails hfails
    exact hdurable.writing hunused (builds_writes _ _) _ _ (Or.inl rfl)
  next disk after hdone =>
    obtain ⟨hmany, hpos, hle, merged, hmerge, rfl, rfl⟩ := runCompaction_eq_done hdone
    refine hdurable.compacted hm hunused htakes ⟨hmany, hpos, hle⟩ hmerge (fun _ hin => hin) rfl
      ?_ (Or.inl rfl) fun m' hm' => ?_
    · simp only
      rw [← Disk.applyAll_append]
      rfl
    · obtain rfl := Option.some.inj hm'
      exact ⟨rfl, rfl⟩

end

/-! ### Interrupted compactions -/

theorem builds_compactionSteps (shard : Shard) (m : Manager) (now : Nat) :
    Builds ⟨now, shard.seq + 1⟩ (Site.compactionSteps c shard m now).1 := by
  unfold Site.compactionSteps
  simp only
  split
  next => exact nofun
  next => exact builds_writes _ _
  next => exact builds_writes _ _

/-- Directories are removed only by a compaction that starts. -/
theorem removals_compactionSteps (shard : Shard) (m : Manager) (now : Nat) :
    (Site.compactionSteps c shard m now).2 = [] ∨ Compacts c m.manifest.immutableSegments ∧
      (Site.compactionSteps c shard m now).2 =
        (m.manifest.immutableSegments.take c.compactionFanIn.toNat).map DiskStep.removeAll := by
  unfold Site.compactionSteps
  simp only
  split
  next => exact Or.inl rfl
  next => exact Or.inl rfl
  next merged hmerging =>
    unfold Site.merging at hmerging
    split at hmerging
    next hcompacts => exact Or.inr ⟨hcompacts, rfl⟩
    next => cases hmerging

end Durable

/-- None of the merged segments is removed yet. -/
def CompactionPoint.Spares (front : List SegmentID) : CompactionPoint → Prop
  | .writing _ => True
  | .removing n => front.take n = []
  | .saving => front = []

instance (front : List SegmentID) : ∀ point : CompactionPoint, Decidable (point.Spares front)
  | .writing _ => isTrue trivial
  | .removing _ => inferInstanceAs (Decidable (_ = _))
  | .saving => inferInstanceAs (Decidable (_ = _))

namespace Durable

variable {c : Config} {shard : Shard} {m : Manager}

section

variable (hdurable : Durable c shard)

include hdurable

/-- A compaction that stops before it removes anything. -/
theorem compactionStopped {now : Nat} (hunused : shard.disk.lookup ⟨now, shard.seq + 1⟩ = none)
    {point : CompactionPoint}
    (hspares : Compacts c m.manifest.immutableSegments → point.Spares
      (m.manifest.immutableSegments.take c.compactionFanIn.toNat)) :
    Durable c { shard with disk := Site.compactionDisk c shard m now point, mgr := none } := by
  have hbuilds := @builds_compactionSteps c shard m now
  have hwritten := hdurable.writing hunused hbuilds shard.seq shard.clock (Or.inr rfl)
  cases point with
  | writing n => exact hdurable.writing hunused (hbuilds.take n) _ _ (Or.inr rfl)
  | removing n =>
      have hnone : (Site.compactionSteps c shard m now).2.take n = [] := by
        rcases @removals_compactionSteps c shard m now with hnil | ⟨hcompacts, hfront⟩
        · rw [hnil, List.take_nil]
        · have hnil : (m.manifest.immutableSegments.take c.compactionFanIn.toNat).take n = [] :=
            hspares hcompacts
          rw [hfront, ← List.map_take, hnil, List.map_nil]
      unfold Site.compactionDisk
      simp only
      rw [hnone, List.append_nil]
      exact hwritten
  | saving =>
      have hnone : (Site.compactionSteps c shard m now).2 = [] := by
        rcases @removals_compactionSteps c shard m now with hnil | ⟨hcompacts, hfront⟩
        · exact hnil
        · have hnil : m.manifest.immutableSegments.take c.compactionFanIn.toNat = [] :=
            hspares hcompacts
          rw [hfront, hnil, List.map_nil]
      unfold Site.compactionDisk
      simp only
      rw [hnone, List.append_nil]
      exact hwritten

/-- A compaction one of whose steps fails, with the manifest saved if anything was removed. -/
theorem compactionFailed (hm : shard.mgr = some m) {now : Nat}
    (hunused : shard.disk.lookup ⟨now, shard.seq + 1⟩ = none)
    (htakes : TakesFront c m.manifest.immutableSegments) {point : CompactionPoint}
    (hspares : Compacts c m.manifest.immutableSegments → point = .saving →
      m.manifest.immutableSegments.take c.compactionFanIn.toNat = []) :
    Durable c (Site.failedCompaction c shard m now point) := by
  have hbuilds := @builds_compactionSteps c shard m now
  have hcompact := hdurable.compact hm hunused htakes
  unfold Site.failedCompaction
  cases hmerging : Site.merging c shard m with
  | none =>
      cases point with
      | writing n => exact hcompact
      | removing n => exact hcompact
      | saving =>
          simp only
          split
          next => exact hcompact
          next => exact hdurable
  | some outcome =>
      have hcompacts : Compacts c m.manifest.immutableSegments := by
        unfold Site.merging at hmerging
        split at hmerging
        next hcompacts => exact hcompacts
        next => cases hmerging
      cases outcome with
      | error docs =>
          cases point with
          | writing n => exact hdurable.writing hunused (hbuilds.take n) _ _ (Or.inl rfl)
          | removing n => exact hcompact
          | saving => exact hcompact
      | ok merged =>
          have hmerge : mergeSegments c
              (fun id => ((getTombstones c shard.tombstoneDb).lookup id).isSome) shard.disk
              (m.manifest.immutableSegments.take c.compactionFanIn.toNat).reverse
              ([], c.newIndex) = .ok merged := by
            unfold Site.merging at hmerging
            rw [if_pos hcompacts] at hmerging
            exact Option.some.inj hmerging
          have hsteps : Site.compactionSteps c shard m now =
              (.mkdir ⟨now, shard.seq + 1⟩ ::
                (compactWrites merged.2 merged.1 ⟨now, now⟩).map
                  (DiskStep.write ⟨now, shard.seq + 1⟩),
                (m.manifest.immutableSegments.take c.compactionFanIn.toNat).map
                  DiskStep.removeAll) := by
            unfold Site.compactionSteps
            simp only [hmerging]
          cases point with
          | writing n => exact hdurable.writing hunused (hbuilds.take n) _ _ (Or.inl rfl)
          | removing n =>
              have hremoved : ∀ segID ∈
                  (m.manifest.immutableSegments.take c.compactionFanIn.toNat).eraseIdx n,
                  segID ∈ m.manifest.immutableSegments.take c.compactionFanIn.toNat :=
                fun segID hin => List.mem_of_mem_eraseIdx hin
              refine hdurable.compacted hm hunused htakes hcompacts hmerge hremoved rfl ?_
                (Or.inl rfl) fun m' hm' => ?_
              · simp only
                rw [hsteps, Disk.applyAll_append, List.eraseIdx_map]
              · obtain rfl := Option.some.inj hm'
                exact ⟨rfl, rfl⟩
          | saving =>
              have hnil := hspares hcompacts rfl
              refine hdurable.compacted hm hunused htakes hcompacts hmerge
                (fun _ hin => hin) rfl ?_ (Or.inr ⟨rfl, hnil⟩) fun m' hm' => ?_
              · unfold Site.compactionDisk
                simp only
                rw [hsteps, Disk.applyAll_append]
              · obtain rfl := Option.some.inj hm'
                exact ⟨rfl, rfl⟩

/-! ### Opening -/

theorem openShard (now : Nat) :
    Durable c (shard.openShard c now) := by
  cases hsaved : shard.saved with
  | none =>
      unfold Shard.openShard
      simp only [hsaved, Option.getD_none, createDefaultManifest]
      have hsound : Manifest.Sound c (shard.disk.apply (.mkdir ⟨now, 1⟩)) ⟨some ⟨now, 1⟩, []⟩ := by
        refine ⟨⟨_, rfl, ?_, List.not_mem_nil⟩, List.nodup_nil, fun segID hin => ?_⟩
        · rw [Disk.lookup_mkdir, if_pos rfl]
          exact Option.some_ne_none _
        · cases hin
      refine ⟨hdurable.dims, fun manifest hmanifest => ?_, fun m hm => ?_⟩
      · obtain rfl := Option.some.inj hmanifest
        exact hsound
      · obtain rfl := Option.some.inj hm
        exact ⟨hsound, rfl, MutableSegment.indexed_new _ _, _, rfl, List.not_mem_nil⟩
  | some manifest =>
      have hsound := hdurable.saved manifest hsaved
      obtain ⟨cur, hcur, hdir, hnot⟩ := hsound.current
      obtain ⟨m, hreopened⟩ := exists_reopened hdurable.dims hsaved hcur hdir now
      have hafter : manifest.Sound c (shard.openShard c now).disk := by
        refine ⟨⟨cur, hcur, by rw [hreopened.disk]; exact hdir, hnot⟩, hsound.nodup,
          fun segID hin => ?_⟩
        exact (hsound.whole segID hin).congr (hreopened.disk segID)
      refine ⟨by rw [hreopened.primary]; exact hdurable.dims, fun other hother => ?_,
        fun m' hm' => ?_⟩
      · obtain rfl := Option.some.inj (hreopened.saved.symm.trans hother)
        exact hafter
      · obtain rfl := Option.some.inj (hreopened.mgr.symm.trans hm')
        rw [hreopened.listed]
        refine ⟨hafter, hreopened.current, hreopened.indexed, manifest, hreopened.saved, ?_⟩
        obtain rfl := Option.some.inj (hcur.symm.trans hreopened.current)
        exact hnot

/-! ### Steps -/

section

variable (hm : shard.mgr = some m) {event : Event} (horderly : Orderly c shard event)

include hm horderly

/-- A step of a manager that answers. -/
theorem serve :
    Durable c (shard.serve c m event) := by
  have hticked : ∀ now, Durable c { shard with clock := now } :=
    fun now => ⟨hdurable.dims, hdurable.saved, hdurable.mgr⟩
  cases event with
  | store id vec
  | storeBatch docs => exact hdurable.store hm rfl
  | delete id now => exact hdurable.delete hm id now
  | take => exact hdurable.take hm
  | apply => exact hdurable.apply hm
  | triggerSeal now =>
      have hunused := Option.isNone_iff_eq_none.mp horderly
      unfold Shard.serve
      simp only
      split
      next =>
        split
        next => exact (hticked now.nanos).sealMutable hm hunused
        next => exact (hticked now.nanos).stopped
      next => exact hticked now.nanos
  | runCompaction now =>
      have hunused := Option.isNone_iff_eq_none.mp horderly.1
      exact (hticked now.nanos).compact hm hunused (horderly.2 m hm)
  | open_ now => exact hdurable

/-- A step of a manager whose segment takes no additions. -/
theorem refuse :
    Durable c (Site.refuse c shard m event) := by
  have hindexed := (hdurable.mgr m hm).2.2.1
  have hstores : ∀ docs : List (Bytes × Vector), (∀ doc ∈ docs, doc.2.length = c.index.dim) →
      Durable c { shard with primary := Shard.storeAll c shard.primary docs } :=
    fun docs hdocs => hdurable.of_mutable (Shard.dims_storeAll hdurable.dims hdocs) rfl rfl fun m' hm' =>
      ⟨m', hm', rfl, rfl, (hdurable.mgr m' hm').2.2.1⟩
  cases event with
  | store id vec =>
      unfold Site.refuse
      simp only
      split
      next haccepts => exact hstores _ (@Event.dims_of_accepted c (.store id vec) haccepts)
      next => exact hdurable
  | storeBatch docs =>
      unfold Site.refuse
      simp only
      split
      next haccepts => exact hstores _ (@Event.dims_of_accepted c (.storeBatch docs) haccepts)
      next => exact hdurable
  | delete id now =>
      unfold Site.refuse
      simp only
      split
      next => exact hdurable.delete hm id now
      next =>
        exact hdurable.of_mutable (Shard.dims_erase hdurable.dims id) rfl rfl fun m' hm' =>
          ⟨m', hm', rfl, rfl, (hdurable.mgr m' hm').2.2.1⟩
  | take => exact hdurable.take hm
  | apply =>
      unfold Site.refuse
      simp only
      split
      next op rest hbuffer =>
        split
        next =>
          refine hdurable.of_mutable hdurable.dims rfl rfl fun m' hm' => ⟨m, hm, ?_⟩
          obtain rfl := Option.some.inj hm'
          exact ⟨rfl, rfl, hindexed⟩
        next => exact hdurable.apply hm
      next => exact hdurable
  | triggerSeal now =>
      unfold Site.refuse
      simp only
      split
      next => exact hdurable.stopped
      next => exact hdurable
  | runCompaction now => exact hdurable.serve hm horderly
  | open_ now => exact hdurable

end

end

theorem undisturbed {site : Site} (hdurable : Durable c site.shard) {event : Event}
    (horderly : Orderly c site.shard event) : Durable c (site.undisturbed c event).shard := by
  have hdone : (∀ now, event ≠ .open_ now) → Durable c (site.undisturbed c event).shard := by
    intro hevent
    have hstep : Durable c (site.shard.step c event) := by
      cases hmgr : site.shard.mgr with
      | none =>
          cases event with
          | open_ now => exact absurd rfl (hevent now)
          | _ =>
              simp only [Shard.step, hmgr]
              exact hdurable
      | some m =>
          cases event with
          | open_ now => exact absurd rfl (hevent now)
          | _ =>
              simp only [Shard.step, hmgr]
              exact hdurable.serve hmgr horderly
    have hrefuse : Durable c (match site.shard.mgr with
        | some m => { site with shard := Site.refuse c site.shard m event }
        | none => site).shard := by
      cases hmgr : site.shard.mgr with
      | none => exact hdurable
      | some m => exact hdurable.refuse hmgr horderly
    unfold Site.undisturbed
    split
    next now => exact absurd rfl (hevent now)
    next =>
      split
      next => exact hrefuse
      next => exact hstep
  cases event with
  | open_ now =>
      have hticked : Durable c { site.shard with boot := now.nanos, clock := now.nanos } :=
        ⟨hdurable.dims, hdurable.saved, hdurable.mgr⟩
      exact hticked.openShard _
  | _ => exact hdone fun now h => by cases h

end Durable

/-! ## Whole runs -/

/-- What an interruption must leave alone: the process does not stop once a compaction has
removed a directory, the manifest is saved after that, and the next segment gets its
directory. -/
def Survivable (c : Config) (site : Site) : Incident → Prop
  | .undisturbed event => Orderly c site.shard event
  | .stops => True
  | .sealStops now _ => (site.shard.disk.lookup ⟨now.nanos, site.shard.seq + 1⟩).isNone = true
  | .sealFails now point =>
      (site.shard.disk.lookup ⟨now.nanos, site.shard.seq + 1⟩).isNone = true ∧ point ≠ .creating
  | .compactionStops now point =>
      (site.shard.disk.lookup ⟨now.nanos, site.shard.seq + 1⟩).isNone = true ∧
        ∀ m ∈ site.shard.mgr, Compacts c m.manifest.immutableSegments →
          point.Spares (m.manifest.immutableSegments.take c.compactionFanIn.toNat)
  | .compactionFails now point =>
      Orderly c site.shard (.runCompaction now) ∧
        ∀ m ∈ site.shard.mgr, Compacts c m.manifest.immutableSegments → point = .saving →
          m.manifest.immutableSegments.take c.compactionFanIn.toNat = []

instance (c : Config) (site : Site) : ∀ incident, Decidable (Survivable c site incident)
  | .undisturbed event => inferInstanceAs (Decidable (Orderly c site.shard event))
  | .stops => isTrue trivial
  | .sealStops _ _ => inferInstanceAs (Decidable (_ = true))
  | .sealFails _ _ => inferInstanceAs (Decidable (_ = true ∧ _))
  | .compactionStops _ _ => inferInstanceAs (Decidable (_ = true ∧ ∀ m ∈ site.shard.mgr, _))
  | .compactionFails _ _ => inferInstanceAs (Decidable (_ ∧ ∀ m ∈ site.shard.mgr, _))

theorem durable_fresh (c : Config) : Durable c Site.fresh.shard where
  dims _ _ hlookup := by simp [Site.fresh, Shard.fresh] at hlookup
  saved _ hsaved := by cases hsaved
  mgr _ hm := by cases hm

/-- One step, with or without an interruption. -/
theorem Durable.step {c : Config} {site : Site} (hdurable : Durable c site.shard)
    {incident : Incident} (hsurvivable : Survivable c site incident) :
    Durable c (site.step c incident).shard := by
  have hsealing : ∀ {now : Nat} {m : Manager}, site.sealing c now = some m →
      site.shard.mgr = some m := fun hm => (Option.filter_eq_some_iff.mp hm).1
  cases incident with
  | undisturbed event => exact hdurable.undisturbed hsurvivable
  | stops => exact hdurable.stopped
  | sealStops now point =>
      have hunused := Option.isNone_iff_eq_none.mp hsurvivable
      unfold Site.step
      simp only
      split
      next m hm => exact hdurable.sealStopped (hsealing hm) hunused point
      next => exact hdurable.stopped
  | sealFails now point =>
      have hunused := Option.isNone_iff_eq_none.mp hsurvivable.1
      unfold Site.step
      simp only
      split
      next m hm => exact hdurable.sealFailed (hsealing hm) hunused hsurvivable.2
      next => exact hdurable.undisturbed hsurvivable.1
  | compactionStops now point =>
      have hunused := Option.isNone_iff_eq_none.mp hsurvivable.1
      unfold Site.step
      simp only
      split
      next m hm => exact hdurable.compactionStopped hunused (hsurvivable.2 m hm)
      next => exact hdurable
  | compactionFails now point =>
      have hunused := Option.isNone_iff_eq_none.mp hsurvivable.1.1
      have hticked : Durable c { site.shard with clock := now.nanos } :=
        ⟨hdurable.dims, hdurable.saved, hdurable.mgr⟩
      unfold Site.step
      simp only
      split
      next m hm =>
        exact hticked.compactionFailed hm hunused (hsurvivable.1.2 m hm) (hsurvivable.2 m hm)
      next => exact hdurable

/-- Whatever the process does from here on, the segments of the saved manifest are there with
all of their files, and opening the shard succeeds, loads each of them and has every stored
document without a tombstone in the index of some segment. -/
def Shard.Survives (c : Config) (shard : Shard) : Prop :=
  ∀ manifest, shard.saved = some manifest →
    (∀ segID ∈ manifest.immutableSegments, Whole c shard.disk segID) ∧
      ∀ now, ∃ m, (shard.openShard c now).mgr = some m ∧
        (∀ segID ∈ manifest.immutableSegments, (m.immutables.lookup segID).isSome) ∧
        ∀ id, ¬ Dead c shard.tombstoneDb id → (shard.primary.lookup id).isSome → m.Holds c id

theorem Durable.survives {c : Config} {shard : Shard} (hdurable : Durable c shard) :
    shard.Survives c := by
  intro manifest hsaved
  have hsound := hdurable.saved manifest hsaved
  obtain ⟨cur, hcur, hdir, _⟩ := hsound.current
  refine ⟨hsound.whole, fun now => ?_⟩
  obtain ⟨m, hreopened⟩ := exists_reopened hdurable.dims hsaved hcur hdir now
  have hload : ∀ segID ∈ manifest.immutableSegments, ∃ seg, m.immutables.lookup segID = some seg ∧
      ∀ id ∈ seg.ids, (seg.hnsw.item c.arith id).isSome := by
    intro segID hin
    obtain ⟨dir, hnsw, docs, info, hdir, hholds, hheld⟩ := hsound.whole segID hin
    refine ⟨_, by rw [hreopened.loaded, if_pos hin]; exact hholds.load hdir, fun id hid => ?_⟩
    rw [ids_ofDocs, ← isSome_docOf] at hid
    simpa [ImmutableSegment.ofDocs] using hheld id hid
  refine ⟨m, hreopened.mgr, fun segID hin => ?_, fun id halive hstored => ?_⟩
  · obtain ⟨seg, hseg, _⟩ := hload segID hin
    exact Option.isSome_of_eq_some hseg
  · by_cases hsealed : id ∈ Shard.sealedIDs m.immutables
    · obtain ⟨segID, seg, hseg, hin⟩ := Shard.mem_sealedIDs.mp hsealed
      have hlisted : segID ∈ manifest.immutableSegments := by
        rw [hreopened.loaded] at hseg
        split at hseg
        next hlisted => exact hlisted
        next => cases hseg
      obtain ⟨seg', hseg', hheld⟩ := hload segID hlisted
      rw [hseg] at hseg'
      obtain rfl := Option.some.inj hseg'
      exact Or.inr ⟨segID, seg, hseg, hheld id hin⟩
    · refine Or.inl ?_
      have hnone : ((getTombstones c shard.tombstoneDb).lookup id).isNone = true := by
        simpa [Dead] using halive
      rw [hreopened.items, if_pos ⟨hnone, hsealed⟩]
      simpa using hstored

/-- If a process that removed the directories of a compaction goes on until the manifest is
saved, what the saved manifest lists survives an interruption at any point. -/
theorem interruption_survived {c : Config} {incidents : List Incident}
    (hmeets : Run.Meets (Site.step c) (Survivable c) Site.fresh incidents) :
    (Run.run (Site.step c) Site.fresh incidents).shard.Survives c := by
  have hdurable : Durable c (Run.run (Site.step c) Site.fresh incidents).shard :=
    @Run.run_invariant _ _ (Site.step c) (Survivable c) (fun site => Durable c site.shard)
      (fun _ _ hsurvivable hdurable => hdurable.step hsurvivable) _ _ hmeets (durable_fresh c)
  exact hdurable.survives

/-- A seal and a compaction that stop while they write, a manifest that cannot be saved after a
seal, and a compaction that cannot remove one of its segments. -/
def roughRun : List Incident :=
  [.undisturbed (.open_ (moment 1)), .undisturbed (.store (idOf 'a') (number 1)),
    .sealStops (moment 2) (.writing 3), .undisturbed (.open_ (moment 3)),
    .undisturbed (.triggerSeal (moment 4)), .undisturbed (.store (idOf 'b') (number 2)),
    .sealFails (moment 5) .saving, .stops, .undisturbed (.open_ (moment 6)),
    .undisturbed (.triggerSeal (moment 7)), .compactionStops (moment 8) (.writing 4),
    .undisturbed (.open_ (moment 9)), .compactionFails (moment 10) (.removing 0), .stops]

theorem interruption_survived_roughRun :
    Run.Meets (Site.step (lineConfig 2)) (Survivable (lineConfig 2)) Site.fresh roughRun ∧
      ((Run.run (Site.step (lineConfig 2)) Site.fresh roughRun).shard.saved.map
        fun manifest => manifest.immutableSegments) = some [⟨11, 1⟩] ∧
      (Run.run (Site.step (lineConfig 2)) Site.fresh roughRun).shard.Survives (lineConfig 2) := by
  have hmeets : Run.Meets (Site.step (lineConfig 2)) (Survivable (lineConfig 2)) Site.fresh
      roughRun := by decide +kernel
  exact ⟨hmeets, by decide +kernel, interruption_survived hmeets⟩

/-- Two segments are sealed, and the process stops after a compaction has removed them and
before it saves the manifest. -/
def strandedRun : List Incident :=
  [.undisturbed (.open_ (moment 1)), .undisturbed (.store (idOf 'a') (number 1)),
    .undisturbed (.triggerSeal (moment 2)), .undisturbed (.store (idOf 'b') (number 2)),
    .undisturbed (.triggerSeal (moment 3)), .compactionStops (moment 4) .saving]

/-- The saved manifest lists both segments, and neither has a directory. -/
theorem listed_segments_gone :
    ∃ manifest,
      (Run.run (Site.step (lineConfig 2)) Site.fresh strandedRun).shard.saved = some manifest ∧
      manifest.immutableSegments.length = 2 ∧
      (∀ segID ∈ manifest.immutableSegments,
        (Run.run (Site.step (lineConfig 2)) Site.fresh strandedRun).shard.disk.lookup segID =
          none) ∧
      ¬ (Run.run (Site.step (lineConfig 2)) Site.fresh strandedRun).shard.Survives
        (lineConfig 2) := by
  have hgone : ((Run.run (Site.step (lineConfig 2)) Site.fresh strandedRun).shard.saved.any
      fun manifest => decide (manifest.immutableSegments.length = 2) &&
        manifest.immutableSegments.all fun segID =>
          ((Run.run (Site.step (lineConfig 2)) Site.fresh strandedRun).shard.disk.lookup
            segID).isNone) = true := by
    decide +kernel
  obtain ⟨manifest, hsaved, hboth⟩ := (Option.any_eq_true _ _).mp hgone
  obtain ⟨hlength, hall⟩ := Bool.and_eq_true_iff.mp hboth
  have hlength := of_decide_eq_true hlength
  have hnone : ∀ segID ∈ manifest.immutableSegments,
      (Run.run (Site.step (lineConfig 2)) Site.fresh strandedRun).shard.disk.lookup segID = none :=
    fun segID hin => Option.isNone_iff_eq_none.mp (List.all_eq_true.mp hall segID hin)
  refine ⟨manifest, hsaved, hlength, hnone, fun hsurvives => ?_⟩
  obtain ⟨segID, hin⟩ := List.exists_mem_of_length_pos (by omega : 0 < manifest.immutableSegments.length)
  exact ((hsurvives manifest hsaved).1 segID hin).lookup_ne_none (hnone segID hin)

end Vectron.Segment
