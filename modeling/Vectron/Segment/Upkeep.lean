import Vectron.Segment.Calls

/-! # What the segment manager keeps

As long as new segments get ids of their own and compactions take off the manifest what they
merged, the segments of the manifest are complete on the disk, the loaded segments are
those of the manifest, and every stored document without a tombstone is in the queue or in
the index of some segment.
-/

namespace Vectron.Segment

open Foundation
open Worker (Hnsw Pebble Vector kept)

/-! ## Segments on the disk -/

/-- A document with a tombstone. -/
def Dead (c : Config) (db : Pebble) (id : Bytes) : Prop :=
  ((getTombstones c db).lookup id).isSome = true

/-- The index of a segment against the documents beside it. A deleted document may be left
in the index alone. -/
structure Payload (c : Config) (dead : Bytes → Prop) (hnsw : Hnsw) (docs : List (Bytes × Vector)) :
    Prop where
  config : hnsw.config = c.newIndex.config
  dims : ∀ id vec, docOf docs id = some vec → vec.length = c.index.dim
  held : ∀ id, (docOf docs id).isSome → (hnsw.item c.arith id).isSome
  written : ∀ id, ¬ dead id → (hnsw.item c.arith id).isSome → (docOf docs id).isSome

theorem Payload.mono {c : Config} {dead dead' : Bytes → Prop} {hnsw : Hnsw}
    {docs : List (Bytes × Vector)} (hpayload : Payload c dead hnsw docs)
    (hdead : ∀ id, dead id → dead' id) : Payload c dead' hnsw docs where
  config := hpayload.config
  dims := hpayload.dims
  held := hpayload.held
  written id halive := hpayload.written id fun h => halive (hdead id h)

/-- A segment with all of its files. -/
def Complete (c : Config) (dead : Bytes → Prop) (disk : Disk) (segID : SegmentID) : Prop :=
  ∃ dir hnsw docs info, disk.lookup segID = some dir ∧ dir.Holds hnsw docs info ∧
    Payload c dead hnsw docs

theorem loadImmutableSegment_congr {c : Config} {disk disk' : Disk} {segID : SegmentID}
    (hsame : disk'.lookup segID = disk.lookup segID) :
    loadImmutableSegment c disk' segID = loadImmutableSegment c disk segID := by
  unfold loadImmutableSegment
  rw [hsame]

namespace Complete

variable {c : Config} {dead : Bytes → Prop} {disk : Disk} {segID : SegmentID}

section

variable (hcomplete : Complete c dead disk segID)

include hcomplete

theorem congr {disk' : Disk} (hsame : disk'.lookup segID = disk.lookup segID) :
    Complete c dead disk' segID := by
  obtain ⟨dir, hnsw, docs, info, hdir, hrest⟩ := hcomplete
  exact ⟨dir, hnsw, docs, info, hsame.trans hdir, hrest⟩

theorem mono {dead' : Bytes → Prop} (hdead : ∀ id, dead id → dead' id) :
    Complete c dead' disk segID := by
  obtain ⟨dir, hnsw, docs, info, hdir, hholds, hpayload⟩ := hcomplete
  exact ⟨dir, hnsw, docs, info, hdir, hholds, hpayload.mono hdead⟩

theorem lookup_ne_none : disk.lookup segID ≠ none := by
  obtain ⟨dir, _, _, _, hdir, _⟩ := hcomplete
  rw [hdir]
  exact nofun

/-- What is loaded of a complete segment. -/
theorem load :
    ∃ seg, loadImmutableSegment c disk segID = some seg ∧
      (∀ id vec, seg.vectorByID id = some vec → vec.length = c.index.dim) ∧
      (∀ id, id ∈ seg.ids → (seg.hnsw.item c.arith id).isSome) ∧
      (∀ id, id ∈ seg.ids ↔ (seg.vectorByID id).isSome) ∧
      ∀ id, ¬ dead id → (seg.hnsw.item c.arith id).isSome → (seg.vectorByID id).isSome := by
  obtain ⟨dir, hnsw, docs, info, hdir, hholds, hpayload⟩ := hcomplete
  refine ⟨_, hholds.load hdir, fun id vec hvec => ?_, fun id hid => ?_, fun id => ?_,
    fun id halive hitem => ?_⟩
  · rw [vectorByID_ofDocs] at hvec
    exact hpayload.dims id vec hvec
  · rw [ids_ofDocs, ← isSome_docOf] at hid
    simpa [ImmutableSegment.ofDocs] using hpayload.held id hid
  · rw [ids_ofDocs, ← isSome_docOf, vectorByID_ofDocs]
    rfl
  · rw [vectorByID_ofDocs]
    exact hpayload.written id halive (by simpa [ImmutableSegment.ofDocs] using hitem)

end

end Complete

/-! ## The invariant -/

/-- A manifest whose segments are complete. -/
structure Manifest.Backed (c : Config) (dead : Bytes → Prop) (disk : Disk) (manifest : Manifest) :
    Prop where
  current : ∃ cur, manifest.mutableSegmentID = some cur ∧ disk.lookup cur ≠ none ∧
    cur ∉ manifest.immutableSegments
  nodup : manifest.immutableSegments.Nodup
  complete : ∀ segID ∈ manifest.immutableSegments, Complete c dead disk segID

/-- What survives the process. -/
structure Kept (c : Config) (shard : Shard) : Prop where
  dims : ∀ id vec, shard.primary.lookup id = some vec → vec.length = c.index.dim
  entombs : Entombs c shard.tombstoneDb (Dead c shard.tombstoneDb)
  unopened : shard.saved = none → shard.primary = ∅
  backed : ∀ manifest, shard.saved = some manifest →
    manifest.Backed c (Dead c shard.tombstoneDb) shard.disk

/-- What the manager of a shard knows and answers for. -/
structure Tended (c : Config) (shard : Shard) (m : Manager) : Prop where
  tombstones : ∀ id, (m.tombstones.lookup id).isSome ↔ Dead c shard.tombstoneDb id
  saved : shard.saved = some m.manifest
  current : m.manifest.mutableSegmentID = some m.mutable.id
  indexed : m.mutable.Indexed c
  loaded : ∀ segID, m.immutables.lookup segID =
    if segID ∈ m.manifest.immutableSegments then loadImmutableSegment c shard.disk segID else none
  pending : ∀ op ∈ m.pending, op.segID = m.mutable.id ∧
    (op.opType = .delete → Dead c shard.tombstoneDb op.id)
  /-- only what is stored is indexed -/
  rooted : ∀ id, ¬ Dead c shard.tombstoneDb id → (m.mutable.item c id).isSome →
    (shard.primary.lookup id).isSome
  /-- what is stored will be found -/
  covered : ∀ id, ¬ Dead c shard.tombstoneDb id → (shard.primary.lookup id).isSome →
    (∃ op ∈ m.pending, id ∈ op.targets) ∨ (m.mutable.item c id).isSome ∨
      ∃ segID seg, m.immutables.lookup segID = some seg ∧ (seg.hnsw.item c.arith id).isSome

/-- The invariant of a shard. -/
structure Upright (c : Config) (shard : Shard) : Prop where
  kept : Kept c shard
  tended : ∀ m, shard.mgr = some m → Tended c shard m

/-- There are segments enough for a compaction. -/
def Compacts (c : Config) (segments : List SegmentID) : Prop :=
  2 ≤ segments.length ∧ 0 ≤ c.compactionFanIn ∧ c.compactionFanIn ≤ segments.length

instance (c : Config) (segments : List SegmentID) : Decidable (Compacts c segments) :=
  inferInstanceAs (Decidable (_ ∧ _ ∧ _))

/-- A compaction that does not run, merges at most one segment or leaves none. -/
def TakesFront (c : Config) (segments : List SegmentID) : Prop :=
  (segments.length : Int) < c.compactionFanIn ∨ c.compactionFanIn ≤ 1 ∨ segments.length ≤ 2

instance (c : Config) (segments : List SegmentID) : Decidable (TakesFront c segments) :=
  inferInstanceAs (Decidable (_ ∨ _ ∨ _))

/-- New segments get ids that are not in use, and compactions take what they merge off the
manifest. -/
def Orderly (c : Config) (shard : Shard) : Event → Prop
  | .triggerSeal now => (shard.disk.lookup ⟨now.nanos, shard.seq + 1⟩).isNone = true
  | .runCompaction now => (shard.disk.lookup ⟨now.nanos, shard.seq + 1⟩).isNone = true ∧
      ∀ m ∈ shard.mgr, TakesFront c m.manifest.immutableSegments
  | _ => True

instance (c : Config) (shard : Shard) : ∀ event, Decidable (Orderly c shard event)
  | .store _ _ => isTrue trivial
  | .storeBatch _ => isTrue trivial
  | .delete _ _ => isTrue trivial
  | .take => isTrue trivial
  | .apply => isTrue trivial
  | .triggerSeal _ => inferInstanceAs (Decidable (_ = true))
  | .runCompaction _ => inferInstanceAs (Decidable (_ = true ∧ ∀ m ∈ shard.mgr, _))
  | .open_ _ => isTrue trivial

theorem kept_fresh (c : Config) : Kept c Shard.fresh where
  dims _ _ hlookup := by simp [Shard.fresh] at hlookup
  entombs := by
    have hnone : ∀ id, Dead c OrderedStore.empty id ↔ False :=
      (@entombs_empty c).isSome_getTombstones
    have hempty : Dead c OrderedStore.empty = fun _ => False := by
      funext id
      exact propext (hnone id)
    show Entombs c OrderedStore.empty (Dead c OrderedStore.empty)
    rw [hempty]
    exact entombs_empty
  unopened _ := rfl
  backed _ hsaved := by cases hsaved

theorem upright_fresh (c : Config) : Upright c Shard.fresh :=
  ⟨kept_fresh c, fun _ hm => by cases hm⟩

/-! ## Stores and deletions -/

section Calls

variable {c : Config} {shard : Shard} {m : Manager}

theorem Kept.store (hkept : Kept c shard) (hsaved : shard.saved ≠ none)
    {docs : List (Bytes × Vector)} (hdocs : ∀ doc ∈ docs, doc.2.length = c.index.dim)
    (mgr : Option Manager) :
    Kept c { shard with primary := Shard.storeAll c shard.primary docs, mgr := mgr } where
  dims := Shard.dims_storeAll hkept.dims hdocs
  entombs := hkept.entombs
  unopened hnone := absurd hnone hsaved
  backed := hkept.backed

theorem Tended.store (htended : Tended c shard m) {docs : List (Bytes × Vector)} {m' : Manager}
    (hstores : Manager.Stores c (Shard.storeAll c shard.primary docs) docs m m') :
    Tended c { shard with primary := Shard.storeAll c shard.primary docs, mgr := some m' } m' where
  tombstones := by
    rw [hstores.tombstones]
    exact htended.tombstones
  saved := by
    rw [hstores.manifest]
    exact htended.saved
  current := by
    rw [hstores.manifest, hstores.id]
    exact htended.current
  indexed := hstores.indexed
  loaded := by
    rw [hstores.immutables, hstores.manifest]
    exact htended.loaded
  pending op hop := by
    rw [hstores.id]
    rcases hstores.handed with ⟨added, hpending, htype, hseg, _, _⟩ | ⟨hpending, _⟩
    · rw [hpending, List.mem_append, List.mem_singleton] at hop
      rcases hop with hold | rfl
      · exact htended.pending op hold
      · refine ⟨hseg, fun hdelete => ?_⟩
        rw [htype] at hdelete
        cases hdelete
    · rw [hpending] at hop
      exact htended.pending op hop
  rooted id halive hitem := by
    rw [Shard.isSome_storeAll]
    rcases hstores.handed with ⟨_, _, _, _, _, hmutable⟩ | ⟨_, hitems⟩
    · rw [hmutable] at hitem
      exact Or.inr (htended.rooted id halive hitem)
    · rcases hitems id with ⟨_, hsame⟩ | ⟨vec, hindexes, _⟩
      · rw [hsame] at hitem
        exact Or.inr (htended.rooted id halive hitem)
      · rw [← @Shard.isSome_storeAll c]
        cases hasync : c.asyncIndex with
        | true => exact Option.isSome_of_eq_some (hindexes.1 hasync)
        | false =>
            rw [Shard.isSome_storeAll, ← isSome_docOf]
            exact Or.inl (Option.isSome_of_eq_some (hindexes.2 hasync))
  covered id halive hstored := by
    rw [Shard.isSome_storeAll] at hstored
    rw [hstores.immutables]
    rcases hstores.handed with ⟨op, hpending, _, _, htargets, hmutable⟩ | ⟨hpending, hitems⟩
    · rw [hpending, hmutable]
      by_cases hdoc : id ∈ docs.map Prod.fst
      · exact Or.inl ⟨op, List.mem_append_right _ (List.mem_singleton_self _), htargets id hdoc⟩
      · rcases htended.covered id halive (hstored.resolve_left hdoc) with ⟨old, hold, hin⟩ | hrest
        · exact Or.inl ⟨old, List.mem_append_left _ hold, hin⟩
        · exact Or.inr hrest
    · rw [hpending]
      rcases hitems id with ⟨hdoc, hsame⟩ | ⟨vec, _, hitem⟩
      · rw [hsame]
        exact htended.covered id halive (hstored.resolve_left hdoc)
      · exact Or.inr (Or.inl (Option.isSome_of_eq_some hitem))

theorem dead_writeTombstone (hentombs : Entombs c shard.tombstoneDb (Dead c shard.tombstoneDb))
    (id : Bytes) (now : Instant) (other : Bytes) :
    Dead c (writeTombstone c shard.tombstoneDb id now) other ↔
      other = id ∨ Dead c shard.tombstoneDb other :=
  (hentombs.write id now).isSome_getTombstones other

theorem Kept.delete (hkept : Kept c shard) (hsaved : shard.saved ≠ none) (id : Bytes)
    (now : Instant) (mgr : Option Manager) :
    Kept c { shard with
      primary := shard.primary.erase id
      tombstoneDb := writeTombstone c shard.tombstoneDb id now
      clock := now.nanos
      mgr := mgr } where
  dims := Shard.dims_erase hkept.dims id
  entombs := by
    have hdead : Dead c (writeTombstone c shard.tombstoneDb id now) =
        fun other => other = id ∨ Dead c shard.tombstoneDb other := by
      funext other
      exact propext (dead_writeTombstone hkept.entombs id now other)
    simp only
    rw [hdead]
    exact hkept.entombs.write id now
  unopened hnone := absurd hnone hsaved
  backed manifest hmanifest := by
    obtain ⟨hcurrent, hnodup, hcomplete⟩ := hkept.backed manifest hmanifest
    refine ⟨hcurrent, hnodup, fun segID hlisted => ?_⟩
    exact (hcomplete segID hlisted).mono fun other hdead =>
      (dead_writeTombstone hkept.entombs id now other).mpr (Or.inr hdead)

theorem Tended.delete (hkept : Kept c shard) (htended : Tended c shard m) (id : Bytes)
    (now : Instant) :
    Tended c { shard with
      primary := shard.primary.erase id
      tombstoneDb := writeTombstone c shard.tombstoneDb id now
      clock := now.nanos
      mgr := some (m.delete c (shard.primary.erase id) id now) }
      (m.delete c (shard.primary.erase id) id now) := by
  obtain ⟨halike, htombstones, hcases⟩ :=
    @Manager.delete_cases c (shard.primary.erase id) m htended.indexed id now
  have hdead := dead_writeTombstone hkept.entombs id now
  have halive : ∀ other, ¬ Dead c (writeTombstone c shard.tombstoneDb id now) other →
      other ≠ id ∧ ¬ Dead c shard.tombstoneDb other := by
    intro other hnot
    rw [hdead, not_or] at hnot
    exact hnot
  have hstored : ∀ other, other ≠ id →
      (shard.primary.erase id).lookup other = shard.primary.lookup other :=
    fun other hne => AList.lookup_erase_ne hne
  constructor
  case tombstones =>
    intro other
    rw [htombstones, GoMap.lookup_insert_if, hdead, ← htended.tombstones]
    by_cases hother : other = id
    · simp [hother]
    · simp [hother]
  case saved =>
    rw [halike.manifest]
    exact htended.saved
  case current =>
    rw [halike.manifest, halike.id]
    exact htended.current
  case indexed => exact halike.indexed
  case loaded =>
    rw [halike.immutables, halike.manifest]
    exact htended.loaded
  case pending =>
    intro op hop
    rw [halike.id]
    have hold : ∀ op ∈ m.pending, op.segID = m.mutable.id ∧
        (op.opType = .delete → Dead c (writeTombstone c shard.tombstoneDb id now) op.id) :=
      fun op hop => ⟨(htended.pending op hop).1,
        fun htype => (hdead _).mpr (Or.inr ((htended.pending op hop).2 htype))⟩
    rcases hcases with ⟨added, hpending, _, hseg, hid, _⟩ | ⟨hpending, _⟩
    · rw [hpending, List.mem_append, List.mem_singleton] at hop
      rcases hop with hin | rfl
      · exact hold op hin
      · exact ⟨hseg, fun _ => (hdead _).mpr (Or.inl hid)⟩
    · rw [hpending] at hop
      exact hold op hop
  case rooted =>
    intro other hnot hitem
    obtain ⟨hne, hnot'⟩ := halive other hnot
    simp only
    rw [hstored other hne]
    refine htended.rooted other hnot' ?_
    rcases hcases with ⟨_, _, _, _, _, hmutable⟩ | ⟨_, hitems⟩
    · rw [hmutable] at hitem
      exact hitem
    · rw [hitems, if_neg hne] at hitem
      exact hitem
  case covered =>
    intro other hnot hlookup
    obtain ⟨hne, hnot'⟩ := halive other hnot
    simp only at hlookup
    rw [hstored other hne] at hlookup
    rw [halike.immutables]
    rcases htended.covered other hnot' hlookup with ⟨op, hop, hin⟩ | hitem | hseg
    · refine Or.inl ⟨op, ?_, hin⟩
      rcases hcases with ⟨_, hpending, _⟩ | ⟨hpending, _⟩
      · rw [hpending]
        exact List.mem_append_left _ hop
      · rw [hpending]
        exact hop
    · refine Or.inr (Or.inl ?_)
      rcases hcases with ⟨_, _, _, _, _, hmutable⟩ | ⟨_, hitems⟩
      · rw [hmutable]
        exact hitem
      · rw [hitems, if_neg hne]
        exact hitem
    · exact Or.inr (Or.inr hseg)

end Calls

/-! ## The index worker -/

section Worker

variable {c : Config} {shard : Shard} {m : Manager}

theorem Kept.of_mgr (hkept : Kept c shard) (clock : Nat) (mgr : Option Manager) :
    Kept c { shard with clock := clock, mgr := mgr } :=
  ⟨hkept.dims, hkept.entombs, hkept.unopened, hkept.backed⟩

theorem Kept.booted (hkept : Kept c shard) (now : Nat) :
    Kept c { shard with boot := now, clock := now } :=
  ⟨hkept.dims, hkept.entombs, hkept.unopened, hkept.backed⟩

theorem Tended.of_shard (htended : Tended c shard m) (clock : Nat) (mgr : Option Manager) :
    Tended c { shard with clock := clock, mgr := mgr } m :=
  ⟨htended.tombstones, htended.saved, htended.current, htended.indexed, htended.loaded,
    htended.pending, htended.rooted, htended.covered⟩

theorem Tended.take (htended : Tended c shard m) {op : IndexOp} {rest : List IndexOp}
    (hchannel : m.channel = op :: rest) :
    Tended c { shard with mgr := some { m with buffer := m.buffer ++ [op], channel := rest } }
      { m with buffer := m.buffer ++ [op], channel := rest } := by
  have hpending : ({ m with buffer := m.buffer ++ [op], channel := rest } : Manager).pending =
      m.pending := by simp [Manager.pending, hchannel]
  refine ⟨htended.tombstones, htended.saved, htended.current, htended.indexed, htended.loaded, ?_,
    htended.rooted, ?_⟩
  · rw [hpending]
    exact htended.pending
  · rw [hpending]
    exact htended.covered

theorem Tended.apply (hkept : Kept c shard) (htended : Tended c shard m) {op : IndexOp}
    {rest : List IndexOp} (hbuffer : m.buffer = op :: rest) :
    Tended c
      { shard with
        mgr := some { m with
          mutable := applyIndexOp c shard.primary m.mutable op, buffer := rest } }
      { m with mutable := applyIndexOp c shard.primary m.mutable op, buffer := rest } := by
  have hpending : m.pending = op :: (rest ++ m.channel) := by simp [Manager.pending, hbuffer]
  obtain ⟨hseg, hdelete⟩ := htended.pending op (by rw [hpending]; exact List.mem_cons_self)
  obtain ⟨hindexed, hid⟩ := applyIndexOp_indexed htended.indexed hkept.dims op
  -- a deletion only ever takes away a dead document
  have hitems : ∀ id, ¬ Dead c shard.tombstoneDb id →
      (applyIndexOp c shard.primary m.mutable op).item c id =
        if op.opType = .add ∧ id ∈ op.targets then
          ((shard.primary.lookup id).map c.kept).or (m.mutable.item c id)
        else m.mutable.item c id := by
    intro id halive
    cases htype : op.opType with
    | add =>
        obtain ⟨_, _, hitem⟩ := applyIndexOp_add htended.indexed hkept.dims hseg.symm htype
        rw [hitem]
        simp
    | delete =>
        obtain ⟨_, _, hitem⟩ :=
          @applyIndexOp_delete c shard.primary m.mutable op htended.indexed hseg.symm htype
        rw [hitem, if_neg]
        · simp
        · intro heq
          subst heq
          exact halive (hdelete htype)
  refine ⟨htended.tombstones, htended.saved, ?_, hindexed, htended.loaded, ?_, ?_, ?_⟩
  · simp only
    rw [hid]
    exact htended.current
  · intro other hother
    simp only
    rw [hid]
    exact htended.pending other (by rw [hpending]; exact List.mem_cons_of_mem _ hother)
  · intro id halive hsome
    simp only at hsome
    rw [hitems id halive] at hsome
    split at hsome
    next =>
      cases hlookup : shard.primary.lookup id with
      | some vec => rfl
      | none =>
          rw [hlookup] at hsome
          have hrooted := htended.rooted id halive hsome
          rw [hlookup] at hrooted
          cases hrooted
    next => exact htended.rooted id halive hsome
  · intro id halive hstored
    simp only at hstored
    obtain ⟨vec, hvec⟩ := Option.isSome_iff_exists.mp hstored
    simp only
    rw [hitems id halive, hvec]
    rcases htended.covered id halive hstored with ⟨waiting, hwaiting, hin⟩ | hsome | hsealed
    · rw [hpending] at hwaiting
      rcases List.mem_cons.mp hwaiting with rfl | hrest
      · cases htype : waiting.opType with
        | add => exact Or.inr (Or.inl (by simp [hin]))
        | delete =>
            have htarget : id = waiting.id := by
              unfold IndexOp.targets at hin
              rw [htype] at hin
              exact List.mem_singleton.mp hin
            subst htarget
            exact absurd (hdelete htype) halive
      · exact Or.inl ⟨waiting, hrest, hin⟩
    · refine Or.inr (Or.inl ?_)
      split
      next => rfl
      next => exact hsome
    · exact Or.inr (Or.inr hsealed)

end Worker

/-! ## Sealing -/

namespace Disk

variable {disk : Disk}

theorem lookup_mkdir (id other : SegmentID) :
    (disk.apply (.mkdir id)).lookup other =
      if other = id then some ((disk.lookup id).getD SegmentDir.empty) else disk.lookup other :=
  GoMap.lookup_insert_if ..

/-- A new directory with writes to it. -/
theorem lookup_mkdir_writes (id : SegmentID) (writes : List FileWrite) (other : SegmentID) :
    (disk.applyAll (.mkdir id :: writes.map (DiskStep.write id))).lookup other =
      if other = id then some (((disk.lookup id).getD SegmentDir.empty).writeAll writes)
      else disk.lookup other := by
  have hmade : (disk.apply (.mkdir id)).lookup id =
      some ((disk.lookup id).getD SegmentDir.empty) := by rw [lookup_mkdir, if_pos rfl]
  have hcons : disk.applyAll (.mkdir id :: writes.map (DiskStep.write id)) =
      (disk.apply (.mkdir id)).applyAll (writes.map (DiskStep.write id)) := rfl
  rw [hcons, lookup_applyAll_writes hmade, lookup_mkdir]
  split <;> rfl

end Disk

section Seal

variable {c : Config} {shard : Shard} {m : Manager}

/-- The index of a mutable segment against what is written beside it. -/
theorem payload_of_mutable (hkept : Kept c shard) (htended : Tended c shard m) :
    Payload c (Dead c shard.tombstoneDb) m.mutable.hnsw
      (Shard.persisted shard.primary m.mutable) := by
  have hdoc : ∀ id, docOf (Shard.persisted shard.primary m.mutable) id =
      if (m.mutable.item c id).isSome then shard.primary.lookup id else none := by
    intro id
    unfold Shard.persisted
    rw [docOf_loadVectors]
    by_cases hitem : (m.mutable.item c id).isSome = true
    · rw [if_pos hitem, if_pos ((MutableSegment.mem_activeIDs htended.indexed id).mpr hitem)]
    · rw [if_neg hitem,
        if_neg fun hmem => hitem ((MutableSegment.mem_activeIDs htended.indexed id).mp hmem)]
  refine ⟨htended.indexed.config, fun id vec hvec => ?_, fun id hsome => ?_,
    fun id halive hitem => ?_⟩
  · rw [hdoc] at hvec
    split at hvec
    next => exact hkept.dims id vec hvec
    next => cases hvec
  · rw [hdoc] at hsome
    split at hsome
    next hitem => exact hitem
    next => cases hsome
  · have hitem' : (m.mutable.item c id).isSome = true := hitem
    rw [hdoc, if_pos hitem']
    exact htended.rooted id halive hitem'

theorem lookup_sealSteps (now : Nat) (other : SegmentID) :
    (shard.disk.applyAll (Shard.sealSteps shard.primary m.mutable now)).lookup other =
      if other = m.mutable.id then
        some (((shard.disk.lookup m.mutable.id).getD SegmentDir.empty).writeAll
          (sealWrites m.mutable.hnsw (Shard.persisted shard.primary m.mutable)
            ⟨m.mutable.createdAt, now⟩))
      else shard.disk.lookup other :=
  Disk.lookup_mkdir_writes ..

/-- The segment is complete when all files are written. -/
theorem complete_sealed (hkept : Kept c shard) (htended : Tended c shard m) (now : Nat) :
    Complete c (Dead c shard.tombstoneDb)
      (shard.disk.applyAll (Shard.sealSteps shard.primary m.mutable now)) m.mutable.id :=
  ⟨_, _, _, _, by rw [lookup_sealSteps, if_pos rfl], SegmentDir.holds_sealWrites ..,
    payload_of_mutable hkept htended⟩

/-- What is loaded of a segment right after it was sealed. -/
def sealedSegment (shard : Shard) (m : Manager) (now : Nat) : ImmutableSegment :=
  .ofDocs m.mutable.id m.mutable.hnsw (Shard.persisted shard.primary m.mutable)
    ⟨m.mutable.createdAt, now⟩

theorem load_sealed (now : Nat) :
    loadImmutableSegment c
        (shard.disk.applyAll (Shard.sealSteps shard.primary m.mutable now)) m.mutable.id =
      some (sealedSegment shard m now) :=
  (SegmentDir.holds_sealWrites ..).load (by rw [lookup_sealSteps, if_pos rfl])

/-- The current segment has a directory and is not in the manifest. -/
theorem Tended.current_spec (hkept : Kept c shard) (htended : Tended c shard m) :
    shard.disk.lookup m.mutable.id ≠ none ∧
      m.mutable.id ∉ m.manifest.immutableSegments := by
  obtain ⟨cur, hcur, hdir, hnot⟩ := (hkept.backed m.manifest htended.saved).current
  rw [htended.current] at hcur
  obtain rfl := Option.some.inj hcur
  exact ⟨hdir, hnot⟩

theorem disk_sealMutable (now : Nat) : (shard.sealMutable c m now).disk =
    (shard.disk.applyAll (Shard.sealSteps shard.primary m.mutable now)).apply
      (.mkdir ⟨now, shard.seq + 1⟩) := rfl

/-- The directories of the other segments are as before. -/
theorem lookup_sealMutable {now : Nat} {segID : SegmentID} (hne : segID ≠ m.mutable.id)
    (hnew : segID ≠ ⟨now, shard.seq + 1⟩) :
    (shard.sealMutable c m now).disk.lookup segID = shard.disk.lookup segID := by
  rw [disk_sealMutable, Disk.lookup_mkdir, if_neg hnew, lookup_sealSteps, if_neg hne]

/-- The loaded segments after a seal. -/
theorem lookup_immutables_sealMutable {now : Nat} {m' : Manager}
    (hm' : (shard.sealMutable c m now).mgr = some m') (segID : SegmentID) :
    m'.immutables.lookup segID =
      if segID = m.mutable.id then some (sealedSegment shard m now)
      else m.immutables.lookup segID := by
  obtain rfl := Option.some.inj hm'
  simp only
  rw [load_sealed]
  exact GoMap.lookup_insert_if ..

theorem Upright.sealMutable (hkept : Kept c shard) (htended : Tended c shard m)
    (hdrained : m.Drained) {now : Nat}
    (hunused : shard.disk.lookup ⟨now, shard.seq + 1⟩ = none) :
    Upright c (shard.sealMutable c m now) := by
  obtain ⟨hdir, hnot⟩ := htended.current_spec hkept
  have hbacked := hkept.backed m.manifest htended.saved
  have hnew : ∀ segID, shard.disk.lookup segID ≠ none →
      segID ≠ (⟨now, shard.seq + 1⟩ : SegmentID) := by
    intro segID hsome heq
    subst heq
    exact hsome hunused
  have hlisted : ∀ segID ∈ m.manifest.immutableSegments,
      (shard.sealMutable c m now).disk.lookup segID = shard.disk.lookup segID := by
    intro segID hin
    refine lookup_sealMutable (fun heq => ?_) (hnew segID (hbacked.complete segID hin).lookup_ne_none)
    subst heq
    exact hnot hin
  have hsealed : (shard.sealMutable c m now).disk.lookup m.mutable.id =
      (shard.disk.applyAll (Shard.sealSteps shard.primary m.mutable now)).lookup m.mutable.id := by
    rw [disk_sealMutable, Disk.lookup_mkdir, if_neg (hnew _ hdir)]
  refine ⟨⟨hkept.dims, hkept.entombs, fun hnone => ?_, fun manifest hmanifest => ?_⟩,
    fun m' hm' => ?_⟩
  · cases hnone
  · obtain rfl := Option.some.inj hmanifest
    refine ⟨⟨_, rfl, ?_, ?_⟩, ?_, ?_⟩
    · rw [disk_sealMutable, Disk.lookup_mkdir, if_pos rfl]
      exact nofun
    · simp only [List.mem_append, List.mem_singleton, not_or]
      exact ⟨fun hin => hnew _ (hbacked.complete _ hin).lookup_ne_none rfl, (hnew _ hdir).symm⟩
    · refine List.nodup_append.mpr ⟨hbacked.nodup, List.nodup_singleton _, ?_⟩
      intro old hold last hlast heq
      rw [List.mem_singleton.mp hlast] at heq
      subst heq
      exact hnot hold
    · intro segID hin
      rcases List.mem_append.mp hin with hold | hlast
      · exact (hbacked.complete segID hold).congr (hlisted segID hold)
      · obtain rfl := List.mem_singleton.mp hlast
        exact (complete_sealed hkept htended now).congr hsealed
  · have hloaded := @lookup_immutables_sealMutable c shard m now m' hm'
    obtain rfl := Option.some.inj hm'
    refine ⟨htended.tombstones, rfl, rfl, MutableSegment.indexed_new _ _, fun segID => ?_,
      fun op hop => ?_, fun id _ hitem => ?_, fun id halive hstored => ?_⟩
    · rw [hloaded]
      simp only [List.mem_append, List.mem_singleton]
      by_cases hid : segID = m.mutable.id
      · subst hid
        rw [if_pos rfl, if_pos (Or.inr rfl), loadImmutableSegment_congr hsealed, load_sealed]
      · rw [if_neg hid, htended.loaded]
        by_cases hin : segID ∈ m.manifest.immutableSegments
        · rw [if_pos hin, if_pos (Or.inl hin), loadImmutableSegment_congr (hlisted segID hin)]
        · rw [if_neg hin, if_neg (by simp [hin, hid])]
    · have hnone : m.pending = [] := hdrained
      have hop' : op ∈ m.pending := hop
      rw [hnone] at hop'
      cases hop'
    · cases hitem
    · have hnone : m.pending = [] := hdrained
      refine Or.inr (Or.inr ?_)
      rcases htended.covered id halive hstored with ⟨op, hop, _⟩ | hitem | ⟨segID, seg, hseg, hitem⟩
      · rw [hnone] at hop
        cases hop
      · refine ⟨m.mutable.id, sealedSegment shard m now, by rw [hloaded, if_pos rfl], ?_⟩
        simpa [sealedSegment, ImmutableSegment.ofDocs, MutableSegment.item] using hitem
      · refine ⟨segID, seg, ?_, hitem⟩
        rw [hloaded, if_neg, hseg]
        intro heq
        subst heq
        rw [htended.loaded, if_neg hnot] at hseg
        cases hseg

end Seal

end Vectron.Segment
