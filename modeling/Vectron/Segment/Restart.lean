import Vectron.Segment.Visibility

/-! # The copies of a document

A document that is sealed and then added with another vector has two copies: the old one
stays in the sealed segment, and searches see both. Opening the shard again even forgets the
new one, since it skips what is in a sealed segment. Without such additions every copy of a
document is the stored one, a restart changes nothing that can be found, and scores are
those of the vectors added last.
-/

namespace Vectron.Segment

open Foundation
open Worker (Hnsw Pebble Vector idOf kept)

/-! ## Copies -/

/-- The vector an index has for a document that is up to date. -/
def Shard.current (c : Config) (shard : Shard) (id : Bytes) : Option Vector :=
  (shard.primary.lookup id).map c.kept

/-- A segment whose live documents are up to date, in its index and beside it. -/
def ImmutableSegment.UpToDate (c : Config) (shard : Shard) (seg : ImmutableSegment) : Prop :=
  ∀ id, ¬ Dead c shard.tombstoneDb id →
    (∀ vec, seg.hnsw.item c.arith id = some vec → shard.current c id = some vec) ∧
      ∀ vec, seg.vectorByID id = some vec → shard.current c id = some (c.kept vec)

/-- All copies of live documents are up to date, as far as nothing waits for them. -/
structure Faithful (c : Config) (shard : Shard) : Prop where
  listed : ∀ manifest, shard.saved = some manifest → ∀ segID ∈ manifest.immutableSegments, ∀ seg,
    loadImmutableSegment c shard.disk segID = some seg → seg.UpToDate c shard
  mutable : ∀ m, shard.mgr = some m → ∀ id, ¬ Dead c shard.tombstoneDb id →
    (∀ op ∈ m.pending, id ∉ op.targets) → ∀ vec, m.mutable.item c id = some vec →
      shard.current c id = some vec

/-- Some loaded segment has another vector for the id. -/
def Manager.sealedOtherwise (c : Config) (m : Manager) (id : Bytes) (vec : Vector) : Bool :=
  m.immutables.entries.any fun entry =>
    (entry.2.hnsw.item c.arith id).any fun old => decide (old ≠ c.kept (c.stored vec))

/-- The run is orderly; what is added has a tombstone, or is in no sealed segment with another
vector and is indexed as it is stored. -/
def Single (c : Config) (shard : Shard) (event : Event) : Prop :=
  Orderly c shard event ∧ ∀ m ∈ shard.mgr, ∀ doc ∈ event.docs,
    docOf event.docs doc.1 = some doc.2 → (m.tombstones.lookup doc.1).isSome = true ∨
      m.sealedOtherwise c doc.1 doc.2 = false ∧ (c.asyncIndex = true ∨ c.stored doc.2 = doc.2)

instance (c : Config) (shard : Shard) (event : Event) : Decidable (Single c shard event) :=
  inferInstanceAs (Decidable (_ ∧ _))

section Copies

variable {c : Config} {shard : Shard} {m : Manager}

theorem faithful_fresh (c : Config) : Faithful c Shard.fresh where
  listed _ hsaved := by cases hsaved
  mutable _ hm := by cases hm

theorem not_sealedOtherwise {id : Bytes} {vec : Vector}
    (hsealed : m.sealedOtherwise c id vec = false) {segID : SegmentID} {seg : ImmutableSegment}
    (hseg : m.immutables.lookup segID = some seg) {old : Vector}
    (hold : seg.hnsw.item c.arith id = some old) : old = c.kept (c.stored vec) := by
  by_contra hne
  have hall := List.any_eq_false.mp hsealed ⟨segID, seg⟩ (AList.mem_lookup_iff.mp hseg)
  simp only [hold, Option.any_some, decide_eq_true_eq, not_not] at hall
  exact hne hall

/-- Segments that are loaded as before stay up to date with storage that is as before. -/
theorem ImmutableSegment.UpToDate.congr {seg : ImmutableSegment} (hfresh : seg.UpToDate c shard)
    {after : Shard} (hprimary : after.primary = shard.primary)
    (hdb : after.tombstoneDb = shard.tombstoneDb) : seg.UpToDate c after := by
  unfold UpToDate Shard.current at hfresh ⊢
  rw [hprimary, hdb]
  exact hfresh

/-! ## Stores and deletions -/

/-- A document of a store that has no tombstone. -/
theorem Single.doc (htended : Tended c shard m) (hm : shard.mgr = some m) {event : Event}
    (hsingle : Single c shard event) {id : Bytes} {vec : Vector}
    (hdoc : docOf event.docs id = some vec) (halive : ¬ Dead c shard.tombstoneDb id) :
    m.sealedOtherwise c id vec = false ∧ (c.asyncIndex = true ∨ c.stored vec = vec) := by
  obtain ⟨doc, hlatest, hvec⟩ := Option.map_eq_some_iff.mp hdoc
  obtain ⟨hin, hid⟩ := mem_of_latest hlatest
  subst hid
  subst hvec
  refine (hsingle.2 m hm doc hin hdoc).resolve_left fun hsome => ?_
  exact halive ((htended.tombstones doc.1).mp hsome)

section

variable (hkept : Kept c shard) (htended : Tended c shard m) (hm : shard.mgr = some m)
  (hfaithful : Faithful c shard)

include hkept htended hm hfaithful

theorem Faithful.store {event : Event} (hsingle : Single c shard event)
    (hstore : event.isStore = true) (haccepted : event.accepted c = true) :
    Faithful c
      { shard with
        primary := Shard.storeAll c shard.primary event.docs
        mgr := some (m.stored c (Shard.storeAll c shard.primary event.docs) event) } := by
  have hcurrent : ∀ id mgr, Shard.current c
      { shard with primary := Shard.storeAll c shard.primary event.docs, mgr := mgr } id =
        ((docOf event.docs id).map fun vec => c.kept (c.stored vec)).or (shard.current c id) := by
    intro id mgr
    unfold Shard.current
    simp only
    rw [Shard.lookup_storeAll]
    cases docOf event.docs id <;> rfl
  refine ⟨fun manifest hsaved segID hin seg hload id halive => ?_,
    fun m' hm' id halive hnot vec hitem => ?_⟩
  · have hmanifest : shard.saved = some manifest := hsaved
    obtain ⟨hitems, hdocs⟩ := hfaithful.listed manifest hmanifest segID hin seg hload id halive
    rw [hcurrent]
    cases hdoc : docOf event.docs id with
    | none => exact ⟨hitems, hdocs⟩
    | some given =>
        obtain ⟨hsealed, _⟩ := hsingle.doc htended hm hdoc halive
        have hloaded : m.immutables.lookup segID = some seg := by
          rw [htended.saved] at hmanifest
          obtain rfl := Option.some.inj hmanifest
          rw [htended.loaded, if_pos hin]
          exact hload
        refine ⟨fun vec hvec => ?_, fun vec hvec => ?_⟩
        · rw [not_sealedOtherwise hsealed hloaded hvec]
          rfl
        · -- the index has the document too, and both are the stored one
          obtain ⟨seg', hload', _, hheld, hids, _⟩ :=
            ((hkept.backed manifest hmanifest).complete segID hin).load
          obtain rfl := Option.some.inj (hload'.symm.trans hload)
          obtain ⟨old, hold⟩ := Option.isSome_iff_exists.mp
            (hheld id ((hids id).mpr (Option.isSome_of_eq_some hvec)))
          have hsame : some (c.kept vec) = some old := (hdocs vec hvec).symm.trans (hitems old hold)
          rw [Option.some.inj hsame, not_sealedOtherwise hsealed hloaded hold]
          rfl
  · obtain rfl := Option.some.inj hm'
    have hstores := htended.isStore hkept hstore haccepted
    rw [hcurrent]
    have hold : id ∉ event.docs.map Prod.fst → m.mutable.item c id = some vec →
        (∀ op ∈ m.pending, id ∉ op.targets) →
          ((docOf event.docs id).map fun vec => c.kept (c.stored vec)).or (shard.current c id) =
            some vec := by
      intro hnotin hitem hpending
      rw [docOf_eq_none.mpr hnotin]
      exact hfaithful.mutable m hm id halive hpending vec hitem
    rcases hstores.handed with ⟨op, hpending, _, _, htargets, hmutable⟩ | ⟨hpending, hitems⟩
    · rw [hpending] at hnot
      rw [hmutable] at hitem
      refine hold (fun hin => ?_) hitem fun other hother => hnot other (List.mem_append_left _ hother)
      exact hnot op (List.mem_append_right _ (List.mem_singleton_self _)) (htargets id hin)
    · rw [hpending] at hnot
      rcases hitems id with ⟨hnotin, hsame⟩ | ⟨given, hindexes, hgiven⟩
      · rw [hsame] at hitem
        exact hold hnotin hitem hnot
      · rw [hgiven] at hitem
        obtain rfl := Option.some.inj hitem
        rw [← hcurrent id none]
        unfold Shard.current
        simp only
        cases hasync : c.asyncIndex with
        | true => rw [hindexes.1 hasync, Option.map_some]
        | false =>
            have hdoc := hindexes.2 hasync
            obtain ⟨_, hplain⟩ := hsingle.doc htended hm hdoc halive
            rw [hasync] at hplain
            rw [Shard.lookup_storeAll, hdoc, Option.map_some, Option.some_or, Option.map_some,
              hplain.resolve_left nofun]

theorem Faithful.delete (id : Bytes) (now : Instant) :
    Faithful c
      { shard with
        primary := shard.primary.erase id
        tombstoneDb := writeTombstone c shard.tombstoneDb id now
        clock := now.nanos
        mgr := some (m.delete c (shard.primary.erase id) id now) } := by
  have halive : ∀ other, ¬ Dead c (writeTombstone c shard.tombstoneDb id now) other →
      other ≠ id ∧ ¬ Dead c shard.tombstoneDb other := by
    intro other hnot
    rw [dead_writeTombstone hkept.entombs, not_or] at hnot
    exact hnot
  have hcurrent : ∀ other, other ≠ id →
      ((shard.primary.erase id).lookup other).map c.kept = shard.current c other := by
    intro other hne
    rw [AList.lookup_erase_ne hne]
    rfl
  refine ⟨fun manifest hsaved segID hin seg hload other hnot => ?_,
    fun m' hm' other hnot hpending vec hitem => ?_⟩
  · obtain ⟨hne, hlive⟩ := halive other hnot
    unfold Shard.current
    simp only
    rw [hcurrent other hne]
    exact hfaithful.listed manifest hsaved segID hin seg hload other hlive
  · obtain ⟨hne, hlive⟩ := halive other hnot
    obtain rfl := Option.some.inj hm'
    obtain ⟨_, _, hcases⟩ :=
      @Manager.delete_cases c (shard.primary.erase id) m htended.indexed id now
    unfold Shard.current
    simp only
    rw [hcurrent other hne]
    rcases hcases with ⟨op, happend, _, _, _, hmutable⟩ | ⟨hsame, hitems⟩
    · rw [hmutable] at hitem
      rw [happend] at hpending
      exact hfaithful.mutable m hm other hlive
        (fun op hop => hpending op (List.mem_append_left _ hop)) vec hitem
    · rw [hitems, if_neg hne] at hitem
      rw [hsame] at hpending
      exact hfaithful.mutable m hm other hlive hpending vec hitem

/-! ## The index worker -/

theorem Faithful.apply {op : IndexOp} {rest : List IndexOp} (hbuffer : m.buffer = op :: rest) :
    Faithful c
      { shard with
        mgr := some { m with
          mutable := applyIndexOp c shard.primary m.mutable op, buffer := rest } } := by
  refine ⟨hfaithful.listed, fun m' hm' id halive hnot vec hitem => ?_⟩
  obtain rfl := Option.some.inj hm'
  have hpending : m.pending = op :: (rest ++ m.channel) := by simp [Manager.pending, hbuffer]
  obtain ⟨hseg, hdelete⟩ := htended.pending op (by rw [hpending]; exact List.mem_cons_self)
  -- without the operation at hand nothing waits for the document
  have hold : id ∉ op.targets → m.mutable.item c id = some vec → shard.current c id = some vec := by
    intro hnotin hbefore
    refine hfaithful.mutable m hm id halive (fun other hother => ?_) vec hbefore
    rw [hpending] at hother
    rcases List.mem_cons.mp hother with rfl | hin
    · exact hnotin
    · exact hnot other hin
  simp only at hitem
  cases htype : op.opType with
  | add =>
      obtain ⟨_, _, hitems⟩ := applyIndexOp_add htended.indexed hkept.dims hseg.symm htype
      rw [hitems] at hitem
      split at hitem
      next hin =>
        cases hlookup : shard.primary.lookup id with
        | some found =>
            unfold Shard.current
            simp only
            rw [hlookup] at hitem ⊢
            exact hitem
        | none =>
            rw [hlookup] at hitem
            have hrooted := htended.rooted id halive (Option.isSome_of_eq_some hitem)
            rw [hlookup] at hrooted
            cases hrooted
      next hnotin => exact hold hnotin hitem
  | delete =>
      obtain ⟨_, _, hitems⟩ :=
        @applyIndexOp_delete c shard.primary m.mutable op htended.indexed hseg.symm htype
      have hne : id ≠ op.id := by
        intro heq
        subst heq
        exact halive (hdelete htype)
      rw [hitems, if_neg hne] at hitem
      refine hold (fun hin => hne ?_) hitem
      unfold IndexOp.targets at hin
      rw [htype] at hin
      exact List.mem_singleton.mp hin

end

/-! ## Sealing, compaction and restarts -/

/-- A sealed segment is up to date when nothing is left in the queue. -/
theorem upToDate_sealed (hm : shard.mgr = some m) (hfaithful : Faithful c shard)
    (hdrained : m.Drained) (now : Nat) :
    (sealedSegment shard m now).UpToDate c shard := by
  have hpending : ∀ id, ∀ op ∈ m.pending, id ∉ op.targets := by
    intro id op hop
    have hnone : m.pending = [] := hdrained
    rw [hnone] at hop
    cases hop
  refine fun id halive => ⟨fun vec hitem => ?_, fun vec hvec => ?_⟩
  · refine hfaithful.mutable m hm id halive (hpending id) vec ?_
    simpa [sealedSegment, ImmutableSegment.ofDocs, MutableSegment.item] using hitem
  · have hdoc : docOf (Shard.persisted shard.primary m.mutable) id = some vec := by
      rw [← hvec, sealedSegment, vectorByID_ofDocs]
      rfl
    unfold Shard.persisted at hdoc
    rw [docOf_loadVectors] at hdoc
    split at hdoc
    next =>
      unfold Shard.current
      rw [hdoc]
      rfl
    next => cases hdoc

section

variable (hkept : Kept c shard) (htended : Tended c shard m)

include hkept htended

theorem Faithful.sealMutable (hm : shard.mgr = some m) (hfaithful : Faithful c shard)
    (hdrained : m.Drained) {now : Nat} (hunused : shard.disk.lookup ⟨now, shard.seq + 1⟩ = none) :
    Faithful c (shard.sealMutable c m now) := by
  have hupright := Upright.sealMutable hkept htended hdrained hunused
  refine ⟨fun manifest hsaved segID hin seg hload => ?_, fun m' hm' id _ _ vec hitem => ?_⟩
  · -- the segment is the new one or one of those loaded before
    obtain rfl := Option.some.inj hsaved
    have hloaded := (hupright.tended _ rfl).loaded segID
    rw [if_pos hin, hload, @lookup_immutables_sealMutable c shard m now _ rfl] at hloaded
    split at hloaded
    next =>
      obtain rfl := Option.some.inj hloaded
      exact (upToDate_sealed hm hfaithful hdrained now).congr rfl rfl
    next =>
      rw [htended.loaded] at hloaded
      split at hloaded
      next hold =>
        exact (hfaithful.listed m.manifest htended.saved segID hold seg hloaded).congr rfl rfl
      next => cases hloaded
  · obtain rfl := Option.some.inj hm'
    cases hitem

/-- A merged segment is up to date if those it was made of are. -/
theorem upToDate_merged (hfaithful : Faithful c shard) {newSegID : SegmentID} {now : Nat}
    {merged : List (Bytes × Vector) × Hnsw} {disk : Disk} {after : List SegmentID}
    (hcompacted : Compacted c shard m.manifest.immutableSegments newSegID now merged disk after) :
    (mergedSegment newSegID merged now).UpToDate c shard := by
  have hfront : ∀ segID ∈ (m.manifest.immutableSegments.take c.compactionFanIn.toNat).reverse,
      segID ∈ m.manifest.immutableSegments :=
    fun segID hin => List.mem_of_mem_take (List.mem_reverse.mp hin)
  obtain ⟨_, hitems, segs, hall, hdocs⟩ := merged_spec
    (fun segID hin => (hkept.backed m.manifest htended.saved).complete segID (hfront segID hin))
    hcompacted.merge
  have hfound : ∀ id, ¬ Dead c shard.tombstoneDb id → ∀ vec, docOf merged.1 id = some vec →
      shard.current c id = some (c.kept vec) := by
    intro id halive vec hdoc
    rw [hdocs] at hdoc
    split at hdoc
    next => cases hdoc
    next =>
      obtain ⟨seg, hseg, hvec⟩ := List.exists_of_findSome?_eq_some hdoc
      obtain ⟨segID, hin, hload⟩ := (mem_of_loadAll hall).mp hseg
      exact (hfaithful.listed m.manifest htended.saved segID (hfront segID hin) seg hload id
        halive).2 vec hvec
  refine fun id halive => ⟨fun vec hitem => ?_, fun vec hvec => ?_⟩
  · have hitem' : merged.2.item c.arith id = some vec := by
      simpa [mergedSegment, ImmutableSegment.ofDocs] using hitem
    rw [hitems] at hitem'
    obtain ⟨given, hdoc, rfl⟩ := Option.map_eq_some_iff.mp hitem'
    exact hfound id halive given hdoc
  · rw [mergedSegment, vectorByID_ofDocs] at hvec
    exact hfound id halive vec hvec

theorem Faithful.compact (hm : shard.mgr = some m) (hfaithful : Faithful c shard)
    (htakes : TakesFront c m.manifest.immutableSegments) {now : Nat}
    (hunused : shard.disk.lookup ⟨now, shard.seq + 1⟩ = none) :
    Faithful c (shard.compact c m now) := by
  have hbacked := hkept.backed m.manifest htended.saved
  have hmutable : ∀ m' : Manager, m'.mutable = m.mutable → m'.pending = m.pending → ∀ id,
      ¬ Dead c shard.tombstoneDb id → (∀ op ∈ m'.pending, id ∉ op.targets) → ∀ vec,
        m'.mutable.item c id = some vec → shard.current c id = some vec := by
    intro m' hsame hpending id halive hnot vec hitem
    rw [hsame] at hitem
    rw [hpending] at hnot
    exact hfaithful.mutable m hm id halive hnot vec hitem
  unfold Shard.compact
  simp only
  split
  next =>
    refine ⟨fun manifest hsaved segID hin seg hload => ?_, fun m' hm' => ?_⟩
    · obtain rfl := Option.some.inj hsaved
      exact (hfaithful.listed m.manifest htended.saved segID hin seg hload).congr rfl rfl
    · obtain rfl := Option.some.inj hm'
      exact hmutable _ rfl rfl
  next => exact ⟨hfaithful.listed, fun m' hm' => by cases hm'⟩
  next disk hfails => exact absurd hfails (runCompaction_ne_fails hbacked.complete _ _)
  next disk after hdone =>
    obtain ⟨merged, hcompacted⟩ := compacted_of_done hbacked.nodup htakes hdone
    refine ⟨fun manifest hsaved segID hin seg hload => ?_, fun m' hm' => ?_⟩
    · obtain rfl := Option.some.inj hsaved
      simp only at hin hload
      rw [hcompacted.after] at hin
      rcases List.mem_append.mp hin with hold | hlast
      · rw [loadImmutableSegment_congr (hcompacted.lookup_drop hbacked hunused hold)] at hload
        exact (hfaithful.listed m.manifest htended.saved segID (List.mem_of_mem_drop hold) seg
          hload).congr rfl rfl
      · obtain rfl := List.mem_singleton.mp hlast
        rw [hcompacted.disk, load_merged
          (fun hin => hbacked.fresh hunused (List.mem_of_mem_take hin))] at hload
        obtain rfl := Option.some.inj hload
        exact (upToDate_merged hkept htended hfaithful hcompacted).congr rfl rfl
    · obtain rfl := Option.some.inj hm'
      exact hmutable _ rfl rfl

end

theorem Faithful.openShard (hkept : Kept c shard) (hfaithful : Faithful c shard) (now : Nat) :
    Faithful c (shard.openShard c now) := by
  cases hsaved : shard.saved with
  | none =>
      unfold Shard.openShard
      simp only [hsaved, Option.getD_none, createDefaultManifest]
      refine ⟨fun manifest hmanifest segID hin => ?_, fun m hm id _ _ vec hitem => ?_⟩
      · obtain rfl := Option.some.inj hmanifest
        cases hin
      · obtain rfl := Option.some.inj hm
        cases hitem
  | some manifest =>
      obtain ⟨m, hreopened⟩ := hkept.reopened hsaved now
      refine ⟨fun manifest' hmanifest segID hin seg hload => ?_, fun m' hm' id _ _ vec hitem => ?_⟩
      · rw [hreopened.saved] at hmanifest
        obtain rfl := Option.some.inj hmanifest
        rw [loadImmutableSegment_congr (hreopened.disk segID)] at hload
        exact (hfaithful.listed manifest hsaved segID hin seg hload).congr hreopened.primary
          hreopened.db
      · obtain rfl := Option.some.inj (hreopened.mgr.symm.trans hm')
        rw [hreopened.items] at hitem
        unfold Shard.current
        rw [hreopened.primary]
        split at hitem
        next => exact hitem
        next => cases hitem

/-! ## Whole runs -/

theorem Faithful.congr (hfaithful : Faithful c shard) {after : Shard}
    (hprimary : after.primary = shard.primary) (hdb : after.tombstoneDb = shard.tombstoneDb)
    (hsaved : after.saved = shard.saved) (hdisk : after.disk = shard.disk)
    (hmgr : ∀ m', after.mgr = some m' → ∃ m, shard.mgr = some m ∧ m'.mutable = m.mutable ∧
      m'.pending = m.pending) : Faithful c after where
  listed manifest hmanifest segID hin seg hload := by
    rw [hsaved] at hmanifest
    rw [hdisk] at hload
    exact (hfaithful.listed manifest hmanifest segID hin seg hload).congr hprimary hdb
  mutable m' hm' := by
    obtain ⟨m, hm, hmutable, hpending⟩ := hmgr m' hm'
    unfold Shard.current
    rw [hprimary, hdb, hmutable, hpending]
    exact hfaithful.mutable m hm

theorem Faithful.step (hupright : Upright c shard) (hfaithful : Faithful c shard) {event : Event}
    (hsingle : Single c shard event) : Faithful c (shard.step c event) := by
  have hkept := hupright.kept
  have hopen : ∀ now : Instant, Faithful c (shard.step c (.open_ now)) := by
    intro now
    have hkept' := hkept.booted now.nanos
    have hfaithful' : Faithful c { shard with boot := now.nanos, clock := now.nanos } :=
      ⟨hfaithful.listed, hfaithful.mutable⟩
    exact hfaithful'.openShard hkept' _
  cases hm : shard.mgr with
  | none =>
      cases event with
      | open_ now => exact hopen now
      | _ =>
          simp only [Shard.step, hm]
          exact hfaithful
  | some m =>
      have htended := hupright.tended m hm
      cases event with
      | open_ now => exact hopen now
      | store id vec =>
          simp only [Shard.step, hm, @Shard.serve_of_isStore c shard m (.store id vec) rfl]
          split
          next haccepted => exact hfaithful.store hkept htended hm hsingle rfl haccepted
          next => exact hfaithful
      | storeBatch docs =>
          simp only [Shard.step, hm, @Shard.serve_of_isStore c shard m (.storeBatch docs) rfl]
          split
          next haccepted => exact hfaithful.store hkept htended hm hsingle rfl haccepted
          next => exact hfaithful
      | delete id now =>
          simp only [Shard.step, hm, Shard.serve]
          exact hfaithful.delete hkept htended hm id now
      | take =>
          simp only [Shard.step, hm, Shard.serve]
          split
          next op rest hchannel =>
            refine hfaithful.congr rfl rfl rfl rfl fun m' hm' => ⟨m, hm, ?_⟩
            obtain rfl := Option.some.inj hm'
            exact ⟨rfl, by simp [Manager.pending, hchannel]⟩
          next => exact hfaithful
      | apply =>
          simp only [Shard.step, hm, Shard.serve]
          split
          next op rest hbuffer => exact hfaithful.apply hkept htended hm hbuffer
          next => exact hfaithful
      | triggerSeal now =>
          have hunused := Option.isNone_iff_eq_none.mp hsingle.1
          have hticked : Faithful c { shard with clock := now.nanos, mgr := some m } :=
            hfaithful.congr rfl rfl rfl rfl fun m' hm' => ⟨m', hm.trans hm', rfl, rfl⟩
          simp only [Shard.step, hm, Shard.serve]
          split
          next =>
            split
            next hdrained =>
              exact hticked.sealMutable (hkept.of_mgr _ _) (htended.of_shard _ _) rfl hdrained
                hunused
            next => exact ⟨hfaithful.listed, fun m' hm' => by cases hm'⟩
          next => exact hticked
      | runCompaction now =>
          have hunused := Option.isNone_iff_eq_none.mp hsingle.1.1
          have hticked : Faithful c { shard with clock := now.nanos, mgr := some m } :=
            hfaithful.congr rfl rfl rfl rfl fun m' hm' => ⟨m', hm.trans hm', rfl, rfl⟩
          simp only [Shard.step, hm, Shard.serve]
          exact hticked.compact (hkept.of_mgr _ _) (htended.of_shard _ _) rfl (hsingle.1.2 m hm)
            hunused

theorem faithful_of_run {events : List Event}
    (hmeets : Run.Meets (Shard.step c) (Single c) Shard.fresh events) :
    Upright c (Run.run (Shard.step c) Shard.fresh events) ∧
      Faithful c (Run.run (Shard.step c) Shard.fresh events) :=
  @Run.run_invariant _ _ (Shard.step c) (Single c)
    (fun shard => Upright c shard ∧ Faithful c shard)
    (fun _ _ hsingle hboth => ⟨hboth.1.step hsingle.1, hboth.2.step hboth.1 hsingle⟩)
    _ _ hmeets ⟨upright_fresh c, faithful_fresh c⟩

end Copies

/-! ## What can be found -/

/-- A document without a tombstone and a vector that the index of some segment has for it. -/
def Manager.Searchable (c : Config) (m : Manager) (id : Bytes) (vec : Vector) : Prop :=
  (m.tombstones.lookup id).isNone = true ∧
    (m.mutable.item c id = some vec ∨
      ∃ segID seg, m.immutables.lookup segID = some seg ∧ seg.hnsw.item c.arith id = some vec)

section Found

variable {c : Config} {shard : Shard} {m : Manager}

theorem isNone_tombstones (htended : Tended c shard m) (id : Bytes) :
    (m.tombstones.lookup id).isNone = true ↔ ¬ Dead c shard.tombstoneDb id := by
  rw [← htended.tombstones]
  simp

section

variable (htended : Tended c shard m) (hm : shard.mgr = some m) (hfaithful : Faithful c shard)

include htended hm hfaithful

/-- Every copy that can be found is the stored one. -/
theorem Manager.Searchable.current {id : Bytes} (hpending : ∀ op ∈ m.pending, id ∉ op.targets)
    {vec : Vector} (hfound : m.Searchable c id vec) : shard.current c id = some vec := by
  obtain ⟨hnone, hcopy⟩ := hfound
  have halive := (isNone_tombstones htended id).mp hnone
  rcases hcopy with hitem | ⟨segID, seg, hseg, hitem⟩
  · exact hfaithful.mutable m hm id halive hpending vec hitem
  · rw [htended.loaded] at hseg
    split at hseg
    next hin =>
      exact (hfaithful.listed m.manifest htended.saved segID hin seg hseg id halive).1 vec hitem
    next => cases hseg

/-- With nothing left in the queue, what can be found is what is stored and has no tombstone. -/
theorem searchable_iff (hdrained : m.Drained) (id : Bytes) (vec : Vector) :
    m.Searchable c id vec ↔
      ¬ Dead c shard.tombstoneDb id ∧ shard.current c id = some vec := by
  have hpending : ∀ op ∈ m.pending, id ∉ op.targets := by
    intro op hop
    have hnone : m.pending = [] := hdrained
    rw [hnone] at hop
    cases hop
  constructor
  · intro hfound
    exact ⟨(isNone_tombstones htended id).mp hfound.1, hfound.current htended hm hfaithful hpending⟩
  · intro hboth
    obtain ⟨halive, hcurrent⟩ := hboth
    have hnone := (isNone_tombstones htended id).mpr halive
    obtain ⟨given, hstored, _⟩ := Option.map_eq_some_iff.mp hcurrent
    -- there is some copy, and it is the stored one
    have hcopy : ∃ found, m.Searchable c id found := by
      rcases htended.covered id halive (Option.isSome_of_eq_some hstored) with
        ⟨op, hop, hin⟩ | hitem | ⟨segID, seg, hseg, hitem⟩
      · exact absurd hin (hpending op hop)
      · obtain ⟨found, hfound⟩ := Option.isSome_iff_exists.mp hitem
        exact ⟨found, hnone, Or.inl hfound⟩
      · obtain ⟨found, hfound⟩ := Option.isSome_iff_exists.mp hitem
        exact ⟨found, hnone, Or.inr ⟨segID, seg, hseg, hfound⟩⟩
    obtain ⟨found, hfound⟩ := hcopy
    have hsame := hfound.current htended hm hfaithful hpending
    rw [hcurrent] at hsame
    obtain rfl := Option.some.inj hsame
    exact hfound

end

end Found

/-- In every orderly run that adds nothing that is sealed with another vector, a restart with
an empty queue changes nothing that can be found. -/
theorem restart_preserves {c : Config} {events : List Event}
    (hmeets : Run.Meets (Shard.step c) (Single c) Shard.fresh events) {m : Manager}
    (hm : (Run.run (Shard.step c) Shard.fresh events).mgr = some m) (hdrained : m.Drained)
    (now : Instant) :
    ∃ m', (Run.run (Shard.step c) Shard.fresh (events ++ [.open_ now])).mgr = some m' ∧
      ∀ id vec, m'.Searchable c id vec ↔ m.Searchable c id vec := by
  obtain ⟨hupright, hfaithful⟩ := faithful_of_run hmeets
  rw [Run.run_append, Run.run_cons, Run.run_nil]
  generalize Run.run (Shard.step c) Shard.fresh events = shard at hm hupright hfaithful
  have htended := hupright.tended m hm
  have hkept := hupright.kept
  have hkept' := hkept.booted now.nanos
  have hfaithful' : Faithful c { shard with boot := now.nanos, clock := now.nanos } :=
    ⟨hfaithful.listed, hfaithful.mutable⟩
  obtain ⟨m', hreopened⟩ := hkept'.reopened htended.saved now.nanos
  refine ⟨m', hreopened.mgr, fun id vec => ?_⟩
  rw [searchable_iff htended hm hfaithful hdrained,
    searchable_iff (hreopened.tended hkept' htended.saved) hreopened.mgr
      (hfaithful'.openShard hkept' now.nanos) hreopened.pending]
  unfold Shard.current
  rw [hreopened.primary, hreopened.db]

theorem restart_preserves_mixedRun :
    Run.Meets (Shard.step (lineConfig 2)) (Single (lineConfig 2)) Shard.fresh mixedRun ∧
      ∃ m m', (Run.run (Shard.step (lineConfig 2)) Shard.fresh mixedRun).mgr = some m ∧
        m.Drained ∧ (Run.run (Shard.step (lineConfig 2)) Shard.fresh
          (mixedRun ++ [.open_ (moment 9)])).mgr = some m' ∧
        ∀ id vec, m'.Searchable (lineConfig 2) id vec ↔ m.Searchable (lineConfig 2) id vec := by
  have hmeets : Run.Meets (Shard.step (lineConfig 2)) (Single (lineConfig 2)) Shard.fresh
      mixedRun := by decide +kernel
  have hdrained : ((Run.run (Shard.step (lineConfig 2)) Shard.fresh mixedRun).mgr.any fun m =>
      decide m.Drained) = true := by decide +kernel
  obtain ⟨m, hm, hempty⟩ := (Option.any_eq_true _ _).mp hdrained
  obtain ⟨m', hm', hsame⟩ := restart_preserves hmeets hm (of_decide_eq_true hempty) (moment 9)
  exact ⟨hmeets, m, m', hm, of_decide_eq_true hempty, hm', hsame⟩

/-- A document is sealed and then added with another vector. -/
def overwriteRun : List Event :=
  [.open_ (moment 1), .store (idOf 'a') (number 5), .triggerSeal (moment 2),
    .store (idOf 'a') (number 9)]

/-- The new vector can be found until the shard is opened again. -/
theorem overwrite_lost :
    ∃ m m', (Run.run (Shard.step (lineConfig 4)) Shard.fresh overwriteRun).mgr = some m ∧
      m.Drained ∧ (Run.run (Shard.step (lineConfig 4)) Shard.fresh
        (overwriteRun ++ [.open_ (moment 3)])).mgr = some m' ∧
      m.Searchable (lineConfig 4) (idOf 'a') (number 9) ∧
      ¬ m'.Searchable (lineConfig 4) (idOf 'a') (number 9) := by
  have hbefore : ((Run.run (Shard.step (lineConfig 4)) Shard.fresh overwriteRun).mgr.any fun m =>
      decide (m.Drained ∧ (m.tombstones.lookup (idOf 'a')).isNone = true ∧
        m.mutable.item (lineConfig 4) (idOf 'a') = some (number 9))) = true := by decide +kernel
  have hafter : ((Run.run (Shard.step (lineConfig 4)) Shard.fresh
      (overwriteRun ++ [.open_ (moment 3)])).mgr.any fun m =>
        decide (m.mutable.item (lineConfig 4) (idOf 'a') = none ∧ ∀ entry ∈ m.immutables.entries,
          entry.2.hnsw.item (lineConfig 4).arith (idOf 'a') = some (number 5))) = true := by
    decide +kernel
  obtain ⟨m, hm, hfacts⟩ := (Option.any_eq_true _ _).mp hbefore
  obtain ⟨m', hm', hfacts'⟩ := (Option.any_eq_true _ _).mp hafter
  obtain ⟨hdrained, hnone, hitem⟩ := of_decide_eq_true hfacts
  obtain ⟨hgone, hold⟩ := of_decide_eq_true hfacts'
  refine ⟨m, m', hm, hdrained, hm', ⟨hnone, Or.inl hitem⟩, fun hfound => ?_⟩
  rcases hfound.2 with hitem' | ⟨segID, seg, hseg, hitem'⟩
  · rw [hgone] at hitem'
    cases hitem'
  · rw [hold ⟨segID, seg⟩ (AList.mem_lookup_iff.mp hseg)] at hitem'
    revert hitem'
    decide

/-! ## Scores -/

/-- The indexes of a manager answer with the vectors they have and their distances from the
query; deleted vectors they may answer with as they like. -/
def Manager.Measured (c : Config) (env : SearchEnv) (distance : Vector → Vector → Float32)
    (m : Manager) (query : Vector) : Prop :=
  ∀ hnsw, (hnsw = m.mutable.hnsw ∨ ∃ segID seg, m.immutables.lookup segID = some seg ∧
      hnsw = seg.hnsw) →
    ∀ k ef, ∀ cand ∈ env.searchWithEf hnsw query k ef, (m.tombstones.lookup cand.1).isNone = true →
      ∃ vec, hnsw.item c.arith cand.1 = some vec ∧ cand.2 = distance query vec

/-- The score of a result is the distance to a copy that can be found. -/
theorem Manager.score_of_search {c : Config} {env : SearchEnv}
    {distance : Vector → Vector → Float32} {m : Manager} {query : Vector}
    (hmeasured : m.Measured c env distance query) {k : Int} {opts : SearchOptions}
    {results : List Candidate} (hsearch : m.search env query k opts = some results)
    {cand : Candidate} (hcand : cand ∈ results) :
    ∃ vec, m.Searchable c cand.1 vec ∧ cand.2 = distance query vec := by
  have hscored : Scored (fun id score => (m.tombstones.lookup id).isNone = true →
      ∃ vec, m.Searchable c id vec ∧ score = distance query vec) (m.gather env query k opts) := by
    apply Manager.scored_gather
    · intro k ef cand hin hnone
      obtain ⟨vec, hitem, hscore⟩ := hmeasured _ (Or.inl rfl) k ef cand hin hnone
      exact ⟨vec, ⟨hnone, Or.inl hitem⟩, hscore⟩
    · intro segID seg hseg k ef cand hin hnone
      obtain ⟨vec, hitem, hscore⟩ := hmeasured _ (Or.inr ⟨segID, seg, hseg, rfl⟩) k ef cand hin hnone
      exact ⟨vec, ⟨hnone, Or.inr ⟨segID, seg, hseg, hitem⟩⟩, hscore⟩
  obtain ⟨hlookup, hnone⟩ := Manager.mem_of_search hsearch hcand
  exact hscored cand.1 cand.2 hlookup hnone

/-- In every orderly run that adds nothing that is sealed with another vector, the score of a
document that nothing waits for is the distance to the vector added last, as it is kept. -/
theorem scores_current {c : Config} {env : SearchEnv} {distance : Vector → Vector → Float32}
    {events : List Event} (hmeets : Run.Meets (Shard.step c) (Single c) Shard.fresh events)
    {m : Manager} (hm : (Run.run (Shard.step c) Shard.fresh events).mgr = some m) {query : Vector}
    (hmeasured : m.Measured c env distance query) {k : Int} {opts : SearchOptions}
    {results : List Candidate} (hsearch : m.search env query k opts = some results)
    {cand : Candidate} (hcand : cand ∈ results) (hpending : ∀ op ∈ m.pending, cand.1 ∉ op.targets) :
    ∃ vec, lastOp (history c events) cand.1 = some (some vec) ∧
      cand.2 = distance query (c.kept (c.stored vec)) := by
  obtain ⟨hupright, hfaithful⟩ := faithful_of_run hmeets
  obtain ⟨vec, hfound, hscore⟩ := Manager.score_of_search hmeasured hsearch hcand
  have hcurrent := hfound.current (hupright.tended m hm) hm hfaithful hpending
  unfold Shard.current at hcurrent
  rw [stored_of_run] at hcurrent
  cases hlast : lastOp (history c events) cand.1 with
  | none =>
      rw [hlast] at hcurrent
      cases hcurrent
  | some last =>
      cases last with
      | none =>
          rw [hlast] at hcurrent
          cases hcurrent
      | some given =>
          rw [hlast] at hcurrent
          refine ⟨given, rfl, ?_⟩
          rw [hscore, ← Option.some.inj hcurrent]

theorem measured_lineEnv (fanIn : Int) (m : Manager) (query : Vector) :
    m.Measured (lineConfig fanIn) lineEnv lineDistance query := by
  intro hnsw _ k ef cand hin _
  have hmem := (List.perm_insertionSort _ _).mem_iff.mp (List.mem_of_mem_take hin)
  obtain ⟨id, _, hmap⟩ := List.mem_filterMap.mp hmem
  obtain ⟨vec, hitem, rfl⟩ := Option.map_eq_some_iff.mp hmap
  exact ⟨vec, hitem, rfl⟩

theorem scores_current_mixedRun :
    Run.Meets (Shard.step (lineConfig 2)) (Single (lineConfig 2)) Shard.fresh mixedRun ∧
      ∃ m results cand, (Run.run (Shard.step (lineConfig 2)) Shard.fresh mixedRun).mgr = some m ∧
        m.search lineEnv (number 2) 1 defaultSearchOptions = some results ∧ cand ∈ results ∧
        ∃ vec, lastOp (history (lineConfig 2) mixedRun) cand.1 = some (some vec) ∧
          cand.2 = lineDistance (number 2) ((lineConfig 2).kept ((lineConfig 2).stored vec)) := by
  have hmeets : Run.Meets (Shard.step (lineConfig 2)) (Single (lineConfig 2)) Shard.fresh
      mixedRun := by decide +kernel
  have hfound : ((Run.run (Shard.step (lineConfig 2)) Shard.fresh mixedRun).mgr.any fun m =>
      decide (m.Drained) && (m.search lineEnv (number 2) 1 defaultSearchOptions).any fun results =>
        decide (0 < results.length)) = true := by decide +kernel
  obtain ⟨m, hm, hboth⟩ := (Option.any_eq_true _ _).mp hfound
  rw [Bool.and_eq_true] at hboth
  obtain ⟨results, hsearch, hpos⟩ := (Option.any_eq_true _ _).mp hboth.2
  obtain ⟨cand, hcand⟩ := List.exists_mem_of_length_pos (of_decide_eq_true hpos)
  have hpending : m.pending = [] := of_decide_eq_true hboth.1
  refine ⟨hmeets, m, results, cand, hm, hsearch, hcand, ?_⟩
  exact scores_current hmeets hm (measured_lineEnv 2 m _) hsearch hcand
    (by rw [hpending]; exact nofun)

/-- The old copy in the sealed segment is nearer to the query, and its score is returned. -/
theorem stale_score_returned :
    lastOp (history (lineConfig 4) overwriteRun) (idOf 'a') = some (some (number 9)) ∧
      (((Run.run (Shard.step (lineConfig 4)) Shard.fresh overwriteRun).mgr.bind fun m =>
        m.search lineEnv (number 5) 1 defaultSearchOptions).map
          (List.map fun cand => (cand.1, cand.2.toBits))) =
            some [(idOf 'a', (lineDistance (number 5) (number 5)).toBits)] ∧
      (lineDistance (number 5) (number 9)).toBits ≠ (lineDistance (number 5) (number 5)).toBits := by
  decide +kernel

end Vectron.Segment
