import Vectron.Segment.Crash

/-! # Seals that fail

A seal that cannot write its files, or cannot make the next segment, leaves the manager with a
segment that takes no more additions. When only the sealed segment cannot be read back, the next
segment takes its place, and its documents are in no index any more.
-/

namespace Vectron.Segment

open Foundation
open Worker (idOf)

/-- An id that a search can find: the index of some segment has a vector for it, and it has no
tombstone. -/
def Manager.Findable (c : Config) (m : Manager) (id : Bytes) : Prop :=
  m.Holds c id ∧ m.tombstones.lookup id = none

namespace Site

variable (c : Config)

/-- The calls that return an error because the mutable segment checks its state. A deletion that
is queued does not reach the check. -/
def refuses (site : Site) : Event → Bool
  | .store _ _ => site.refusing
  | .storeBatch _ => site.refusing
  | .delete _ _ => site.refusing && !c.asyncIndex
  | _ => false

/-- The manager answers, and its mutable segment takes additions and deletions. -/
def Writable (site : Site) : Prop :=
  site.shard.mgr.isSome ∧ ∀ event, site.refuses c event = false

/-- What was searchable in a manager still is. -/
def StillFindable (m : Manager) (site : Site) : Prop :=
  ∀ id, m.Findable c id → ∃ m' ∈ site.shard.mgr, m'.Findable c id

/-- A seal that starts and fails leaves the shard writable, and what was searchable still is. -/
def Leaves (site : Site) : Incident → Prop
  | .sealFails now point => ∀ m ∈ site.sealing c now.nanos,
      (site.step c (.sealFails now point)).Writable c ∧
        (site.step c (.sealFails now point)).StillFindable c m
  | _ => True

/-- The index of a loaded segment other than the current one has a vector for the id. -/
def SealedElsewhere (m : Manager) (id : Bytes) : Prop :=
  ∃ segID seg, segID ≠ m.mutable.id ∧ m.immutables.lookup segID = some seg ∧
    (seg.hnsw.item c.arith id).isSome = true

/-- What a seal may fail at: the sealed segment cannot be read back, and the loaded segments have
every id that can be found, or the manifest cannot be saved, and no loaded segment is replaced
that an id depends on. -/
def Spared (site : Site) : Incident → Prop
  | .sealFails now point => ∀ m ∈ site.sealing c now.nanos,
      match point with
      | .writing _ => False
      | .loading => ∀ id, m.Findable c id →
          ∃ segID seg, m.immutables.lookup segID = some seg ∧
            (seg.hnsw.item c.arith id).isSome = true
      | .creating => False
      | .saving => ∀ id, m.Findable c id →
          (m.mutable.item c id).isSome = true ∨ SealedElsewhere c m id
  | _ => True

variable {c : Config} {site : Site}

theorem writable_iff : site.Writable c ↔ site.shard.mgr.isSome ∧ site.refusing = false := by
  constructor
  · intro hwritable
    exact ⟨hwritable.1, hwritable.2 (.storeBatch [])⟩
  · intro hsite
    refine ⟨hsite.1, fun event => ?_⟩
    cases event <;> simp [refuses, hsite.2]

theorem step_sealFails {now : Instant} {m : Manager} (hm : m ∈ site.sealing c now.nanos)
    (point : SealPoint) :
    site.step c (.sealFails now point) = failedSeal c site.shard m now.nanos point := by
  have hsome : site.sealing c now.nanos = some m := hm
  simp only [step, hsome]

/-- The next segment is empty, so that an id is found in the sealed ones or not at all. -/
theorem findable_next {m : Manager} {immutables : GoMap SegmentID ImmutableSegment}
    {manifest : Manifest} {newID : SegmentID} {now : Nat} {id : Bytes} :
    Manager.Findable c { m with
        mutable := newMutableSegment c newID now
        immutables := immutables
        manifest := manifest } id ↔
      (∃ segID seg, immutables.lookup segID = some seg ∧
        (seg.hnsw.item c.arith id).isSome = true) ∧ m.tombstones.lookup id = none := by
  simp [Manager.Findable, Manager.Holds]

/-- The sealed segment is loaded with the vectors of the mutable one. -/
theorem sealed_cases {m : Manager} {shard : Shard} {now : Nat} {id : Bytes} :
    (∃ segID seg, (m.immutables.insert m.mutable.id (sealedSegment shard m now)).lookup segID =
        some seg ∧ (seg.hnsw.item c.arith id).isSome = true) ↔
      (m.mutable.item c id).isSome = true ∨ SealedElsewhere c m id := by
  have hitem : ((sealedSegment shard m now).hnsw.item c.arith id) = m.mutable.item c id :=
    Worker.Hnsw.item_reloaded id
  constructor
  · rintro ⟨segID, seg, hseg, hheld⟩
    rw [GoMap.lookup_insert_if] at hseg
    split at hseg
    next heq =>
      obtain rfl := Option.some.inj hseg
      exact Or.inl (hitem ▸ hheld)
    next hne => exact Or.inr ⟨segID, seg, hne, hseg, hheld⟩
  · intro hheld
    cases hheld with
    | inl hmutable =>
        exact ⟨m.mutable.id, _, AList.lookup_insert _, hitem.symm ▸ hmutable⟩
    | inr helsewhere =>
        obtain ⟨segID, seg, hne, hseg, hheld⟩ := helsewhere
        exact ⟨segID, seg, (AList.lookup_insert_ne hne).trans hseg, hheld⟩

/-- What one failure leaves. -/
theorem failedSeal_iff (m : Manager) (now : Nat) (point : SealPoint) :
    (failedSeal c site.shard m now point).Writable c ∧
        (failedSeal c site.shard m now point).StillFindable c m ↔
      match point with
      | .writing _ => False
      | .loading => ∀ id, m.Findable c id →
          ∃ segID seg, m.immutables.lookup segID = some seg ∧
            (seg.hnsw.item c.arith id).isSome = true
      | .creating => False
      | .saving => ∀ id, m.Findable c id →
          (m.mutable.item c id).isSome = true ∨ SealedElsewhere c m id := by
  rw [writable_iff]
  cases point with
  | writing n => simp [failedSeal]
  | creating => simp [failedSeal]
  | loading =>
      constructor
      · intro hleaves id hid
        obtain ⟨m', hm', hsearchable⟩ := hleaves.2 id hid
        obtain rfl := Option.some.inj hm'
        exact (findable_next.mp hsearchable).1
      · intro hloaded
        refine ⟨⟨rfl, rfl⟩, fun id hid => ⟨_, rfl, ?_⟩⟩
        exact findable_next.mpr ⟨hloaded id hid, hid.2⟩
  | saving =>
      have hload := @load_sealed c { site.shard with clock := now } m now
      constructor
      · intro hleaves id hid
        obtain ⟨m', hm', hsearchable⟩ := hleaves.2 id hid
        obtain rfl := Option.some.inj hm'
        have hheld := (findable_next.mp hsearchable).1
        rw [hload] at hheld
        exact sealed_cases.mp hheld
      · intro hheld
        refine ⟨⟨rfl, rfl⟩, fun id hid => ⟨_, rfl, findable_next.mpr ⟨?_, hid.2⟩⟩⟩
        rw [hload]
        exact sealed_cases.mpr (hheld id hid)

theorem leaves_iff_spared (site : Site) (incident : Incident) :
    Leaves c site incident ↔ Spared c site incident := by
  cases incident with
  | sealFails now point =>
      refine forall_congr' fun m => forall_congr' fun hm => ?_
      rw [step_sealFails hm]
      exact failedSeal_iff m now.nanos point
  | undisturbed event
  | stops
  | sealStops now point
  | compactionStops now point
  | compactionFails now point => exact Iff.rfl

end Site

/-- In a run every seal that fails leaves the shard writable, with everything searchable that
was, if and only if no seal fails at the files or at the next segment, and none loses what only
the sealed segment had. -/
theorem failed_seals_left_iff (c : Config) (incidents : List Incident) :
    Run.Meets (Site.step c) (Site.Leaves c) Site.fresh incidents ↔
      Run.Meets (Site.step c) (Site.Spared c) Site.fresh incidents :=
  ⟨fun hmeets => hmeets.imp fun site incident => (Site.leaves_iff_spared site incident).mp,
    fun hmeets => hmeets.imp fun site incident => (Site.leaves_iff_spared site incident).mpr⟩

/-- The directory of a full segment cannot be made. -/
def blockedRun : List Incident :=
  [.undisturbed (.open_ (moment 1)), .undisturbed (.store (idOf 'a') (number 1)),
    .sealFails (moment 2) (.writing 0)]

/-- The segment takes no more additions. -/
theorem blocked_seal_refuses :
    ¬ ∀ (c : Config) (incidents : List Incident),
      Run.Meets (Site.step c) (Site.Leaves c) Site.fresh incidents := by
  intro hall
  obtain ⟨_, _, hleaves, _⟩ := hall (lineConfig 2) blockedRun
  have hsealing : ((Site.step (lineConfig 2) (Site.step (lineConfig 2) Site.fresh
      (.undisturbed (.open_ (moment 1)))) (.undisturbed (.store (idOf 'a') (number 1)))).sealing
        (lineConfig 2) (moment 2).nanos).isSome = true := by
    decide +kernel
  obtain ⟨m, hm⟩ := Option.isSome_iff_exists.mp hsealing
  exact (Site.leaves_iff_spared _ (.sealFails (moment 2) (.writing 0))).mp hleaves m hm

end Vectron.Segment
