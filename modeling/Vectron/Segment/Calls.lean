import Vectron.Segment.Manager

/-! # The calls of the segment manager

What a store and a deletion do to the mutable segment and its queue, and which segments are
loaded after a compaction and after the shard was opened.
-/

namespace Vectron.Segment

open Foundation
open Worker (Hnsw Pebble Vector kept)

/-! ## Maps -/

namespace Shard

variable {c : Config}

theorem lookup_storeAll (primary : GoMap Bytes Vector) (docs : List (Bytes × Vector)) (id : Bytes) :
    (storeAll c primary docs).lookup id = ((docOf docs id).map c.stored).or (primary.lookup id) := by
  induction docs using List.reverseRecOn with
  | nil => rfl
  | append_singleton docs doc ih =>
      have hlast : storeAll c primary (docs ++ [doc]) =
          (storeAll c primary docs).insert doc.1 (c.stored doc.2) := List.foldl_concat ..
      rw [hlast, GoMap.lookup_insert_if, docOf_concat, ih]
      by_cases hid : id = doc.1
      · simp [hid]
      · simp [hid]

theorem lookup_loadListed (disk : Disk) (segments : List SegmentID) (segID : SegmentID) :
    (loadListed c disk segments).lookup segID =
      if segID ∈ segments then loadImmutableSegment c disk segID else none := by
  induction segments using List.reverseRecOn with
  | nil => rfl
  | append_singleton segments last ih =>
      unfold loadListed at ih ⊢
      rw [List.foldl_concat]
      cases hload : loadImmutableSegment c disk last with
      | none =>
          simp only
          rw [ih]
          by_cases hlast : segID = last
          · subst hlast
            simp [hload]
          · simp [hlast]
      | some seg =>
          simp only
          rw [GoMap.lookup_insert_if, ih]
          by_cases hlast : segID = last
          · subst hlast
            simp [hload]
          · simp [hlast]

theorem lookup_loadMissing (disk : Disk) (immutables : GoMap SegmentID ImmutableSegment)
    (loaded segID : SegmentID) :
    (loadMissing c disk immutables loaded).lookup segID =
      (immutables.lookup segID).or
        (if segID = loaded then loadImmutableSegment c disk segID else none) := by
  unfold loadMissing
  by_cases hid : segID = loaded
  · subst hid
    rw [if_pos rfl]
    split
    next hsome =>
      obtain ⟨seg, hseg⟩ := Option.isSome_iff_exists.mp hsome
      rw [hseg]
      rfl
    next hnone =>
      rw [Option.not_isSome_iff_eq_none.mp hnone, Option.none_or]
      cases hload : loadImmutableSegment c disk segID with
      | none => exact Option.not_isSome_iff_eq_none.mp hnone
      | some seg => exact AList.lookup_insert immutables
  · rw [if_neg hid, Option.or_none]
    split
    next => rfl
    next =>
      split
      next => exact AList.lookup_insert_ne hid
      next => rfl

theorem lookup_foldl_loadMissing (disk : Disk) (after : List SegmentID)
    (immutables : GoMap SegmentID ImmutableSegment) (segID : SegmentID) :
    (after.foldl (loadMissing c disk) immutables).lookup segID =
      (immutables.lookup segID).or
        (if segID ∈ after then loadImmutableSegment c disk segID else none) := by
  induction after generalizing immutables with
  | nil => simp
  | cons first rest ih =>
      rw [List.foldl_cons, ih, lookup_loadMissing, Option.or_assoc]
      congr 1
      by_cases hfirst : segID = first
      · subst hfirst
        cases loadImmutableSegment c disk segID <;> simp
      · simp [hfirst]

theorem lookup_foldl_erase (before after : List SegmentID)
    (immutables : GoMap SegmentID ImmutableSegment) (segID : SegmentID) :
    (before.foldl
      (fun (immutables : GoMap SegmentID ImmutableSegment) segID =>
        if segID ∈ after then immutables else immutables.erase segID) immutables).lookup segID =
      if segID ∈ before ∧ segID ∉ after then none else immutables.lookup segID := by
  induction before using List.reverseRecOn with
  | nil => simp
  | append_singleton before last ih =>
      rw [List.foldl_concat]
      split
      next hafter =>
        rw [ih]
        by_cases hlast : segID = last
        · subst hlast
          simp [hafter]
        · simp [hlast]
      next hafter =>
        rw [GoMap.lookup_erase_if, ih]
        by_cases hlast : segID = last
        · subst hlast
          simp [hafter]
        · simp [hlast]

/-- Which segments are loaded after a compaction. -/
theorem lookup_reconcile (disk : Disk) (before after : List SegmentID)
    (immutables : GoMap SegmentID ImmutableSegment) (segID : SegmentID) :
    (reconcile c disk before after immutables).lookup segID =
      if segID ∈ after then
        (immutables.lookup segID).or (loadImmutableSegment c disk segID)
      else if segID ∈ before then none else immutables.lookup segID := by
  unfold reconcile
  rw [lookup_foldl_erase, lookup_foldl_loadMissing]
  by_cases hafter : segID ∈ after
  · simp [hafter]
  · by_cases hbefore : segID ∈ before
    · simp [hafter, hbefore]
    · simp [hafter, hbefore]

theorem mem_sealedIDs {immutables : GoMap SegmentID ImmutableSegment} {id : Bytes} :
    id ∈ sealedIDs immutables ↔ ∃ segID seg, immutables.lookup segID = some seg ∧ id ∈ seg.ids := by
  rw [sealedIDs, List.mem_flatMap]
  constructor
  · intro hmem
    obtain ⟨entry, hentry, hid⟩ := hmem
    exact ⟨entry.1, entry.2, AList.mem_lookup_iff.mpr hentry, hid⟩
  · intro hmem
    obtain ⟨segID, seg, hlookup, hid⟩ := hmem
    exact ⟨⟨segID, seg⟩, AList.mem_lookup_iff.mp hlookup, hid⟩

theorem docOf_unsealedDocs (primary : GoMap Bytes Vector) (tombstones : GoMap Bytes Int)
    (immutables : GoMap SegmentID ImmutableSegment) (id : Bytes) :
    docOf (unsealedDocs primary tombstones immutables) id =
      if (tombstones.lookup id).isNone ∧ id ∉ sealedIDs immutables then primary.lookup id
      else none := by
  unfold unsealedDocs
  rw [docOf_loadVectors]
  by_cases hlive : (tombstones.lookup id).isNone ∧ id ∉ sealedIDs immutables
  · rw [if_pos hlive]
    split
    next => rfl
    next hmem =>
      rw [List.mem_filter, List.mem_insertionSort] at hmem
      have hkey : id ∉ primary := fun hkey => hmem ⟨hkey, by simpa using hlive⟩
      exact (AList.lookup_eq_none.mpr hkey).symm
  · rw [if_neg hlive, if_neg]
    intro hmem
    rw [List.mem_filter, Bool.and_eq_true, decide_eq_true_eq] at hmem
    exact hlive hmem.2

end Shard

/-! ## Calls of the manager -/

/-- The documents an event stores. -/
def Event.docs : Event → List (Bytes × Vector)
  | .store id vec => [(id, vec)]
  | .storeBatch docs => docs
  | _ => []

def Event.isStore : Event → Bool
  | .store _ _ => true
  | .storeBatch _ => true
  | _ => false

/-- The storage takes the documents of an event. -/
def Event.accepted (c : Config) : Event → Bool
  | .store _ vec => Shard.accepts c vec
  | .storeBatch docs => Shard.acceptsBatch c docs
  | _ => true

/-- The manager after its part of a store. -/
def Manager.stored (c : Config) (primary : GoMap Bytes Vector) (m : Manager) : Event → Manager
  | .store id vec => m.add c primary id vec
  | .storeBatch docs => m.addBatch c primary docs
  | _ => m

/-- The segments and tombstones of a manager whose mutable segment keeps its id. -/
structure Manager.Alike (c : Config) (m m' : Manager) : Prop where
  immutables : m'.immutables = m.immutables
  manifest : m'.manifest = m.manifest
  id : m'.mutable.id = m.mutable.id
  indexed : m'.mutable.Indexed c

/-- A vector that a call with these documents may put into the index: asynchronously the
one that is stored by now. -/
def Indexes (c : Config) (primary : GoMap Bytes Vector) (docs : List (Bytes × Vector)) (id : Bytes)
    (vec : Vector) : Prop :=
  (c.asyncIndex = true → primary.lookup id = some vec) ∧
    (c.asyncIndex = false → docOf docs id = some vec)

/-- What a store does: its documents wait in the queue, or they are indexed. -/
structure Manager.Stores (c : Config) (primary : GoMap Bytes Vector) (docs : List (Bytes × Vector))
    (m m' : Manager) : Prop extends Manager.Alike c m m' where
  tombstones : m'.tombstones = m.tombstones
  handed : (∃ op : IndexOp, m'.pending = m.pending ++ [op] ∧ op.opType = .add ∧
      op.segID = m.mutable.id ∧ (∀ id ∈ docs.map Prod.fst, id ∈ op.targets) ∧
      m'.mutable = m.mutable) ∨
    m'.pending = m.pending ∧ ∀ id,
      (id ∉ docs.map Prod.fst ∧ m'.mutable.item c id = m.mutable.item c id) ∨
        ∃ vec, Indexes c primary docs id vec ∧ m'.mutable.item c id = some (c.kept vec)

namespace Manager

variable {c : Config} {primary : GoMap Bytes Vector} {m : Manager}

theorem enqueue_cases (op : IndexOp) :
    (m.enqueue c primary op).immutables = m.immutables ∧
      (m.enqueue c primary op).manifest = m.manifest ∧
      (m.enqueue c primary op).tombstones = m.tombstones ∧
      ((m.enqueue c primary op).pending = m.pending ++ [op] ∧
          (m.enqueue c primary op).mutable = m.mutable ∨
        (m.enqueue c primary op).pending = m.pending ∧
          (m.enqueue c primary op).mutable = applyIndexOp c primary m.mutable op) := by
  unfold enqueue
  split
  next => exact ⟨rfl, rfl, rfl, Or.inl ⟨(List.append_assoc ..).symm, rfl⟩⟩
  next => exact ⟨rfl, rfl, rfl, Or.inr ⟨rfl, rfl⟩⟩

/-- An addition for the current segment, in the queue or applied by its caller. -/
theorem enqueue_add (hindexed : m.mutable.Indexed c)
    (hdims : ∀ id vec, primary.lookup id = some vec → vec.length = c.index.dim)
    (hasync : c.asyncIndex = true) {docs : List (Bytes × Vector)}
    (hstored : ∀ id ∈ docs.map Prod.fst, (primary.lookup id).isSome) {op : IndexOp}
    (htype : op.opType = .add) (hseg : op.segID = m.mutable.id)
    (htargets : ∀ id ∈ docs.map Prod.fst, id ∈ op.targets) :
    Stores c primary docs m (m.enqueue c primary op) := by
  obtain ⟨himmutables, hmanifest, htombstones, hcases⟩ := @enqueue_cases c primary m op
  rcases hcases with ⟨hpending, hmutable⟩ | ⟨hpending, hmutable⟩
  · refine ⟨⟨himmutables, hmanifest, by rw [hmutable], by rw [hmutable]; exact hindexed⟩,
      htombstones, Or.inl ⟨op, hpending, htype, hseg, htargets, hmutable⟩⟩
  · obtain ⟨hafter, hid, hitem⟩ := applyIndexOp_add hindexed hdims hseg.symm htype
    refine ⟨⟨himmutables, hmanifest, by rw [hmutable, hid], by rw [hmutable]; exact hafter⟩,
      htombstones, Or.inr ⟨hpending, fun id => ?_⟩⟩
    rw [hmutable, hitem]
    cases hlookup : primary.lookup id with
    | none =>
        refine Or.inl ⟨fun hmem => ?_, by simp⟩
        have hsome := hstored id hmem
        rw [hlookup] at hsome
        cases hsome
    | some vec =>
        by_cases hmem : id ∈ op.targets
        · refine Or.inr ⟨vec, ⟨fun _ => hlookup, fun hsync => ?_⟩, by simp [hmem]⟩
          rw [hasync] at hsync
          cases hsync
        · exact Or.inl ⟨fun hdoc => hmem (htargets id hdoc), by simp [hmem]⟩

/-- Additions that are made at once. -/
theorem stores_of_sync (hsync : c.asyncIndex = false) {docs : List (Bytes × Vector)}
    {mutable : MutableSegment} (hindexed : mutable.Indexed c) (hid : mutable.id = m.mutable.id)
    (hitem : ∀ id, mutable.item c id = ((docOf docs id).map c.kept).or (m.mutable.item c id)) :
    Stores c primary docs m { m with mutable := mutable } where
  immutables := rfl
  manifest := rfl
  id := hid
  indexed := hindexed
  tombstones := rfl
  handed := by
    refine Or.inr ⟨rfl, fun id => ?_⟩
    have hread := hitem id
    cases hdoc : docOf docs id with
    | none =>
        rw [hdoc] at hread
        exact Or.inl ⟨docOf_eq_none.mp hdoc, hread⟩
    | some vec =>
        rw [hdoc] at hread
        refine Or.inr ⟨vec, ⟨fun hasync => ?_, fun _ => hdoc⟩, hread⟩
        rw [hsync] at hasync
        cases hasync

theorem stores_of_docs {event : Event} (hindexed : m.mutable.Indexed c)
    (hdims : ∀ id vec, primary.lookup id = some vec → vec.length = c.index.dim)
    (hdocs : ∀ doc ∈ event.docs, doc.2.length = c.index.dim)
    (hstored : ∀ id ∈ event.docs.map Prod.fst, (primary.lookup id).isSome)
    (hstore : event.isStore = true) :
    Stores c primary event.docs m (m.stored c primary event) := by
  cases event with
  | store id vec =>
      unfold stored add
      simp only
      split
      next hasync =>
        exact enqueue_add hindexed hdims hasync hstored rfl rfl
          (by simp [Event.docs, IndexOp.targets])
      next hasync =>
        obtain ⟨_, hafter, hid, hitem⟩ :=
          MutableSegment.add_spec hindexed (hdocs (id, vec) (List.mem_singleton_self _)) id
        refine stores_of_sync (by simpa using hasync) hafter hid fun other => ?_
        rw [hitem, Event.docs, ← List.nil_append [(id, vec)], docOf_concat]
        by_cases hother : other = id
        · simp [hother]
        · simp [hother]
  | storeBatch docs =>
      unfold stored addBatch
      simp only
      split
      next hasync =>
        refine enqueue_add hindexed hdims hasync hstored rfl rfl fun id hid => ?_
        have hne : (docs.map Prod.fst).length ≠ 0 := (List.length_pos_of_mem hid).ne'
        unfold IndexOp.targets
        simp only [hne, if_false]
        exact hid
      next hasync =>
        obtain ⟨_, hafter, hid, hitem⟩ := MutableSegment.applyAddBatch_spec hindexed hdocs
        exact stores_of_sync (by simpa using hasync) hafter hid hitem
  | _ => cases hstore

/-- What a deletion does: it waits in the queue, or the document is off the index. -/
theorem delete_cases (hindexed : m.mutable.Indexed c) (id : Bytes) (now : Instant) :
    Alike c m (m.delete c primary id now) ∧
      (m.delete c primary id now).tombstones = m.tombstones.insert id now.nanos ∧
      ((∃ op : IndexOp, (m.delete c primary id now).pending = m.pending ++ [op] ∧
          op.opType = .delete ∧ op.segID = m.mutable.id ∧ op.id = id ∧
          (m.delete c primary id now).mutable = m.mutable) ∨
        (m.delete c primary id now).pending = m.pending ∧
          ∀ other, (m.delete c primary id now).mutable.item c other =
            if other = id then none else m.mutable.item c other) := by
  unfold delete
  simp only
  split
  next =>
    obtain ⟨himmutables, hmanifest, htombstones, hcases⟩ :=
      @enqueue_cases c primary m ⟨.delete, id, [], m.mutable.id⟩
    rcases hcases with ⟨hpending, hmutable⟩ | ⟨hpending, hmutable⟩
    · refine ⟨⟨himmutables, hmanifest, ?_, ?_⟩, by rw [htombstones],
        Or.inl ⟨_, hpending, rfl, rfl, rfl, hmutable⟩⟩
      · simp only
        rw [hmutable]
      · simp only
        rw [hmutable]
        exact hindexed
    · obtain ⟨hafter, hid, hitem⟩ := @applyIndexOp_delete c primary m.mutable
        ⟨.delete, id, [], m.mutable.id⟩ hindexed rfl rfl
      refine ⟨⟨himmutables, hmanifest, ?_, ?_⟩, by rw [htombstones], Or.inr ⟨hpending, ?_⟩⟩
      · simp only
        rw [hmutable, hid]
      · simp only
        rw [hmutable]
        exact hafter
      · intro other
        rw [hmutable]
        exact hitem other
  next =>
    obtain ⟨hafter, hid, hitem⟩ := MutableSegment.delete_spec hindexed id
    exact ⟨⟨rfl, rfl, hid, hafter⟩, rfl, Or.inr ⟨rfl, hitem⟩⟩

end Manager

namespace Event

variable {c : Config} {event : Event}

theorem dims_of_accepted (haccepted : event.accepted c = true) :
    ∀ doc ∈ event.docs, doc.2.length = c.index.dim := by
  intro doc hdoc
  cases event with
  | store id vec =>
      obtain rfl := List.mem_singleton.mp hdoc
      exact of_decide_eq_true haccepted
  | storeBatch docs =>
      have hboth := List.all_eq_true.mp haccepted doc hdoc
      rw [Bool.and_eq_true] at hboth
      exact of_decide_eq_true hboth.2
  | _ => cases hdoc

end Event

namespace Shard

variable {c : Config} {shard : Shard} {m : Manager}

theorem isSome_storeAll {primary : GoMap Bytes Vector} {docs : List (Bytes × Vector)} {id : Bytes} :
    ((storeAll c primary docs).lookup id).isSome ↔
      id ∈ docs.map Prod.fst ∨ (primary.lookup id).isSome := by
  rw [lookup_storeAll, ← isSome_docOf]
  cases docOf docs id <;> simp

section

variable {primary : GoMap Bytes Vector}
  (hdims : ∀ id vec, primary.lookup id = some vec → vec.length = c.index.dim)

include hdims

/-- Vectors that are stored keep the dimension of the storage. -/
theorem dims_storeAll {docs : List (Bytes × Vector)}
    (hdocs : ∀ doc ∈ docs, doc.2.length = c.index.dim) :
    ∀ id vec, (storeAll c primary docs).lookup id = some vec → vec.length = c.index.dim := by
  intro id vec hlookup
  rw [lookup_storeAll, Option.or_eq_some_iff] at hlookup
  rcases hlookup with hdoc | ⟨_, hold⟩
  · obtain ⟨given, hgiven, rfl⟩ := Option.map_eq_some_iff.mp hdoc
    obtain ⟨doc, hlatest, rfl⟩ := Option.map_eq_some_iff.mp hgiven
    rw [c.stored_length]
    exact hdocs doc (mem_of_latest hlatest).1
  · exact hdims id vec hold

theorem dims_erase (id : Bytes) :
    ∀ other vec, (primary.erase id).lookup other = some vec → vec.length = c.index.dim := by
  intro other vec hlookup
  rw [GoMap.lookup_erase_if] at hlookup
  split at hlookup
  next => cases hlookup
  next => exact hdims other vec hlookup

end

theorem serve_of_isStore {event : Event} (hstore : event.isStore = true) :
    shard.serve c m event =
      if event.accepted c then
        { shard with
          primary := storeAll c shard.primary event.docs
          mgr := some (m.stored c (storeAll c shard.primary event.docs) event) }
      else shard := by
  cases event with
  | store id vec => rfl
  | storeBatch docs => rfl
  | _ => cases hstore

end Shard

end Vectron.Segment
