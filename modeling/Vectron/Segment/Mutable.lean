import Vectron.Segment.Sealer

/-! # The mutable segment

New vectors are put into a mutable segment, which keeps an index of them and the set of its
documents. The index worker is handed operations that name documents only: it looks up
their vectors in the primary storage when it comes to them, and drops what was meant for an
earlier segment.
-/

namespace Vectron.Segment

open Foundation
open Worker (Hnsw Vector kept)

/-! ## The mutable segment -/

structure MutableSegment where
  id : SegmentID
  createdAt : Nat
  hnsw : Hnsw
  docSet : GoMap Bytes Unit
  vectorCount : Int
  bytesEstimate : Int

/-- `newMutableSegmentWithID`. -/
def newMutableSegment (c : Config) (id : SegmentID) (now : Nat) : MutableSegment where
  id := id
  createdAt := now
  hnsw := c.newIndex
  docSet := ∅
  vectorCount := 0
  bytesEstimate := 0

namespace MutableSegment

variable (c : Config)

/-- `Add` and `ApplyAdd`, and whether they return no error. -/
def add (m : MutableSegment) (id : Bytes) (vec : Vector) : MutableSegment × Bool :=
  let added := m.hnsw.add c.arith id vec
  if !added.2 then ({ m with hnsw := added.1 }, false)
  else if (m.docSet.lookup id).isSome then ({ m with hnsw := added.1 }, true)
  else
    ({ m with
        hnsw := added.1
        docSet := m.docSet.insert id ()
        vectorCount := m.vectorCount + 1
        bytesEstimate := m.bytesEstimate + 4 * vec.length },
      true)

/-- `ApplyAddBatch`, which stops at an error. -/
def applyAddBatch (m : MutableSegment) : List (Bytes × Vector) → MutableSegment × Bool
  | [] => (m, true)
  | (id, vec) :: rest =>
      let added := m.add c id vec
      if added.2 then applyAddBatch added.1 rest else (added.1, false)

/-- `Delete` and `ApplyDelete`. The counts stay. -/
def delete (m : MutableSegment) (id : Bytes) : MutableSegment :=
  { m with
    hnsw := m.hnsw.delete id
    docSet := m.docSet.erase id }

/-- `ActiveIDs`. -/
def activeIDs (m : MutableSegment) : List Bytes := m.docSet.keys.insertionSort (· ≤ ·)

/-- `ShouldSeal`. -/
def shouldSeal (m : MutableSegment) (now : Nat) : Bool :=
  decide (c.maxVectors ≤ m.vectorCount) || decide (c.maxBytes ≤ m.bytesEstimate) ||
    decide ((c.maxAge : Int) ≤ (now : Int) - m.createdAt)

end MutableSegment

/-! ## The index queue -/

inductive IndexOpType where
  | add
  | delete
  deriving DecidableEq, Repr

/-- `segmentIndexOp` without the barrier. -/
structure IndexOp where
  opType : IndexOpType
  id : Bytes
  ids : List Bytes
  segID : SegmentID
  deriving DecidableEq, Repr

/-- `loadVectors`. -/
def loadVectors (primary : GoMap Bytes Vector) (ids : List Bytes) : List (Bytes × Vector) :=
  ids.filterMap fun id => (primary.lookup id).map fun vec => (id, vec)

/-- `applyIndexOp`. Errors are dropped. -/
def applyIndexOp (c : Config) (primary : GoMap Bytes Vector) (m : MutableSegment) (op : IndexOp) :
    MutableSegment :=
  if m.id ≠ op.segID then m
  else
    match op.opType with
    | .add =>
        if op.ids.length = 0 then
          match primary.lookup op.id with
          | some vec => (m.add c op.id vec).1
          | none => m
        else
          let found := loadVectors primary op.ids
          if found.length = 0 then m else (m.applyAddBatch c found).1
    | .delete => m.delete op.id

/-! ## What the segment holds -/

/-- The ids an operation is about. -/
def IndexOp.targets (op : IndexOp) : List Bytes :=
  match op.opType with
  | .add => if op.ids.length = 0 then [op.id] else op.ids
  | .delete => [op.id]

/-- The vector an index of segments returns for a vector added to it. -/
def Config.kept (c : Config) (vec : Vector) : Vector := Worker.kept c.arith c.newIndex.config vec

@[simp] theorem Config.newIndex_dim (c : Config) : c.newIndex.config.dim = c.index.dim := rfl

namespace MutableSegment

variable {c : Config} {m : MutableSegment}

/-- The vector of a document in the index. -/
def item (c : Config) (m : MutableSegment) (id : Bytes) : Option Vector := m.hnsw.item c.arith id

/-- The documents of a segment are those its index has a vector for. -/
structure Indexed (c : Config) (m : MutableSegment) : Prop where
  config : m.hnsw.config = c.newIndex.config
  docs : ∀ id, (m.docSet.lookup id).isSome ↔ (m.item c id).isSome

theorem indexed_new (segID : SegmentID) (now : Nat) :
    (newMutableSegment c segID now).Indexed c :=
  ⟨rfl, fun _ => by simp [newMutableSegment, item, Config.newIndex]⟩

@[simp] theorem item_new (segID : SegmentID) (now : Nat) (id : Bytes) :
    (newMutableSegment c segID now).item c id = none := rfl

section

variable (hindexed : m.Indexed c)

include hindexed

/-- A vector of the dimension becomes the one of its id. -/
theorem add_spec {vec : Vector} (hdim : vec.length = c.index.dim) (id : Bytes) :
    (m.add c id vec).2 = true ∧ (m.add c id vec).1.Indexed c ∧ (m.add c id vec).1.id = m.id ∧
      ∀ other, (m.add c id vec).1.item c other =
        if other = id then some (c.kept vec) else m.item c other := by
  have hdim' : vec.length = m.hnsw.config.dim := by
    rw [hindexed.config]
    exact hdim
  have hadded : (m.hnsw.add c.arith id vec).2 = true := (Hnsw.add_succeeds id vec).mpr hdim'
  have hitem : ∀ other, (m.hnsw.add c.arith id vec).1.item c.arith other =
      if other = id then some (c.kept vec) else m.item c other := by
    intro other
    rw [Hnsw.item_add hdim', hindexed.config]
    rfl
  have hconfig : (m.hnsw.add c.arith id vec).1.config = c.newIndex.config := by
    rw [Hnsw.config_add]
    exact hindexed.config
  unfold add
  simp only [hadded, Bool.not_true, Bool.false_eq_true, if_false]
  split
  next hold =>
    refine ⟨rfl, ⟨hconfig, fun other => ?_⟩, rfl, hitem⟩
    have hread : item c { m with hnsw := (m.hnsw.add c.arith id vec).1 } other =
        if other = id then some (c.kept vec) else m.item c other := hitem other
    rw [hread]
    by_cases hother : other = id
    · subst hother
      simpa using hold
    · rw [if_neg hother]
      exact hindexed.docs other
  next =>
    refine ⟨rfl, ⟨hconfig, fun other => ?_⟩, rfl, hitem⟩
    simp only
    rw [item, hitem, GoMap.lookup_insert_if]
    by_cases hother : other = id
    · simp [hother]
    · rw [if_neg hother, if_neg hother]
      exact hindexed.docs other

theorem applyAddBatch_spec {docs : List (Bytes × Vector)}
    (hdims : ∀ doc ∈ docs, doc.2.length = c.index.dim) :
    (m.applyAddBatch c docs).2 = true ∧ (m.applyAddBatch c docs).1.Indexed c ∧
      (m.applyAddBatch c docs).1.id = m.id ∧ ∀ other, (m.applyAddBatch c docs).1.item c other =
        ((docOf docs other).map c.kept).or (m.item c other) := by
  induction docs generalizing m with
  | nil => exact ⟨rfl, hindexed, rfl, fun _ => rfl⟩
  | cons doc rest ih =>
      obtain ⟨hadded, hindexed', hid, hitem⟩ :=
        add_spec hindexed (hdims doc List.mem_cons_self) doc.1
      obtain ⟨hok, hindexed'', hid', hitems⟩ :=
        ih hindexed' fun other hother => hdims other (List.mem_cons_of_mem _ hother)
      have hstep : m.applyAddBatch c (doc :: rest) = (m.add c doc.1 doc.2).1.applyAddBatch c rest := by
        rw [applyAddBatch]
        simp only [hadded, if_true]
      rw [hstep]
      refine ⟨hok, hindexed'', hid'.trans hid, fun other => ?_⟩
      rw [hitems, hitem, docOf, docOf, latest_cons]
      cases hlatest : latest Prod.fst rest other with
      | some found => simp
      | none =>
          by_cases hother : other = doc.1
          · simp [hother]
          · simp [hother, Ne.symm hother]

theorem delete_spec (id : Bytes) :
    (m.delete id).Indexed c ∧ (m.delete id).id = m.id ∧
      ∀ other, (m.delete id).item c other = if other = id then none else m.item c other := by
  have hitem : ∀ other, (m.delete id).item c other = if other = id then none else m.item c other :=
    fun other => Hnsw.item_delete id other
  refine ⟨⟨?_, fun other => ?_⟩, rfl, hitem⟩
  · have hread : (m.delete id).hnsw.config = (m.hnsw.delete id).config := rfl
    rw [hread, Hnsw.config_delete]
    exact hindexed.config
  · have hread : (m.delete id).docSet = m.docSet.erase id := rfl
    rw [hitem, hread, GoMap.lookup_erase_if]
    by_cases hother : other = id
    · simp [hother]
    · rw [if_neg hother, if_neg hother]
      exact hindexed.docs other

theorem mem_activeIDs (id : Bytes) :
    id ∈ m.activeIDs ↔ (m.item c id).isSome := by
  rw [activeIDs, List.mem_insertionSort, ← hindexed.docs, AList.lookup_isSome]
  rfl

end

end MutableSegment

/-! ## Operations of the index worker -/

theorem docOf_loadVectors (primary : GoMap Bytes Vector) (ids : List Bytes) (id : Bytes) :
    docOf (loadVectors primary ids) id = if id ∈ ids then primary.lookup id else none := by
  induction ids using List.reverseRecOn with
  | nil => rfl
  | append_singleton ids last ih =>
      unfold loadVectors at ih ⊢
      rw [List.filterMap_append]
      cases hlast : primary.lookup last with
      | none =>
          have hempty : [last].filterMap (fun id => (primary.lookup id).map fun vec => (id, vec)) =
              [] := by simp [hlast]
          rw [hempty, List.append_nil, ih]
          by_cases hid : id = last
          · subst hid
            simp [hlast]
          · simp [hid]
      | some vec =>
          have hone : [last].filterMap (fun id => (primary.lookup id).map fun vec => (id, vec)) =
              [(last, vec)] := by simp [hlast]
          rw [hone, docOf_concat, ih]
          by_cases hid : id = last
          · subst hid
            simp [hlast]
          · simp [hid]

theorem mem_loadVectors {primary : GoMap Bytes Vector} {ids : List Bytes} {doc : Bytes × Vector}
    (hdoc : doc ∈ loadVectors primary ids) : primary.lookup doc.1 = some doc.2 := by
  obtain ⟨id, _, hlookup⟩ := List.mem_filterMap.mp hdoc
  obtain ⟨vec, hvec, rfl⟩ := Option.map_eq_some_iff.mp hlookup
  exact hvec

section Apply

variable {c : Config} {primary : GoMap Bytes Vector} {m : MutableSegment} {op : IndexOp}

theorem applyIndexOp_of_ne (hne : m.id ≠ op.segID) : applyIndexOp c primary m op = m := if_pos hne

/-- The worker gives every document of an addition the vector that is stored at that time,
and leaves those alone that are not stored any more. -/
theorem applyIndexOp_add (hindexed : m.Indexed c)
    (hdims : ∀ id vec, primary.lookup id = some vec → vec.length = c.index.dim)
    (hseg : m.id = op.segID) (htype : op.opType = .add) :
    (applyIndexOp c primary m op).Indexed c ∧ (applyIndexOp c primary m op).id = m.id ∧
      ∀ other, (applyIndexOp c primary m op).item c other =
        if other ∈ op.targets then ((primary.lookup other).map c.kept).or (m.item c other)
        else m.item c other := by
  unfold applyIndexOp IndexOp.targets
  simp only [hseg, ne_eq, not_true_eq_false, if_false, htype]
  by_cases hids : op.ids.length = 0
  · simp only [hids, if_true, List.mem_singleton]
    cases hvec : primary.lookup op.id with
    | none =>
        refine ⟨hindexed, hseg, fun other => ?_⟩
        by_cases hother : other = op.id
        · subst hother
          simp [hvec]
        · simp [hother]
    | some vec =>
        obtain ⟨_, hafter, hid, hitem⟩ :=
          MutableSegment.add_spec hindexed (hdims op.id vec hvec) op.id
        refine ⟨hafter, hid.trans hseg, fun other => ?_⟩
        by_cases hother : other = op.id
        · subst hother
          simp [hitem, hvec]
        · simp [hitem, hother]
  · simp only [hids, if_false]
    have hfound : ∀ other, docOf (loadVectors primary op.ids) other =
        if other ∈ op.ids then primary.lookup other else none := docOf_loadVectors primary op.ids
    by_cases hempty : (loadVectors primary op.ids).length = 0
    · simp only [hempty, if_true]
      refine ⟨hindexed, hseg, fun other => ?_⟩
      split
      next hmem =>
        have hnone := hfound other
        rw [List.length_eq_zero_iff.mp hempty, if_pos hmem, docOf_nil] at hnone
        rw [← hnone]
        rfl
      next => rfl
    · simp only [hempty, if_false]
      have hlengths : ∀ doc ∈ loadVectors primary op.ids, doc.2.length = c.index.dim :=
        fun doc hdoc => hdims doc.1 doc.2 (mem_loadVectors hdoc)
      obtain ⟨_, hafter, hid, hitem⟩ := MutableSegment.applyAddBatch_spec hindexed hlengths
      refine ⟨hafter, hid.trans hseg, fun other => ?_⟩
      rw [hitem, hfound]
      split
      next => rfl
      next => rfl

theorem applyIndexOp_delete (hindexed : m.Indexed c) (hseg : m.id = op.segID)
    (htype : op.opType = .delete) :
    (applyIndexOp c primary m op).Indexed c ∧ (applyIndexOp c primary m op).id = m.id ∧
      ∀ other, (applyIndexOp c primary m op).item c other =
        if other = op.id then none else m.item c other := by
  unfold applyIndexOp
  simp only [hseg, ne_eq, not_true_eq_false, if_false, htype]
  rw [← hseg]
  exact MutableSegment.delete_spec hindexed op.id

/-- Whatever the worker applies, the documents stay those of the index. -/
theorem applyIndexOp_indexed (hindexed : m.Indexed c)
    (hdims : ∀ id vec, primary.lookup id = some vec → vec.length = c.index.dim) (op : IndexOp) :
    (applyIndexOp c primary m op).Indexed c ∧ (applyIndexOp c primary m op).id = m.id := by
  by_cases hseg : m.id = op.segID
  · cases htype : op.opType with
    | add =>
        obtain ⟨hafter, hid, _⟩ := applyIndexOp_add hindexed hdims hseg htype
        exact ⟨hafter, hid⟩
    | delete =>
        obtain ⟨hafter, hid, _⟩ := @applyIndexOp_delete c primary m op hindexed hseg htype
        exact ⟨hafter, hid⟩
  · rw [applyIndexOp_of_ne hseg]
    exact ⟨hindexed, rfl⟩

end Apply

end Vectron.Segment
