import Vectron.Segment.Mutable

/-! # The counters of the mutable segment

A segment is sealed by its counters: how many documents it has, and how many bytes their
vectors take. An addition counts a document that is new to the segment. A deletion takes the
document out of the segment and leaves the counters as they are.
-/

namespace Vectron.Segment

open Foundation
open Worker (Arithmetic Hnsw IndexConfig Vector idOf kept)

/-! ## What the index holds -/

/-- The components of the vector in a node, as floats or quantised. -/
def nodeLength (node : Worker.Node) : Nat :=
  match node.vec with
  | some vec => vec.length
  | none => (node.qvec.map List.length).getD 0

/-- The components of the vector an index holds for an id. -/
def heldLength (h : Hnsw) (id : Bytes) : Nat :=
  (((h.idToUint32.lookup id).bind h.nodes.lookup).map nodeLength).getD 0

/-- The same arithmetic with quantised vectors read back as zeros. -/
def sized (arith : Arithmetic) : Arithmetic :=
  { arith with dequantize := fun qvec => qvec.map fun _ => 0 }

section Held

variable {arith : Arithmetic} {h : Hnsw}

theorem heldLength_eq (arith : Arithmetic) (h : Hnsw) (id : Bytes) :
    heldLength h id = ((h.item (sized arith) id).map List.length).getD 0 := by
  unfold heldLength Hnsw.item
  cases h.idToUint32.lookup id with
  | none => rfl
  | some n =>
      simp only [Option.bind_some, Option.bind_eq_bind]
      cases h.nodes.lookup n with
      | none => rfl
      | some node =>
          obtain ⟨vec, qvec, _, _⟩ := node
          cases vec with
          | some vec => rfl
          | none =>
              cases qvec with
              | none => rfl
              | some qvec => simp [nodeLength, Worker.Node.vector, sized]

theorem add_sized (id : Bytes) (vec : Vector) : h.add (sized arith) id vec = h.add arith id vec :=
  rfl

theorem length_kept_sized (arith : Arithmetic) (config : IndexConfig) (vec : Vector) :
    (kept (sized arith) config vec).length = vec.length := by
  unfold kept
  split
  · split
    · simp [sized, arith.quantize_length, arith.normalize_length]
    · exact arith.normalize_length vec
  · rfl

/-- A vector of the dimension is held afterwards; with one of another length the id holds none
any more. -/
theorem heldLength_add (arith : Arithmetic) (h : Hnsw) (id other : Bytes) (vec : Vector) :
    heldLength (h.add arith id vec).1 other =
      if other = id then (if vec.length = h.config.dim then h.config.dim else 0)
      else heldLength h other := by
  rw [heldLength_eq arith, heldLength_eq arith, ← add_sized]
  by_cases hdim : vec.length = h.config.dim
  · rw [Hnsw.item_add hdim, if_pos hdim]
    split
    · simp [length_kept_sized, hdim]
    · rfl
  · rw [Hnsw.item_add_of_ne hdim, if_neg hdim]
    split <;> rfl

theorem heldLength_delete (h : Hnsw) (id other : Bytes) :
    heldLength (h.delete id) other = if other = id then 0 else heldLength h other := by
  rw [heldLength_eq Worker.wholeNumbers, heldLength_eq Worker.wholeNumbers, Hnsw.item_delete]
  split <;> rfl

end Held

/-! ## Counters -/

namespace MutableSegment

/-- The ids in `docSet`. -/
def docs (m : MutableSegment) : Finset Bytes := m.docSet.keys.toFinset

/-- Four bytes for each component of the vectors that are held for the documents. -/
def heldBytes (m : MutableSegment) : Int :=
  4 * m.docs.sum fun id => (heldLength m.hnsw id : Int)

/-- The counters are those of the documents, so that these decide about the seal. -/
structure Accounted (c : Config) (m : MutableSegment) : Prop where
  vectorCount : m.vectorCount = m.docs.card
  bytesEstimate : m.bytesEstimate = m.heldBytes
  seals : ∀ now, m.shouldSeal c now =
    (decide (c.maxVectors ≤ m.docs.card) || decide (c.maxBytes ≤ m.heldBytes) ||
      decide ((c.maxAge : Int) ≤ (now : Int) - m.createdAt))

/-- The calls that change the documents of a segment. -/
inductive Call where
  | add (id : Bytes) (vec : Vector)
  | applyAdd (id : Bytes) (vec : Vector)
  | applyAddBatch (docs : List (Bytes × Vector))
  | delete (id : Bytes)
  | applyDelete (id : Bytes)

def call (c : Config) (m : MutableSegment) : Call → MutableSegment
  | .add id vec => (m.add c id vec).1
  | .applyAdd id vec => (m.add c id vec).1
  | .applyAddBatch docs => (m.applyAddBatch c docs).1
  | .delete id => m.delete id
  | .applyDelete id => m.delete id

/-- A batch for a segment with some documents: if it stops at a vector of the wrong length, then
at one of a document that is new. -/
def batchKeeps (dim : Nat) : Finset Bytes → List (Bytes × Vector) → Prop
  | _, [] => True
  | known, (id, vec) :: rest =>
      if vec.length = dim then batchKeeps dim (insert id known) rest else id ∉ known

/-- A call that takes no document and no vector of one away: only ids are deleted that the
segment does not have, and a vector of the wrong length comes with a new id. -/
def KeepsDocs (c : Config) (m : MutableSegment) : Call → Prop
  | .add id vec => vec.length = c.index.dim ∨ id ∉ m.docs
  | .applyAdd id vec => vec.length = c.index.dim ∨ id ∉ m.docs
  | .applyAddBatch docs => batchKeeps c.index.dim m.docs docs
  | .delete id => id ∉ m.docs
  | .applyDelete id => id ∉ m.docs

/-- A segment with right counters that holds a vector of the dimension for each document. -/
structure Tidy (c : Config) (m : MutableSegment) : Prop where
  dim : m.hnsw.config.dim = c.index.dim
  held : ∀ id, heldLength m.hnsw id = if id ∈ m.docs then c.index.dim else 0
  vectorCount : m.vectorCount = m.docs.card
  bytesEstimate : m.bytesEstimate = m.heldBytes

variable {c : Config} {m : MutableSegment}

theorem mem_docs {id : Bytes} : id ∈ m.docs ↔ (m.docSet.lookup id).isSome := by
  rw [docs, List.mem_toFinset, AList.lookup_isSome]
  rfl

theorem Tidy.accounted (htidy : m.Tidy c) : m.Accounted c where
  vectorCount := htidy.vectorCount
  bytesEstimate := htidy.bytesEstimate
  seals now := by
    rw [shouldSeal, htidy.vectorCount, htidy.bytesEstimate]

theorem heldBytes_eq {held : Finset Bytes}
    (hheld : ∀ id ∈ m.docs, heldLength m.hnsw id = if id ∈ held then c.index.dim else 0) :
    m.heldBytes = 4 * ((m.docs ∩ held).card * c.index.dim) := by
  have hsum : (m.docs.sum fun id => (heldLength m.hnsw id : Int)) =
      m.docs.sum fun id => if id ∈ held then (c.index.dim : Int) else 0 := by
    refine Finset.sum_congr rfl fun id hid => ?_
    rw [hheld id hid]
    split <;> simp
  rw [heldBytes, hsum, Finset.sum_ite_mem, Finset.sum_const, nsmul_eq_mul]

theorem Tidy.heldBytes (htidy : m.Tidy c) : m.heldBytes = 4 * (m.docs.card * c.index.dim) := by
  rw [heldBytes_eq fun id _ => htidy.held id, Finset.inter_self]

theorem tidy_of_held (hdim : m.hnsw.config.dim = c.index.dim)
    (hheld : ∀ id, heldLength m.hnsw id = if id ∈ m.docs then c.index.dim else 0)
    (hcount : m.vectorCount = m.docs.card)
    (hbytes : m.bytesEstimate = 4 * (m.docs.card * c.index.dim)) : m.Tidy c where
  dim := hdim
  held := hheld
  vectorCount := hcount
  bytesEstimate := by rw [hbytes, heldBytes_eq fun id _ => hheld id, Finset.inter_self]

theorem tidy_new (segID : SegmentID) (now : Nat) : (newMutableSegment c segID now).Tidy c where
  dim := rfl
  held _ := rfl
  vectorCount := rfl
  bytesEstimate := rfl

/-- An addition with a vector of the dimension. -/
theorem Tidy.add (htidy : m.Tidy c) {vec : Vector} (hdim : vec.length = c.index.dim) (id : Bytes) :
    (m.add c id vec).2 = true ∧ (m.add c id vec).1.docs = insert id m.docs ∧
      (m.add c id vec).1.Tidy c := by
  have hadded : (m.hnsw.add c.arith id vec).2 = true :=
    (Hnsw.add_succeeds id vec).mpr (hdim.trans htidy.dim.symm)
  have hconfig : (m.hnsw.add c.arith id vec).1.config.dim = c.index.dim := by
    rw [Hnsw.config_add, htidy.dim]
  have hheld : ∀ other, heldLength (m.hnsw.add c.arith id vec).1 other =
      if other ∈ insert id m.docs then c.index.dim else 0 := by
    intro other
    rw [heldLength_add, htidy.held, htidy.dim, if_pos hdim]
    by_cases hother : other = id
    · simp [hother]
    · simp [hother]
  have hbytes := htidy.bytesEstimate.trans htidy.heldBytes
  unfold MutableSegment.add
  simp only [hadded, Bool.not_true, Bool.false_eq_true, if_false]
  split
  next hold =>
    have hinsert : insert id m.docs = m.docs := Finset.insert_eq_self.mpr (mem_docs.mpr hold)
    refine ⟨rfl, hinsert.symm, tidy_of_held hconfig ?_ htidy.vectorCount hbytes⟩
    rw [hinsert] at hheld
    exact hheld
  next hnew =>
    have hnot : id ∉ m.docs := fun hmem => hnew (mem_docs.mp hmem)
    have hdocs : (m.docSet.insert id ()).keys.toFinset = insert id m.docs := by
      ext other
      rw [List.mem_toFinset, Finset.mem_insert, mem_docs, ← AList.mem_keys, ← AList.lookup_isSome,
        GoMap.lookup_insert_if]
      by_cases hother : other = id
      · simp [hother]
      · simp [hother]
    refine ⟨rfl, hdocs, ?_⟩
    refine tidy_of_held hconfig (fun other => ?_) ?_ ?_
    · rw [docs, hdocs]
      exact hheld other
    · rw [docs, hdocs, Finset.card_insert_of_notMem hnot, htidy.vectorCount]
      rfl
    · rw [docs, hdocs, Finset.card_insert_of_notMem hnot, hbytes, hdim]
      push_cast
      ring

/-- An addition with a vector of another length. -/
theorem Tidy.add_of_ne (htidy : m.Tidy c) {vec : Vector} (hdim : vec.length ≠ c.index.dim)
    (id : Bytes) :
    (m.add c id vec).2 = false ∧ ((m.add c id vec).1.Accounted c ↔ id ∉ m.docs) ∧
      (id ∉ m.docs → (m.add c id vec).1.Tidy c) := by
  have hdim' : vec.length ≠ m.hnsw.config.dim := by rwa [htidy.dim]
  have hrefused : (m.hnsw.add c.arith id vec).2 = false := by
    rw [← Bool.not_eq_true, Hnsw.add_succeeds]
    exact hdim'
  have hheld : ∀ other, heldLength (m.hnsw.add c.arith id vec).1 other =
      if other ∈ m.docs.erase id then c.index.dim else 0 := by
    intro other
    rw [heldLength_add, htidy.held, if_neg hdim']
    by_cases hother : other = id
    · simp [hother]
    · simp [hother]
  have hadd : m.add c id vec = ({ m with hnsw := (m.hnsw.add c.arith id vec).1 }, false) := by
    unfold MutableSegment.add
    simp [hrefused]
  have hbytes := htidy.bytesEstimate.trans htidy.heldBytes
  have hconfig : (m.hnsw.add c.arith id vec).1.config.dim = c.index.dim := by
    rw [Hnsw.config_add, htidy.dim]
  have hkept : id ∉ m.docs → (m.add c id vec).1.Tidy c := by
    intro hnot
    rw [Finset.erase_eq_of_notMem hnot] at hheld
    rw [hadd]
    exact tidy_of_held hconfig hheld htidy.vectorCount hbytes
  refine ⟨by rw [hadd], ⟨fun haccounted hmem => ?_, fun hnot => (hkept hnot).accounted⟩, hkept⟩
  -- the vector of the document is gone, and its bytes still count
  have hestimate := haccounted.bytesEstimate
  rw [hadd, heldBytes_eq fun other _ => hheld other] at hestimate
  have hcard : ((m.docs ∩ m.docs.erase id).card : Int) = m.docs.card - 1 := by
    rw [Finset.inter_eq_right.mpr (Finset.erase_subset id m.docs), Finset.card_erase_of_mem hmem]
    have hpos := Finset.card_pos.mpr ⟨id, hmem⟩
    omega
  have hpos : (0 : Int) < c.index.dim := by exact_mod_cast c.index.dim_pos
  have hdocs : docs { m with hnsw := (m.hnsw.add c.arith id vec).1 } = m.docs := rfl
  have hsame : MutableSegment.bytesEstimate { m with hnsw := (m.hnsw.add c.arith id vec).1 } =
      m.bytesEstimate := rfl
  rw [hdocs, hcard, hsame, hbytes] at hestimate
  nlinarith

theorem docs_delete (m : MutableSegment) (id : Bytes) : (m.delete id).docs = m.docs.erase id := by
  ext other
  have hread : (m.delete id).docSet = m.docSet.erase id := rfl
  rw [mem_docs, hread, GoMap.lookup_erase_if, Finset.mem_erase, mem_docs]
  by_cases hother : other = id
  · simp [hother]
  · simp [hother]

theorem Tidy.delete (htidy : m.Tidy c) (id : Bytes) :
    ((m.delete id).Accounted c ↔ id ∉ m.docs) ∧ (id ∉ m.docs → (m.delete id).Tidy c) := by
  have hdocs := docs_delete m id
  have hcount : (m.delete id).vectorCount = m.docs.card := htidy.vectorCount
  have hkept : id ∉ m.docs → (m.delete id).Tidy c := by
    intro hnot
    rw [Finset.erase_eq_of_notMem hnot] at hdocs
    refine tidy_of_held ?_ (fun other => ?_) (by rw [hcount, hdocs]) ?_
    · have hread : (m.delete id).hnsw.config = (m.hnsw.delete id).config := rfl
      rw [hread, Hnsw.config_delete, htidy.dim]
    · have hread : (m.delete id).hnsw = m.hnsw.delete id := rfl
      rw [hread, heldLength_delete, htidy.held, hdocs]
      by_cases hother : other = id
      · simp [hother, hnot]
      · simp [hother]
    · rw [hdocs]
      exact htidy.bytesEstimate.trans htidy.heldBytes
  refine ⟨⟨fun haccounted hmem => ?_, fun hnot => (hkept hnot).accounted⟩, hkept⟩
  -- the document is gone, and still counts
  have hestimate := haccounted.vectorCount
  rw [hcount, hdocs, Finset.card_erase_of_mem hmem] at hestimate
  have hpos := Finset.card_pos.mpr ⟨id, hmem⟩
  omega

theorem Tidy.applyAddBatch (htidy : m.Tidy c) (docs : List (Bytes × Vector)) :
    ((m.applyAddBatch c docs).1.Accounted c ↔ batchKeeps c.index.dim m.docs docs) ∧
      (batchKeeps c.index.dim m.docs docs → (m.applyAddBatch c docs).1.Tidy c) := by
  induction docs generalizing m with
  | nil => exact ⟨iff_of_true htidy.accounted trivial, fun _ => htidy⟩
  | cons doc rest ih =>
      obtain ⟨id, vec⟩ := doc
      rw [MutableSegment.applyAddBatch, batchKeeps]
      by_cases hdim : vec.length = c.index.dim
      · obtain ⟨hadded, hdocs, hnext⟩ := htidy.add hdim id
        simp only [hadded, hdim, if_true, ← hdocs]
        exact ih hnext
      · obtain ⟨hrefused, haccounted, hkept⟩ := htidy.add_of_ne hdim id
        simp only [hrefused, hdim, if_false, Bool.false_eq_true]
        exact ⟨haccounted, hkept⟩

/-- A call leaves the counters right if and only if it takes nothing away. -/
theorem Tidy.call (htidy : m.Tidy c) (call : Call) :
    ((m.call c call).Accounted c ↔ m.KeepsDocs c call) ∧
      (m.KeepsDocs c call → (m.call c call).Tidy c) := by
  have hadd : ∀ id vec, ((m.add c id vec).1.Accounted c ↔ vec.length = c.index.dim ∨ id ∉ m.docs) ∧
      (vec.length = c.index.dim ∨ id ∉ m.docs → (m.add c id vec).1.Tidy c) := by
    intro id vec
    by_cases hdim : vec.length = c.index.dim
    · obtain ⟨_, _, hnext⟩ := htidy.add hdim id
      exact ⟨iff_of_true hnext.accounted (Or.inl hdim), fun _ => hnext⟩
    · obtain ⟨_, haccounted, hkept⟩ := htidy.add_of_ne hdim id
      exact ⟨haccounted.trans ⟨Or.inr, fun hor => hor.resolve_left hdim⟩,
        fun hor => hkept (hor.resolve_left hdim)⟩
  cases call with
  | add id vec => exact hadd id vec
  | applyAdd id vec => exact hadd id vec
  | applyAddBatch docs => exact htidy.applyAddBatch docs
  | delete id => exact htidy.delete id
  | applyDelete id => exact htidy.delete id

/-- The counters of a new segment are right in every state of a run if and only if every call of
the run takes nothing away. -/
theorem counters_accounted_iff (c : Config) (segID : SegmentID) (now : Nat) (calls : List Call) :
    (∀ front, front <+: calls →
        (Run.run (MutableSegment.call c) (newMutableSegment c segID now) front).Accounted c) ↔
      Run.Meets (MutableSegment.call c) (KeepsDocs c) (newMutableSegment c segID now) calls :=
  Run.forall_front_iff_meets (Tidy c) (Accounted c) (fun _ htidy => htidy.accounted)
    (fun _ call htidy => htidy.call call) (tidy_new segID now)

/-- One document is added and deleted: the segment is empty, and its counter is one. -/
theorem deleted_document_counted :
    ¬ ∀ (c : Config) (segID : SegmentID) (now : Nat) (calls : List Call),
      (Run.run (MutableSegment.call c) (newMutableSegment c segID now) calls).Accounted c := by
  intro hall
  have haccounted := hall (lineConfig 2) (segmentOf 0) 0 [.add (idOf 'a') [1], .delete (idOf 'a')]
  have hcount := haccounted.vectorCount
  revert hcount
  decide +kernel

end MutableSegment

end Vectron.Segment
