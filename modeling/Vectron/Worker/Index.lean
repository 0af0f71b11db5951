import Vectron.Foundation.GoMap
import Vectron.Foundation.Reader

/-! # The vectors of an HNSW index

The index keeps one node for each vector under an internal number and a map from
external ids to these numbers. A deletion empties the node and keeps its number; storing
an id again drops the old node and takes a new number. The graph between the nodes does
not decide which vector an id has and is left out, and so is the arithmetic of floats. It
can make `Add` panic, though: `Accepts` says in which indexes it does not.
-/

namespace Vectron.Worker

open Foundation

/-- A `[]float32` by the bits of its components. -/
abbrev Vector := List UInt32

/-- The float computations the store and the index rest on. -/
structure Arithmetic where
  /-- `NormalizeVector` -/
  normalize : Vector → Vector
  normalize_length : ∀ vec, (normalize vec).length = vec.length
  /-- `quantizeVector`, with each int8 as a byte -/
  quantize : Vector → Bytes
  quantize_length : ∀ vec, (quantize vec).length = vec.length
  /-- `dequantizeVector` -/
  dequantize : Bytes → Vector
  /-- the scale of a compressed value: the largest absolute component, or 1 -/
  scale : Vector → UInt32
  /-- one component of a compressed value -/
  compress : UInt32 → UInt32 → UInt8
  expand : UInt32 → UInt8 → UInt32

/-- What the vectors of an index depend on in `idxhnsw.HNSWConfig`. -/
structure IndexConfig where
  dim : Nat
  dim_pos : 0 < dim
  /-- `Distance == "cosine"` -/
  cosine : Bool
  normalizeVectors : Bool
  quantizeVectors : Bool
  keepFloatVectors : Bool

/-- The vector of a node, as floats, quantised or both. A nil slice is `none`. -/
structure Node where
  vec : Option Vector
  qvec : Option Bytes
  vec_ne : vec ≠ some []
  qvec_ne : qvec ≠ some []

structure Hnsw where
  config : IndexConfig
  nodes : GoMap Nat Node
  nodeCount : Int
  deletedCount : Int
  idToUint32 : GoMap Bytes Nat
  nextID : Nat
  internal_lt : ∀ id n, idToUint32.lookup id = some n → n < nextID
  internal_inj : ∀ first second n, idToUint32.lookup first = some n →
    idToUint32.lookup second = some n → first = second
  nodes_lt : ∀ n, nextID ≤ n → nodes.lookup n = none

namespace IndexConfig

/-- The options `NewHNSW` switches off. -/
def checked (config : IndexConfig) : IndexConfig :=
  let quantize := config.quantizeVectors && (config.cosine && config.normalizeVectors)
  { config with
    quantizeVectors := quantize
    keepFloatVectors := quantize && config.keepFloatVectors }

/-- The configuration `Load` reads back. It is not told to keep floats. -/
def reloaded (config : IndexConfig) : IndexConfig := { config with keepFloatVectors := false }

end IndexConfig

namespace Node

/-- A node whose vector was deleted. -/
def emptied : Node := ⟨none, none, nofun, nofun⟩

/-- `node.Vec == nil && node.QVec == nil`. -/
def isEmpty (node : Node) : Bool := node.vec.isNone && node.qvec.isNone

/-- `nodeVector`. -/
def vector (arith : Arithmetic) (node : Node) : Option Vector :=
  node.vec <|> node.qvec.map arith.dequantize

/-- The node `addNoLock` makes of a vector. -/
def ofVector (arith : Arithmetic) (config : IndexConfig) (vec : Vector)
    (hvec : 0 < vec.length) : Node :=
  if config.cosine && config.normalizeVectors then
    if config.quantizeVectors then
      { vec := if config.keepFloatVectors then some (arith.normalize vec) else none
        qvec := some (arith.quantize (arith.normalize vec))
        vec_ne := by
          have := arith.normalize_length vec
          split
          next _ => grind
          next _ => exact nofun
        qvec_ne := by grind [arith.quantize_length (arith.normalize vec), arith.normalize_length vec] }
    else
      { vec := some (arith.normalize vec)
        qvec := none
        vec_ne := by grind [arith.normalize_length vec]
        qvec_ne := nofun }
  else
    { vec := some vec
      qvec := none
      vec_ne := by grind
      qvec_ne := nofun }

/-- A node as `Save` writes it and `Load` reads it: quantised data beside floats is not
written. -/
def reloaded (node : Node) : Node :=
  match node.vec with
  | some _ => { node with qvec := none, qvec_ne := nofun }
  | none => node

theorem vector_reloaded (arith : Arithmetic) (node : Node) :
    node.reloaded.vector arith = node.vector arith := by
  rw [reloaded]
  split
  next vec hvec => simp [vector, hvec]
  next _ => rfl

@[simp] theorem vector_emptied (arith : Arithmetic) : emptied.vector arith = none := rfl

theorem vector_of_isEmpty {arith : Arithmetic} {node : Node} (hempty : node.isEmpty = true) :
    node.vector arith = none := by
  obtain ⟨hvec, hqvec⟩ : node.vec = none ∧ node.qvec = none := by simpa [isEmpty] using hempty
  simp [vector, hvec, hqvec]

end Node

/-- The vector an index with this configuration returns for a vector added to it. -/
def kept (arith : Arithmetic) (config : IndexConfig) (vec : Vector) : Vector :=
  if config.cosine && config.normalizeVectors then
    if config.quantizeVectors && !config.keepFloatVectors then
      arith.dequantize (arith.quantize (arith.normalize vec))
    else arith.normalize vec
  else vec

theorem vector_ofVector (arith : Arithmetic) (config : IndexConfig) (vec : Vector)
    (hvec : 0 < vec.length) :
    (Node.ofVector arith config vec hvec).vector arith = some (kept arith config vec) := by
  rw [Node.ofVector, kept]
  cases config.cosine && config.normalizeVectors with
  | false => rfl
  | true =>
      cases config.quantizeVectors with
      | false => rfl
      | true =>
          by_cases hkeep : config.keepFloatVectors = true
          · simp [Node.vector, hkeep]
          · simp [Node.vector, hkeep]

namespace Hnsw

/-- `NewHNSW`. -/
def new (config : IndexConfig) : Hnsw where
  config := config.checked
  nodes := ∅
  nodeCount := 0
  deletedCount := 0
  idToUint32 := ∅
  nextID := 1
  internal_lt := nofun
  internal_inj := nofun
  nodes_lt := fun _ _ => rfl

/-- `Item`. -/
def item (arith : Arithmetic) (h : Hnsw) (id : Bytes) : Option Vector := do
  let internalID ← h.idToUint32.lookup id
  let node ← h.nodes.lookup internalID
  node.vector arith

/-- `Size`. -/
def size (h : Hnsw) : Int := h.nodeCount - h.deletedCount

/-- `Delete`, which has no error: an id it does not know is skipped. -/
def delete (h : Hnsw) (id : Bytes) : Hnsw :=
  match h.idToUint32.lookup id with
  | none => h
  | some internalID =>
      match hnode : h.nodes.lookup internalID with
      | none => h
      | some node =>
          if node.isEmpty then h
          else
            { h with
              nodes := h.nodes.insert internalID Node.emptied
              deletedCount := h.deletedCount + 1
              nodes_lt := by
                intro n hle
                rw [GoMap.lookup_insert_if, if_neg, h.nodes_lt n hle]
                rintro rfl
                rw [h.nodes_lt n hle] at hnode
                cases hnode }

/-- What `add` does first with an id it has already. The node counts as deleted and is
then dropped, so `Size` counts it twice. -/
def evict (h : Hnsw) (id : Bytes) : Hnsw :=
  match h.idToUint32.lookup id with
  | none => h
  | some internalID =>
      let deleted := h.delete id
      { deleted with
        nodes := deleted.nodes.erase internalID
        nodeCount := if (deleted.nodes.lookup internalID).isSome then deleted.nodeCount - 1
          else deleted.nodeCount
        idToUint32 := deleted.idToUint32.erase id
        internal_lt := by
          intro other n hlookup
          rw [GoMap.lookup_erase_if] at hlookup
          split at hlookup
          next _ => cases hlookup
          next _ => exact deleted.internal_lt other n hlookup
        internal_inj := by
          intro first second n hfirst hsecond
          rw [GoMap.lookup_erase_if] at hfirst hsecond
          split at hfirst
          next _ => cases hfirst
          next _ =>
            split at hsecond
            next _ => cases hsecond
            next _ => exact deleted.internal_inj first second n hfirst hsecond
        nodes_lt := by
          intro n hle
          rw [GoMap.lookup_erase_if, deleted.nodes_lt n hle]
          split <;> rfl }

/-- The number `addNoLock` gives an id before it looks at the vector. -/
def assign (h : Hnsw) (id : Bytes) : Hnsw :=
  { h with
    idToUint32 := h.idToUint32.insert id h.nextID
    nextID := h.nextID + 1
    internal_lt := by
      intro other n hlookup
      rw [GoMap.lookup_insert_if] at hlookup
      split at hlookup
      next _ =>
        cases hlookup
        exact Nat.lt_succ_self _
      next _ => exact Nat.lt_succ_of_lt (h.internal_lt other n hlookup)
    internal_inj := by
      intro first second n hfirst hsecond
      rw [GoMap.lookup_insert_if] at hfirst hsecond
      split at hfirst
      next hid =>
        cases hfirst
        split at hsecond
        next hid' => rw [hid, hid']
        next _ => exact absurd (h.internal_lt second _ hsecond) (lt_irrefl _)
      next _ =>
        split at hsecond
        next _ =>
          cases hsecond
          exact absurd (h.internal_lt first _ hfirst) (lt_irrefl _)
        next _ => exact h.internal_inj first second n hfirst hsecond
    nodes_lt := fun n hle => h.nodes_lt n (Nat.le_of_succ_le hle) }

/-- `addNoLock` and whether it returns no error. -/
def addNoLock (arith : Arithmetic) (h : Hnsw) (id : Bytes) (vec : Vector) : Hnsw × Bool :=
  if hdim : vec.length = h.config.dim then
    ({ h.assign id with
        nodes := h.nodes.insert h.nextID
          (Node.ofVector arith h.config vec (hdim ▸ h.config.dim_pos))
        nodeCount := if (h.nodes.lookup h.nextID).isNone then h.nodeCount + 1 else h.nodeCount
        nodes_lt := by
          intro n hle
          rw [GoMap.lookup_insert_if, if_neg (Nat.ne_of_gt hle),
            h.nodes_lt n (Nat.le_of_succ_le hle)] },
      true)
  else (h.assign id, false)

/-- `Add` and whether it returns no error. -/
def add (arith : Arithmetic) (h : Hnsw) (id : Bytes) (vec : Vector) : Hnsw × Bool :=
  (h.evict id).addNoLock arith id vec

/-- No stored node has lost its vector to a deletion. -/
def Intact (h : Hnsw) : Prop := ∀ entry ∈ h.nodes.entries, entry.2.isEmpty = false

/-- An index that `Add` comes back from. The internal numbers have 32 bits, and unless
vectors are normalised the distance to a deleted node is read past the end of its vector. -/
def Accepts (h : Hnsw) (id : Bytes) : Prop :=
  h.nextID + 1 < 2 ^ 32 ∧
    ((h.config.cosine && h.config.normalizeVectors) = true ∨ (h.evict id).Intact)

instance (h : Hnsw) (id : Bytes) : Decidable (h.Accepts id) := by
  delta Accepts Intact
  infer_instance

/-- The index that `Load` makes of what `Save` wrote. -/
def reloaded (h : Hnsw) : Hnsw :=
  { h with
    config := h.config.reloaded
    nodes := GoMap.mapValues Node.reloaded h.nodes
    nodeCount := h.nodes.entries.length
    nodes_lt := by
      intro n hle
      rw [GoMap.lookup_mapValues, h.nodes_lt n hle, Option.map_none] }

/-! ## The live vectors -/

section Live

variable {arith : Arithmetic} {h : Hnsw}

@[simp] theorem item_new (config : IndexConfig) (id : Bytes) :
    (new config).item arith id = none := rfl

@[simp] theorem config_delete (id : Bytes) : (h.delete id).config = h.config := by
  rw [delete]
  split
  next _ => rfl
  next n _ =>
    split
    next _ => rfl
    next node _ => split <;> rfl

@[simp] theorem idToUint32_delete (id : Bytes) :
    (h.delete id).idToUint32 = h.idToUint32 := by
  rw [delete]
  split
  next _ => rfl
  next n _ =>
    split
    next _ => rfl
    next node _ => split <;> rfl

theorem item_eq_none_of_lookup {id : Bytes} (hlookup : h.idToUint32.lookup id = none) :
    h.item arith id = none := by
  simp [item, hlookup]

theorem item_of_lookup {id : Bytes} {n : Nat} (hlookup : h.idToUint32.lookup id = some n) :
    h.item arith id = (h.nodes.lookup n).bind (Node.vector arith) := by
  simp [item, hlookup]

/-- A deletion empties the node of its id, if there is a vector in it. -/
theorem delete_cases (id : Bytes) :
    h.delete id = h ∧ h.item arith id = none ∨
      ∃ n, h.idToUint32.lookup id = some n ∧
        (h.delete id).nodes = h.nodes.insert n Node.emptied := by
  rw [delete]
  split
  next hid => exact Or.inl ⟨rfl, item_eq_none_of_lookup hid⟩
  next n hid =>
    split
    next hnode =>
      left
      rw [item_of_lookup hid, hnode]
      exact ⟨rfl, rfl⟩
    next node hnode =>
      split
      next hempty =>
        left
        rw [item_of_lookup hid, hnode]
        exact ⟨rfl, Node.vector_of_isEmpty hempty⟩
      next _ => exact Or.inr ⟨n, hid, rfl⟩

/-- A deletion takes away the vector of its id and no other. -/
theorem item_delete (id other : Bytes) :
    (h.delete id).item arith other = if other = id then none else h.item arith other := by
  rcases @delete_cases arith h id with ⟨hsame, hnone⟩ | ⟨n, hid, hnodes⟩
  · rw [hsame]
    split
    next heq => rw [heq, hnone]
    next _ => rfl
  · cases hother : h.idToUint32.lookup other with
    | none =>
        rw [item_eq_none_of_lookup (by simpa using hother), item_eq_none_of_lookup hother]
        split <;> rfl
    | some m =>
        rw [item_of_lookup (by simpa using hother), item_of_lookup hother, hnodes,
          GoMap.lookup_insert_if]
        by_cases heq : other = id
        · subst heq
          rw [hid] at hother
          cases hother
          simp
        · -- two ids never share a number
          have hne : m ≠ n := fun hmn =>
            heq (h.internal_inj other id n (hmn ▸ hother) hid)
          rw [if_neg hne, if_neg heq]

theorem item_evict (id other : Bytes) :
    (h.evict id).item arith other = if other = id then none else h.item arith other := by
  cases hid : h.idToUint32.lookup id with
  | none =>
      have hsame : h.evict id = h := by simp [evict, hid]
      rw [hsame]
      split
      next heq => rw [heq, item_eq_none_of_lookup hid]
      next _ => rfl
  | some n =>
      have hids : (h.evict id).idToUint32 = h.idToUint32.erase id := by
        simp only [evict, hid, idToUint32_delete]
      have hnodes : (h.evict id).nodes = (h.delete id).nodes.erase n := by
        simp only [evict, hid]
      by_cases heq : other = id
      · rw [if_pos heq, item_eq_none_of_lookup]
        rw [hids, GoMap.lookup_erase_if, if_pos heq]
      · rw [if_neg heq]
        have hlookup : (h.evict id).idToUint32.lookup other = h.idToUint32.lookup other := by
          rw [hids, GoMap.lookup_erase_if, if_neg heq]
        have hdelete : (h.delete id).item arith other = h.item arith other := by
          rw [item_delete, if_neg heq]
        rw [← hdelete]
        cases hother : h.idToUint32.lookup other with
        | none =>
            rw [item_eq_none_of_lookup (by rw [hlookup, hother]),
              item_eq_none_of_lookup (by simpa using hother)]
        | some m =>
            have hne : m ≠ n := fun hmn =>
              heq (h.internal_inj other id n (hmn ▸ hother) hid)
            rw [item_of_lookup (by rw [hlookup, hother]), item_of_lookup (by simpa using hother),
              hnodes, GoMap.lookup_erase_if, if_neg hne]

@[simp] theorem config_evict (id : Bytes) : (h.evict id).config = h.config := by
  rw [evict]
  split
  next _ => rfl
  next _ _ => exact config_delete id

@[simp] theorem config_add (id : Bytes) (vec : Vector) :
    (h.add arith id vec).1.config = h.config := by
  rw [add, addNoLock]
  split
  next _ => exact config_evict id
  next _ => exact config_evict id

theorem add_succeeds (id : Bytes) (vec : Vector) :
    (h.add arith id vec).2 = true ↔ vec.length = h.config.dim := by
  rw [add, addNoLock]
  split
  next hdim => simpa using hdim
  next hdim => simpa using hdim

theorem item_assign_of_ne {id other : Bytes} (hne : other ≠ id) :
    (h.assign id).item arith other = h.item arith other := by
  simp [item, assign, hne]

/-- A vector of the right dimension takes the place of the one its id had. -/
theorem item_add {vec : Vector} (hdim : vec.length = h.config.dim) (id other : Bytes) :
    (h.add arith id vec).1.item arith other =
      if other = id then some (kept arith h.config vec) else h.item arith other := by
  have hdim' : vec.length = (h.evict id).config.dim := by rw [config_evict, hdim]
  rw [add, addNoLock, dif_pos hdim']
  by_cases heq : other = id
  · subst heq
    rw [if_pos rfl, item_of_lookup (n := (h.evict other).nextID)
      (by simp [assign])]
    simp [vector_ofVector]
  · have hevict : (h.evict id).item arith other = h.item arith other := by
      rw [item_evict, if_neg heq]
    rw [if_neg heq, ← hevict]
    cases hother : (h.evict id).idToUint32.lookup other with
    | none =>
        rw [item_eq_none_of_lookup hother, item_eq_none_of_lookup]
        simp [assign, heq, hother]
    | some m =>
        -- the new number is above all that are taken
        have hne : m ≠ (h.evict id).nextID :=
          ne_of_lt ((h.evict id).internal_lt other m hother)
        rw [item_of_lookup hother, item_of_lookup (n := m)
          (by simp [assign, heq, hother])]
        simp [hne]

/-- A vector of another dimension is not added, but the one its id had is gone. -/
theorem item_add_of_ne {vec : Vector} (hdim : vec.length ≠ h.config.dim) (id other : Bytes) :
    (h.add arith id vec).1.item arith other =
      if other = id then none else h.item arith other := by
  have hdim' : vec.length ≠ (h.evict id).config.dim := by rw [config_evict]; exact hdim
  rw [add, addNoLock, dif_neg hdim']
  by_cases heq : other = id
  · subst heq
    rw [if_pos rfl, item_of_lookup (n := (h.evict other).nextID) (by simp [assign])]
    simp [assign, (h.evict other).nodes_lt _ le_rfl]
  · rw [if_neg heq, item_assign_of_ne heq, item_evict, if_neg heq]

@[simp] theorem item_reloaded (id : Bytes) : h.reloaded.item arith id = h.item arith id := by
  cases hid : h.idToUint32.lookup id with
  | none => rw [item_eq_none_of_lookup hid, item_eq_none_of_lookup (h := h.reloaded) hid]
  | some n =>
      rw [item_of_lookup hid, item_of_lookup (h := h.reloaded) hid, reloaded,
        GoMap.lookup_mapValues]
      cases h.nodes.lookup n with
      | none => rfl
      | some node => exact Node.vector_reloaded arith node

end Live

end Hnsw

end Vectron.Worker
