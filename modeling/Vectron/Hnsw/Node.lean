import Vectron.Foundation.Traced
import Vectron.Worker.Index

/-! # The nodes of an HNSW graph and their distances

The data of `worker/internal/idxhnsw`: the nodes with their layered neighbour lists, the
tables between external and internal ids, the counters, and the distance functions. A
distance is computed against a node whether or not its vector was released by a deletion;
every such computation is an event of the computation it is part of, and a read outside a
slice or through a nil pointer is a fault that ends it.
-/

namespace Vectron.Hnsw

open Foundation
open Worker (Vector Arithmetic)

/-- The run-time panics of the package, and a loop that does not end. -/
inductive Fault where
  | nilDereference
  /-- `Neighbors[l]` past the layers of a node -/
  | layerOutOfRange
  /-- a component past the end of a vector -/
  | vectorOutOfRange
  /-- an element past the end of a list of candidates -/
  | candidateOutOfRange
  | sliceBounds
  | makeSlice
  | endless
deriving DecidableEq, Repr

/-- `HNSWConfig`, as far as the graph depends on it. -/
structure Config where
  m : Int
  efConstruction : Int
  efSearch : Int
  maxLevel : Int
  distance : Bytes
  persistNodes : Bool
  enableNorms : Bool
  normalizeVectors : Bool
  quantizeVectors : Bool
  keepFloatVectors : Bool
  searchParallelism : Int
  pruneEnabled : Bool
  skipPersistNode : Bool
deriving DecidableEq, Repr

/-- The string `"cosine"`. -/
def cosineName : Bytes := [99, 111, 115, 105, 110, 101]

namespace Config

/-- `Distance == "cosine"`. -/
def cosine (config : Config) : Bool := config.distance == cosineName

/-- `Distance == "cosine" && NormalizeVectors`. -/
def normalized (config : Config) : Bool := config.cosine && config.normalizeVectors

/-- The defaults of `NewHNSW` and the options it switches off. -/
def checked (config : Config) : Config :=
  let quantize := config.quantizeVectors && config.normalized
  { config with
    m := if config.m = 0 then 16 else config.m
    efConstruction := if config.efConstruction = 0 then 200 else config.efConstruction
    efSearch := if config.efSearch = 0 then 100 else config.efSearch
    maxLevel := if config.maxLevel = 0 then 20 else config.maxLevel
    quantizeVectors := quantize
    keepFloatVectors := quantize && config.keepFloatVectors }

end Config

/-- `Node`. A nil slice is `none`; the norm is kept by its bits. -/
structure Node where
  id : Nat
  vec : Option Vector
  qvec : Option Bytes
  norm : UInt32
  layer : Nat
  neighbors : List (List Nat)
deriving DecidableEq, Repr

/-- Whether the node still has a vector, that is, was not deleted. -/
def Node.live (node : Node) : Bool := node.vec.isSome || node.qvec.isSome

/-- `candidate`, whose node pointer is never nil. -/
structure Candidate where
  id : Nat
  dist : Float32
  node : Node

/-- What the index takes from the machine it runs on: the float operations with an order of
summation of their own, the order `sort.Slice` gives to candidates, and the settings read
from the environment of the process. -/
structure Platform extends Arithmetic where
  dequantize_length : ∀ qvec, (dequantize qvec).length = qvec.length
  /-- `dotProductSIMD` on two vectors of one length -/
  dot : Vector → Vector → Float32
  /-- `sort.Slice` by distance; the order of candidates at one distance is not specified -/
  sort : List Candidate → List Candidate
  sort_perm : ∀ candidates, (sort candidates).Perm candidates
  /-- `VECTRON_HNSW_NEIGHBOR_CAP` -/
  neighborCap : Nat
  /-- `runtime.GOMAXPROCS(0)` -/
  maxProcs : Nat
  /-- `VECTRON_DOT_CGO_BATCH` of a build that has the batch functions -/
  batchEnabled : Bool
  batchMin : Nat
  /-- `VECTRON_DOT_CGO_MIN_DIM` -/
  minDim : Nat

/-- `HNSW`. Slots of the node table without a node are `none`. -/
structure Index where
  config : Config
  dim : Nat
  entry : Nat
  maxLayer : Nat
  nodes : List (Option Node)
  nodeCount : Int
  deletedCount : Int
  idToUint32 : GoMap Bytes Nat
  uint32ToID : GoMap Nat Bytes
  extIDCache : List Bytes
  nextID : Nat
  pruneCandidates : GoMap Nat Unit
  isCosine : Bool
  isNormalized : Bool
  useNorms : Bool
  useQuantize : Bool

/-- A computation over an index: its events are the nodes a distance was computed to. -/
abbrev Probe := Traced Node Fault

namespace Index

/-- `NewHNSW`. -/
def new (dim : Nat) (config : Config) : Index :=
  let config := config.checked
  { config := config
    dim := dim
    entry := 0
    maxLayer := 0
    nodes := [none]
    nodeCount := 0
    deletedCount := 0
    idToUint32 := ∅
    uint32ToID := ∅
    extIDCache := [[]]
    nextID := 1
    pruneCandidates := ∅
    isCosine := config.cosine
    isNormalized := config.normalized
    useNorms := config.enableNorms && config.cosine
    useQuantize := config.quantizeVectors }

/-- `getNodeFast`. -/
def getNodeFast (h : Index) (id : Nat) : Option Node := h.nodes[id]?.join

/-- `getNode`, which skips deleted nodes. -/
def getNode (h : Index) (id : Nat) : Option Node := (h.getNodeFast id).filter Node.live

/-- `Size`. -/
def size (h : Index) : Int := h.nodeCount - h.deletedCount

end Index

/-! ## Distances -/

section Distance

variable (p : Platform)

/-- `math.MaxFloat32`. -/
def maxFloat32 : Float32 := Float32.ofBits 0x7f7fffff

/-- The loop of `EuclideanDistance`. -/
def euclideanLoop : Vector → Vector → Float32 → Probe Float32
  | [], _, sum => pure sum
  | _ :: _, [], _ => Traced.raise .vectorOutOfRange
  | x :: a, y :: b, sum =>
      let d := Float32.ofBits x - Float32.ofBits y
      euclideanLoop a b (sum + d * d)

def euclideanDistance (a b : Vector) : Probe Float32 := euclideanLoop a b 0

/-- The loop of `CosineDistance`: the dot product and the squares of both vectors. -/
def cosineLoop : Vector → Vector → Float32 → Float32 → Float32 →
    Probe (Float32 × Float32 × Float32)
  | [], _, dot, normA, normB => pure (dot, normA, normB)
  | _ :: _, [], _, _, _ => Traced.raise .vectorOutOfRange
  | x :: a, y :: b, dot, normA, normB =>
      let x := Float32.ofBits x
      let y := Float32.ofBits y
      cosineLoop a b (dot + x * y) (normA + x * x) (normB + y * y)

/-- `CosineDistance`. The root is taken in double precision and rounded, which is the root
in single precision. -/
def cosineDistance (a b : Vector) : Probe Float32 := do
  let (dot, normA, normB) ← cosineLoop a b 0 0 0
  if normA == 0 || normB == 0 then pure 2
  else pure (1 - dot / (normA.sqrt * normB.sqrt))

/-- `dotProductSIMD`. -/
def dotProductSIMD (a b : Vector) : Float32 :=
  if a.length ≠ b.length ∨ a.length = 0 then 0 else p.dot a b

/-- `dotProductInt8` on two slices of one length, in 32-bit arithmetic. -/
def dotProductInt8 (a b : Bytes) : Int :=
  Int.bmod (List.zipWith (fun x y => x.toInt8.toInt * y.toInt8.toInt) a b).sum (2 ^ 32)

/-- `dotProductInt8SIMD`. -/
def dotProductInt8SIMD (a b : Bytes) : Int :=
  if a.length ≠ b.length ∨ a.length = 0 then 0 else dotProductInt8 a b

/-- `VectorNorm`, as bits. -/
def vectorNorm (a : Vector) : UInt32 :=
  let sum := if a.length = 0 then 0 else dotProductSIMD p a a
  if sum == 0 then (0 : Float32).toBits else sum.sqrt.toBits

namespace Index

variable (h : Index)

/-- `distance`. -/
def distance (a b : Vector) : Probe Float32 :=
  if h.isCosine then cosineDistance a b else euclideanDistance a b

/-- `distanceWithNode`. -/
def distanceWithNode (a b : Vector) (normB : UInt32) : Probe Float32 :=
  if h.isNormalized then pure (1 - dotProductSIMD p a b)
  else if !h.isCosine || !h.useNorms then h.distance a b
  else do
    let (dot, normA, _) ← cosineLoop a b 0 0 0
    if normA == 0 || Float32.ofBits normB == 0 then pure 2
    else pure (1 - dot / (normA.sqrt * Float32.ofBits normB))

/-- `distanceToNode`. -/
def distanceToNode (query : Vector) (qvec : Option Bytes) : Option Node → Probe Float32
  | none => pure maxFloat32
  | some node => do
      Traced.emit node
      match node.qvec with
      | some stored =>
          let qvec := qvec.getD (p.quantize query)
          pure (1 - Float32.ofInt (dotProductInt8SIMD qvec stored) / 16129)
      | none => h.distanceWithNode p query (node.vec.getD []) node.norm

/-- `nodeVector`. -/
def nodeVector (node : Node) : Option Vector := node.vec <|> node.qvec.map p.dequantize

/-- `distanceExact`, which answers for a deleted node without a computation. -/
def distanceExact (query : Vector) (node : Node) : Probe Float32 :=
  match node.vec, node.qvec with
  | some vec, _ => do
      Traced.emit node
      h.distanceWithNode p query vec node.norm
  | none, some stored => do
      Traced.emit node
      let vec := p.dequantize stored
      let norm := if h.isCosine && h.useNorms then vectorNorm p vec else (0 : Float32).toBits
      h.distanceWithNode p query vec norm
  | none, none => pure maxFloat32

/-- `maybeQuantizeQuery` and `quantizedQuery`. -/
def maybeQuantizeQuery (vec : Vector) : Option Bytes :=
  if h.useQuantize then some (p.quantize vec) else none

/-- `normalizedQuery`. -/
def normalizedQuery (vec : Vector) : Vector :=
  if !h.isCosine || !h.config.normalizeVectors then vec else p.normalize vec

/-! ### Batches -/

/-- One node in the batch loop of `dotProductInt8BatchSIMD`, with the fallback for nodes
without quantised data. -/
def batchDistanceInt8 (query : Vector) (qvec : Bytes) (node : Node) : Probe Float32 := do
  Traced.emit node
  match node.qvec with
  | some stored =>
      if qvec.length < stored.length then Traced.raise .vectorOutOfRange
      else pure (1 - Float32.ofInt (dotProductInt8 qvec stored) / 16129)
  | none => h.distanceWithNode p query (node.vec.getD []) node.norm

/-- The sum of `dotProductFloatBatchSIMD` for one vector. -/
def scalarDot : Vector → Vector → Float32 → Probe Float32
  | _, [], sum => pure sum
  | [], _ :: _, _ => Traced.raise .vectorOutOfRange
  | x :: a, y :: b, sum => scalarDot a b (sum + Float32.ofBits x * Float32.ofBits y)

/-- One node in the batch loop of `dotProductFloatBatchSIMD`, with the fallback for nodes
without floats. -/
def batchDistanceFloat (query : Vector) (node : Node) : Probe Float32 :=
  match node.vec with
  | some vec => do
      Traced.emit node
      let dot ← scalarDot query vec 0
      pure (1 - dot)
  | none => h.distanceToNode p query none (some node)

/-- The test both batch functions make before they compute anything. -/
def batchAccepts (length count : Nat) : Bool :=
  decide (length ≠ 0) && !(decide (0 < p.minDim) && decide (length < p.minDim)) &&
    decide (p.batchMin ≤ count)

/-- `computeDistancesInto`. The goroutines of its last part write disjoint parts of the
result. -/
def computeDistancesInto (query : Vector) (qvec : Option Bytes) (nodes : List Node) :
    Probe (List Float32) :=
  if nodes.length = 1 then Traced.each (fun node => h.distanceToNode p query qvec (some node)) nodes
  else
    match qvec with
    | some stored =>
        if p.batchEnabled && decide (p.batchMin ≤ nodes.length) &&
            batchAccepts p stored.length (nodes.countP fun node => node.qvec.isSome) then
          Traced.each (h.batchDistanceInt8 p query stored) nodes
        else Traced.each (fun node => h.distanceToNode p query qvec (some node)) nodes
    | none =>
        if h.config.normalized && p.batchEnabled && decide (p.batchMin ≤ nodes.length) &&
            batchAccepts p query.length (nodes.countP fun node => node.vec.isSome) then
          Traced.each (h.batchDistanceFloat p query) nodes
        else Traced.each (fun node => h.distanceToNode p query none (some node)) nodes

end Index

end Distance

end Vectron.Hnsw
