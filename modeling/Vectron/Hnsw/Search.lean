import Vectron.Foundation.Exchange
import Vectron.Hnsw.Node

/-! # Searching an HNSW graph

`search.go`: the greedy descent through the upper layers, the two searches of one layer
(a linear one for small `ef` and one with two heaps), and the three entry points. The
goroutines a layer search starts only fill disjoint parts of a slice, so the model runs
them one after another. A tracker has a mark for every id below `nextID`; the marks of one
search are a list of ids, empty at its start.
-/

namespace Vectron.Hnsw

open Foundation
open Worker (Vector)

/-! ## Candidates -/

/-- `left.dist < right.dist`. -/
def nearer (left right : Candidate) : Bool := decide (left.dist < right.dist)

/-- `left.dist > right.dist`. -/
def farther (left right : Candidate) : Bool := decide (right.dist < left.dist)

def candHeapPush (heap : List Candidate) (c : Candidate) : List Candidate :=
  heapPush nearer heap c

def candHeapPop (heap : List Candidate) : Option (Candidate × List Candidate) :=
  heapPop nearer heap

def resHeapPush (heap : List Candidate) (c : Candidate) : List Candidate :=
  heapPush farther heap c

def resHeapPop (heap : List Candidate) : Option (Candidate × List Candidate) :=
  heapPop farther heap

/-- The first position no later one beats. -/
def bestIndex (better : Candidate → Candidate → Bool) : List Candidate → Nat
  | [] => 0
  | head :: rest =>
      (rest.foldl (fun (best : Candidate × Nat × Nat) c =>
        if better c best.1 then (c, best.2.2, best.2.2 + 1)
        else (best.1, best.2.1, best.2.2 + 1)) (head, 0, 1)).2.1

/-- `selectTopKByDist`. -/
def selectTopKByDist (cands : List Candidate) (k : Int) : Probe (List Candidate) :=
  if (cands.length : Int) ≤ k ∨ k ≤ 0 then pure cands
  else if k = 1 then pure ((exchange cands 0 (bestIndex nearer cands)).take 1)
  else
    match selectLoop nearer (k.toNat - 1) (cands.length + 1) cands 0 cands.length with
    | some selected => pure (selected.take k.toNat)
    | none => Traced.raise .candidateOutOfRange

/-- Consecutive pieces of a list. -/
def chunksOf (size : Nat) (list : List Candidate) : List (List Candidate) :=
  if _h : list = [] ∨ size = 0 then []
  else list.take size :: chunksOf size (list.drop size)
termination_by list.length
decreasing_by
  have : 0 < list.length := List.length_pos_iff.mpr (by tauto)
  rw [List.length_drop]
  omega

namespace Index

variable (p : Platform) (h : Index) (query : Vector) (qvec : Option Bytes)

/-! ## The descent -/

/-- The inner loop of `searchLayerSingle` over the neighbours of one node: the best node so
far, its distance, and whether it moved. -/
def scanNeighbors (best : Node × Float32 × Bool) (nid : Nat) :
    Probe (Node × Float32 × Bool) :=
  match h.getNodeFast nid with
  | none => pure best
  | some node => do
      let d ← h.distanceToNode p query qvec (some node)
      if d < best.2.1 then pure (node, d, true) else pure best

/-- The outer loop of `searchLayerSingle`. -/
def descend (layer : Nat) : Nat → Node → Float32 → Probe Node
  | 0, _, _ => Traced.raise .endless
  | fuel + 1, bestNode, bestDist =>
      match bestNode.neighbors[layer]? with
      | none => Traced.raise .layerOutOfRange
      | some list => do
          let best ← Traced.fold (h.scanNeighbors p query qvec) (bestNode, bestDist, false) list
          if best.2.2 then descend layer fuel best.1 best.2.1 else pure best.1

/-- `searchLayerSingle`. Every round comes strictly closer to the query. -/
def searchLayerSingle (start : Option Node) (layer : Nat) : Probe Node := do
  let bestDist ← h.distanceToNode p query qvec start
  match start with
  | none => Traced.raise .nilDereference
  | some node => h.descend p query qvec layer (h.nodes.length + 2) node bestDist

/-- The loop `for l := top; l > floor; l--` over `searchLayerSingle`. -/
def descendLayers (floor : Nat) : Nat → Option Node → Probe (Option Node)
  | 0, start => pure start
  | l + 1, start =>
      if floor < l + 1 then do
        let node ← h.searchLayerSingle p query qvec start (l + 1)
        descendLayers floor l (some node)
      else pure start

/-! ## One layer -/

/-- The neighbours a search has not marked yet, now marked, without those that have no
node. -/
def freshNeighbors : List Nat → List Nat → List (Nat × Node) × List Nat
  | marks, [] => ([], marks)
  | marks, nid :: rest =>
      if nid ∈ marks then freshNeighbors marks rest
      else
        match h.getNodeFast nid with
        | none => freshNeighbors (nid :: marks) rest
        | some node =>
            let (found, marks) := freshNeighbors (nid :: marks) rest
            ((nid, node) :: found, marks)

/-- The neighbours of a candidate as candidates, and the marks afterwards. -/
def expand (layer : Nat) (marks : List Nat) (c : Candidate) :
    Probe (List Candidate × List Nat) :=
  match c.node.neighbors[layer]? with
  | none => Traced.raise .layerOutOfRange
  | some list => do
      let list := if 0 < p.neighborCap then list.take p.neighborCap else list
      let (found, marks) := h.freshNeighbors marks list
      let distances ← h.computeDistancesInto p query qvec (found.map Prod.snd)
      pure (List.zipWith (fun entry dist => ⟨entry.1, dist, entry.2⟩) found distances, marks)

/-- The queues of `searchLayer`. -/
structure Frontier where
  candidates : List Candidate
  results : List Candidate
  marks : List Nat

/-- Whether a distance is below that of the root of the results. -/
def Frontier.beats (frontier : Frontier) (dist : Float32) : Bool :=
  match frontier.results with
  | [] => false
  | worst :: _ => decide (dist < worst.dist)

/-- Take a candidate into both queues if there is room or it is better than the worst. -/
def Frontier.offer (ef : Nat) (frontier : Frontier) (c : Candidate) : Frontier :=
  if frontier.results.length < ef ∨ frontier.beats c.dist = true then
    let results := resHeapPush frontier.results c
    { frontier with
      candidates := candHeapPush frontier.candidates c
      results :=
        if ef < results.length then ((resHeapPop results).map Prod.snd).getD results
        else results }
  else frontier

/-- Take the best of one goroutine's candidates. -/
def Frontier.offerLocal (ef : Nat) (frontier : Frontier) (found : List Candidate) :
    Probe Frontier :=
  if found.isEmpty then pure frontier
  else do
    let best ← selectTopKByDist found frontier.results.length
    pure (best.foldl (Frontier.offer ef) frontier)

/-- What `searchLayer` does with the neighbours of one candidate: in parallel pieces, after a
selection, or one by one. -/
def Frontier.absorb (ef : Nat) (frontier : Frontier) (found : List Candidate) :
    Probe Frontier :=
  let parallelism :=
    if h.config.searchParallelism ≤ 0 then max p.maxProcs 1
    else h.config.searchParallelism.toNat
  if ef ≤ frontier.results.length ∧ 256 ≤ found.length ∧ 1 < parallelism then
    let pieces := chunksOf ((found.length + parallelism - 1) / parallelism) found
    let locals := pieces.map (List.filter fun c => frontier.beats c.dist)
    Traced.fold (Frontier.offerLocal ef) frontier locals
  else if ef * 2 < found.length then do
    let better := found.filter fun c =>
      decide (frontier.results.length < ef) || frontier.beats c.dist
    if better.isEmpty then pure frontier
    else
      let best ← selectTopKByDist better ef
      pure (best.foldl (Frontier.offer ef) frontier)
  else pure (found.foldl (Frontier.offer ef) frontier)

/-- The loop of `searchLayer`. -/
def searchLoop (ef layer : Nat) : Nat → Frontier → Probe (List Candidate)
  | 0, _ => Traced.raise .endless
  | fuel + 1, frontier =>
      match candHeapPop frontier.candidates with
      | none => pure frontier.results
      | some (c, candidates) =>
          if ef ≤ frontier.results.length ∧
              frontier.results.head?.any (fun worst => decide (worst.dist < c.dist)) = true then
            pure frontier.results
          else do
            let (found, marks) ← h.expand p query qvec layer frontier.marks c
            let frontier := { frontier with candidates := candidates, marks := marks }
            let frontier ← frontier.absorb p h ef found
            searchLoop ef layer fuel frontier

/-- The queues of `searchLayerSmall`, with the worst result and where it stands. -/
structure SmallFrontier where
  candidates : List Candidate
  results : List Candidate
  marks : List Nat
  worstDist : Float32
  worstIdx : Nat

/-- Look for the worst result again. -/
def SmallFrontier.refresh (frontier : SmallFrontier) : SmallFrontier :=
  let worst := bestIndex farther frontier.results
  { frontier with
    worstDist := (frontier.results[worst]?.map Candidate.dist).getD frontier.worstDist
    worstIdx := worst }

/-- What `searchLayerSmall` does with one neighbour. -/
def SmallFrontier.offer (ef : Nat) (frontier : SmallFrontier) (c : Candidate) :
    SmallFrontier :=
  if frontier.results.length < ef ∨ c.dist < frontier.worstDist then
    let taken := { frontier with candidates := frontier.candidates ++ [c] }
    if frontier.results.length < ef then
      let grown := { taken with results := frontier.results ++ [c] }
      if grown.results.length = ef then grown.refresh else grown
    else { taken with results := frontier.results.set frontier.worstIdx c }.refresh
  else frontier

/-- Take out the nearest candidate; the last one fills its place. -/
def popNearest (candidates : List Candidate) : Option (Candidate × List Candidate) :=
  let minIdx := bestIndex nearer candidates
  match candidates[minIdx]?, candidates.getLast? with
  | some c, some last => some (c, (candidates.set minIdx last).dropLast)
  | _, _ => none

/-- The loop of `searchLayerSmall`. -/
def searchSmallLoop (ef layer : Nat) : Nat → SmallFrontier → Probe (List Candidate)
  | 0, _ => Traced.raise .endless
  | fuel + 1, frontier =>
      match popNearest frontier.candidates with
      | none => pure frontier.results
      | some (c, candidates) =>
          if ef ≤ frontier.results.length ∧ frontier.worstDist < c.dist then
            pure frontier.results
          else do
            let (found, marks) ← h.expand p query qvec layer frontier.marks c
            let frontier := { frontier with candidates := candidates, marks := marks }
            searchSmallLoop ef layer fuel (found.foldl (SmallFrontier.offer ef) frontier)

/-- `searchLayer`, which hands a small `ef` to `searchLayerSmall`. -/
def searchLayer (start : Option Node) (ef : Int) (layer : Nat) : Probe (List Candidate) := do
  let startDist ← h.distanceToNode p query qvec start
  match start with
  | none => Traced.raise .nilDereference
  | some node =>
      let first : Candidate := ⟨node.id, startDist, node⟩
      if ef ≤ 32 then
        h.searchSmallLoop p query qvec (if ef ≤ 0 then 1 else ef.toNat) layer
          (h.nodes.length + 2)
          { candidates := [first]
            results := [first]
            marks := [node.id]
            worstDist := maxFloat32
            worstIdx := 0 }
      else
        h.searchLoop p query qvec ef.toNat layer (h.nodes.length + 2)
          { candidates := [first]
            results := [first]
            marks := [node.id] }

/-! ## Entry points -/

/-- The external id under which a result is returned. -/
def externalID (id : Nat) : Bytes :=
  match h.extIDCache[id]? with
  | some cached => cached
  | none => (h.uint32ToID.lookup id).getD []

/-- The ids and scores of the results. -/
def answer (results : List Candidate) : List (Bytes × Float32) :=
  results.map fun c => (h.externalID c.id, c.dist)

/-- The `k` nearest results in order. -/
def nearest (results : List Candidate) (k : Int) : Probe (List Candidate) := do
  let results ← (if k < results.length then selectTopKByDist results k else pure results :
    Probe (List Candidate))
  let count := min (results.length : Int) k
  if count < 0 then Traced.raise .sliceBounds
  else
    let sorted := p.sort (results.take count.toNat) ++ results.drop count.toNat
    pure (if k < sorted.length then sorted.take k.toNat else sorted)

/-- What `search` and `searchWithEf` share. -/
def searchEf (vec : Vector) (k ef : Int) : Probe (List (Bytes × Float32)) :=
  if h.entry = 0 then pure []
  else do
    let vec := h.normalizedQuery p vec
    let qvec := h.maybeQuantizeQuery p vec
    let curr ← h.descendLayers p vec qvec 0 h.maxLayer (h.getNode h.entry)
    let results ← h.searchLayer p vec qvec curr ef 0
    let results ← nearest p results k
    pure (h.answer results)

/-- `search`. -/
def search (vec : Vector) (k : Int) : Probe (List (Bytes × Float32)) :=
  h.searchEf p vec k h.config.efSearch

/-- `searchWithEf`. -/
def searchWithEf (vec : Vector) (k ef : Int) : Probe (List (Bytes × Float32)) :=
  h.searchEf p vec k (if ef < k then k else ef)

/-- A candidate with its exact distance. -/
def rerank (vec : Vector) (c : Candidate) : Probe Candidate := do
  let dist ← h.distanceExact p vec c.node
  pure { c with dist := dist }

/-- `searchTwoStage`. -/
def searchTwoStage (vec : Vector) (k stage1Ef candidateFactor : Int) :
    Probe (List (Bytes × Float32)) :=
  if h.entry = 0 then pure []
  else if k ≤ 0 then pure []
  else do
    let stage1Ef := if stage1Ef < k then k else stage1Ef
    let candidateFactor := if candidateFactor ≤ 0 then 4 else candidateFactor
    let vec := h.normalizedQuery p vec
    let qvec := h.maybeQuantizeQuery p vec
    let curr ← h.descendLayers p vec qvec 0 h.maxLayer (h.getNode h.entry)
    let candidates ← h.searchLayer p vec qvec curr stage1Ef 0
    let candidates := p.sort candidates
    let product := Int.bmod (k * candidateFactor) (2 ^ 64)
    let maxCandidates := if product < k then k else product
    let candidates :=
      if maxCandidates < candidates.length then candidates.take maxCandidates.toNat
      else candidates
    let candidates ← Traced.each (h.rerank p vec) candidates
    let candidates := p.sort candidates
    let candidates := if k < candidates.length then candidates.take k.toNat else candidates
    pure (h.answer candidates)

end Index

end Vectron.Hnsw
