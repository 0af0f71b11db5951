import Vectron.Hnsw.Rebuilding

/-! # The vectors of an index without its graph

A shard's model of its index keeps the vectors and the ids and leaves out the graph. It is what the
index itself has in its tables, and as long as it accepts the vectors that are added, the two stay
together: an insertion into the graph comes back then, with the same vectors and the same answer.
-/

namespace Vectron.Hnsw

open Foundation
open Worker (Vector)

namespace Index

/-- `w` has the tables and the vectors of `h`. -/
structure Represents (h : Index) (w : Worker.Hnsw) : Prop where
  dim : w.config.dim = h.dim
  normalized : (w.config.cosine && w.config.normalizeVectors) = h.config.normalized
  quantized : w.config.quantizeVectors = h.config.quantizeVectors
  keepFloats : w.config.keepFloatVectors = h.config.keepFloatVectors
  ids : w.idToUint32 = h.idToUint32
  nextID : w.nextID = h.nextID
  nodes : ∀ n, (w.nodes.lookup n).map (fun node => (node.vec, node.qvec)) =
    (h.getNodeFast n).map fun node => (node.vec, node.qvec)
  nodeCount : w.nodeCount = h.nodeCount
  deletedCount : w.deletedCount = h.deletedCount

variable {p : Platform} {env : Env} {h h' : Index} {w : Worker.Hnsw}

/-- A shard starts with the same index in both models. -/
theorem represents_new (config : Config) (options : Worker.IndexConfig)
    (hcosine : options.cosine = config.cosine)
    (hnormalize : options.normalizeVectors = config.normalizeVectors)
    (hquantize : options.quantizeVectors = config.quantizeVectors)
    (hkeep : options.keepFloatVectors = config.keepFloatVectors) :
    Represents (new options.dim config) (Worker.Hnsw.new options) where
  dim := rfl
  normalized := by
    change (options.cosine && options.normalizeVectors) = (config.cosine && config.normalizeVectors)
    rw [hcosine, hnormalize]
  quantized := by
    change (options.quantizeVectors && (options.cosine && options.normalizeVectors)) =
      (config.quantizeVectors && (config.cosine && config.normalizeVectors))
    rw [hcosine, hnormalize, hquantize]
  keepFloats := by
    change (options.quantizeVectors && (options.cosine && options.normalizeVectors) &&
      options.keepFloatVectors) = (config.quantizeVectors && (config.cosine &&
        config.normalizeVectors) && config.keepFloatVectors)
    rw [hcosine, hnormalize, hquantize, hkeep]
  ids := rfl
  nextID := rfl
  nodes n := by rcases n with _ | n <;> rfl
  nodeCount := rfl
  deletedCount := rfl

namespace Represents

section

variable (hrepresents : Represents h w)

include hrepresents

/-- The slot of a node is taken in both, by the same vector. -/
theorem stored {n : Nat} {node : Worker.Node} (hnode : w.nodes.lookup n = some node) :
    ∃ stored, h.getNodeFast n = some stored ∧ stored.live = !node.isEmpty := by
  have hsame := hrepresents.nodes n
  rw [hnode, Option.map_some] at hsame
  obtain ⟨stored, hstored, heq⟩ := Option.map_eq_some_iff.mp hsame.symm
  obtain ⟨hvec, hqvec⟩ := Prod.mk.inj heq
  refine ⟨stored, hstored, ?_⟩
  rw [Node.live, Worker.Node.isEmpty, hvec, hqvec]
  cases node.vec <;> cases node.qvec <;> rfl

theorem delete (env : Env) (id : Bytes) :
    Represents (h.deleteNoLock env id).1 (w.delete id) := by
  have hskip : (∀ n, h.idToUint32.lookup id = some n → h.getNode n = none) →
      (h.deleteNoLock env id).1 = h := by
    intro hnone
    rcases @deleteNoLock_cases h env id with ⟨hsame, _⟩ | ⟨n, node, hid, hnode, _⟩
    · rw [hsame]
    · rw [hnone n hid] at hnode
      cases hnode
  rw [Worker.Hnsw.delete]
  split
  next hid =>
    rw [hrepresents.ids] at hid
    rw [hskip (fun n hsome => by rw [hid] at hsome; cases hsome)]
    exact hrepresents
  next n hid =>
    rw [hrepresents.ids] at hid
    split
    next hnode =>
      have hnone : h.getNodeFast n = none := by
        have hsame := hrepresents.nodes n
        rw [hnode] at hsame
        exact Option.map_eq_none_iff.mp hsame.symm
      rw [hskip (fun n' hsome => by
        rw [hid] at hsome
        obtain rfl := Option.some.inj hsome
        rw [getNode, hnone]
        rfl)]
      exact hrepresents
    next node hnode =>
      obtain ⟨stored, hstored, hlive⟩ := hrepresents.stored hnode
      split
      next hempty =>
        rw [hempty] at hlive
        rw [hskip (fun n' hsome => by
          rw [hid] at hsome
          obtain rfl := Option.some.inj hsome
          exact getNode_eq_none.mpr fun node' hnode' => by
            rw [hstored] at hnode'
            obtain rfl := Option.some.inj hnode'
            simpa using hlive)]
        exact hrepresents
      next hfull =>
        have hget : h.getNode n = some stored := getNode_eq_some.mpr ⟨hstored, by simp [hlive, hfull]⟩
        have hafter : (h.deleteNoLock env id).1 = h.emptied n stored := by
          unfold deleteNoLock
          rw [hid]
          simp only [hget]
          rfl
        rw [hafter]
        exact
          { hrepresents with
            nodes := fun j => by
              rw [GoMap.lookup_insert_if, getNodeFast_emptied hget]
              split
              next => rfl
              next => exact hrepresents.nodes j
            deletedCount := congrArg (· + 1) hrepresents.deletedCount }

theorem evicted (env : Env) (id : Bytes) :
    Represents (h.evicted env id) (w.evict id) := by
  have hdelete := hrepresents.delete env id
  rw [Worker.Hnsw.evict]
  split
  next hid =>
    rw [hrepresents.ids] at hid
    rw [Index.evicted, hid]
    exact hrepresents
  next n hid =>
    rw [hrepresents.ids] at hid
    rw [Index.evicted, hid]
    have hremoved := @removed_dropNode (h.deleteNoLock env id).1 id n
    have hslot : ((w.delete id).nodes.lookup n).isSome =
        ((h.deleteNoLock env id).1.getNodeFast n).isSome := by
      rw [← Option.isSome_map, hdelete.nodes, Option.isSome_map]
    exact
      { hdelete with
        ids := congrArg (·.erase id) hdelete.ids
        nodes := fun j => by
          rw [hremoved.getNodeFast, GoMap.lookup_erase_if]
          split
          next => rfl
          next => exact hdelete.nodes j
        nodeCount := by
          simp only [dropNode, hslot, hdelete.nodeCount] }

theorem of_skeleton (hskeleton : h'.skeleton = h.skeleton) :
    Represents h' w where
  dim := by rw [hrepresents.dim, dim_of_skeleton hskeleton]
  normalized := by rw [hrepresents.normalized, config_of_skeleton hskeleton]
  quantized := by rw [hrepresents.quantized, config_of_skeleton hskeleton]
  keepFloats := by rw [hrepresents.keepFloats, config_of_skeleton hskeleton]
  ids := by
    have hsame : h'.skeleton.idToUint32 = h.skeleton.idToUint32 := by rw [hskeleton]
    exact hrepresents.ids.trans hsame.symm
  nextID := hrepresents.nextID.trans (nextID_of_skeleton hskeleton).symm
  nodes n := by
    have hsame : (h'.getNodeFast n).map Node.bare = (h.getNodeFast n).map Node.bare := by
      rw [← getNodeFast_skeleton, hskeleton, getNodeFast_skeleton]
    have hslices := congrArg (Option.map fun node : Node => (node.vec, node.qvec)) hsame
    rw [Option.map_map, Option.map_map] at hslices
    exact (hrepresents.nodes n).trans hslices.symm
  nodeCount := by
    have hsame : h'.skeleton.nodeCount = h.skeleton.nodeCount := by rw [hskeleton]
    exact hrepresents.nodeCount.trans hsame.symm
  deletedCount := hrepresents.deletedCount.trans (deletedCount_of_skeleton hskeleton).symm

/-- The node of a vector is the same in both. -/
theorem ofVector (env : Env) {vec : Vector} (hpos : 0 < vec.length) :
    ((Worker.Node.ofVector p.toArithmetic w.config vec hpos).vec,
      (Worker.Node.ofVector p.toArithmetic w.config vec hpos).qvec) =
      ((h.drawnNode p env vec).vec, (h.drawnNode p env vec).qvec) := by
  have hnormalized := hrepresents.normalized
  have hquantized := hrepresents.quantized
  have hkeep := hrepresents.keepFloats
  unfold Worker.Node.ofVector drawnNode newNode
  rw [← hnormalized, ← hquantized, ← hkeep]
  split
  next =>
    split
    next => rfl
    next => rfl
  next =>
    split
    next => rfl
    next => rfl

theorem inserted (hlayered : Layered h) (hnext : h.nextID + 1 < 2 ^ 32) (id : Bytes) {vec : Vector}
    (hdim : vec.length = h.dim) :
    Represents (h.inserted p env id vec) (w.addNoLock p.toArithmetic id vec).1 := by
  have hslot : w.nodes.lookup w.nextID = none := w.nodes_lt _ le_rfl
  rw [Worker.Hnsw.addNoLock, dif_pos (hdim.trans hrepresents.dim.symm)]
  exact
    { dim := by rw [inserted_dim]; exact hrepresents.dim
      normalized := by rw [inserted_config]; exact hrepresents.normalized
      quantized := by rw [inserted_config]; exact hrepresents.quantized
      keepFloats := by rw [inserted_config]; exact hrepresents.keepFloats
      ids := by
        rw [inserted_idToUint32, ← hrepresents.ids, ← hrepresents.nextID]
        rfl
      nextID := by
        rw [inserted_nextID hnext, ← hrepresents.nextID]
        rfl
      nodes := fun n => by
        rw [getNodeFast_inserted, GoMap.lookup_insert_if, hrepresents.nextID]
        split
        next => exact congrArg some (hrepresents.ofVector env _)
        next => exact hrepresents.nodes n
      nodeCount := by
        rw [inserted_nodeCount hlayered, hslot, ← hrepresents.nodeCount]
        rfl
      deletedCount := by rw [inserted_deletedCount]; exact hrepresents.deletedCount }

/-- What `addNoLock` ends with, where the node store accepts the node. -/
theorem added (hlayered : Layered h) (hnext : h.nextID + 1 < 2 ^ 32)
    (hput : h.persistNode env h.nextID = true) {id : Bytes} {vec : Vector}
    {result : Index × Option AddError} (hadded : Added p env h id vec result) :
    Represents result.1 (w.addNoLock p.toArithmetic id vec).1 ∧
      result.2.isNone = (w.addNoLock p.toArithmetic id vec).2 := by
  have hdone : vec.length = h.dim → (w.addNoLock p.toArithmetic id vec).2 = true := by
    intro hdim
    rw [Worker.Hnsw.addNoLock, dif_pos (hdim.trans hrepresents.dim.symm)]
  cases hadded with
  | refused err hreason =>
      have hdim : vec.length ≠ h.dim := hreason.resolve_right (ne_false_of_eq_true hput)
      rw [Worker.Hnsw.addNoLock, dif_neg (by rwa [hrepresents.dim])]
      exact ⟨{ hrepresents with
        ids := by
          change w.idToUint32.insert id w.nextID = h.idToUint32.insert id h.nextID
          rw [hrepresents.ids, hrepresents.nextID]
        nextID := (congrArg (· + 1) hrepresents.nextID).trans (Nat.mod_eq_of_lt hnext).symm }, rfl⟩
  | alone hdim hentry =>
      have hinserted := @inserted p env h w hrepresents hlayered hnext id vec hdim
      exact ⟨{ hinserted with }, (hdone hdim).symm⟩
  | joined linked entry hdim hentry hlinked =>
      have hinserted := (@inserted p env h w hrepresents hlayered hnext id vec hdim).of_skeleton
        hlinked.skeleton
      refine ⟨?_, (hdone hdim).symm⟩
      simp only
      split
      next => exact { hinserted with }
      next => exact hinserted

/-- An index that accepts a vector comes back from `Add` without a fault, with the tables, the
vectors and the answer that the graph-free model gives. -/
theorem add (hcoherent : Coherent h) (hm : 0 ≤ h.config.m) (hput : ∀ n, h.persistNode env n = true)
    {id : Bytes} (haccepts : w.Accepts id) (vec : Vector) :
    ∃ result, (h.add p env id vec).outcome = .ok result ∧
      Represents result.1 (w.add p.toArithmetic id vec).1 ∧
      result.2.isNone = (w.add p.toArithmetic id vec).2 := by
  have hevicted := hrepresents.evicted env id
  have hkept := (hcoherent.evicted env id).1
  obtain ⟨hnextID, _, _, hconfig, _⟩ := @evicted_fields h env id
  have hnext : (h.evicted env id).nextID + 1 < 2 ^ 32 := by
    rw [hnextID, ← hrepresents.nextID]
    exact haccepts.1
  have hlive : (h.evicted env id).isNormalized = true ∨ (h.evicted env id).AllLive := by
    refine haccepts.2.imp (fun hnormalized => ?_) fun hintact i node hnode => ?_
    · rw [hkept.tables.flags.isNormalized, hconfig, ← hrepresents.normalized]
      exact hnormalized
    · have hsame := hevicted.nodes i
      rw [hnode] at hsame
      obtain ⟨other, hother, _⟩ := Option.map_eq_some_iff.mp hsame
      obtain ⟨stored, hstored, hlive⟩ := hevicted.stored hother
      obtain rfl := Option.some.inj (hnode.symm.trans hstored)
      rw [hlive, hintact _ (AList.mem_lookup_iff.mp hother)]
      rfl
  have hmarked : ¬ (h.deleteNoLock env id).2 = false := by
    rw [deleteNoLock_snd]
    rintro ⟨_, node, _, _, hrefused⟩
    rw [hput] at hrefused
    cases hrefused
  have hkeeps : Traced.Keeps (fun _ => True) (fun _ => False) _
      (addNoLock p env (h.evicted env id) id vec) :=
    addNoLock_links (fun hdim => measured_inserted hkept hlive (fun _ => trivial) hnext
      (lookup_evicted env id) hdim) (by rw [hconfig]; exact not_lt.mpr hm) hkept.layered hnext
  rw [add_eq, if_neg hmarked]
  cases houtcome : (addNoLock p env (h.evicted env id) id vec).outcome with
  | error fault => exact (hkeeps.faults fault houtcome).elim
  | ok result =>
      have hstore : (h.evicted env id).persistNode env (h.evicted env id).nextID = true := by
        rw [persistNode, hconfig]
        exact hput _
      exact ⟨result, rfl, hevicted.added hkept.layered hnext hstore (hkeeps.value result houtcome).1⟩

end

end Represents

end Index

end Vectron.Hnsw
