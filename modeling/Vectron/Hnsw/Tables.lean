import Vectron.Hnsw.Insertion

/-! # The tables beside the graph

The maps between external and internal ids are inverse to each other, every stored node is
named in both and in the cache of external ids, the node counter counts the stored nodes,
and stored vectors have the dimension of the index. None of this looks at a neighbour list.
-/

namespace Vectron.Hnsw

open Foundation
open Worker (Vector)

namespace Index

/-- The cached flags agree with the configuration they were computed from. -/
structure Flagged (h : Index) : Prop where
  isCosine : h.isCosine = h.config.cosine
  isNormalized : h.isNormalized = h.config.normalized
  useNorms : h.useNorms = (h.config.enableNorms && h.config.cosine)
  useQuantize : h.useQuantize = h.config.quantizeVectors
  quantized : h.config.quantizeVectors = true → h.config.normalized = true

/-- What a stored node carries besides its lists. -/
structure NodeNamed (h : Index) (i : Nat) (node : Node) : Prop where
  named : ∃ id, h.uint32ToID.lookup i = some id ∧ h.extIDCache[i]? = some id
  vec : ∀ vec, node.vec = some vec → vec.length = h.dim
  qvec : ∀ qvec, node.qvec = some qvec → qvec.length = h.dim
  plain : h.config.quantizeVectors = false → node.qvec = none

structure Tables (h : Index) : Prop where
  flags : Flagged h
  caches : h.extIDCache.length = h.nodes.length
  inverse : ∀ id n, h.idToUint32.lookup id = some n ↔ h.uint32ToID.lookup n = some id
  handed : ∀ n id, h.uint32ToID.lookup n = some id → 0 < n ∧ n < h.nextID
  node : ∀ i node, h.getNodeFast i = some node → NodeNamed h i node
  count : h.nodeCount = h.nodes.countP Option.isSome

variable {h : Index}

/-- The id of a vector that can be found: added and not deleted since. -/
def Live (h : Index) (id : Bytes) : Prop :=
  ∃ n node, h.idToUint32.lookup id = some n ∧ h.getNode n = some node

theorem tables_new (dim : Nat) (config : Config) : Tables (new dim config) where
  flags :=
    { isCosine := rfl
      isNormalized := rfl
      useNorms := rfl
      useQuantize := rfl
      quantized := by
        intro hquantize
        have hboth : (config.quantizeVectors && config.normalized) = true := hquantize
        exact (Bool.and_eq_true_iff.mp hboth).2 }
  caches := rfl
  inverse id n := by simp [new]
  handed n id hlookup := by simp [new] at hlookup
  node i node hnode := by
    have hnone : (new dim config).getNodeFast i = none := by
      rcases i with _ | i <;> rfl
    rw [hnone] at hnode
    cases hnode
  count := rfl

theorem not_live_new (dim : Nat) (config : Config) (id : Bytes) : ¬ Live (new dim config) id := by
  rintro ⟨n, node, hlookup, _⟩
  simp [new] at hlookup

/-! ## Changes of lists -/

theorem countP_skeleton (q : Option Node → Bool)
    (hq : ∀ slot : Option Node, q (slot.map Node.bare) = q slot) :
    h.skeleton.nodes.countP q = h.nodes.countP q := by
  simp only [skeleton, List.countP_map]
  refine congrArg (fun f => h.nodes.countP f) ?_
  funext slot
  exact hq slot

theorem live_bare (node : Node) : node.bare.live = node.live := rfl

theorem Tables.of_skeleton {h' : Index} (htables : Tables h)
    (hskeleton : h'.skeleton = h.skeleton) : Tables h' := by
  have hfield : ∀ {α : Type} (f : Index → α), f h'.skeleton = f h.skeleton :=
    fun f => by rw [hskeleton]
  have hlength : h'.nodes.length = h.nodes.length := by
    have heq := hfield fun index => index.nodes.length
    simpa [skeleton] using heq
  have hconfig : h'.config = h.config := hfield Index.config
  have hnames : h'.uint32ToID = h.uint32ToID := hfield Index.uint32ToID
  have hids : h'.idToUint32 = h.idToUint32 := hfield Index.idToUint32
  have hcache : h'.extIDCache = h.extIDCache := hfield Index.extIDCache
  have hnext : h'.nextID = h.nextID := hfield Index.nextID
  have hdim : h'.dim = h.dim := hfield Index.dim
  refine
    { flags := ?_
      caches := by rw [hcache, hlength, htables.caches]
      inverse := by rw [hids, hnames]; exact htables.inverse
      handed := by rw [hnames, hnext]; exact htables.handed
      node := ?_
      count := ?_ }
  · have hcosine : h'.isCosine = h.isCosine := hfield Index.isCosine
    have hnormalized : h'.isNormalized = h.isNormalized := hfield Index.isNormalized
    have hnorms : h'.useNorms = h.useNorms := hfield Index.useNorms
    have hquantize : h'.useQuantize = h.useQuantize := hfield Index.useQuantize
    have hflags := htables.flags
    refine ⟨?_, ?_, ?_, ?_, ?_⟩
    · rw [hcosine, hconfig, hflags.isCosine]
    · rw [hnormalized, hconfig, hflags.isNormalized]
    · rw [hnorms, hconfig, hflags.useNorms]
    · rw [hquantize, hconfig, hflags.useQuantize]
    · rw [hconfig]
      exact hflags.quantized
  · intro i node' hnode'
    obtain ⟨node, hnode, hbare⟩ := getNodeFast_of_skeleton hskeleton.symm hnode'
    have hnamed := htables.node i node hnode
    have hvec : node.bare.vec = node'.bare.vec := congrArg Node.vec hbare
    have hqvec : node.bare.qvec = node'.bare.qvec := congrArg Node.qvec hbare
    refine ⟨by rw [hnames, hcache]; exact hnamed.named, fun vec heq => ?_, fun qvec heq => ?_, ?_⟩
    · rw [hdim]
      exact hnamed.vec vec (hvec.trans heq)
    · rw [hdim]
      exact hnamed.qvec qvec (hqvec.trans heq)
    · rw [hconfig]
      intro hplain
      exact hqvec.symm.trans (hnamed.plain hplain)
  · have hcount : h'.nodeCount = h.nodeCount := hfield Index.nodeCount
    have hstored : ∀ slot : Option Node, (slot.map Node.bare).isSome = slot.isSome :=
      fun slot => Option.isSome_map
    rw [hcount, htables.count, ← @countP_skeleton h Option.isSome hstored,
      ← @countP_skeleton h' Option.isSome hstored, hskeleton]

theorem live_of_skeleton {h' : Index} (hskeleton : h'.skeleton = h.skeleton) (id : Bytes) :
    Live h' id ↔ Live h id := by
  have hone : ∀ {first second : Index}, first.skeleton = second.skeleton → Live second id →
      Live first id := by
    rintro first second heq ⟨n, node, hlookup, hnode⟩
    have hids : first.skeleton.idToUint32 = second.skeleton.idToUint32 := by rw [heq]
    have hids : first.idToUint32 = second.idToUint32 := hids
    obtain ⟨hfast, hlive⟩ := getNode_eq_some.mp hnode
    obtain ⟨node', hnode', hbare⟩ := getNodeFast_of_skeleton heq hfast
    have hlive' : node'.bare.live = node.bare.live := congrArg Node.live hbare
    refine ⟨n, node', by rw [hids]; exact hlookup, getNode_eq_some.mpr ⟨hnode', ?_⟩⟩
    rw [← live_bare, hlive', live_bare]
    exact hlive
  exact ⟨hone hskeleton.symm, hone hskeleton⟩

/-! ## Counting slots -/

/-- A slot with a node whose vector was deleted. -/
def deletedSlot (slot : Option Node) : Bool := slot.any fun node => !node.live

theorem nodes_getElem {i : Nat} (hi : i < h.nodes.length) : h.nodes[i] = h.getNodeFast i := by
  rw [getNodeFast, List.getElem?_eq_getElem hi]
  rfl

theorem countP_setSlot (q : Option Node → Bool) {i : Nat} (hi : i < h.nodes.length)
    (slot : Option Node) :
    ((h.setSlot i slot).nodes.countP q : Int) =
      h.nodes.countP q - (if q (h.getNodeFast i) then 1 else 0) + (if q slot then 1 else 0) := by
  have hpos : q h.nodes[i] = true → 0 < h.nodes.countP q := fun hq =>
    List.countP_pos_iff.mpr ⟨_, List.getElem_mem hi, hq⟩
  simp only [setSlot, List.countP_set hi]
  rw [← nodes_getElem hi]
  split
  next hq =>
    have := hpos hq
    split <;> omega
  next => split <;> omega

theorem countP_ensureNodeCapacity (q : Option Node → Bool) (hq : q none = false) (id : Nat) :
    (h.ensureNodeCapacity id).nodes.countP q = h.nodes.countP q := by
  unfold ensureNodeCapacity
  split
  next => rfl
  next =>
    simp only [List.countP_append, List.countP_replicate, hq]
    simp

theorem caches_ensureNodeCapacity (hcaches : h.extIDCache.length = h.nodes.length) (id : Nat) :
    (h.ensureNodeCapacity id).extIDCache.length = (h.ensureNodeCapacity id).nodes.length ∧
      ∀ i, i < h.nodes.length → (h.ensureNodeCapacity id).extIDCache[i]? = h.extIDCache[i]? := by
  unfold ensureNodeCapacity
  split
  next => exact ⟨hcaches, fun _ _ => rfl⟩
  next hge =>
    have hgrown := @grownSize_spec (max h.nodes.length 1) id (by omega)
    have htake : h.extIDCache.take (grownSize (max h.nodes.length 1) id) = h.extIDCache :=
      List.take_of_length_le (by omega)
    simp only [htake, List.length_append, List.length_replicate]
    refine ⟨by omega, fun i hi => ?_⟩
    rw [List.getElem?_append_left (by omega)]

/-! ## Insertion -/

section Insert

variable {p : Platform} {env : Env}

@[simp] theorem inserted_uint32ToID (id : Bytes) (vec : Vector) :
    (h.inserted p env id vec).uint32ToID = h.uint32ToID.insert h.nextID id := by
  unfold inserted place setSlot ensureNodeCapacity
  split <;> rfl

@[simp] theorem inserted_idToUint32 (id : Bytes) (vec : Vector) :
    (h.inserted p env id vec).idToUint32 = h.idToUint32.insert id h.nextID := by
  unfold inserted place setSlot ensureNodeCapacity
  split <;> rfl

@[simp] theorem inserted_dim (id : Bytes) (vec : Vector) :
    (h.inserted p env id vec).dim = h.dim := by
  unfold inserted place setSlot ensureNodeCapacity
  split <;> rfl

theorem inserted_nodeCount (hlayered : Layered h) (id : Bytes) (vec : Vector) :
    (h.inserted p env id vec).nodeCount = h.nodeCount + 1 := by
  have hread : ((h.assign id).ensureNodeCapacity h.nextID).getNodeFast h.nextID = none := by
    rw [getNodeFast_ensureNodeCapacity]
    exact hlayered.fresh le_rfl
  simp only [Index.inserted, place, drawnNode_id, hread]
  rfl

@[simp] theorem inserted_deletedCount (id : Bytes) (vec : Vector) :
    (h.inserted p env id vec).deletedCount = h.deletedCount := by
  unfold inserted place setSlot ensureNodeCapacity
  split <;> rfl

theorem Flagged.inserted (hflags : Flagged h) (id : Bytes) (vec : Vector) :
    Flagged (h.inserted p env id vec) := by
  unfold Index.inserted place setSlot ensureNodeCapacity
  split
  · exact ⟨hflags.isCosine, hflags.isNormalized, hflags.useNorms, hflags.useQuantize,
      hflags.quantized⟩
  · exact ⟨hflags.isCosine, hflags.isNormalized, hflags.useNorms, hflags.useQuantize,
      hflags.quantized⟩

/-- A new name under a fresh internal id keeps the maps inverse. -/
theorem Tables.assign_inverse (htables : Tables h) {id : Bytes}
    (hid : h.idToUint32.lookup id = none) (id' : Bytes) (n : Nat) :
    (h.idToUint32.insert id h.nextID).lookup id' = some n ↔
      (h.uint32ToID.insert h.nextID id).lookup n = some id' := by
  have hfresh : h.uint32ToID.lookup h.nextID = none := by
    cases hname : h.uint32ToID.lookup h.nextID with
    | none => rfl
    | some other => exact absurd (htables.handed _ _ hname).2 (lt_irrefl _)
  rw [GoMap.lookup_insert_if, GoMap.lookup_insert_if]
  by_cases hid' : id' = id
  · subst hid'
    rw [if_pos rfl]
    by_cases hn : n = h.nextID
    · simp [hn]
    · rw [if_neg hn, ← htables.inverse, hid]
      simp [Ne.symm hn]
  · rw [if_neg hid']
    by_cases hn : n = h.nextID
    · subst hn
      rw [if_pos rfl, htables.inverse, hfresh]
      simp [Ne.symm hid']
    · rw [if_neg hn, htables.inverse]

theorem Tables.assign_handed (htables : Tables h) (hpos : 0 < h.nextID) {id id' : Bytes} {n : Nat}
    (hname : (h.uint32ToID.insert h.nextID id).lookup n = some id') :
    0 < n ∧ n < h.nextID + 1 := by
  rw [GoMap.lookup_insert_if] at hname
  split at hname
  next heq => omega
  next =>
    have := htables.handed n id' hname
    omega

theorem Tables.assign (htables : Tables h) (hlayered : Layered h)
    (hnext : h.nextID + 1 < 2 ^ 32) {id : Bytes} (hid : h.idToUint32.lookup id = none) :
    Tables (h.assign id) where
  flags := ⟨htables.flags.isCosine, htables.flags.isNormalized, htables.flags.useNorms,
    htables.flags.useQuantize, htables.flags.quantized⟩
  caches := htables.caches
  inverse := htables.assign_inverse hid
  handed n id' hname := by
    have heq : (h.assign id).nextID = h.nextID + 1 := Nat.mod_eq_of_lt hnext
    rw [heq]
    exact htables.assign_handed hlayered.next_pos hname
  node i node hnode := by
    have hnamed := htables.node i node hnode
    have hlt := (hlayered.node i node hnode).lt
    obtain ⟨name, hname, hcache⟩ := hnamed.named
    refine ⟨⟨name, ?_, hcache⟩, hnamed.vec, hnamed.qvec, hnamed.plain⟩
    change (h.uint32ToID.insert h.nextID id).lookup i = some name
    rw [GoMap.lookup_insert_if, if_neg (by omega)]
    exact hname
  count := htables.count

theorem drawnNode_vectors {vec : Vector} (hdim : vec.length = h.dim) :
    (∀ v, (h.drawnNode p env vec).vec = some v → v.length = h.dim) ∧
      (∀ q, (h.drawnNode p env vec).qvec = some q → q.length = h.dim) ∧
      (h.config.quantizeVectors = false → (h.drawnNode p env vec).qvec = none) := by
  have hnormalize := p.normalize_length vec
  have hquantize := p.quantize_length (p.normalize vec)
  simp only [drawnNode, newNode]
  split_ifs <;> refine ⟨fun v hv => ?_, fun q hq => ?_, fun hplain => ?_⟩ <;> simp_all

theorem Tables.inserted (htables : Tables h) (hlayered : Layered h)
    (hnext : h.nextID + 1 < 2 ^ 32) {id : Bytes} {vec : Vector}
    (hid : h.idToUint32.lookup id = none) (hdim : vec.length = h.dim) :
    Tables (h.inserted p env id vec) := by
  obtain ⟨hlength, hcache⟩ := caches_ensureNodeCapacity htables.caches h.nextID
  have hgrown : ((h.assign id).ensureNodeCapacity h.nextID).nodes =
      (h.ensureNodeCapacity h.nextID).nodes ∧
      ((h.assign id).ensureNodeCapacity h.nextID).extIDCache =
        (h.ensureNodeCapacity h.nextID).extIDCache := by
    by_cases hlt : h.nextID < h.nodes.length
    · have hlt' : h.nextID < (h.assign id).nodes.length := hlt
      rw [ensureNodeCapacity, ensureNodeCapacity, if_pos hlt, if_pos hlt']
      exact ⟨rfl, rfl⟩
    · have hlt' : ¬ h.nextID < (h.assign id).nodes.length := hlt
      rw [ensureNodeCapacity, ensureNodeCapacity, if_neg hlt, if_neg hlt']
      exact ⟨rfl, rfl⟩
  have hnodes : (h.inserted p env id vec).nodes =
      ((h.ensureNodeCapacity h.nextID).setSlot h.nextID (some (h.drawnNode p env vec))).nodes := by
    simp only [Index.inserted, place, setSlot, drawnNode_id, hgrown]
  have hexternal : (h.inserted p env id vec).extIDCache =
      (h.ensureNodeCapacity h.nextID).extIDCache.set h.nextID id := by
    simp only [Index.inserted, place, drawnNode_id, hgrown]
  have hfits := @lt_length_ensureNodeCapacity h h.nextID
  obtain ⟨hvec, hqvec, hplain⟩ := @drawnNode_vectors h p env vec hdim
  refine
    { flags := htables.flags.inserted id vec
      caches := by rw [hexternal, hnodes, List.length_set, setSlot, List.length_set, hlength]
      inverse := by
        rw [inserted_idToUint32, inserted_uint32ToID]
        exact htables.assign_inverse hid
      handed := ?_
      node := ?_
      count := ?_ }
  · intro n id' hname
    rw [inserted_nextID hnext]
    rw [inserted_uint32ToID] at hname
    exact htables.assign_handed hlayered.next_pos hname
  · intro i node hnode
    rw [getNodeFast_inserted] at hnode
    split at hnode
    next hi =>
      cases hnode
      subst hi
      refine ⟨⟨id, ?_, ?_⟩, ?_, ?_, ?_⟩
      · rw [inserted_uint32ToID, GoMap.lookup_insert_if, if_pos rfl]
      · rw [hexternal]
        exact List.getElem?_set_self (by omega)
      · rw [inserted_dim]
        exact hvec
      · rw [inserted_dim]
        exact hqvec
      · rw [inserted_config]
        exact hplain
    next hi =>
      have hnamed := htables.node i node hnode
      obtain ⟨name, hname, hcached⟩ := hnamed.named
      refine ⟨⟨name, ?_, ?_⟩, ?_, ?_, ?_⟩
      · rw [inserted_uint32ToID, GoMap.lookup_insert_if, if_neg hi]
        exact hname
      · rw [hexternal, List.getElem?_set_ne (Ne.symm hi),
          hcache i (lt_length_of_getNodeFast hnode)]
        exact hcached
      · rw [inserted_dim]
        exact hnamed.vec
      · rw [inserted_dim]
        exact hnamed.qvec
      · rw [inserted_config]
        exact hnamed.plain
  · have hempty : (h.ensureNodeCapacity h.nextID).getNodeFast h.nextID = none := by
      rw [getNodeFast_ensureNodeCapacity]
      exact hlayered.fresh le_rfl
    rw [inserted_nodeCount hlayered, htables.count, hnodes, countP_setSlot Option.isSome hfits, hempty,
      countP_ensureNodeCapacity Option.isSome rfl]
    simp

theorem live_assign (hlayered : Layered h) {id : Bytes} (hid : h.idToUint32.lookup id = none)
    (id' : Bytes) : Live (h.assign id) id' ↔ Live h id' := by
  have hnode : ∀ n, (h.assign id).getNode n = h.getNode n := fun _ => rfl
  have hmap : (h.assign id).idToUint32 = h.idToUint32.insert id h.nextID := rfl
  constructor
  · rintro ⟨n, node, hlookup, hlive⟩
    rw [hmap, GoMap.lookup_insert_if] at hlookup
    rw [hnode] at hlive
    split at hlookup
    next =>
      obtain rfl := Option.some.inj hlookup
      rw [getNode, hlayered.fresh le_rfl] at hlive
      cases hlive
    next => exact ⟨n, node, hlookup, hlive⟩
  · rintro ⟨n, node, hlookup, hlive⟩
    have hne : id' ≠ id := by
      rintro rfl
      rw [hid] at hlookup
      cases hlookup
    exact ⟨n, node, by rw [hmap, GoMap.lookup_insert_if, if_neg hne]; exact hlookup, hlive⟩

theorem live_inserted (htables : Tables h) {id : Bytes} (vec : Vector) (id' : Bytes) :
    Live (h.inserted p env id vec) id' ↔ id' = id ∨ Live h id' := by
  constructor
  · rintro ⟨n, node, hlookup, hlive⟩
    rw [inserted_idToUint32, GoMap.lookup_insert_if] at hlookup
    split at hlookup
    next heq => exact Or.inl heq
    next heq =>
      have hlt := (htables.handed n id' ((htables.inverse id' n).mp hlookup)).2
      rw [getNode, getNodeFast_inserted, if_neg (by omega)] at hlive
      exact Or.inr ⟨n, node, hlookup, hlive⟩
  · intro hor
    by_cases heq : id' = id
    · refine ⟨h.nextID, h.drawnNode p env vec, ?_, ?_⟩
      · rw [inserted_idToUint32, GoMap.lookup_insert_if, if_pos heq]
      · refine getNode_eq_some.mpr ⟨?_, drawnNode_live vec⟩
        rw [getNodeFast_inserted, if_pos rfl]
    · rcases hor with hsame | ⟨n, node, hlookup, hlive⟩
      · exact absurd hsame heq
      · have hlt := (htables.handed n id' ((htables.inverse id' n).mp hlookup)).2
        refine ⟨n, node, ?_, ?_⟩
        · rw [inserted_idToUint32, GoMap.lookup_insert_if, if_neg heq]
          exact hlookup
        · rw [getNode, getNodeFast_inserted, if_neg (by omega)]
          exact hlive

theorem Tables.entry (htables : Tables h) (entry maxLayer : Nat) :
    Tables { h with entry := entry, maxLayer := maxLayer } where
  flags := ⟨htables.flags.isCosine, htables.flags.isNormalized, htables.flags.useNorms,
    htables.flags.useQuantize, htables.flags.quantized⟩
  caches := htables.caches
  inverse := htables.inverse
  handed := htables.handed
  node i other hother :=
    have hnamed := htables.node i other hother
    ⟨hnamed.named, hnamed.vec, hnamed.qvec, hnamed.plain⟩
  count := htables.count

/-- The tables after `addNoLock`, and the ids that are live then. -/
theorem Tables.added (htables : Tables h) (hlayered : Layered h)
    (hnext : h.nextID + 1 < 2 ^ 32) {id : Bytes} {vec : Vector}
    {result : Index × Option AddError} (hid : h.idToUint32.lookup id = none)
    (hadded : Added p env h id vec result) :
    Tables result.1 ∧
      ∀ id', Live result.1 id' ↔ id' = id ∧ result.2 = none ∨ Live h id' := by
  cases hadded with
  | refused err hreason =>
      refine ⟨htables.assign hlayered hnext hid, fun id' => ?_⟩
      rw [live_assign hlayered hid]
      simp
  | alone hdim hentry =>
      have hafter := @Tables.inserted h p env htables hlayered hnext id vec hid hdim
      refine ⟨hafter.entry _ _, fun id' => ?_⟩
      have hlive := @live_inserted h p env htables id vec id'
      simp only [and_true]
      exact hlive
  | joined linked entry hdim hentry hlinked =>
      have hafter := @Tables.inserted h p env htables hlayered hnext id vec hid hdim
      have htables' := hafter.of_skeleton hlinked.skeleton
      have hlive : ∀ id', Live linked id' ↔ id' = id ∨ Live h id' := fun id' =>
        (live_of_skeleton hlinked.skeleton id').trans (live_inserted htables vec id')
      simp only [and_true]
      split
      next => exact ⟨htables'.entry _ _, hlive⟩
      next => exact ⟨htables', hlive⟩

end Insert

end Index

end Vectron.Hnsw
