import Vectron.Hnsw.Machine

/-! # What an index keeps over its lifetime

Over every run of calls: what the two counters say of the live ids and of the deleted nodes
that are still stored, what a snapshot restores, and the layered structure that keeps every
access to a neighbour list in range.
-/

namespace Vectron.Hnsw

open Foundation
open Worker (Vector)

/-! ## The counters -/

namespace Index

variable {h : Index}

theorem countP_isSome (nodes : List (Option Node)) :
    nodes.countP Option.isSome =
      nodes.countP deletedSlot + (nodes.filterMap fun slot => slot.filter Node.live).length := by
  induction nodes with
  | nil => rfl
  | cons slot rest ih =>
      cases slot with
      | none => simpa [deletedSlot] using ih
      | some node =>
          cases hlive : node.live with
          | true =>
              have hkept : (some node).filter Node.live = some node := by simp [hlive]
              have hcons : (some node :: rest).filterMap (fun slot => slot.filter Node.live) =
                  node :: rest.filterMap fun slot => slot.filter Node.live :=
                List.filterMap_cons_some hkept
              rw [List.countP_cons_of_pos rfl, hcons, List.countP_cons_of_neg
                (by simp [deletedSlot, hlive]), List.length_cons, ih]
              omega
          | false =>
              rw [List.countP_cons_of_pos rfl, List.filterMap_cons_none (by simp [hlive]),
                List.countP_cons_of_pos (by simp [deletedSlot, hlive]), ih]
              omega

section

variable (p : Platform) (hcoherent : Coherent h) {live : Finset Bytes}
  (hlive : ∀ id, Live h id ↔ id ∈ live)

include p hcoherent hlive

theorem liveNodes_length_eq_card : h.liveNodes.length = live.card := by
  have heq : ((h.liveVectors p).map Prod.fst).toFinset = live := by
    ext id
    rw [List.mem_toFinset, mem_liveVectors_iff_live hcoherent, hlive]
  rw [← heq, List.toFinset_card_of_nodup (liveVectors_nodup hcoherent), List.length_map,
    liveVectors_eq, List.length_map]

/-- The size is the number of live ids where the deletion counter is right. -/
theorem size_eq_card (hcount : h.deletedCount = h.deletedNodes) :
    h.size = live.card := by
  have hsplit := countP_isSome h.nodes
  have hcard := liveNodes_length_eq_card p hcoherent hlive
  have hnodes : h.nodes.countP deletedSlot = h.deletedNodes := rfl
  have hlength : (h.nodes.filterMap fun slot => slot.filter Node.live).length = live.card := hcard
  rw [size, hcoherent.tables.count, hcount]
  omega

end

/-- A deletion the node store refuses is one of a stored node. -/
theorem storedUnder_of_refused {env : Env} {id : Bytes}
    (hrefused : (h.deleteNoLock env id).2 = false) : h.storedUnder id = true := by
  unfold deleteNoLock at hrefused
  unfold storedUnder
  cases hid : h.idToUint32.lookup id with
  | none =>
      rw [hid] at hrefused
      cases hrefused
  | some n =>
      simp only [hid] at hrefused
      cases hnode : h.getNode n with
      | none =>
          rw [hnode] at hrefused
          cases hrefused
      | some node =>
          rw [Option.any_some, (getNode_eq_some.mp hnode).1]
          rfl

theorem not_live_of_not_storedUnder {id : Bytes} (hstored : h.storedUnder id = false) :
    ¬ Live h id := by
  rintro ⟨n, node, hlookup, hnode⟩
  rw [storedUnder, hlookup, Option.any_some, (getNode_eq_some.mp hnode).1] at hstored
  cases hstored

/-- The record of the live ids is exact, and the deletion counter counts the deleted nodes. -/
def Exact (h : Index) (live : Finset Bytes) : Prop :=
  (∀ id, Live h id ↔ id ∈ live) ∧ h.deletedCount = h.deletedNodes

end Index

/-- An id is added only while no node is stored under it, the node store accepts what a
rebuild writes, and no empty vector is saved. -/
def Counted (site : Site) (input : Input) : Prop :=
  Admissible site input ∧
    match input.op with
    | .add id _ => site.index.storedUnder id = false
    | .rebuild => ∀ n < site.index.nextID, site.index.persistNode input.env n = true
    | .save => site.index.Solid
    | _ => True

instance (site : Site) : ∀ input, Decidable (Counted site input)
  | ⟨.add id vec, env⟩ =>
      inferInstanceAs (Decidable (Admissible site ⟨.add id vec, env⟩ ∧
        site.index.storedUnder id = false))
  | ⟨.rebuild, env⟩ =>
      inferInstanceAs (Decidable (Admissible site ⟨.rebuild, env⟩ ∧
        ∀ n < site.index.nextID, site.index.persistNode env n = true))
  | ⟨.save, env⟩ =>
      inferInstanceAs (Decidable (Admissible site ⟨.save, env⟩ ∧ site.index.Solid))
  | ⟨.delete _, _⟩ => isTrue ⟨trivial, trivial⟩
  | ⟨.search _, _⟩ => isTrue ⟨trivial, trivial⟩
  | ⟨.cleanup _, _⟩ => isTrue ⟨trivial, trivial⟩
  | ⟨.pruneNeighbors _, _⟩ => isTrue ⟨trivial, trivial⟩
  | ⟨.setPruneConfig _, _⟩ => isTrue ⟨trivial, trivial⟩
  | ⟨.setSearchParallelism _, _⟩ => isTrue ⟨trivial, trivial⟩
  | ⟨.load _, _⟩ => isTrue ⟨trivial, trivial⟩
  | ⟨.reopen _, _⟩ => isTrue ⟨trivial, trivial⟩

section Runs

variable (setting : Setting)

theorem Index.Exact.add {site : Site} {env : Env} {id : Bytes} {vec : Vector}
    {result : Index × Option AddError} (hcoherent : Index.Coherent site.index)
    (hroomy : site.index.Roomy) (hstored : site.index.storedUnder id = false)
    (hadd : (site.index.add setting.platform env id vec).outcome = .ok result)
    (hexact : site.index.Exact site.live) :
    result.1.Exact (if result.2.isNone then insert id site.live else site.live) := by
  rcases Index.add_cases hcoherent hroomy hadd with ⟨_, hrefused⟩ | hadded
  · rw [Index.storedUnder_of_refused hrefused] at hstored
    cases hstored
  · obtain ⟨hevicted, hlive, hdrift⟩ := hcoherent.evicted env id
    have hfields := @Index.evicted_fields site.index env id
    obtain ⟨_, hlive', hcount, hnodes, _⟩ := hevicted.added (by rw [hfields.1]; exact hroomy)
      (Index.lookup_evicted env id) hadded
    have habsent := Index.not_live_of_not_storedUnder hstored
    rw [hstored] at hdrift
    have hbefore := hexact.2
    refine ⟨fun id' => ?_, ?_⟩
    · rw [hlive', hlive]
      cases herr : result.2 with
      | none =>
          simp only [and_true, Option.isNone_none, if_true, Finset.mem_insert, ← hexact.1]
          by_cases heq : id' = id
          · simp [heq]
          · simp [heq]
      | some err =>
          simp only [reduceCtorEq, and_false, false_or, Option.isNone_some, Bool.false_eq_true,
            if_false, ← hexact.1]
          refine ⟨fun hboth => hboth.2, fun hsome => ⟨?_, hsome⟩⟩
          rintro rfl
          exact habsent hsome
    · rw [hcount, hnodes]
      simp only [Bool.false_eq_true, if_false, add_zero] at hdrift
      omega

theorem kept_exact : Kept setting Counted Index.Solid Index.Exact where
  admissible site input hcounted := hcounted.1
  start := by
    refine ⟨fun id => ?_, rfl⟩
    simp [Index.not_live_new, Setting.fresh]
  alike h h' live halike hexact := by
    refine ⟨fun id => (halike.live id).trans (hexact.1 id), ?_⟩
    have hdrift := halike.drift
    have hbefore := hexact.2
    omega
  add site env id vec result hcounted hcoherent hadd hexact :=
    hexact.add setting hcoherent hcounted.1 hcounted.2 hadd
  delete site env id _ hcoherent hexact := by
    obtain ⟨_, hlive, hdrift⟩ := hcoherent.delete env id
    have hbefore := hexact.2
    refine ⟨fun id' => ?_, by omega⟩
    rw [hlive, hexact.1, Finset.mem_erase]
  rebuild site env result hcounted hcoherent hrebuild hexact := by
    have hkeeps := @Index.rebuild_keeps site.index setting.platform env (fun _ => True)
      (fun _ => True) (fun _ => trivial) trivial (fun _ => trivial) hcoherent
    obtain ⟨_, _, hcount, _, hdone, _⟩ := hkeeps.value result hrebuild
    exact ⟨fun id => ((hdone hcounted.2).2 id).trans (hexact.1 id), hcount⟩
  save site env hcounted := hcounted.2
  reload receiver h h' live hcoherent hsolid hreloaded _ hexact := by
    refine ⟨fun id => (hreloaded.live_iff hcoherent.layered hsolid id).trans (hexact.1 id), ?_⟩
    rw [hreloaded.deletedCount, hreloaded.deletedNodes hcoherent.layered hsolid]
    exact hexact.2

/-- In every state of a run that adds no id while a node is stored under it, the size is the
number of live ids and the deletion counter is that of the deleted nodes still stored. -/
theorem counters_of_run {inputs : List Input}
    (hmeets : Run.Meets setting.serve (During Counted) (some setting.start) inputs)
    {site : Site} (hsite : Run.run setting.serve (some setting.start) inputs = some site) :
    site.index.size = site.live.card ∧ site.index.deletedCount = site.index.deletedNodes := by
  have hholds := (kept_exact setting).run hmeets hsite
  obtain ⟨hlive, hcount⟩ := hholds.index.good
  exact ⟨Index.size_eq_card setting.platform hholds.index.coherent hlive hcount, hcount⟩

end Runs

/-! ### A plain build

The float operations of a build without vector instructions, on which examples are computed.
-/

/-- The sum of squares and the dot product, component by component. -/
def plainDot (a b : Vector) : Float32 :=
  (List.zipWith (fun x y => Float32.ofBits x * Float32.ofBits y) a b).foldl (· + ·) 0

/-- `NormalizeVectorInto`. -/
def plainNormalize (vec : Vector) : Vector :=
  let norm := (plainDot vec vec).sqrt
  if norm == 0 then vec
  else vec.map fun word => (Float32.ofBits word * (1 / norm)).toBits

/-- One component in `quantizeVectorInto`, which cuts off the fraction. -/
def plainQuantize (word : UInt32) : UInt8 :=
  let v := Float32.ofBits word
  let v := (if 1 < v then 1 else if v < -1 then -1 else v) * 127
  let whole := (List.range 127).countP fun n => decide (Float32.ofNat (n + 1) ≤ v.abs)
  if v < 0 then UInt8.ofNat (256 - whole) else UInt8.ofNat whole

/-- A process with one processor and no settings in its environment. -/
def plainPlatform : Platform where
  normalize := plainNormalize
  normalize_length vec := by
    unfold plainNormalize
    simp only
    split
    next => rfl
    next => exact List.length_map _
  quantize vec := vec.map plainQuantize
  quantize_length _ := List.length_map _
  dequantize qvec := qvec.map fun byte => (Float32.ofInt byte.toInt8.toInt / 127).toBits
  scale _ := 1
  compress _ word := UInt8.ofNat word.toNat
  expand _ byte := UInt32.ofNat byte.toNat
  dequantize_length _ := List.length_map _
  dot := plainDot
  sort := List.insertionSort fun first second => ¬ second.dist < first.dist
  sort_perm := List.perm_insertionSort _
  neighborCap := 0
  maxProcs := 1
  batchEnabled := false
  batchMin := 0
  minDim := 0

/-- The options of `NewHNSW` that are left at their defaults. -/
def plainConfig : Config where
  m := 0
  efConstruction := 0
  efSearch := 0
  maxLevel := 0
  distance := []
  persistNodes := true
  enableNorms := false
  normalizeVectors := false
  quantizeVectors := false
  keepFloatVectors := false
  searchParallelism := 0
  pruneEnabled := false
  skipPersistNode := false

/-- Vectors with one component under the Euclidean distance. -/
def lineSetting : Setting := ⟨plainPlatform, fun _ => none, 1, plainConfig⟩

/-- A call whose nodes stay in the lowest layer and are accepted by the node store. -/
def call (op : Op) : Input := ⟨op, fun _ _ => false, fun _ => true, RangeOrder.stored⟩

/-- The external ids of examples. -/
def nameOf (char : Char) : Bytes := [char.toUInt8]

/-- The vectors 1, 2 and 3. -/
def one : Vector := [0x3f800000]

def two : Vector := [0x40000000]

def three : Vector := [0x40400000]

/-- Additions, a deletion, a snapshot, its cleanup, a rebuild and the way back. -/
def mixedCalls : List Input :=
  [call (.add (nameOf 'a') one), call (.add (nameOf 'b') two), call (.add (nameOf 'c') three),
    call (.delete (nameOf 'c')), call .save, call (.cleanup 1), call (.search (.search one 2)),
    call .rebuild, call (.add (nameOf 'c') two), call (.load 0)]

theorem counters_of_run_mixedCalls :
    Run.Meets lineSetting.serve (During Counted) (some lineSetting.start) mixedCalls ∧
      ∃ site, Run.run lineSetting.serve (some lineSetting.start) mixedCalls = some site ∧
        site.index.size = site.live.card ∧ site.index.deletedCount = site.index.deletedNodes := by
  have hmeets : Run.Meets lineSetting.serve (During Counted) (some lineSetting.start)
      mixedCalls := by decide +kernel
  have hsome : (Run.run lineSetting.serve (some lineSetting.start) mixedCalls).isSome = true := by
    decide +kernel
  obtain ⟨site, hsite⟩ := Option.isSome_iff_exists.mp hsome
  exact ⟨hmeets, site, hsite, counters_of_run lineSetting hmeets hsite⟩

/-- Storing an id twice leaves a deletion counted for which no deleted node is stored, and the
index says it is empty. -/
theorem counters_after_overwrite :
    (Run.run lineSetting.serve (some lineSetting.start)
      [call (.add (nameOf 'a') one), call (.add (nameOf 'a') two)]).map
        (fun site => (site.index.size, site.live.card, site.index.deletedCount,
          site.index.deletedNodes)) = some (0, 1, 1, 0) := by
  decide +kernel

/-! ## Snapshots -/

/-- Saving an index and loading it again. -/
theorem Index.restores_iff_single {h : Index} (hcoherent : Index.Coherent h) (hfits : h.Fits)
    (gob : Bytes → Option Decoded) (order : RangeOrder) (receiver : Index) :
    (∃ h', receiver.load gob (h.save order) = .ok h' ∧ Index.Restores h h') ↔ h.Single := by
  have hreloaded := Index.reloaded_install hcoherent order receiver
  rw [Index.load_save hcoherent hfits order gob receiver]
  constructor
  · rintro ⟨h', hload, hrestores⟩
    cases hload
    exact (hreloaded.restores_iff hcoherent.layered).mp hrestores
  · intro hsingle
    exact ⟨_, rfl, (hreloaded.restores_iff hcoherent.layered).mpr hsingle⟩

section Runs

variable (setting : Setting)

/-- The invariants of the graph and the tables hold in every run. -/
theorem kept_coherent : Kept setting Admissible (fun _ => True) fun _ _ => True where
  admissible _ _ hadmissible := hadmissible
  start := trivial
  alike _ _ _ _ _ := trivial
  add _ _ _ _ _ _ _ _ _ := trivial
  delete _ _ _ _ _ _ := trivial
  rebuild _ _ _ _ _ _ _ := trivial
  save _ _ _ := trivial
  reload _ _ _ _ _ _ _ _ _ := trivial

/-- In every state of a run, `Load` of what `Save` writes restores the index exactly if no
node has both a float and a quantised vector and no vector is empty. -/
theorem load_restores_iff {inputs : List Input}
    (hmeets : Run.Meets setting.serve (During Admissible) (some setting.start) inputs)
    {site : Site} (hsite : Run.run setting.serve (some setting.start) inputs = some site)
    (hfits : site.index.Fits) (order : RangeOrder) (receiver : Index) :
    (∃ h', receiver.load setting.gob (site.index.save order) = .ok h' ∧
      Index.Restores site.index h') ↔ site.index.Single := by
  have hholds := (kept_coherent setting).run hmeets hsite
  exact Index.restores_iff_single hholds.index.coherent hfits setting.gob order receiver

end Runs

theorem load_restores_iff_mixedCalls :
    ∃ site, Run.run lineSetting.serve (some lineSetting.start) mixedCalls = some site ∧
      ∃ h', lineSetting.fresh.load lineSetting.gob (site.index.save RangeOrder.reversed) = .ok h' ∧
        Index.Restores site.index h' := by
  have hmeets : Run.Meets lineSetting.serve (During Admissible) (some lineSetting.start)
      mixedCalls := by decide +kernel
  have hchecked : (Run.run lineSetting.serve (some lineSetting.start) mixedCalls).any
      (fun site => decide (site.index.Fits ∧ site.index.Single)) = true := by decide +kernel
  obtain ⟨site, hsite, hboth⟩ := (Option.any_eq_true _ _).mp hchecked
  obtain ⟨hfits, hsingle⟩ := of_decide_eq_true hboth
  exact ⟨site, hsite, (load_restores_iff lineSetting hmeets hsite hfits RangeOrder.reversed
    lineSetting.fresh).mpr hsingle⟩

/-- Normalised vectors that are quantised and kept as floats as well. -/
def keptSetting : Setting where
  platform := plainPlatform
  gob _ := none
  dim := 1
  config :=
    { plainConfig with
      distance := cosineName
      normalizeVectors := true
      quantizeVectors := true
      keepFloatVectors := true }

/-- The vectors of the first node, before a snapshot and after it was loaded. -/
def vectorsAround (setting : Setting) (site : Site) : List (Option (Option Vector × Option Bytes)) :=
  let vectors := fun h : Index => (h.getNodeFast 1).map fun node => (node.vec, node.qvec)
  [vectors site.index,
    (setting.fresh.load setting.gob (site.index.save RangeOrder.stored)).toOption.bind vectors]

/-- The quantised vector of a node that also has floats is not saved. -/
theorem load_drops_quantized :
    (Run.run keptSetting.serve (some keptSetting.start) [call (.add (nameOf 'a') two)]).map
        (vectorsAround keptSetting) =
      some [some (some one, some [127]), some (some one, none)] := by
  decide +kernel

/-! ## Layers -/

namespace Index

variable {h : Index}

/-- The structure of the graph as a search relies on it: a live entry point is in the top
layer, a node has one list for each of its layers, and an edge of a layer leads to another id
that was handed out and whose node, if there is one, is in that layer. -/
structure Layering (h : Index) : Prop where
  entry : ∀ node, h.getNode h.entry = some node → node.layer = h.maxLayer
  lists : ∀ i node, h.getNodeFast i = some node → node.neighbors.length = node.layer + 1
  edges : ∀ (i : Nat) (node : Node) (l : Nat) (list : List Nat), h.getNodeFast i = some node →
    node.neighbors[l]? = some list → ∀ e ∈ list, e ≠ i ∧ e < h.nextID ∧
      ∀ target, h.getNodeFast e = some target → l ≤ target.layer

theorem Layered.layering (hlayered : Layered h) : Layering h where
  entry node hnode := hlayered.entry node (getNode_eq_some.mp hnode).1
  lists i node hnode := (hlayered.node i node hnode).lists
  edges i node l list hnode hlist := (hlayered.node i node hnode).edges l list hlist

/-- Ids are only handed out: a slot below the next id that is empty stays so. -/
def Inherits (h h' : Index) : Prop :=
  h.nextID ≤ h'.nextID ∧
    ∀ i < h.nextID, (h'.getNodeFast i).isSome → (h.getNodeFast i).isSome

theorem Inherits.trans {h' h'' : Index} (hfirst : Inherits h h') (hsecond : Inherits h' h'') :
    Inherits h h'' := by
  refine ⟨hfirst.1.trans hsecond.1, fun i hi hsome => ?_⟩
  exact hfirst.2 i hi (hsecond.2 i (lt_of_lt_of_le hi hfirst.1) hsome)

theorem Alike.inherits {h' : Index} (halike : Alike h h') : Inherits h h' :=
  ⟨halike.nextID.ge, fun i _ => halike.stored i⟩

theorem inherits_deleteNoLock (env : Env) (id : Bytes) : Inherits h (h.deleteNoLock env id).1 := by
  refine ⟨(@deleteNoLock_fields h env id).2.1.ge, fun i _ hsome => ?_⟩
  rw [(@getNodeFast_deleteNoLock h env id i).1] at hsome
  exact hsome

theorem inherits_evicted (env : Env) (id : Bytes) : Inherits h (h.evicted env id) := by
  refine ⟨(@evicted_fields h env id).1.ge, fun i hi hsome => ?_⟩
  unfold evicted at hsome
  split at hsome
  next => exact hsome
  next n _ =>
    rw [(@removed_dropNode (h.deleteNoLock env id).1 id n).getNodeFast] at hsome
    split at hsome
    next => cases hsome
    next => exact (@inherits_deleteNoLock h env id).2 i hi hsome

/-- Insertion fills the slot of the next id only. -/
theorem Added.inherits {p : Platform} {env : Env} {id : Bytes} {vec : Vector}
    {result : Index × Option AddError} (hnext : h.nextID + 1 < 2 ^ 32)
    (hadded : Added p env h id vec result) : Inherits h result.1 := by
  have hinserted : Inherits h (h.inserted p env id vec) := by
    refine ⟨by rw [inserted_nextID hnext]; omega, fun i hi hsome => ?_⟩
    rw [getNodeFast_inserted, if_neg (by omega)] at hsome
    exact hsome
  cases hadded with
  | refused err hreason =>
      have heq : (h.assign id).nextID = h.nextID + 1 := Nat.mod_eq_of_lt hnext
      exact ⟨by simp only [heq]; omega, fun i _ hsome => hsome⟩
  | alone hdim hentry => exact hinserted
  | joined linked entry hdim hentry hlinked =>
      have hlinked' := hinserted.trans (alike_of_skeleton hlinked.skeleton).inherits
      simp only
      split
      next => exact hlinked'
      next => exact hlinked'

/-- Every node that is stored may be visited by a search. -/
theorem terrain_stored {p : Platform} (query : Vector) (qvec : Option Bytes) (hlayered : Layered h)
    {fault : Fault → Prop} (hfault : fault .vectorOutOfRange) :
    Terrain p h query qvec (fun _ => True) (fun _ => True) fault
      (fun node => h.getNodeFast node.id = some node ∧ node.id ≠ h.nextID) (fun _ => True) :=
  terrain_of_fresh query qvec (fun _ => trivial) hfault hlayered
    fun _ _ _ _ _ hnode hlist => hlayered.unlinked hnode hlist

/-- A search stays within the layers of the nodes and answers with stored ones. -/
theorem answer_keeps_stored (p : Platform) (hlayered : Layered h) (query : Query) :
    Traced.Keeps (fun _ => True) (fun fault => fault ≠ .layerOutOfRange)
      (Answers h (fun node => h.getNodeFast node.id = some node ∧ node.id ≠ h.nextID)
        (fun _ => True) query.k) (query.answer p h) := by
  have hterrain := @terrain_stored h p (query.prepared p h)
    (h.maybeQuantizeQuery p (query.prepared p h)) hlayered (fun fault => fault ≠ .layerOutOfRange)
    (by decide)
  refine query.answer_keeps hterrain (fun _ _ _ => trivial) (by decide) (fun _ _ => trivial)
    (fun node hnode => ?_) (fun _ _ => by decide) (fun _ => by decide)
  have hfast := (getNode_eq_some.mp hnode).1
  have hlinked := hlayered.node h.entry node hfast
  have hlt := hlinked.lt
  have hid := hlinked.id
  exact ⟨⟨by rw [hid]; exact hfast, by omega⟩, (hlayered.entry node hfast).ge⟩

end Index

/-- Whether a call replaces the index, with internal ids that start again. -/
def Op.restarts : Op → Bool
  | .rebuild => true
  | .load _ => true
  | .reopen _ => true
  | _ => false

section Runs

variable (setting : Setting)

theorem fault_ne_layerOutOfRange {site : Site} (hcoherent : Index.Coherent site.index)
    {input : Input} (hadmissible : Admissible site input) :
    setting.fault site input ≠ some .layerOutOfRange := by
  intro hfault
  obtain ⟨op, env⟩ := input
  cases op with
  | add id vec =>
      have hkeeps := @Index.add_keeps site.index setting.platform env (fun _ => True)
        (fun fault => fault ≠ .layerOutOfRange) (fun _ => trivial) (by decide) (fun _ => by decide)
        hcoherent hadmissible id vec
      exact hkeeps.fault?_eq_some hfault rfl
  | search query =>
      exact (Index.answer_keeps_stored setting.platform hcoherent.layered query).fault?_eq_some
        hfault rfl
  | cleanup batchSize =>
      have hkeeps := @Index.performCleanup_keeps site.index (fun _ => True)
        (fun fault => fault ≠ .layerOutOfRange) (by decide) hcoherent batchSize
      exact hkeeps.fault?_eq_some hfault rfl
  | pruneNeighbors maxNodes =>
      have hkeeps := @Index.pruneNeighbors_keeps site.index setting.platform (fun _ => True)
        (fun fault => fault ≠ .layerOutOfRange) (fun _ => trivial) (by decide) env maxNodes hcoherent
      exact hkeeps.fault?_eq_some hfault rfl
  | rebuild =>
      have hkeeps := @Index.rebuild_keeps site.index setting.platform env (fun _ => True)
        (fun fault => fault ≠ .layerOutOfRange) (fun _ => trivial) (by decide)
        (fun _ => by decide) hcoherent
      exact hkeeps.fault?_eq_some hfault rfl
  | delete id
  | setPruneConfig enabled
  | setSearchParallelism n
  | save
  | load slot
  | reopen slot => cases hfault

/-- A call that does not replace the index hands ids out once. -/
theorem step_inherits {site site' : Site} {input : Input} (hcoherent : Index.Coherent site.index)
    (hadmissible : Admissible site input) (hcontinues : input.op.restarts = false)
    (hstep : setting.step site input = some site') : Index.Inherits site.index site'.index := by
  obtain ⟨op, env⟩ := input
  cases op with
  | add id vec =>
      obtain ⟨result, houtcome, rfl⟩ := value?_map_eq_some hstep
      rcases Index.add_cases hcoherent hadmissible houtcome with ⟨rfl, _⟩ | hadded
      · exact Index.inherits_deleteNoLock env id
      · have hnext := (@Index.evicted_fields site.index env id).1
        exact (Index.inherits_evicted env id).trans
          (hadded.inherits (by rw [hnext]; exact hadmissible))
  | delete id =>
      cases hstep
      exact Index.inherits_deleteNoLock env id
  | search query =>
      obtain ⟨_, _, rfl⟩ := value?_map_eq_some hstep
      exact Index.Alike.refl.inherits
  | cleanup batchSize =>
      obtain ⟨index, houtcome, rfl⟩ := value?_map_eq_some hstep
      have hkeeps := @Index.performCleanup_keeps site.index (fun _ => True) (fun _ => True)
        trivial hcoherent batchSize
      exact (hkeeps.value index houtcome).2.inherits
  | pruneNeighbors maxNodes =>
      obtain ⟨index, houtcome, rfl⟩ := value?_map_eq_some hstep
      have hkeeps := @Index.pruneNeighbors_keeps site.index setting.platform (fun _ => True)
        (fun _ => True) (fun _ => trivial) trivial env maxNodes hcoherent
      exact (hkeeps.value index houtcome).2.inherits
  | setPruneConfig enabled
  | setSearchParallelism n
  | save =>
      cases hstep
      exact ⟨le_rfl, fun _ _ hsome => hsome⟩
  | rebuild
  | load slot
  | reopen slot => cases hcontinues

/-- In every state of a run the graph is layered, no call reads a list past the layers of a
node, and until the index is rebuilt or loaded again no internal id is given to a second
node. -/
theorem layering_of_run {inputs rest : List Input}
    (hmeets : Run.Meets setting.serve (During Admissible) (some setting.start) (inputs ++ rest))
    {site : Site} (hsite : Run.run setting.serve (some setting.start) inputs = some site) :
    site.index.Layering ∧
      (∀ input, Admissible site input → setting.fault site input ≠ some .layerOutOfRange) ∧
      ((∀ input ∈ rest, input.op.restarts = false) →
        ∀ site', Run.run setting.serve (some site) rest = some site' →
          Index.Inherits site.index site'.index) := by
  obtain ⟨hfirst, hrest⟩ := Run.meets_append.mp hmeets
  rw [hsite] at hrest
  have hholds := (kept_coherent setting).run hfirst hsite
  refine ⟨hholds.index.coherent.layered.layering,
    fun input hadmissible => fault_ne_layerOutOfRange setting hholds.index.coherent hadmissible, ?_⟩
  intro hcontinues
  clear hmeets hfirst hsite
  -- along the rest of the run, each call hands ids out once more
  induction rest generalizing site with
  | nil =>
      intro site' hsite'
      cases hsite'
      exact Index.Alike.refl.inherits
  | cons input rest ih =>
      intro site' hsite'
      rw [Run.run_cons] at hsite'
      obtain ⟨hadmissible, hrest⟩ := hrest
      cases hstep : setting.step site input with
      | none =>
          have hnone : setting.serve (some site) input = none := hstep
          have hstuck : ∀ inputs, Run.run setting.serve none inputs = none := by
            intro inputs
            induction inputs with
            | nil => rfl
            | cons _ _ ih => exact ih
          rw [hnone, hstuck] at hsite'
          cases hsite'
      | some middle =>
          have hserve : setting.serve (some site) input = some middle := hstep
          rw [hserve] at hsite' hrest
          have hmiddle := (kept_coherent setting).step (hadmissible site rfl) hholds hstep
          have hone := step_inherits setting hholds.index.coherent (hadmissible site rfl)
            (hcontinues input List.mem_cons_self) hstep
          exact hone.trans (ih hrest hmiddle
            (fun input hmem => hcontinues input (List.mem_cons_of_mem _ hmem)) site' hsite')

end Runs

theorem layering_of_run_mixedCalls :
    ∃ site, Run.run lineSetting.serve (some lineSetting.start) (mixedCalls.take 3) = some site ∧
      site.index.Layering ∧
        lineSetting.fault site (call (.search (.search one 2))) ≠ some .layerOutOfRange := by
  have hmeets : Run.Meets lineSetting.serve (During Admissible) (some lineSetting.start)
      (mixedCalls.take 3 ++ mixedCalls.drop 3) := by decide +kernel
  have hsome : (Run.run lineSetting.serve (some lineSetting.start)
      (mixedCalls.take 3)).isSome = true := by decide +kernel
  obtain ⟨site, hsite⟩ := Option.isSome_iff_exists.mp hsome
  obtain ⟨hlayering, hfaults, _⟩ := layering_of_run lineSetting hmeets hsite
  exact ⟨site, hsite, hlayering, hfaults (call (.search (.search one 2))) trivial⟩

/-- Storing an id again leaves the edges to its first node, which is gone. -/
theorem edge_to_missing_node :
    (Run.run lineSetting.serve (some lineSetting.start)
      [call (.add (nameOf 'a') one), call (.add (nameOf 'b') two),
        call (.add (nameOf 'b') three)]).map
        (fun site => ((site.index.getNodeFast 1).map Node.neighbors,
          (site.index.getNodeFast 2).isSome)) = some (some [[2, 3]], false) := by
  decide +kernel

end Vectron.Hnsw
