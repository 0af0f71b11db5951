import Vectron.Hnsw.SearchSafety

/-! # What stays reachable

Which live ids the entry point leads to along the edges of the lowest layer, before and after
one call. A deletion keeps every edge. An addition first drops the node its id had, with the
edges through it, and makes the new node the entry point if the old one is gone, was deleted
or stands in a lower layer.
-/

namespace Vectron.Hnsw

open Foundation
open Worker (Vector)

namespace Index

variable {h : Index}

/-- An edge of the lowest layer between stored nodes. -/
def GroundEdge (h : Index) (a b : Nat) : Prop :=
  ∃ (node : Node) (list : List Nat), h.getNodeFast a = some node ∧
    node.neighbors[0]? = some list ∧ b ∈ list ∧ (h.getNodeFast b).isSome

/-- A live id whose node the entry point leads to along the lowest layer. -/
def ReachableId (h : Index) (id : Bytes) : Prop :=
  ∃ n, h.idToUint32.lookup id = some n ∧ (h.getNode n).isSome ∧
    Relation.ReflTransGen h.GroundEdge h.entry n

/-- The edges of the lowest layer that do not touch the node of an id. -/
def EdgeWithout (h : Index) (id : Bytes) (a b : Nat) : Prop :=
  h.GroundEdge a b ∧ h.idToUint32.lookup id ≠ some a ∧ h.idToUint32.lookup id ≠ some b

/-- The layer that is drawn for the next node. -/
def drawnLayer (h : Index) (env : Env) : Nat :=
  randomLayer (env.grows h.nextID) h.config.maxLevel.toNat 0

/-- What keeps an id reachable when another one is added: the entry point is live and not
the node that is replaced, the path does not need that node, and if the new node is drawn
above the top layer, every node it may be linked to has such a path as well. -/
def Secure (h : Index) (env : Env) (id other : Bytes) : Prop :=
  (h.getNode h.entry).isSome ∧ h.idToUint32.lookup id ≠ some h.entry ∧
    ∃ n, h.idToUint32.lookup other = some n ∧
      Relation.ReflTransGen (h.EdgeWithout id) h.entry n ∧
      (h.drawnLayer env ≤ h.maxLayer ∨
        0 < h.config.m ∧ ∀ x, (h.getNodeFast x).isSome → h.idToUint32.lookup id ≠ some x →
          Relation.ReflTransGen (h.EdgeWithout id) x n)

/-! ## Edges that stay -/

theorem groundEdge_deleteNoLock (env : Env) (id : Bytes) {a b : Nat} (hedge : h.GroundEdge a b) :
    (h.deleteNoLock env id).1.GroundEdge a b := by
  obtain ⟨node, list, hnode, hlist, hmem, hsome⟩ := hedge
  obtain ⟨hsame, hkept⟩ := @getNodeFast_deleteNoLock h env id a
  rw [hnode] at hsame
  obtain ⟨node', hnode'⟩ := Option.isSome_iff_exists.mp hsame
  obtain ⟨old, hold, hneighbors, _⟩ := hkept node' hnode'
  rw [hnode] at hold
  obtain rfl := Option.some.inj hold
  refine ⟨node', list, hnode', by rw [hneighbors]; exact hlist, hmem, ?_⟩
  rw [(@getNodeFast_deleteNoLock h env id b).1]
  exact hsome

theorem getNodeFast_evicted (env : Env) {id : Bytes} {j : Nat}
    (hne : h.idToUint32.lookup id ≠ some j) :
    (h.evicted env id).getNodeFast j = (h.deleteNoLock env id).1.getNodeFast j := by
  unfold evicted
  split
  next hnone => rw [deleteNoLock, hnone]
  next n hsome =>
    rw [(@removed_dropNode (h.deleteNoLock env id).1 id n).getNodeFast, if_neg]
    rintro rfl
    exact hne hsome

theorem EdgeWithout.evicted (env : Env) {id : Bytes} {a b : Nat} (hedge : h.EdgeWithout id a b) :
    (h.evicted env id).GroundEdge a b := by
  obtain ⟨hground, ha, hb⟩ := hedge
  obtain ⟨node, list, hnode, hlist, hmem, hsome⟩ := groundEdge_deleteNoLock env id hground
  refine ⟨node, list, ?_, hlist, hmem, ?_⟩
  · rw [getNodeFast_evicted env ha]
    exact hnode
  · rw [getNodeFast_evicted env hb]
    exact hsome

/-- Insertion keeps the edges that are there. -/
theorem Added.groundEdge {p : Platform} {env : Env} {id : Bytes} {vec : Vector}
    {result : Index × Option AddError} (hlayered : Layered h)
    (hadded : Added p env h id vec result) {a b : Nat} (hedge : h.GroundEdge a b) :
    result.1.GroundEdge a b := by
  obtain ⟨node, list, hnode, hlist, hmem, hsome⟩ := hedge
  have ha := (hlayered.node a node hnode).lt
  obtain ⟨target, htarget⟩ := Option.isSome_iff_exists.mp hsome
  have hb := (hlayered.node b target htarget).lt
  have hnode' : (h.inserted p env id vec).getNodeFast a = some node := by
    rw [getNodeFast_inserted, if_neg (by omega)]
    exact hnode
  have htarget' : (h.inserted p env id vec).getNodeFast b = some target := by
    rw [getNodeFast_inserted, if_neg (by omega)]
    exact htarget
  cases hadded with
  | refused err hreason => exact ⟨node, list, hnode, hlist, hmem, hsome⟩
  | alone hdim hentry => exact ⟨node, list, hnode', hlist, hmem, by
      change ((h.inserted p env id vec).getNodeFast b).isSome = true
      rw [htarget']
      rfl⟩
  | joined linked entry hdim hentry hlinked =>
      obtain ⟨node', list', hnode', hlist', hsub⟩ :=
        hlinked.kept a node 0 list (by omega) hnode' hlist
      obtain ⟨target', htarget', _⟩ := hlinked.stored htarget'
      have hedge : linked.GroundEdge a b :=
        ⟨node', list', hnode', hlist', hsub hmem, by rw [htarget']; rfl⟩
      simp only
      split
      next => exact hedge
      next => exact hedge

/-- A node that is not replaced keeps its vector. -/
theorem getNode_evicted (env : Env) {id : Bytes} {j : Nat}
    (hne : h.idToUint32.lookup id ≠ some j) : (h.evicted env id).getNode j = h.getNode j := by
  rw [getNode, getNodeFast_evicted env hne, getNode]
  rcases @deleteNoLock_cases h env id with ⟨hsame, _⟩ | ⟨n, node, hlookup, hnode, hafter⟩
  · rw [hsame]
  · rw [hafter]
    simp only [getNodeFast_emptied hnode]
    rw [if_neg]
    rintro rfl
    exact hne hlookup

theorem drawnNode_layer {p : Platform} {env : Env} (vec : Vector) :
    (h.drawnNode p env vec).layer = h.drawnLayer env := by
  simp only [drawnNode, newNode, drawnLayer]
  split_ifs <;> rfl

/-! ## Paths that stay -/

/-- A path that avoids the replaced node is one of the index after the insertion. -/
theorem Added.path {p : Platform} {env : Env} {id : Bytes} {vec : Vector}
    {result : Index × Option AddError} (hcoherent : Coherent h)
    (hadded : Added p env (h.evicted env id) id vec result) {a b : Nat}
    (hpath : Relation.ReflTransGen (h.EdgeWithout id) a b) :
    Relation.ReflTransGen result.1.GroundEdge a b := by
  refine hpath.lift (fun x => x) fun first second hedge => ?_
  exact hadded.groundEdge (hcoherent.evicted env id).1.layered (hedge.evicted env)

theorem lookup_evicted_ne (env : Env) {id other : Bytes} (hne : other ≠ id) :
    (h.evicted env id).idToUint32.lookup other = h.idToUint32.lookup other := by
  unfold evicted
  split
  next => rfl
  next n _ =>
    have hdropped : ((h.deleteNoLock env id).1.dropNode id n).idToUint32 =
        (h.deleteNoLock env id).1.idToUint32.erase id := rfl
    rw [hdropped, AList.lookup_erase_ne hne, (@deleteNoLock_fields h env id).1]

/-- An id that is secure stays reachable. -/
theorem Secure.reachable {p : Platform} {env : Env} {id other : Bytes} {vec : Vector}
    {result : Index × Option AddError} (hcoherent : Coherent h)
    (hnext : h.nextID + 1 < 2 ^ 32) (hne : other ≠ id) (hlive : Live h other)
    (hsecure : h.Secure env id other) (hadded : Added p env (h.evicted env id) id vec result) :
    result.1.ReachableId other := by
  obtain ⟨hentry, hkept, n, hlookup, hpath, hroute⟩ := hsecure
  have hevicted := (hcoherent.evicted env id).1
  obtain ⟨hnextID, hentryID, hmax, hconfig, _⟩ := @evicted_fields h env id
  have hafter := (hevicted.added (by rw [hnextID]; exact hnext) (lookup_evicted env id) hadded).2.1
  have hids : result.1.idToUint32.lookup other = some n := by
    rw [hadded.fields.2.2.2, AList.lookup_insert_ne hne, lookup_evicted_ne env hne]
    exact hlookup
  have hsome : (result.1.getNode n).isSome := by
    have hlive' : Live result.1 other :=
      (hafter other).mpr (Or.inr (((hcoherent.evicted env id).2.1 other).mpr ⟨hne, hlive⟩))
    obtain ⟨n', node, hlookup', hnode⟩ := hlive'
    rw [hids] at hlookup'
    obtain rfl := Option.some.inj hlookup'
    rw [hnode]
    rfl
  have hpaths : ∀ a b, Relation.ReflTransGen (h.EdgeWithout id) a b →
      Relation.ReflTransGen result.1.GroundEdge a b := fun a b => hadded.path hcoherent
  refine ⟨n, hids, hsome, ?_⟩
  cases hadded with
  | refused err hreason =>
      have hpath' := hpaths h.entry n hpath
      rw [← hentryID] at hpath'
      exact hpath'
  | alone hdim hnone =>
      rw [hentryID, getNode_evicted env hkept] at hnone
      rw [hnone] at hentry
      cases hentry
  | joined linked entry hdim hfound hlinked =>
      have hlinkedEntry : linked.entry = h.entry := by
        have heq : linked.skeleton.entry =
          ((h.evicted env id).inserted p env id vec).skeleton.entry := by
          rw [hlinked.skeleton]
        exact heq.trans ((inserted_entry id vec).trans hentryID)
      by_cases hlt : (h.evicted env id).maxLayer <
          ((h.evicted env id).drawnNode p env vec).layer
      · simp only [if_pos hlt] at hpaths ⊢
        rw [drawnNode_layer, hmax, drawnLayer, hnextID, hconfig, ← drawnLayer] at hlt
        obtain ⟨hm, hall⟩ := hroute.resolve_left (by omega)
        -- the new entry point has a neighbour, which leads to the id
        obtain ⟨node, list, hnode, hlist, hstep⟩ := hlinked.own 0 le_rfl (Nat.zero_le _)
        obtain ⟨e, he, hnew, hstored⟩ := hstep (by rw [inserted_config, hconfig]; exact hm)
        have hedge : linked.GroundEdge (h.evicted env id).nextID e :=
          ⟨node, list, hnode, hlist, he, hstored⟩
        have hbefore : ((h.evicted env id).getNodeFast e).isSome := by
          have hinserted := (alike_of_skeleton hlinked.skeleton).stored e hstored
          rw [getNodeFast_inserted, if_neg hnew] at hinserted
          exact hinserted
        have hold : h.idToUint32.lookup id ≠ some e := by
          intro heq
          unfold Index.evicted at hbefore
          rw [heq] at hbefore
          simp only at hbefore
          rw [(@removed_dropNode (h.deleteNoLock env id).1 id e).getNodeFast, if_pos rfl] at hbefore
          cases hbefore
        have hbase : (h.getNodeFast e).isSome := by
          rw [getNodeFast_evicted env hold, (@getNodeFast_deleteNoLock h env id e).1] at hbefore
          exact hbefore
        have hrest := hpaths e n (hall e hbase hold)
        have hentered : (linked.enter ((h.evicted env id).drawnNode p env vec)).entry =
            (h.evicted env id).nextID := drawnNode_id vec
        rw [hentered]
        exact Relation.ReflTransGen.head hedge hrest
      · simp only [if_neg hlt] at hpaths ⊢
        rw [hlinkedEntry]
        exact hpaths h.entry n hpath

end Index

/-- An id is added only where every other id that is reachable is secure. -/
def Sheltered (site : Site) (input : Input) : Prop :=
  Admissible site input ∧ ∀ id vec, input.op = .add id vec → ∀ other, other ≠ id →
    site.index.ReachableId other → site.index.Secure input.env id other

/-- An addition or a deletion leaves every other reachable id reachable. -/
def KeepsReachable (setting : Setting) (site : Site) (input : Input) : Prop :=
  ∀ id, (∃ vec, input.op = .add id vec) ∨ input.op = .delete id →
    ∀ site', setting.step site input = some site' → ∀ other, other ≠ id →
      site.index.ReachableId other → site'.index.ReachableId other

/-- A deletion keeps every edge and the entry point. -/
theorem Index.ReachableId.delete {h : Index} (hcoherent : Index.Coherent h) (env : Env)
    {id other : Bytes} (hne : other ≠ id) (hreachable : h.ReachableId other) :
    (h.deleteNoLock env id).1.ReachableId other := by
  obtain ⟨n, hlookup, hsome, hpath⟩ := hreachable
  obtain ⟨hids, _, hentry, _⟩ := @Index.deleteNoLock_fields h env id
  have hlookup' : (h.deleteNoLock env id).1.idToUint32.lookup other = some n := by
    rw [hids]
    exact hlookup
  obtain ⟨node, hnode⟩ := Option.isSome_iff_exists.mp hsome
  have hlive := ((hcoherent.delete env id).2.1 other).mpr ⟨hne, n, node, hlookup, hnode⟩
  obtain ⟨n', node', hlookup'', hnode'⟩ := hlive
  rw [hlookup'] at hlookup''
  obtain rfl := Option.some.inj hlookup''
  refine ⟨n, hlookup', by rw [hnode']; rfl, ?_⟩
  rw [hentry]
  exact hpath.lift (fun x => x) fun _ _ hedge => Index.groundEdge_deleteNoLock env id hedge

section Runs

variable (setting : Setting)

/-- In every run whose additions find every other reachable id secure, additions and
deletions keep what is reachable. -/
theorem calls_keep_reachable {inputs : List Input}
    (hmeets : Run.Meets setting.serve (During Sheltered) (some setting.start) inputs) :
    Run.Meets setting.serve (During (KeepsReachable setting)) (some setting.start) inputs := by
  refine meets_of_kept setting (kept_coherent setting) (fun _ _ hsheltered => hsheltered.1) ?_ hmeets
  intro site input hsheltered hsound id hop site' hstep other hne hreachable
  have hcoherent := hsound.coherent
  obtain ⟨op, env⟩ := input
  rcases hop with ⟨vec, hadd⟩ | hdelete
  · obtain rfl : op = .add id vec := hadd
    have hsecure := hsheltered.2 id vec rfl other hne hreachable
    obtain ⟨result, houtcome, rfl⟩ := value?_map_eq_some hstep
    rcases Index.add_cases hcoherent hsheltered.1 houtcome with ⟨rfl, _⟩ | hadded
    · exact hreachable.delete hcoherent env hne
    · obtain ⟨n, hlookup, hsome, _⟩ := hreachable
      obtain ⟨node, hnode⟩ := Option.isSome_iff_exists.mp hsome
      exact hsecure.reachable hcoherent hsheltered.1 hne ⟨n, node, hlookup, hnode⟩ hadded
  · obtain rfl : op = .delete id := hdelete
    cases hstep
    exact hreachable.delete hcoherent env hne

end Runs

/-- The id is new, its node is drawn in a layer that exists, and the entry point is live
unless the index is empty. -/
def Index.Unclaimed (h : Index) (env : Env) (id : Bytes) : Prop :=
  h.idToUint32.lookup id = none ∧ h.drawnLayer env ≤ h.maxLayer ∧
    (h.idToUint32.entries = [] ∨ (h.getNode h.entry).isSome = true)

instance (h : Index) (env : Env) (id : Bytes) : Decidable (h.Unclaimed env id) := by
  delta Index.Unclaimed
  infer_instance

/-- Such an id is no danger to the others. -/
theorem Index.Unclaimed.secure {h : Index} {env : Env} {id other : Bytes}
    (hunclaimed : h.Unclaimed env id) (hreachable : h.ReachableId other) :
    h.Secure env id other := by
  obtain ⟨hnew, hlayer, hentry⟩ := hunclaimed
  obtain ⟨n, hlookup, _, hpath⟩ := hreachable
  have hsome : (h.getNode h.entry).isSome = true := by
    refine hentry.resolve_left fun hnil => ?_
    have hmem := AList.mem_lookup_iff.mp hlookup
    rw [hnil] at hmem
    cases hmem
  have havoid : ∀ x, h.idToUint32.lookup id ≠ some x := by
    intro x
    rw [hnew]
    exact nofun
  refine ⟨hsome, havoid _, n, hlookup, ?_, Or.inl hlayer⟩
  exact hpath.lift (fun x => x) fun a b hedge => ⟨hedge, havoid a, havoid b⟩

/-- The id a call adds. -/
def Op.addedId : Op → Option Bytes
  | .add id _ => some id
  | _ => none

theorem calls_keep_reachable_mixedCalls :
    Run.Meets lineSetting.serve (During Sheltered) (some lineSetting.start) (mixedCalls.take 8) ∧
      Run.Meets lineSetting.serve (During (KeepsReachable lineSetting)) (some lineSetting.start)
        (mixedCalls.take 8) := by
  have hchecked : Run.Meets lineSetting.serve (During fun site input => Admissible site input ∧
      ∀ id ∈ input.op.addedId, site.index.Unclaimed input.env id) (some lineSetting.start)
      (mixedCalls.take 8) := by decide +kernel
  have hsheltered : Run.Meets lineSetting.serve (During Sheltered) (some lineSetting.start)
      (mixedCalls.take 8) := by
    refine hchecked.imp fun state input hduring site hsome => ⟨(hduring site hsome).1, ?_⟩
    intro id vec hop other _ hreachable
    have hadded : id ∈ input.op.addedId := by
      rw [hop]
      rfl
    exact ((hduring site hsome).2 id hadded).secure hreachable
  exact ⟨hsheltered, calls_keep_reachable lineSetting hsheltered⟩

/-- What the entry point, an id and the node of the entry point are. -/
def surroundings (id : Bytes) (site : Site) : Nat × Option Nat × Option (List (List Nat)) :=
  (site.index.entry, site.index.idToUint32.lookup id,
    (site.index.getNodeFast site.index.entry).map Node.neighbors)

/-- Storing the id of the entry point again makes its new node an entry point without edges,
and the other id can no longer be reached. -/
theorem entry_overwritten :
    ∃ site site', Run.run lineSetting.serve (some lineSetting.start)
        [call (.add (nameOf 'a') one), call (.add (nameOf 'b') two)] = some site ∧
      lineSetting.step site (call (.add (nameOf 'a') three)) = some site' ∧
      site.index.ReachableId (nameOf 'b') ∧ ¬ site'.index.ReachableId (nameOf 'b') := by
  have hbefore : (Run.run lineSetting.serve (some lineSetting.start)
      [call (.add (nameOf 'a') one), call (.add (nameOf 'b') two)]).any (fun site =>
        decide (surroundings (nameOf 'b') site = (1, some 2, some [[2]])) &&
          (site.index.getNode 2).isSome &&
          (lineSetting.step site (call (.add (nameOf 'a') three))).any fun site' =>
            decide (surroundings (nameOf 'b') site' = (3, some 2, some [[]]))) = true := by
    decide +kernel
  obtain ⟨site, hsite, hboth⟩ := (Option.any_eq_true _ _).mp hbefore
  rw [Bool.and_eq_true, Bool.and_eq_true, decide_eq_true_iff, Option.any_eq_true] at hboth
  obtain ⟨⟨hfirst, hlive⟩, site', hstep, hlast⟩ := hboth
  rw [decide_eq_true_iff] at hlast
  simp only [surroundings, Prod.mk.injEq] at hfirst hlast
  obtain ⟨hentry, hlookup, hlists⟩ := hfirst
  obtain ⟨hentry', hlookup', hlists'⟩ := hlast
  refine ⟨site, site', hsite, hstep, ⟨2, hlookup, hlive, ?_⟩, ?_⟩
  · obtain ⟨node, hnode, hneighbors⟩ := Option.map_eq_some_iff.mp hlists
    obtain ⟨target, htarget⟩ := Option.isSome_iff_exists.mp hlive
    refine Relation.ReflTransGen.single ⟨node, [2], hnode, by rw [hneighbors]; rfl, by simp, ?_⟩
    rw [(Index.getNode_eq_some.mp htarget).1]
    rfl
  · rintro ⟨n, hn, _, hpath⟩
    rw [hlookup'] at hn
    obtain rfl := Option.some.inj hn
    -- no edge leaves the new entry point
    rcases Relation.ReflTransGen.cases_head hpath with heq | ⟨next, hedge, _⟩
    · rw [hentry'] at heq
      cases heq
    · obtain ⟨node, list, hnode, hlist, hmem, _⟩ := hedge
      rw [hnode, Option.map_some] at hlists'
      rw [Option.some.inj hlists'] at hlist
      cases hlist
      cases hmem

end Vectron.Hnsw
