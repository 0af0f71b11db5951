import Vectron.Hnsw.Lifetime

/-! # What a search measures and returns

A deletion takes the vector out of a node and leaves the node where it is: in the lists of
its neighbours, and as the entry point if it was that. The searches do not look for this.
They are safe while the entry point is live and no deleted node can be reached from it, and
then they return live ids only. Under a metric that is not normalised a search that meets a
deleted node runs past the end of its vector, so that what it returns is live in any case.
-/

namespace Vectron.Hnsw

open Foundation
open Worker (Vector)

/-- Whether a call is a search. -/
def Op.isSearch : Op → Bool
  | .search _ => true
  | _ => false

namespace Index

variable {h : Index}

/-- A list of one stored node names another. -/
def Edge (h : Index) (a b : Nat) : Prop :=
  ∃ (node : Node) (l : Nat) (list : List Nat), h.getNodeFast a = some node ∧
    node.neighbors[l]? = some list ∧ b ∈ list ∧ (h.getNodeFast b).isSome

/-- The index is empty, or its entry point is live and leads to live nodes only. -/
def Clean (h : Index) : Prop :=
  h.entry = 0 ∨ (h.getNode h.entry).isSome ∧
    ∀ i node, Relation.ReflTransGen h.Edge h.entry i → h.getNodeFast i = some node →
      node.live = true

/-- No deleted node is stored, and the entry point is not missing. -/
def Spotless (h : Index) : Prop :=
  (h.entry = 0 ∨ (h.getNode h.entry).isSome) ∧ ∀ node ∈ h.storedNodes, node.live = true

instance (h : Index) : Decidable h.Spotless := by
  delta Spotless
  infer_instance

theorem Spotless.clean (hspotless : h.Spotless) : h.Clean := by
  obtain ⟨hentry, hlive⟩ := hspotless
  refine hentry.imp_right fun hsome => ⟨hsome, fun i node _ hnode => hlive node ?_⟩
  have hlt := lt_length_of_getNodeFast hnode
  refine List.mem_filterMap.mpr ⟨h.nodes[i], List.getElem_mem hlt, ?_⟩
  rw [nodes_getElem hlt]
  exact hnode

/-! ## Clean states -/

/-- What a search may visit in a clean state: the live nodes that the entry point leads to. -/
def Visitable (h : Index) (node : Node) : Prop :=
  h.getNodeFast node.id = some node ∧ Relation.ReflTransGen h.Edge h.entry node.id ∧
    node.live = true

theorem terrain_visitable {p : Platform} (query : Vector) (qvec : Option Bytes)
    {fault : Fault → Prop} (hfault : fault .vectorOutOfRange) (hlayered : Layered h)
    (hclean : ∀ i node, Relation.ReflTransGen h.Edge h.entry i → h.getNodeFast i = some node →
      node.live = true) :
    Terrain p h query qvec (fun _ => True) (fun node => node.live = true) fault h.Visitable
      h.Visitable where
  measure node hground :=
    (distanceToNode_keeps query qvec hground.2.2 hfault).imp fun _ _ => hground
  batchInt8 node hground stored _ :=
    (batchDistanceInt8_keeps query stored hground.2.2 hfault).imp fun _ _ => hground
  batchFloat node hground _ _ :=
    (batchDistanceFloat_keeps query hground.2.2 hfault).imp fun _ _ => hground
  stored node hground := hground.1
  closed l _ node hground _ hlayer := by
    obtain ⟨list, hlist⟩ := hlayered.list hground.1 hlayer
    refine ⟨list, hlist, fun nid hnid next hnext => ?_⟩
    have hid := (hlayered.node nid next hnext).id
    have hedge : h.Edge node.id nid :=
      ⟨node, l, list, hground.1, hlist, hnid, by rw [hnext]; rfl⟩
    have hreached := hground.2.1.tail hedge
    refine ⟨⟨by rw [hid]; exact hnext, by rw [hid]; exact hreached, hclean nid next hreached hnext⟩,
      hid, ?_⟩
    exact ((hlayered.node node.id node hground.1).edges l list hlist nid hnid).2.2 next hnext

/-- In a clean state a search measures live nodes only, finds its entry point, and returns
nodes it has measured. -/
theorem answer_keeps_of_clean (p : Platform) (hlayered : Layered h) (hclean : h.Clean)
    (query : Query) :
    Traced.Keeps (fun node => node.live = true) (fun fault => fault ≠ .nilDereference)
      (Answers h h.Visitable h.Visitable query.k) (query.answer p h) := by
  rcases hclean with hzero | ⟨hsome, hlive⟩
  · -- an empty index answers at once
    have hempty : Answers h h.Visitable h.Visitable query.k [] :=
      ⟨[], rfl, by simp, by simp, by simp⟩
    cases query with
    | search vec k =>
        rw [Query.answer, search, searchEf, if_pos hzero]
        exact Traced.Keeps.pure hempty
    | searchWithEf vec k ef =>
        rw [Query.answer, searchWithEf, searchEf, if_pos hzero]
        exact Traced.Keeps.pure hempty
    | searchTwoStage vec k stage1Ef candidateFactor =>
        rw [Query.answer, searchTwoStage, if_pos hzero]
        exact Traced.Keeps.pure hempty
  · have hterrain := @terrain_visitable h p (query.prepared p h)
      (h.maybeQuantizeQuery p (query.prepared p h)) (fun fault => fault ≠ .nilDereference)
      (by decide) hlayered hlive
    refine query.answer_keeps hterrain (fun _ hground _ => hground.2.2) (by decide)
      (fun _ _ => trivial) (fun node hnode => ?_) (fun _ hnone => ?_) (fun _ => by decide)
    · obtain ⟨hfast, hnodeLive⟩ := getNode_eq_some.mp hnode
      have hid := (hlayered.node h.entry node hfast).id
      exact ⟨⟨by rw [hid]; exact hfast, by rw [hid], hnodeLive⟩, (hlayered.entry node hfast).ge⟩
    · rw [hnone] at hsome
      cases hsome

end Index

/-- Searches are made in clean states only. -/
def Guarded (site : Site) (input : Input) : Prop :=
  Admissible site input ∧ (input.op.isSearch = true → site.index.Clean)

/-- A search computes no distance to a node whose vector was released, and does not follow a
missing entry point. -/
def Unharmed (p : Platform) (site : Site) (input : Input) : Prop :=
  ∀ query, input.op = .search query →
    (∀ node ∈ (query.answer p site.index).trace, node.live = true) ∧
      (query.answer p site.index).fault? ≠ some .nilDereference

section Runs

variable (setting : Setting)

/-- What holds of a call in every sound state holds of every call of a run. -/
theorem meets_of_kept {good : Index → Finset Bytes → Prop}
    (hkept : Kept setting Admissible (fun _ => True) good)
    {condition property : Site → Input → Prop}
    (hadmissible : ∀ site input, condition site input → Admissible site input)
    (hproperty : ∀ site input, condition site input →
      Index.Sound setting good site.index site.live → property site input)
    {inputs : List Input}
    (hmeets : Run.Meets setting.serve (During condition) (some setting.start) inputs) :
    Run.Meets setting.serve (During property) (some setting.start) inputs := by
  refine @Run.Meets.of_invariant _ _ setting.serve (During condition) (During property)
    (fun state => ∀ site, state = some site → site.Holds setting (fun _ => True) good)
    ?_ ?_ (some setting.start) inputs hmeets ?_
  · intro state input hcondition hstate site' hserve
    obtain ⟨site, hsome, hstep⟩ := Option.bind_eq_some_iff.mp hserve
    exact hkept.step (hadmissible site input (hcondition site hsome)) (hstate site hsome) hstep
  · intro state input hcondition hstate site hsome
    exact hproperty site input (hcondition site hsome) (hstate site hsome).index
  · intro site hsome
    cases hsome
    exact @Kept.run setting _ _ _ hkept [] trivial setting.start rfl

/-- In every run whose searches are made in clean states, every search is unharmed. -/
theorem searches_unharmed {inputs : List Input}
    (hmeets : Run.Meets setting.serve (During Guarded) (some setting.start) inputs) :
    Run.Meets setting.serve (During (Unharmed setting.platform)) (some setting.start) inputs := by
  refine meets_of_kept setting (kept_coherent setting) (fun _ _ hguarded => hguarded.1) ?_ hmeets
  intro site input hguarded hsound query hop
  have hclean := hguarded.2 (by rw [hop]; rfl)
  have hkeeps := Index.answer_keeps_of_clean setting.platform hsound.coherent.layered hclean query
  exact ⟨hkeeps.events, fun hfault => hkeeps.fault?_eq_some hfault rfl⟩

end Runs

theorem searches_unharmed_mixedCalls :
    Run.Meets lineSetting.serve (During Guarded) (some lineSetting.start) mixedCalls ∧
      Run.Meets lineSetting.serve (During (Unharmed lineSetting.platform)) (some lineSetting.start)
        mixedCalls := by
  have hspotless : Run.Meets lineSetting.serve (During fun site input =>
      Admissible site input ∧ (input.op.isSearch = true → site.index.Spotless))
      (some lineSetting.start) mixedCalls := by decide +kernel
  have hguarded : Run.Meets lineSetting.serve (During Guarded) (some lineSetting.start)
      mixedCalls := hspotless.imp fun state input hduring site hsome =>
    ⟨(hduring site hsome).1, fun hsearch => ((hduring site hsome).2 hsearch).clean⟩
  exact ⟨hguarded, searches_unharmed lineSetting hguarded⟩

/-- The panic of a search, and which of the nodes it measured were live. -/
def observed (p : Platform) (query : Query) (site : Site) : Option Fault × List Bool :=
  ((query.answer p site.index).fault?, (query.answer p site.index).trace.map Node.live)

/-- A search after the entry point was deleted follows a nil pointer, and a search after
another node was deleted measures it. -/
theorem search_after_deletion :
    (Run.run lineSetting.serve (some lineSetting.start)
      [call (.add (nameOf 'a') one), call (.delete (nameOf 'a'))]).map
        (observed plainPlatform (.search one 1)) = some (some .nilDereference, []) ∧
    (Run.run lineSetting.serve (some lineSetting.start)
      [call (.add (nameOf 'a') one), call (.add (nameOf 'b') two),
        call (.delete (nameOf 'b'))]).map (observed plainPlatform (.search one 1)) =
          some (some .vectorOutOfRange, [true, false]) := by
  decide +kernel

/-! ## What is returned -/

namespace Index

variable {h : Index}

/-- Without normalisation, a distance to a node without a vector is never computed to its
end. -/
theorem distanceToNode_live {p : Platform} {query : Vector} (hquery : query ≠ [])
    (hplain : h.isNormalized = false) (qvec : Option Bytes) (node : Node) :
    Traced.Keeps (fun _ => True) (fun _ => True) (fun _ => node.live = true)
      (h.distanceToNode p query qvec (some node)) := by
  refine (@Traced.Keeps.emit _ _ (fun _ => True) (fun _ => True) node trivial).bind fun _ _ => ?_
  cases hqvec : node.qvec with
  | some stored => exact Traced.Keeps.pure (by rw [Node.live, hqvec, Option.isSome_some, Bool.or_true])
  | none =>
      cases hvec : node.vec with
      | some vec =>
          exact (distanceWithNode_keeps (Or.inr trivial) _).imp fun _ _ => by
            rw [Node.live, hvec, Option.isSome_some, Bool.true_or]
      | none =>
          -- the first component of the query has no counterpart
          obtain ⟨first, rest, rfl⟩ := List.exists_cons_of_ne_nil hquery
          unfold distanceWithNode distance
          rw [hplain]
          simp only [Bool.false_eq_true, if_false]
          split
          next =>
            split
            next =>
              exact (@Traced.Keeps.raise _ _ _ _ _ (fun _ => False) _ trivial).bind
                fun _ hfalse => hfalse.elim
            next => exact Traced.Keeps.raise trivial
          next =>
            exact (@Traced.Keeps.raise _ _ _ _ _ (fun _ => False) _ trivial).bind
              fun _ hfalse => hfalse.elim

/-- Without normalisation a search measures what is live. -/
theorem terrain_plain {p : Platform} {query : Vector} (hquery : query ≠ []) (hflags : Flagged h)
    (hplain : h.isNormalized = false) (hlayered : Layered h) :
    Terrain p h query (h.maybeQuantizeQuery p query) (fun _ => True) (fun _ => True)
      (fun _ => True) (fun node => h.getNodeFast node.id = some node)
      (fun node => node.live = true) where
  measure node _ := distanceToNode_live hquery hplain _ node
  batchInt8 node _ stored hstored := by
    -- only normalised vectors are quantised
    unfold maybeQuantizeQuery at hstored
    split at hstored
    next hquantize =>
      rw [hflags.useQuantize] at hquantize
      rw [hflags.isNormalized, hflags.quantized hquantize] at hplain
      cases hplain
    next => cases hstored
  batchFloat node _ _ hnormalized := by
    rw [hflags.isNormalized, hnormalized] at hplain
    cases hplain
  stored node hground := hground
  closed l _ node hground _ hlayer := by
    obtain ⟨list, hlist⟩ := hlayered.list hground hlayer
    refine ⟨list, hlist, fun nid hnid next hnext => ?_⟩
    have hid := (hlayered.node nid next hnext).id
    refine ⟨by rw [hid]; exact hnext, hid, ?_⟩
    exact ((hlayered.node node.id node hground).edges l list hlist nid hnid).2.2 next hnext

theorem answer_keeps_of_plain (p : Platform) (hcoherent : Coherent h)
    (hplain : h.isNormalized = false) {query : Query} (hquery : query.vec ≠ []) :
    Traced.Keeps (fun _ => True) (fun _ => True)
      (Answers h (fun node => h.getNodeFast node.id = some node) (fun node => node.live = true)
        query.k) (query.answer p h) := by
  have hflags := hcoherent.tables.flags
  have hprepared : query.prepared p h = query.vec := by
    have hoff : (!h.isCosine || !h.config.normalizeVectors) = true := by
      have hboth : (h.config.cosine && h.config.normalizeVectors) = false :=
        hflags.isNormalized.symm.trans hplain
      rw [hflags.isCosine, ← Bool.not_and, hboth]
      rfl
    rw [Query.prepared, normalizedQuery, if_pos hoff]
  have hterrain := @terrain_plain h p (query.prepared p h) (by rw [hprepared]; exact hquery)
    hflags hplain hcoherent.layered
  refine query.answer_keeps hterrain (fun _ _ _ => trivial) trivial (fun _ _ => trivial)
    (fun node hnode => ?_) (fun _ _ => trivial) (fun _ => trivial)
  have hfast := (getNode_eq_some.mp hnode).1
  have hid := (hcoherent.layered.node h.entry node hfast).id
  exact ⟨by rw [hid]; exact hfast, (hcoherent.layered.entry node hfast).ge⟩

/-- The ids under which stored live nodes are returned are live and, for distinct nodes,
distinct. -/
theorem Answers.live {ground fit : Node → Prop} {k : Int} {answer : List (Bytes × Float32)}
    (htables : Tables h) (hanswers : Answers h ground fit k answer)
    (hstored : ∀ node, ground node → h.getNodeFast node.id = some node)
    (hlive : ∀ node, fit node → node.live = true) :
    (∀ id ∈ answer.map Prod.fst, Live h id) ∧ (answer.map Prod.fst).Nodup ∧
      (answer.length : Int) ≤ max k 0 := by
  obtain ⟨results, rfl, hplaced, hnodup, hlength⟩ := hanswers
  have hname : ∀ c ∈ results, h.idToUint32.lookup (h.externalID c.id) = some c.id := by
    intro c hc
    have hfast := hstored c.node (hplaced c hc).ground
    rw [← (hplaced c hc).id] at hfast
    obtain ⟨id, hlookup, hcache⟩ := (htables.node c.id c.node hfast).named
    have hexternal : h.externalID c.id = id := by
      unfold externalID
      rw [hcache]
    rw [hexternal]
    exact (htables.inverse id c.id).mpr hlookup
  have hids : (h.answer results).map Prod.fst = results.map fun c => h.externalID c.id := by
    rw [answer, List.map_map]
    rfl
  rw [hids]
  refine ⟨fun id hid => ?_, ?_, ?_⟩
  · obtain ⟨c, hc, rfl⟩ := List.mem_map.mp hid
    have hfast := hstored c.node (hplaced c hc).ground
    rw [← (hplaced c hc).id] at hfast
    exact ⟨c.id, c.node, hname c hc,
      getNode_eq_some.mpr ⟨hfast, hlive c.node (hplaced c hc).fit⟩⟩
  · have hpair := List.pairwise_map.mp hnodup
    refine List.pairwise_map.mpr (hpair.imp_of_mem fun hfirst hsecond hne heq => hne ?_)
    have hone := hname _ hfirst
    rw [heq, hname _ hsecond] at hone
    exact (Option.some.inj hone).symm
  · rw [answer, List.length_map]
    exact hlength

end Index

/-- Searches are made with a query that has components, without normalisation or in clean
states. -/
def Screened (site : Site) (input : Input) : Prop :=
  Admissible site input ∧ ∀ query, input.op = .search query →
    site.index.isNormalized = false ∧ query.vec ≠ [] ∨ site.index.Clean

/-- The ids a search returns were added and not deleted since, are distinct, and are at most
as many as it was asked for. -/
def ReturnsLive (p : Platform) (site : Site) (input : Input) : Prop :=
  ∀ query, input.op = .search query → ∀ answer, (query.answer p site.index).outcome = .ok answer →
    (∀ id ∈ answer.map Prod.fst, id ∈ site.live) ∧ (answer.map Prod.fst).Nodup ∧
      (answer.length : Int) ≤ max query.k 0

section Runs

variable (setting : Setting)

/-- What can be found was added and not deleted since. -/
theorem kept_recorded : Kept setting Admissible (fun _ => True)
    fun h live => ∀ id, Index.Live h id → id ∈ live where
  admissible _ _ hadmissible := hadmissible
  start id hlive := absurd hlive (Index.not_live_new _ _ id)
  alike _ _ _ halike hrecorded id hlive := hrecorded id ((halike.live id).mp hlive)
  add site env id vec result hadmissible hcoherent hadd hrecorded id' hlive := by
    rcases Index.add_cases hcoherent hadmissible hadd with ⟨rfl, _⟩ | hadded
    · exact hrecorded id' (((hcoherent.delete env id).2.1 id').mp hlive).2
    · obtain ⟨hevicted, hbefore, _⟩ := hcoherent.evicted env id
      have hnext := (@Index.evicted_fields site.index env id).1
      obtain ⟨_, hafter, _⟩ := hevicted.added (by rw [hnext]; exact hadmissible)
        (Index.lookup_evicted env id) hadded
      rcases (hafter id').mp hlive with ⟨rfl, hnone⟩ | hold
      · rw [hnone, Option.isNone_none, if_pos rfl]
        exact Finset.mem_insert_self _ _
      · have hmem := hrecorded id' ((hbefore id').mp hold).2
        split
        next => exact Finset.mem_insert_of_mem hmem
        next => exact hmem
  delete site env id _ hcoherent hrecorded id' hlive := by
    obtain ⟨hne, hold⟩ := ((hcoherent.delete env id).2.1 id').mp hlive
    exact Finset.mem_erase.mpr ⟨hne, hrecorded id' hold⟩
  rebuild site env result _ hcoherent hrebuild hrecorded id hlive := by
    have hkeeps := @Index.rebuild_keeps site.index setting.platform env (fun _ => True)
      (fun _ => True) (fun _ => trivial) trivial (fun _ => trivial) hcoherent
    exact hrecorded id ((hkeeps.value result hrebuild).2.2.2.1 id hlive)
  save _ _ _ := trivial
  reload _ _ _ _ _ _ hreloaded _ hrecorded id hlive := hrecorded id (hreloaded.live hlive)

/-- In every run whose searches are made without normalisation or in clean states, every
search returns distinct live ids, at most `k`. -/
theorem searches_return_live {inputs : List Input}
    (hmeets : Run.Meets setting.serve (During Screened) (some setting.start) inputs) :
    Run.Meets setting.serve (During (ReturnsLive setting.platform)) (some setting.start)
      inputs := by
  have hkept := kept_recorded setting
  refine meets_of_kept setting hkept (fun _ _ hscreened => hscreened.1) ?_ hmeets
  intro site input hscreened hsound query hop answer hanswer
  have hcoherent := hsound.coherent
  have hlive : (∀ id ∈ answer.map Prod.fst, Index.Live site.index id) ∧
      (answer.map Prod.fst).Nodup ∧ (answer.length : Int) ≤ max query.k 0 := by
    rcases hscreened.2 query hop with ⟨hplain, hquery⟩ | hclean
    · have hkeeps := Index.answer_keeps_of_plain setting.platform hcoherent hplain hquery
      exact (hkeeps.value answer hanswer).live hcoherent.tables (fun _ hstored => hstored)
        fun _ hlive => hlive
    · have hkeeps := Index.answer_keeps_of_clean setting.platform hcoherent.layered hclean query
      exact (hkeeps.value answer hanswer).live hcoherent.tables (fun _ hground => hground.1)
        fun _ hfit => hfit.2.2
  exact ⟨fun id hid => hsound.good id (hlive.1 id hid), hlive.2⟩

end Runs

theorem searches_return_live_mixedCalls :
    Run.Meets lineSetting.serve (During Screened) (some lineSetting.start) mixedCalls ∧
      Run.Meets lineSetting.serve (During (ReturnsLive lineSetting.platform))
        (some lineSetting.start) mixedCalls := by
  have hspotless : Run.Meets lineSetting.serve (During fun site input =>
      Admissible site input ∧ (input.op.isSearch = true → site.index.Spotless))
      (some lineSetting.start) mixedCalls := by decide +kernel
  have hscreened : Run.Meets lineSetting.serve (During Screened) (some lineSetting.start)
      mixedCalls := by
    refine hspotless.imp fun state input hduring site hsome => ⟨(hduring site hsome).1, ?_⟩
    intro query hop
    exact Or.inr ((hduring site hsome).2 (by rw [hop]; rfl)).clean
  exact ⟨hscreened, searches_return_live lineSetting hscreened⟩

/-- Normalised vectors under the cosine distance. -/
def unitSetting : Setting where
  platform := plainPlatform
  gob _ := none
  dim := 1
  config :=
    { plainConfig with
      distance := cosineName
      normalizeVectors := true }

/-- Under the normalised metric a deleted node is returned with the others. -/
theorem search_returns_deleted :
    (Run.run unitSetting.serve (some unitSetting.start)
      [call (.add (nameOf 'a') one), call (.add (nameOf 'b') two),
        call (.delete (nameOf 'b'))]).map (fun site =>
          (((Query.search one 2).answer plainPlatform site.index).value?.map (List.map Prod.fst),
            decide (nameOf 'b' ∈ site.live))) = some (some [nameOf 'a', nameOf 'b'], false) := by
  decide +kernel

end Vectron.Hnsw
