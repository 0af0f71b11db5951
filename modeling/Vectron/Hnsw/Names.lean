import Vectron.Hnsw.Lifetime

/-! # The names of the nodes

Three tables lead between external and internal ids. Over every run of calls in which the
internal ids do not run out they agree: the two maps are inverse to each other, and a hit of
a search is translated back to the id its node was added under. The internal ids are 32-bit
numbers that wrap around, and after that they do not agree any more.
-/

namespace Vectron.Hnsw

open Foundation
open Worker (Vector)

namespace Index

variable {h : Index}

/-- The maps are inverse to each other, and the cache holds the name of every stored node,
which is the one a search returns for it. -/
structure Translates (h : Index) : Prop where
  inverse : ∀ id n, h.idToUint32.lookup id = some n ↔ h.uint32ToID.lookup n = some id
  cached : ∀ n, (h.getNodeFast n).isSome → ∃ id, h.uint32ToID.lookup n = some id ∧
    h.extIDCache[n]? = some id ∧ h.externalID n = id

theorem Tables.translates (htables : Tables h) : Translates h where
  inverse := htables.inverse
  cached n hstored := by
    obtain ⟨node, hnode⟩ := Option.isSome_iff_exists.mp hstored
    obtain ⟨id, hname, hcache⟩ := (htables.node n node hnode).named
    refine ⟨id, hname, hcache, ?_⟩
    unfold externalID
    rw [hcache]

/-! ## Names stay with their nodes -/

/-- Every name was there before, under the same internal id. -/
def KeepsNames (h h' : Index) : Prop :=
  ∀ n id, h'.uint32ToID.lookup n = some id → h.uint32ToID.lookup n = some id

theorem KeepsNames.refl : KeepsNames h h := fun _ _ hname => hname

theorem KeepsNames.trans {h' h'' : Index} (hfirst : KeepsNames h h')
    (hsecond : KeepsNames h' h'') : KeepsNames h h'' := fun n id hname =>
  hfirst n id (hsecond n id hname)

theorem KeepsNames.of_eq {h' : Index} (heq : h'.uint32ToID = h.uint32ToID) : KeepsNames h h' := by
  intro n id hname
  rw [← heq]
  exact hname

theorem KeepsNames.of_erase {h' : Index} {m : Nat} (heq : h'.uint32ToID = h.uint32ToID.erase m) :
    KeepsNames h h' := by
  intro n id hname
  rw [heq] at hname
  by_cases hn : n = m
  · subst hn
    simp at hname
  · rw [AList.lookup_erase_ne hn] at hname
    exact hname

theorem KeepsNames.of_skeleton {h' : Index} (hskeleton : h'.skeleton = h.skeleton) :
    KeepsNames h h' := by
  have heq : h'.skeleton.uint32ToID = h.skeleton.uint32ToID := by rw [hskeleton]
  exact KeepsNames.of_eq heq

theorem keepsNames_deleteNoLock (env : Env) (id : Bytes) :
    KeepsNames h (h.deleteNoLock env id).1 := by
  rcases @deleteNoLock_cases h env id with ⟨hsame, _⟩ | ⟨n, node, _, _, hafter⟩
  · rw [hsame]
    exact KeepsNames.refl
  · rw [hafter]
    exact KeepsNames.of_eq rfl

theorem keepsNames_evicted (env : Env) (id : Bytes) : KeepsNames h (h.evicted env id) := by
  unfold evicted
  split
  next => exact KeepsNames.refl
  next n _ =>
    have hdropped : KeepsNames (h.deleteNoLock env id).1
        ((h.deleteNoLock env id).1.dropNode id n) := KeepsNames.of_erase rfl
    exact (keepsNames_deleteNoLock env id).trans hdropped

section Cleanup

variable {event : Node → Prop} {fault : Fault → Prop}

theorem cleanupLoop_keepsNames (hfault : fault .nilDereference) (batchSize : Int)
    (slots : List Nat) {state : Index × Nat × List Nat} (hnames : KeepsNames h state.1) :
    Traced.Keeps event fault (fun result => KeepsNames h result.1)
      (cleanupLoop batchSize slots state) := by
  induction slots generalizing state with
  | nil => exact Traced.Keeps.pure hnames
  | cons idx rest ih =>
      obtain ⟨current, removed, affected⟩ := state
      rw [cleanupLoop]
      refine Traced.Keeps.ite (fun _ => Traced.Keeps.pure hnames) (fun _ => ?_)
      refine Traced.Keeps.ite (fun _ => ih hnames) (fun _ => ?_)
      cases hnode : current.getNodeFast idx with
      | none => exact Traced.Keeps.raise hfault
      | some node =>
          refine Traced.Keeps.ite (fun _ => ih hnames) (fun _ => ?_)
          have hremoved : KeepsNames current (current.removeDeleted idx) := KeepsNames.of_erase rfl
          exact ih (hnames.trans hremoved)

theorem filterDead_skeleton (id : Nat) : (h.filterDead id).skeleton = h.skeleton := by
  unfold filterDead
  split
  next => rfl
  next => exact skeleton_modifyNode id fun _ => rfl

theorem keepsNames_foldl_filterDead (affected : List Nat) :
    KeepsNames h (affected.foldl filterDead h) := by
  induction affected generalizing h with
  | nil => exact KeepsNames.refl
  | cons id rest ih => exact (KeepsNames.of_skeleton (filterDead_skeleton id)).trans ih

theorem keepsNames_maybeUpdateEntryPoint : KeepsNames h h.maybeUpdateEntryPoint := by
  apply KeepsNames.of_eq
  unfold maybeUpdateEntryPoint
  split
  next => rfl
  next => split <;> rfl

theorem performCleanup_keepsNames (hfault : fault .nilDereference) (batchSize : Int) :
    Traced.Keeps event fault (KeepsNames h) (performCleanup batchSize h) := by
  unfold performCleanup
  refine (cleanupLoop_keepsNames hfault batchSize _ KeepsNames.refl).bind fun result hresult => ?_
  have hfiltered := hresult.trans (keepsNames_foldl_filterDead result.2.2)
  refine Traced.Keeps.pure ?_
  split
  next => exact hfiltered.trans keepsNames_maybeUpdateEntryPoint
  next => exact hfiltered

end Cleanup

theorem pruneNeighbors_keepsNames {p : Platform} {event : Node → Prop} {fault : Fault → Prop}
    (hevent : ∀ node, event node) (hfault : fault .vectorOutOfRange) (env : Env) (maxNodes : Int)
    (hcoherent : Coherent h) :
    Traced.Keeps event fault (KeepsNames h) (pruneNeighbors p env maxNodes h) := by
  unfold pruneNeighbors
  refine Traced.Keeps.ite (fun _ => Traced.Keeps.pure KeepsNames.refl) (fun hm => ?_)
  have htaken := hcoherent.of_pruneCandidates
    (h.takePruneCandidates env.order maxNodes).2.pruneCandidates
  refine (pruneLoop_keeps hevent hfault maxNodes _ 0 (by simpa using hm) htaken).imp ?_
  intro pruned hpruned
  exact KeepsNames.of_skeleton hpruned.2

end Index

/-! ## Where the nodes come from -/

/-- The id that the node of an internal id was added under, now and in each snapshot, as the
calls alone tell it. -/
structure Origins where
  current : Nat → Option Bytes
  saved : List (Nat → Option Bytes)

namespace Setting

variable (setting : Setting)

/-- Whether `Load` of a snapshot into an index succeeds. -/
def loads (receiver : Index) (slot : Nat) (site : Site) : Bool :=
  site.saved[slot]?.any fun saved => (receiver.load setting.gob saved.bytes).isOk

/-- The nodes that are read back are those of the snapshot. -/
def originsLoaded (receiver : Index) (slot : Nat) (site : Site) (origins : Origins) : Origins :=
  if setting.loads receiver slot site then
    { origins with current := (origins.saved[slot]?).getD origins.current }
  else origins

/-- What a call does to the origins. `Add` hands out the next internal id, and a rebuild gives
the live nodes, in the order of the table, the ids from 1 on. -/
def originsAfter (site : Site) (op : Op) (origins : Origins) : Origins :=
  match op with
  | .add id _ =>
      { origins with current := fun n =>
          if n = site.index.nextID then some id else origins.current n }
  | .rebuild =>
      { origins with current := fun n =>
          if n = 0 then none
          else (site.index.liveNodes[n - 1]?).bind fun node => origins.current node.id }
  | .save => { origins with saved := origins.saved ++ [origins.current] }
  | .load slot => setting.originsLoaded site.index slot site origins
  | .reopen slot => setting.originsLoaded setting.fresh slot site origins
  | _ => origins

/-- A process beside the origins of its nodes. -/
def chronicle (state : Option Site × Origins) (input : Input) : Option Site × Origins :=
  (setting.serve state.1 input,
    state.1.elim state.2 fun site => setting.originsAfter site input.op state.2)

/-- A new index, which has no nodes. -/
def unwritten : Option Site × Origins := (some setting.start, ⟨fun _ => none, []⟩)

end Setting

/-- Every name is that of the origin of its internal id. -/
def Index.NamedBy (h : Index) (origin : Nat → Option Bytes) : Prop :=
  ∀ n name, h.uint32ToID.lookup n = some name → origin n = some name

theorem Index.KeepsNames.namedBy {h h' : Index} {origin : Nat → Option Bytes}
    (hkeeps : Index.KeepsNames h h') (hnamed : h.NamedBy origin) : h'.NamedBy origin :=
  fun n name hname => hnamed n name (hkeeps n name hname)

/-- The names of an index and of the snapshots taken of it are those of the origins. -/
structure Site.Attributed (site : Site) (origins : Origins) : Prop where
  index : site.index.NamedBy origins.current
  saved : List.Forall₂ (fun saved origin => ∃ h order, Index.Coherent h ∧ h.Fits ∧
    saved.bytes = h.save order ∧ h.NamedBy origin) site.saved origins.saved

section Runs

variable (setting : Setting)

theorem Site.Attributed.recalled {site : Site} {origins : Origins}
    (hattributed : site.Attributed origins) (receiver : Index) (slot : Nat) :
    (setting.loadInto receiver slot site).Attributed
      (setting.originsLoaded receiver slot site origins) := by
  rw [Setting.originsLoaded, Setting.loads, Setting.loadInto]
  cases hslot : site.saved[slot]? with
  | none => exact hattributed
  | some saved =>
      obtain ⟨origin, horigin, h, order, hcoherent, hfits, hbytes, hnamed⟩ :
          ∃ origin, origins.saved[slot]? = some origin ∧ ∃ h order, Index.Coherent h ∧ h.Fits ∧
            saved.bytes = h.save order ∧ h.NamedBy origin := by
        obtain ⟨hlt, hget⟩ := List.getElem?_eq_some_iff.mp hslot
        have hlt' : slot < origins.saved.length := hattributed.saved.length_eq ▸ hlt
        have hboth := hattributed.saved.get hlt hlt'
        rw [List.get_eq_getElem, List.get_eq_getElem, hget] at hboth
        exact ⟨_, List.getElem?_eq_getElem hlt', hboth⟩
      have hload := Index.load_save hcoherent hfits order setting.gob receiver
      rw [← hbytes] at hload
      have hreloaded := Index.reloaded_install hcoherent order receiver
      simp only [Option.any_some, hload, horigin]
      refine ⟨fun n name hname => ?_, hattributed.saved⟩
      rw [hreloaded.names] at hname
      exact hnamed n name hname

/-- One call keeps the names those of the origins. -/
theorem step_attributed {site site' : Site} {origins : Origins} {input : Input}
    (hcoherent : Index.Coherent site.index) (hadmissible : Admissible site input)
    (hattributed : site.Attributed origins) (hstep : setting.step site input = some site') :
    site'.Attributed (setting.originsAfter site input.op origins) := by
  obtain ⟨op, env⟩ := input
  have hkept : ∀ {index : Index} {live : Finset Bytes}, Index.KeepsNames site.index index →
      Site.Attributed { site with index := index, live := live } origins := fun hkeeps =>
    ⟨hkeeps.namedBy hattributed.index, hattributed.saved⟩
  cases op with
  | add id vec =>
      obtain ⟨result, houtcome, rfl⟩ := value?_map_eq_some hstep
      refine ⟨fun n name hname => ?_, hattributed.saved⟩
      have hname : result.1.uint32ToID.lookup n = some name := hname
      -- no name is older than the internal id it stands for
      have hold : site.index.uint32ToID.lookup n = some name →
          (if n = site.index.nextID then some id else origins.current n) = some name := by
        intro hbefore
        have hlt := (hcoherent.tables.handed n name hbefore).2
        rw [if_neg (by omega)]
        exact hattributed.index n name hbefore
      rcases Index.add_cases hcoherent hadmissible houtcome with ⟨rfl, _⟩ | hadded
      · exact hold (Index.keepsNames_deleteNoLock env id n name hname)
      · rw [hadded.uint32ToID, GoMap.lookup_insert_if,
          (@Index.evicted_fields site.index env id).1] at hname
        split at hname
        next hn =>
          cases hname
          exact if_pos hn
        next => exact hold (Index.keepsNames_evicted env id n name hname)
  | delete id =>
      cases hstep
      exact hkept (Index.keepsNames_deleteNoLock env id)
  | search query =>
      obtain ⟨_, _, rfl⟩ := value?_map_eq_some hstep
      exact hattributed
  | cleanup batchSize =>
      obtain ⟨index, houtcome, rfl⟩ := value?_map_eq_some hstep
      have hkeeps := @Index.performCleanup_keepsNames site.index (fun _ => True) (fun _ => True)
        trivial batchSize
      exact hkept (hkeeps.value index houtcome)
  | pruneNeighbors maxNodes =>
      obtain ⟨index, houtcome, rfl⟩ := value?_map_eq_some hstep
      have hkeeps := @Index.pruneNeighbors_keepsNames site.index setting.platform (fun _ => True)
        (fun _ => True) (fun _ => trivial) trivial env maxNodes hcoherent
      exact hkept (hkeeps.value index houtcome)
  | rebuild =>
      obtain ⟨result, houtcome, rfl⟩ := value?_map_eq_some hstep
      have hkeeps := @Index.rebuild_keeps site.index setting.platform env (fun _ => True)
        (fun _ => True) (fun _ => trivial) trivial (fun _ => trivial) hcoherent
      refine ⟨fun n name hname => ?_, hattributed.saved⟩
      obtain ⟨i, hi, rfl⟩ := (hkeeps.value result houtcome).2.2.2.2.2 n name hname
      rw [Index.liveVectors_eq, List.map_map, List.getElem?_map] at hi
      obtain ⟨node, hnode, hid⟩ := Option.map_eq_some_iff.mp hi
      have hlookup := (Index.relisted_fst hcoherent (List.mem_of_getElem? hnode)).mp hid
      simp only [Setting.originsAfter, Nat.add_sub_cancel_left, hnode]
      rw [if_neg (by omega)]
      exact hattributed.index node.id name ((hcoherent.tables.inverse name node.id).mp hlookup)
  | setPruneConfig enabled
  | setSearchParallelism n =>
      cases hstep
      exact hkept (Index.KeepsNames.of_eq rfl)
  | save =>
      cases hstep
      exact ⟨hattributed.index, List.rel_append hattributed.saved
        (.cons ⟨site.index, env.order, hcoherent, hadmissible, rfl, hattributed.index⟩ .nil)⟩
  | load slot =>
      cases hstep
      exact hattributed.recalled setting site.index slot
  | reopen slot =>
      cases hstep
      exact hattributed.recalled setting setting.fresh slot

/-- What a run with origins keeps. -/
def Chronicled (state : Option Site × Origins) : Prop :=
  ∀ site, state.1 = some site →
    site.Holds setting (fun _ => True) (fun _ _ => True) ∧ site.Attributed state.2

theorem chronicle_chronicled (state : Option Site × Origins) (input : Input)
    (hduring : During Admissible state.1 input) (hchronicled : Chronicled setting state) :
    Chronicled setting (setting.chronicle state input) := by
  intro site' hserve
  obtain ⟨site, hsite, hstep⟩ := Option.bind_eq_some_iff.mp hserve
  obtain ⟨hholds, hattributed⟩ := hchronicled site hsite
  have hadmissible := hduring site hsite
  have horigins : (setting.chronicle state input).2 = setting.originsAfter site input.op state.2 := by
    rw [Setting.chronicle, hsite]
    rfl
  rw [horigins]
  exact ⟨(kept_coherent setting).step hadmissible hholds hstep,
    step_attributed setting hholds.index.coherent hadmissible hattributed hstep⟩

/-- In every state of a run in which the internal ids do not run out the three tables agree,
and every stored node, those that a search returns among them, has the name it was added
under. -/
theorem names_of_run {inputs : List Input} {site : Site} {origins : Origins}
    (hmeets : Run.Meets setting.chronicle (fun state => During Admissible state.1)
      setting.unwritten inputs)
    (hsite : Run.run setting.chronicle setting.unwritten inputs = (some site, origins)) :
    site.index.Translates ∧
      (∀ n, (site.index.getNodeFast n).isSome →
        origins.current n = some (site.index.externalID n)) ∧
      ∀ query hits, (Query.answer setting.platform site.index query).outcome = .ok hits →
        ∀ hit ∈ hits, ∃ n, (site.index.getNodeFast n).isSome ∧ origins.current n = some hit.1 := by
  have hstart : Chronicled setting setting.unwritten := by
    intro site hsite
    obtain rfl := Option.some.inj hsite
    exact ⟨⟨⟨Index.coherent_new _ _, rfl, trivial⟩, by simp [Setting.start]⟩,
      fun n name hname => by simp [Setting.start, Setting.fresh, Index.new] at hname, .nil⟩
  have hend := Run.run_invariant (chronicle_chronicled setting) hmeets hstart
  rw [hsite] at hend
  obtain ⟨hholds, hattributed⟩ := hend site rfl
  have hcoherent := hholds.index.coherent
  have htranslates := hcoherent.tables.translates
  have hstored : ∀ n, (site.index.getNodeFast n).isSome →
      origins.current n = some (site.index.externalID n) := by
    intro n hnode
    obtain ⟨id, hname, _, hexternal⟩ := htranslates.cached n hnode
    rw [hexternal]
    exact hattributed.index n id hname
  refine ⟨htranslates, hstored, fun query hits hhits hit hhit => ?_⟩
  obtain ⟨results, rfl, hplaced, _⟩ :=
    (Index.answer_keeps_stored setting.platform hcoherent.layered query).value hits hhits
  obtain ⟨c, hc, rfl⟩ := List.mem_map.mp hhit
  have hnode : (site.index.getNodeFast c.id).isSome := by
    rw [(hplaced c hc).id, (hplaced c hc).ground.1, Option.isSome_some]
  exact ⟨c.id, hnode, hstored c.id hnode⟩

end Runs

theorem names_of_run_mixedCalls :
    Run.Meets lineSetting.chronicle (fun state => During Admissible state.1) lineSetting.unwritten
        mixedCalls ∧
      ∃ site origins, Run.run lineSetting.chronicle lineSetting.unwritten mixedCalls =
          (some site, origins) ∧ site.index.Translates ∧
        (site.index.getNodeFast 2).isSome = true ∧ site.index.externalID 2 = nameOf 'b' ∧
        origins.current 2 = some (nameOf 'b') := by
  have hmeets : Run.Meets lineSetting.chronicle (fun state => During Admissible state.1)
      lineSetting.unwritten mixedCalls := by decide +kernel
  have hvalue : (Run.run lineSetting.chronicle lineSetting.unwritten mixedCalls).1.map
      (fun site => ((site.index.getNodeFast 2).isSome, site.index.externalID 2)) =
        some (true, nameOf 'b') := by decide +kernel
  obtain ⟨site, hsite, hpair⟩ := Option.map_eq_some_iff.mp hvalue
  obtain ⟨hstored, hname⟩ := Prod.mk.inj hpair
  obtain ⟨htranslates, hnames, _⟩ := names_of_run lineSetting hmeets (Prod.ext hsite rfl)
  exact ⟨hmeets, site, _, Prod.ext hsite rfl, htranslates, hstored, hname,
    hname ▸ hnames 2 hstored⟩

/-! ## Running out of internal ids

A vector of the wrong dimension is refused, but not before an internal id was assigned.
-/

/-- The call that is repeated. -/
def refusedCall : Input := call (.add (nameOf 'x') [])

/-- The site after one vector was added under a name, with these tables between the ids. -/
def oneNode (name : Bytes) (ids : GoMap Bytes Nat) (names : GoMap Nat Bytes) (next : Nat) : Site where
  index := { lineSetting.fresh with
    entry := 1
    nodes := [none, some ⟨1, some one, none, (0 : Float32).toBits, 0, [[]]⟩]
    nodeCount := 1
    idToUint32 := ids
    uint32ToID := names
    extIDCache := [[], name]
    nextID := next }
  saved := []
  live := {name}

/-- The site after the first call. -/
def firstSite (name : Bytes) : Site :=
  oneNode name (AList.singleton name 1) (AList.singleton 1 name) 2

theorem serve_first (name : Bytes) :
    lineSetting.serve (some lineSetting.start) (call (.add name one)) = some (firstSite name) := by
  with_unfolding_all rfl

/-- The internal ids of the last refused call and of the next one. -/
def refusedAt (last next : Nat) : Site :=
  oneNode (nameOf 'a') ((AList.singleton (nameOf 'a') 1).insert (nameOf 'x') last)
    ((AList.singleton 1 (nameOf 'a')).insert last (nameOf 'x')) next

/-- Another refused call assigns an id and leaves it at that. -/
theorem serve_refused {last next : Nat} (hlast : last ≠ 1) :
    lineSetting.serve (some (refusedAt last next)) refusedCall =
      some (refusedAt next ((next + 1) % 2 ^ 32)) := by
  have hstep : lineSetting.serve (some (refusedAt last next)) refusedCall =
      some (oneNode (nameOf 'a')
        ((((AList.singleton (nameOf 'a') 1).insert (nameOf 'x') last).erase (nameOf 'x')).insert
          (nameOf 'x') next)
        ((((AList.singleton 1 (nameOf 'a')).insert last (nameOf 'x')).erase last).insert next
          (nameOf 'x')) ((next + 1) % 2 ^ 32)) := by
    rcases last with _ | _ | last
    · rfl
    · exact absurd rfl hlast
    · rfl
  have hids : (((AList.singleton (nameOf 'a') 1).insert (nameOf 'x') last).erase
      (nameOf 'x')).insert (nameOf 'x') next =
        (AList.singleton (nameOf 'a') 1 : GoMap Bytes Nat).insert (nameOf 'x') next := rfl
  have hnames : (((AList.singleton 1 (nameOf 'a')).insert last (nameOf 'x')).erase last).insert next
      (nameOf 'x') = (AList.singleton 1 (nameOf 'a') : GoMap Nat Bytes).insert next (nameOf 'x') := by
    apply AList.ext
    simp [AList.erase, hlast]
  rw [hstep, hids, hnames, refusedAt]

theorem run_refused {calls : Nat} (hpos : 1 ≤ calls) (hcalls : calls ≤ 2 ^ 32) :
    Run.run lineSetting.serve (some lineSetting.start)
        (call (.add (nameOf 'a') one) :: List.replicate calls refusedCall) =
      some (refusedAt ((calls + 1) % 2 ^ 32) ((calls + 2) % 2 ^ 32)) := by
  induction calls, hpos using Nat.le_induction with
  | base =>
      rw [Run.run_cons, serve_first]
      rfl
  | succ calls hpos ih =>
      have hnext : ((calls + 2) % 2 ^ 32 + 1) % 2 ^ 32 = (calls + 1 + 2) % 2 ^ 32 := by omega
      rw [List.replicate_succ', ← List.cons_append, Run.run_append, ih (by omega), Run.run_cons,
        Run.run_nil, serve_refused (by omega), hnext]

/-- After 2³² refused calls the id of the node is that of the last call. -/
theorem run_refused_all : Run.run lineSetting.serve (some lineSetting.start)
    (call (.add (nameOf 'a') one) :: List.replicate (2 ^ 32) refusedCall) = some (refusedAt 1 2) := by
  have hrun := @run_refused (2 ^ 32) (by norm_num) le_rfl
  have hlast : (2 ^ 32 + 1) % 2 ^ 32 = 1 := by norm_num
  have hnext : (2 ^ 32 + 2) % 2 ^ 32 = 2 := by norm_num
  rw [hlast, hnext] at hrun
  exact hrun

/-! ## Names that do not fit

The length of a name is written in 32 bits, and a name of 2³² bytes is read back as none.
-/

/-- What a reader of its snapshot finds of a site with one node. -/
def misread (name : Bytes) : Index := (oneNode name (AList.singleton [] 0) ∅ 2).index

theorem save_oneNode (order : RangeOrder) {name rest : Bytes} (hlength : name.length = 2 ^ 32)
    (hname : name = [0, 0, 0, 0] ++ rest) :
    (firstSite name).index.save order = (misread name).save order ++ (rest ++ writeUint32 1) := by
  have hrange : ∀ (id : Bytes) (n : Nat),
      order.range (AList.singleton id n : GoMap Bytes Nat) = [(id, n)] := fun id n =>
    List.perm_singleton.mp (order.perm _)
  have hentry : writeEntry (name, 1) = writeEntry ([], 0) ++ (rest ++ writeUint32 1) := by
    have hzero : writeUint32 name.length = [0, 0, 0, 0] := by
      rw [hlength]
      decide
    have hback : writeString name = [0, 0, 0, 0] ++ ([0, 0, 0, 0] ++ rest) := by
      rw [writeString, hzero, ← hname]
    rw [writeEntry, hback]
    rfl
  have hids := hrange name 1
  have hnone := hrange [] 0
  simp only [Index.save, misread, firstSite, oneNode, hids, hnone, List.flatMap_cons, List.flatMap_nil,
    List.append_nil, hentry, List.append_assoc, List.length_cons, List.length_nil]
  rfl

theorem run_misread {name rest : Bytes} (hlength : name.length = 2 ^ 32)
    (hname : name = [0, 0, 0, 0] ++ rest) :
    ∃ site, Run.run lineSetting.serve (some lineSetting.start)
        [call (.add name one), call .save, call (.load 0)] = some site ∧
      site.index = (firstSite name).index.install ((misread name).written RangeOrder.stored) := by
  have hnone : (misread []).Fits := by decide
  have hfits : (misread name).Fits := ⟨hnone.distance, hnone.dim, hnone.maxLayer, hnone.deleted,
    hnone.count, hnone.nodes, hnone.entries, hnone.ids⟩
  have hload := @Index.load_save_append (misread name) (show 1 < 2 ^ 32 by decide)
    (show 2 < 2 ^ 32 by decide) hfits RangeOrder.stored lineSetting.gob (firstSite name).index
    (rest ++ writeUint32 1)
  rw [← save_oneNode RangeOrder.stored hlength hname] at hload
  let saved : Saved := ⟨(firstSite name).index.save RangeOrder.stored, {name}⟩
  let site : Site := { firstSite name with saved := [saved] }
  have hsave : lineSetting.serve (some (firstSite name)) (call .save) = some site := rfl
  have hserve : lineSetting.serve (some site) (call (.load 0)) =
      some (lineSetting.loadInto site.index 0 site) := rfl
  have hslot : site.saved[0]? = some saved := rfl
  have hread : site.index.load lineSetting.gob saved.bytes =
      .ok ((firstSite name).index.install ((misread name).written RangeOrder.stored)) := hload
  refine ⟨{ site with
    index := (firstSite name).index.install ((misread name).written RangeOrder.stored)
    live := saved.live }, ?_, rfl⟩
  rw [Run.run_cons, serve_first, Run.run_cons, hsave, Run.run_cons, Run.run_nil, hserve,
    Setting.loadInto, hslot]
  simp only [hread]

/-- After 2³² refused calls the internal id of the first node is assigned again: the node is
still stored and cached under the id it was added under, and the maps are not inverse. The node
of a name of 2³² bytes has no name any more once a snapshot of it is loaded. -/
theorem names_lost :
    (∃ site, Run.run lineSetting.serve (some lineSetting.start)
        (call (.add (nameOf 'a') one) :: List.replicate (2 ^ 32) refusedCall) = some site ∧
      (site.index.getNodeFast 1).isSome = true ∧
      site.index.extIDCache[1]? = some (nameOf 'a') ∧
      site.index.idToUint32.lookup (nameOf 'a') = some 1 ∧
      site.index.uint32ToID.lookup 1 = some (nameOf 'x') ∧ ¬ site.index.Translates) ∧
    ∃ name site, Run.run lineSetting.serve (some lineSetting.start)
        [call (.add name one), call .save, call (.load 0)] = some site ∧ name ≠ [] ∧
      (site.index.getNodeFast 1).isSome = true ∧ site.index.uint32ToID.lookup 1 = none ∧
      site.index.externalID 1 = [] ∧ ¬ site.index.Translates := by
  refine ⟨⟨_, run_refused_all, rfl, rfl, by decide, by decide, fun htranslates => ?_⟩, ?_⟩
  · have hname := (htranslates.inverse (nameOf 'a') 1).mp (by decide)
    exact absurd hname (by decide)
  · have hname : List.replicate (2 ^ 32) (0 : UInt8) =
        [0, 0, 0, 0] ++ List.replicate (2 ^ 32 - 4) 0 := by
      rw [show (2 : Nat) ^ 32 = 4 + (2 ^ 32 - 4) by norm_num, List.replicate_add]
      rfl
    generalize List.replicate (2 ^ 32 - 4) (0 : UInt8) = rest at hname
    obtain ⟨site, hrun, hindex⟩ := run_misread List.length_replicate hname
    rw [hname] at hrun
    refine ⟨_, site, hrun, by simp, ?_⟩
    have hstored : (site.index.getNodeFast 1).isSome = true := by rw [hindex]; rfl
    have hlost : site.index.uint32ToID.lookup 1 = none := by rw [hindex]; rfl
    refine ⟨hstored, hlost, by rw [hindex]; rfl, fun htranslates => ?_⟩
    obtain ⟨id, hfound, _⟩ := htranslates.cached 1 hstored
    rw [hlost] at hfound
    cases hfound

end Vectron.Hnsw
