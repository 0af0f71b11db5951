import Vectron.Foundation.Run
import Vectron.Hnsw.Snapshot

/-! # An index in use

The public calls on an index as the steps of a machine, together with the snapshots taken of
it. The ids that are live, in the sense that they were added and not deleted since, are
recorded from the calls alone. A panic ends the process, and nothing follows it.
-/

namespace Vectron.Hnsw

open Foundation
open Worker (Vector)

/-- A call of one of the searches. -/
inductive Query where
  | search (vec : Vector) (k : Int)
  | searchWithEf (vec : Vector) (k ef : Int)
  | searchTwoStage (vec : Vector) (k stage1Ef candidateFactor : Int)
deriving DecidableEq, Repr

namespace Query

def answer (p : Platform) (h : Index) : Query → Probe (List (Bytes × Float32))
  | search vec k => h.search p vec k
  | searchWithEf vec k ef => h.searchWithEf p vec k ef
  | searchTwoStage vec k stage1Ef candidateFactor => h.searchTwoStage p vec k stage1Ef candidateFactor

def vec : Query → Vector
  | search vec _ => vec
  | searchWithEf vec _ _ => vec
  | searchTwoStage vec _ _ _ => vec

def k : Query → Int
  | search _ k => k
  | searchWithEf _ k _ => k
  | searchTwoStage _ k _ _ => k

/-- The query as the distances see it. -/
def prepared (p : Platform) (h : Index) (query : Query) : Vector := h.normalizedQuery p query.vec

variable {p : Platform} {h : Index} {layers : Nat → Prop} {event : Node → Prop}
  {fault : Fault → Prop} {ground fit : Node → Prop}

/-- A search from an entry point inside a terrain, whichever it is. -/
theorem answer_keeps (query : Query)
    (hterrain : Index.Terrain p h (query.prepared p h)
      (h.maybeQuantizeQuery p (query.prepared p h)) layers event fault ground fit)
    (hexact : ∀ node, ground node → node.live = true → event node)
    (hrange : fault .vectorOutOfRange) (hlayers : ∀ l, l ≤ h.maxLayer → layers l)
    (hentry : ∀ node, h.getNode h.entry = some node → ground node ∧ h.maxLayer ≤ node.layer)
    (hnil : h.entry ≠ 0 → h.getNode h.entry = none → fault .nilDereference)
    (hk : query.k < 0 → fault .sliceBounds) :
    Traced.Keeps event fault (Index.Answers h ground fit query.k) (query.answer p h) := by
  cases query with
  | search vec k
  | searchWithEf vec k ef => exact Index.searchEf_keeps hterrain hlayers hentry hnil hk
  | searchTwoStage vec k stage1Ef candidateFactor =>
      refine Index.searchTwoStage_keeps hterrain (fun node hground _ => ?_) hlayers hentry hnil
      exact Index.distanceExact_keeps _ (hexact node hground) hrange

end Query

/-- The public calls, and a restart that loads a snapshot into a new index. -/
inductive Op where
  | add (id : Bytes) (vec : Vector)
  | delete (id : Bytes)
  | search (query : Query)
  | cleanup (batchSize : Int)
  | pruneNeighbors (maxNodes : Int)
  | rebuild
  | setPruneConfig (enabled : Bool)
  | setSearchParallelism (n : Int)
  | save
  | load (slot : Nat)
  | reopen (slot : Nat)
deriving DecidableEq, Repr

structure Input where
  op : Op
  env : Env

/-- A snapshot, with the ids that were live when it was taken. -/
structure Saved where
  bytes : Bytes
  live : Finset Bytes

/-- An index, the snapshots taken of it, and the ids that were added and not deleted since. -/
structure Site where
  index : Index
  saved : List Saved
  live : Finset Bytes

/-- What the calls do not change: the platform, the decoder of the older snapshot format, and
the arguments of `NewHNSW`. -/
structure Setting where
  platform : Platform
  gob : Bytes → Option Decoded
  dim : Nat
  config : Config

namespace Setting

variable (setting : Setting)

/-- `NewHNSW`. -/
def fresh : Index := Index.new setting.dim setting.config

def start : Site := ⟨setting.fresh, [], ∅⟩

/-- `Load` of a snapshot into an index. If it fails, the index in use stays. -/
def loadInto (receiver : Index) (slot : Nat) (site : Site) : Site :=
  match site.saved[slot]? with
  | none => site
  | some saved =>
      match receiver.load setting.gob saved.bytes with
      | .ok index => { site with index := index, live := saved.live }
      | .error _ => site

/-- One call; `none` after a panic. -/
def step (site : Site) (input : Input) : Option Site :=
  match input.op with
  | .add id vec =>
      (site.index.add setting.platform input.env id vec).value?.map fun result =>
        { site with
          index := result.1
          live := if result.2.isNone then insert id site.live else site.live }
  | .delete id =>
      some
        { site with
          index := (site.index.deleteNoLock input.env id).1
          live := site.live.erase id }
  | .search query => (query.answer setting.platform site.index).value?.map fun _ => site
  | .cleanup batchSize =>
      (site.index.performCleanup batchSize).value?.map fun index => { site with index := index }
  | .pruneNeighbors maxNodes =>
      (site.index.pruneNeighbors setting.platform input.env maxNodes).value?.map fun index =>
        { site with index := index }
  | .rebuild =>
      (site.index.rebuild setting.platform input.env).value?.map fun result =>
        { site with index := result.1 }
  | .setPruneConfig enabled =>
      some { site with
        index := { site.index with config := { site.index.config with pruneEnabled := enabled } } }
  | .setSearchParallelism n =>
      some { site with
        index := { site.index with config := { site.index.config with searchParallelism := n } } }
  | .save =>
      some { site with saved := site.saved ++ [⟨site.index.save input.env.order, site.live⟩] }
  | .load slot => some (setting.loadInto site.index slot site)
  | .reopen slot => some (setting.loadInto setting.fresh slot site)

/-- The panic a call ends with, if it does. -/
def fault (site : Site) (input : Input) : Option Fault :=
  match input.op with
  | .add id vec => (site.index.add setting.platform input.env id vec).fault?
  | .search query => (query.answer setting.platform site.index).fault?
  | .cleanup batchSize => (site.index.performCleanup batchSize).fault?
  | .pruneNeighbors maxNodes =>
      (site.index.pruneNeighbors setting.platform input.env maxNodes).fault?
  | .rebuild => (site.index.rebuild setting.platform input.env).fault?
  | _ => none

/-- A process that may have ended. -/
def serve (state : Option Site) (input : Input) : Option Site :=
  state.bind fun site => setting.step site input

end Setting

/-- A condition on the calls of a process that has not ended. -/
def During (condition : Site → Input → Prop) (state : Option Site) (input : Input) : Prop :=
  ∀ site, state = some site → condition site input

instance During.decidable (condition : Site → Input → Prop)
    [∀ site input, Decidable (condition site input)] :
    ∀ state input, Decidable (During condition state input)
  | none, _ => isTrue fun _ heq => by cases heq
  | some site, input =>
      decidable_of_iff (condition site input)
        ⟨fun hcondition _ heq => Option.some.inj heq ▸ hcondition, fun hduring => hduring site rfl⟩

/-- The internal ids do not run out with one more. -/
def Index.Roomy (h : Index) : Prop := h.nextID + 1 < 2 ^ 32

instance (h : Index) : Decidable h.Roomy := Nat.decLt _ _

/-- The internal ids do not run out, and what is saved fits the format. -/
def Admissible (site : Site) (input : Input) : Prop :=
  match input.op with
  | .add _ _ => site.index.Roomy
  | .save => site.index.Fits
  | _ => True

instance (site : Site) : ∀ input, Decidable (Admissible site input)
  | ⟨.add _ _, _⟩ => inferInstanceAs (Decidable site.index.Roomy)
  | ⟨.save, _⟩ => inferInstanceAs (Decidable site.index.Fits)
  | ⟨.delete _, _⟩ => isTrue trivial
  | ⟨.search _, _⟩ => isTrue trivial
  | ⟨.cleanup _, _⟩ => isTrue trivial
  | ⟨.pruneNeighbors _, _⟩ => isTrue trivial
  | ⟨.rebuild, _⟩ => isTrue trivial
  | ⟨.setPruneConfig _, _⟩ => isTrue trivial
  | ⟨.setSearchParallelism _, _⟩ => isTrue trivial
  | ⟨.load _, _⟩ => isTrue trivial
  | ⟨.reopen _, _⟩ => isTrue trivial

namespace Index

/-- An index of a setting that can be saved, with the record of its live ids. -/
structure Sound (setting : Setting) (good : Index → Finset Bytes → Prop) (h : Index)
    (live : Finset Bytes) : Prop where
  coherent : Coherent h
  metric : h.metric = setting.fresh.metric
  good : good h live

end Index

/-- The invariant of a site: its index is sound, and each snapshot is one of a sound index. -/
structure Site.Holds (setting : Setting) (savable : Index → Prop)
    (good : Index → Finset Bytes → Prop) (site : Site) : Prop where
  index : Index.Sound setting good site.index site.live
  saved : ∀ saved ∈ site.saved, ∃ h order, Index.Sound setting good h saved.live ∧ h.Fits ∧
    savable h ∧ saved.bytes = h.save order

/-- A property of an index and its live ids that every call meeting a condition keeps. -/
structure Kept (setting : Setting) (condition : Site → Input → Prop) (savable : Index → Prop)
    (good : Index → Finset Bytes → Prop) : Prop where
  admissible : ∀ site input, condition site input → Admissible site input
  start : good setting.fresh ∅
  alike : ∀ h h' live, Index.Alike h h' → good h live → good h' live
  add : ∀ site env id vec result, condition site ⟨.add id vec, env⟩ →
    Index.Coherent site.index →
    (site.index.add setting.platform env id vec).outcome = .ok result →
    good site.index site.live →
    good result.1 (if result.2.isNone then insert id site.live else site.live)
  delete : ∀ site env id, condition site ⟨.delete id, env⟩ → Index.Coherent site.index →
    good site.index site.live → good (site.index.deleteNoLock env id).1 (site.live.erase id)
  rebuild : ∀ site env result, condition site ⟨.rebuild, env⟩ → Index.Coherent site.index →
    (site.index.rebuild setting.platform env).outcome = .ok result →
    good site.index site.live → good result.1 site.live
  save : ∀ site env, condition site ⟨.save, env⟩ → savable site.index
  reload : ∀ receiver h h' live, Index.Coherent h → savable h → Index.Reloaded receiver h h' →
    receiver.metric = h.metric → good h live → good h' live

namespace Index

variable {h h' : Index}

/-- The runtime settings are not looked at by any invariant. -/
theorem Coherent.configured (hcoherent : Coherent h) {config : Config}
    (hcosine : config.cosine = h.config.cosine)
    (hnormalized : config.normalized = h.config.normalized)
    (hnorms : config.enableNorms = h.config.enableNorms)
    (hquantize : config.quantizeVectors = h.config.quantizeVectors) :
    Coherent { h with config := config } where
  layered := hcoherent.layered.congr rfl rfl rfl rfl
  tables :=
    { flags :=
        have hflags := hcoherent.tables.flags
        { isCosine := hflags.isCosine.trans hcosine.symm
          isNormalized := hflags.isNormalized.trans hnormalized.symm
          useNorms := by
            rw [hnorms, hcosine]
            exact hflags.useNorms
          useQuantize := hflags.useQuantize.trans hquantize.symm
          quantized := by
            rw [hnormalized, hquantize]
            exact hflags.quantized }
      caches := hcoherent.tables.caches
      inverse := hcoherent.tables.inverse
      handed := hcoherent.tables.handed
      node := by
        intro i node hnode
        have hnamed := hcoherent.tables.node i node hnode
        exact ⟨hnamed.named, hnamed.vec, hnamed.qvec, fun hplain => hnamed.plain (hquantize ▸ hplain)⟩
      count := hcoherent.tables.count }
  bounded := hcoherent.bounded

theorem metric_deleteNoLock (env : Env) (id : Bytes) :
    (h.deleteNoLock env id).1.metric = h.metric := by
  rcases @deleteNoLock_cases h env id with ⟨hsame, _⟩ | ⟨n, node, _, _, hafter⟩
  · rw [hsame]
  · rw [hafter]
    rfl

theorem metric_evicted (env : Env) (id : Bytes) : (h.evicted env id).metric = h.metric := by
  unfold evicted
  split
  next => rfl
  next => exact metric_deleteNoLock env id

/-- Whatever `add` returns is coherent again. -/
theorem add_coherent {p : Platform} {env : Env} (hcoherent : Coherent h)
    (hnext : h.nextID + 1 < 2 ^ 32) {id : Bytes} {vec : Vector}
    {result : Index × Option AddError} (hadd : (h.add p env id vec).outcome = .ok result) :
    Coherent result.1 ∧ result.1.metric = h.metric := by
  rcases add_cases hcoherent hnext hadd with ⟨rfl, _⟩ | hadded
  · exact ⟨(hcoherent.delete env id).1, metric_deleteNoLock env id⟩
  · have hevicted := (hcoherent.evicted env id).1
    have hfields := @evicted_fields h env id
    refine ⟨(hevicted.added (by rw [hfields.1]; exact hnext) (lookup_evicted env id) hadded).1, ?_⟩
    rw [hadded.fields.2.2.1]
    exact metric_evicted env id

end Index

section Kept

variable {setting : Setting} {condition : Site → Input → Prop} {savable : Index → Prop}
  {good : Index → Finset Bytes → Prop}

theorem value?_map_eq_some {α β : Type} {computation : Probe α} {f : α → β} {result : β}
    (hvalue : computation.value?.map f = some result) :
    ∃ a, computation.outcome = .ok a ∧ f a = result := by
  obtain ⟨a, ha, hf⟩ := Option.map_eq_some_iff.mp hvalue
  refine ⟨a, ?_, hf⟩
  unfold Traced.value? at ha
  cases houtcome : computation.outcome with
  | error fault =>
      rw [houtcome] at ha
      cases ha
  | ok value =>
      rw [houtcome] at ha
      cases ha
      rfl

theorem Site.Holds.reindexed {site : Site} {index : Index} {live : Finset Bytes}
    (hholds : site.Holds setting savable good) (hsound : Index.Sound setting good index live) :
    Site.Holds setting savable good { site with index := index, live := live } :=
  ⟨hsound, hholds.saved⟩

section

variable (hkept : Kept setting condition savable good)

include hkept

theorem Site.Holds.loaded {site : Site} (hholds : site.Holds setting savable good)
    {receiver : Index} (hreceiver : receiver.metric = setting.fresh.metric) (slot : Nat) :
    (setting.loadInto receiver slot site).Holds setting savable good := by
  unfold Setting.loadInto
  split
  next => exact hholds
  next saved hsaved =>
    obtain ⟨h, order, hsound, hfits, hsavable, hbytes⟩ :=
      hholds.saved saved (List.mem_of_getElem? hsaved)
    rw [hbytes, Index.load_save hsound.coherent hfits order setting.gob receiver]
    have hreloaded := Index.reloaded_install hsound.coherent order receiver
    have hsame : receiver.metric = h.metric := hreceiver.trans hsound.metric.symm
    exact hholds.reindexed
      ⟨hreloaded.coherent hsound.coherent hsame, hreloaded.metric.trans hreceiver,
        hkept.reload receiver h _ saved.live hsound.coherent hsavable hreloaded hsame hsound.good⟩

/-- One call keeps the invariant. -/
theorem Kept.step {site site' : Site} {input : Input} (hcondition : condition site input)
    (hholds : site.Holds setting savable good) (hstep : setting.step site input = some site') :
    site'.Holds setting savable good := by
  have hadmissible := hkept.admissible site input hcondition
  have hcoherent := hholds.index.coherent
  have hmetric := hholds.index.metric
  have hgood := hholds.index.good
  -- an operation that changes neither the live ids nor what the counters say of them
  have halike : ∀ index, Index.Coherent index ∧ Index.Alike site.index index →
      Site.Holds setting savable good { site with index := index } := fun index hboth =>
    hholds.reindexed ⟨hboth.1, hboth.2.metric.trans hmetric,
      hkept.alike site.index index site.live hboth.2 hgood⟩
  obtain ⟨op, env⟩ := input
  cases op with
  | add id vec =>
      obtain ⟨result, houtcome, rfl⟩ := value?_map_eq_some hstep
      obtain ⟨hafter, hsame⟩ := Index.add_coherent hcoherent hadmissible houtcome
      exact hholds.reindexed ⟨hafter, hsame.trans hmetric,
        hkept.add site env id vec result hcondition hcoherent houtcome hgood⟩
  | delete id =>
      cases hstep
      exact hholds.reindexed ⟨(hcoherent.delete env id).1,
        (Index.metric_deleteNoLock env id).trans hmetric,
        hkept.delete site env id hcondition hcoherent hgood⟩
  | search query =>
      obtain ⟨_, _, rfl⟩ := value?_map_eq_some hstep
      exact hholds
  | cleanup batchSize =>
      obtain ⟨index, houtcome, rfl⟩ := value?_map_eq_some hstep
      have hkeeps := @Index.performCleanup_keeps site.index (fun _ => True) (fun _ => True)
        trivial hcoherent batchSize
      exact halike index (hkeeps.value index houtcome)
  | pruneNeighbors maxNodes =>
      obtain ⟨index, houtcome, rfl⟩ := value?_map_eq_some hstep
      have hkeeps := @Index.pruneNeighbors_keeps site.index setting.platform (fun _ => True)
        (fun _ => True) (fun _ => trivial) trivial env maxNodes hcoherent
      exact halike index (hkeeps.value index houtcome)
  | rebuild =>
      obtain ⟨result, houtcome, rfl⟩ := value?_map_eq_some hstep
      have hkeeps := @Index.rebuild_keeps site.index setting.platform env (fun _ => True)
        (fun _ => True) (fun _ => trivial) trivial (fun _ => trivial) hcoherent
      obtain ⟨hafter, hsame, _⟩ := hkeeps.value result houtcome
      exact hholds.reindexed ⟨hafter, hsame.trans hmetric,
        hkept.rebuild site env result hcondition hcoherent houtcome hgood⟩
  | setPruneConfig enabled
  | setSearchParallelism n =>
      cases hstep
      exact halike _ ⟨hcoherent.configured rfl rfl rfl rfl, fun _ => Iff.rfl, rfl, rfl, rfl,
        fun _ hsome => hsome⟩
  | save =>
      cases hstep
      refine ⟨hholds.index, fun saved hsaved => ?_⟩
      rcases List.mem_append.mp hsaved with hold | hnew
      · exact hholds.saved saved hold
      · obtain rfl := List.mem_singleton.mp hnew
        exact ⟨site.index, env.order, hholds.index, hadmissible, hkept.save site env hcondition, rfl⟩
  | load slot =>
      cases hstep
      exact hholds.loaded hkept hmetric slot
  | reopen slot =>
      cases hstep
      exact hholds.loaded hkept rfl slot

/-- Every state of a run that meets the condition satisfies the invariant. -/
theorem Kept.run {inputs : List Input}
    (hmeets : Run.Meets setting.serve (During condition) (some setting.start) inputs) {site : Site}
    (hsite : Run.run setting.serve (some setting.start) inputs = some site) :
    site.Holds setting savable good := by
  have hstart : setting.start.Holds setting savable good :=
    ⟨⟨Index.coherent_new _ _, rfl, hkept.start⟩, by simp [Setting.start]⟩
  have hall := @Run.run_invariant _ _ setting.serve (During condition)
    (fun state => ∀ site, state = some site → site.Holds setting savable good)
    (fun state input hcondition hstate site' hserve => by
      obtain ⟨site, hsome, hstep⟩ := Option.bind_eq_some_iff.mp hserve
      exact hkept.step (hcondition site hsome) (hstate site hsome) hstep)
    (some setting.start) inputs hmeets
    (fun site hsome => by
      cases hsome
      exact hstart)
  exact hall site hsite

end

end Kept

end Vectron.Hnsw
