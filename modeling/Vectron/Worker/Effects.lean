import Vectron.Foundation.Latest
import Vectron.Worker.Recovery
import Vectron.Worker.StateMachine

/-! # What calls do to the vectors of a shard

Neither whether a call fails nor what it stores depends on the state it is applied to: a call
that fails writes nothing, and another one commits one batch, in which the last write of an id
decides. What a batch has besides leaves the vectors alone.
-/

namespace Vectron.Worker

open Foundation OrderedStore

/-- A write to an id: its new value, or none for a deletion. -/
abbrev VectorWrite := Bytes × Option Bytes

/-- The value of an id after writes. -/
def after (writes : List VectorWrite) (id : Bytes) (old : Option Bytes) : Option Bytes :=
  (latest Prod.fst writes id).elim old Prod.snd

theorem after_append (first second : List VectorWrite) (id : Bytes) (old : Option Bytes) :
    after (first ++ second) id old = after second id (after first id old) := by
  rw [after, after, after, latest_append]
  cases latest Prod.fst second id with
  | none => rfl
  | some write => rfl

theorem after_singleton (write : VectorWrite) (id : Bytes) (old : Option Bytes) :
    after [write] id old = if write.1 = id then write.2 else old := by
  rw [after, ← List.nil_append [write], latest_concat]
  split
  next _ => rfl
  next _ => rfl

/-! ## Batches of the database -/

/-- The batch does these writes to the vectors of the namespace, whatever it does besides. -/
def Effects (ns : Bytes) (batch : List (StoreOp Bytes Bytes)) (writes : List VectorWrite) : Prop :=
  ∀ (db : Pebble) (id : Bytes), (db.commit batch).get (nsKey ns (vectorKey id)) =
    after writes id (db.get (nsKey ns (vectorKey id)))

/-- A key of the namespace that is not that of a vector. -/
def NoVector (ns key : Bytes) : Prop := ∀ id, key ≠ nsKey ns (vectorKey id)

theorem noVector_of_head {ns key : Bytes} {head : UInt8} {rest : Bytes} (hkey : key = head :: rest)
    (hhead : head ≠ 'v'.toUInt8) : NoVector ns (nsKey ns key) := by
  intro id heq
  rw [nsKey_inj, hkey] at heq
  exact hhead (List.cons.inj heq).1

namespace Effects

variable {ns : Bytes} {first second : List (StoreOp Bytes Bytes)}
  {firstWrites secondWrites : List VectorWrite}

theorem nil : Effects ns [] [] := fun _ _ => rfl

theorem append (hfirst : Effects ns first firstWrites) (hsecond : Effects ns second secondWrites) :
    Effects ns (first ++ second) (firstWrites ++ secondWrites) := by
  intro db id
  rw [commit_append, hsecond, hfirst, after_append]

theorem set (id value : Bytes) :
    Effects ns [.set (nsKey ns (vectorKey id)) value] [(id, some value)] := by
  intro db other
  rw [commit_cons, commit_nil, apply, get_set, after_singleton]
  by_cases hid : id = other
  · rw [if_pos (by rw [hid]), if_pos hid]
  · have hne : ¬ nsKey ns (vectorKey other) = nsKey ns (vectorKey id) := by
      intro heq
      exact hid (List.cons.inj (List.cons.inj (nsKey_inj.mp heq)).2).2.symm
    rw [if_neg hne, if_neg hid]

theorem of_noVector (hkeys : ∀ op ∈ first, NoVector ns (opKey op)) : Effects ns first [] := by
  intro db id
  exact get_commit_of_forall_ne fun op hop => hkeys op hop id

theorem of_append_noVector (hfirst : Effects ns first firstWrites)
    (hkeys : ∀ op ∈ second, NoVector ns (opKey op)) : Effects ns (first ++ second) firstWrites := by
  have hboth := hfirst.append (of_noVector hkeys)
  rw [List.append_nil] at hboth
  exact hboth

theorem flatMap {α : Type} {items : List α} {ops : α → List (StoreOp Bytes Bytes)}
    {write : α → VectorWrite} (hitems : ∀ item ∈ items, Effects ns (ops item) [write item]) :
    Effects ns (items.flatMap ops) (items.map write) := by
  induction items with
  | nil => exact nil
  | cons item rest ih =>
      rw [List.flatMap_cons, List.map_cons, ← List.singleton_append]
      exact (hitems item List.mem_cons_self).append
        (ih fun other hother => hitems other (List.mem_cons_of_mem _ hother))

end Effects

variable {m : ShardSettings}

theorem noVector_walKey (ns : Bytes) (ts : Nat) (id : Bytes) : NoVector ns (nsKey ns (walKey ts id)) :=
  noVector_of_head rfl (by decide)

theorem noVector_walKeyBatch (ns : Bytes) (ts : Nat) : NoVector ns (nsKey ns (walKeyBatch ts)) :=
  noVector_of_head rfl (by decide)

theorem noVector_markIngestDirtyBatch :
    ∀ op ∈ markIngestDirtyBatch m, NoVector m.ns (opKey op) := by
  intro op hop
  rw [markIngestDirtyBatch] at hop
  split at hop
  next _ =>
    rw [List.mem_singleton.mp hop]
    exact noVector_of_head rfl (by decide)
  next _ => cases hop

theorem effects_storeVectorOps (s : Settings) (ts : Nat) (id value : Bytes) :
    Effects s.ns (storeVectorOps s ts id value) [(id, some value)] := by
  rw [storeVectorOps, ← List.singleton_append]
  apply (Effects.set id value).of_append_noVector
  intro op hop
  split at hop
  next _ =>
    rw [List.mem_singleton.mp hop]
    exact noVector_walKey _ _ _
  next _ => cases hop

/-- The writes of a batch. -/
def pairWrites (pairs : List (Bytes × Bytes)) : List VectorWrite :=
  pairs.map fun pair => (pair.1, some pair.2)

theorem effects_storeVectorBatchOps (s : Settings) (ts : Nat) (pairs : List (Bytes × Bytes)) :
    Effects s.ns (storeVectorBatchOps s ts pairs) (pairWrites pairs) := by
  have hwrites : pairWrites pairs =
      pairs.zipIdx.map fun item => ((item.1.1, some item.1.2) : VectorWrite) := by
    have hmap := List.zipIdx_map_fst 0 pairs
    conv_lhs => rw [pairWrites, ← hmap, List.map_map]
    rfl
  rw [storeVectorBatchOps, hwrites]
  apply Effects.of_append_noVector
  · apply Effects.flatMap
    intro item _
    rw [← List.singleton_append]
    apply (Effects.set item.1.1 item.1.2).of_append_noVector
    intro op hop
    split at hop
    next _ =>
      rw [List.mem_singleton.mp hop]
      exact noVector_walKey _ _ _
    next _ => cases hop
  · intro op hop
    split at hop
    next _ =>
      rw [List.mem_singleton.mp hop]
      exact noVector_walKeyBatch _ _
    next _ => cases hop

theorem effects_bulkLoadOps (s : Settings) (pairs : List (Bytes × Bytes)) :
    Effects s.ns (bulkLoadOps s pairs) (pairWrites pairs) := by
  rw [bulkLoadOps, List.map_eq_flatMap]
  exact Effects.flatMap fun pair _ => Effects.set pair.1 pair.2

/-! ## Entries -/

/-- The indexes of a store have the dimension of the shard. -/
structure Sized (s : Settings) (store : Store) : Prop where
  index : store.index.config.dim = s.config.index.dim
  snapshot : ∀ saved ∈ store.snapshot, saved.index.config.dim = s.config.index.dim

/-- The value a store holds for an id. -/
def Store.vectorValue (s : Settings) (store : Store) (id : Bytes) : Option Bytes :=
  store.db.get (nsKey s.ns (vectorKey id))

/-- A call that does these writes, or fails and does none. -/
structure Performs (m : ShardSettings) (store : Store) (writes : Option (List VectorWrite))
    (succeeds : Bool) (after' : Store) : Prop where
  outcome : succeeds = writes.isSome
  values : ∀ id, after'.vectorValue m.toSettings id =
    after (writes.getD []) id (store.vectorValue m.toSettings id)
  sized : Sized m.toSettings after'

theorem Sized.withDb {s : Settings} {store : Store} (hsized : Sized s store) (db : Pebble) :
    Sized s { store with db := db } := ⟨hsized.index, hsized.snapshot⟩

namespace Performs

variable {store : Store}

/-- A call that fails before it changes the database. -/
theorem failed (hsized : Sized m.toSettings store) : Performs m store none false store :=
  ⟨rfl, fun _ => rfl, hsized⟩

theorem nothing (hsized : Sized m.toSettings store) : Performs m store (some []) true store :=
  ⟨rfl, fun _ => rfl, hsized⟩

/-- A call that commits one batch. -/
theorem commit {writes : List VectorWrite} {batch : List (StoreOp Bytes Bytes)} {after' : Store}
    (heffects : Effects m.ns batch writes) (hdb : after'.db = store.db.commit batch)
    (hsized : Sized m.toSettings after') : Performs m store (some writes) true after' := by
  refine ⟨rfl, fun id => ?_, hsized⟩
  rw [Store.vectorValue, hdb, heffects]
  rfl

end Performs

theorem encodeEntries_dim {s : Settings} {vectors : List VectorEntry}
    {pairs : List (Bytes × Bytes)}
    (hencode : List.Forall₂ (fun entry pair => encodeEntry s entry = .ok pair) vectors pairs)
    {entry : VectorEntry} (hentry : entry ∈ vectors) :
    entry.vector.length = s.config.index.dim := by
  induction hencode with
  | nil => cases hentry
  | cons hhead _ ih =>
      rcases List.mem_cons.mp hentry with rfl | hrest
      · exact encodeVector_dim (encodeEntry_eq_ok hhead).2.2
      · exact ih hrest

theorem addAll_succeeds {arith : Arithmetic} {h : Hnsw} {entries : List VectorEntry}
    (hdim : ∀ entry ∈ entries, entry.vector.length = h.config.dim) :
    (addAll arith h entries).2 = true := by
  induction entries generalizing h with
  | nil => rfl
  | cons entry rest ih =>
      rw [addAll_cons (hdim entry List.mem_cons_self)]
      apply ih
      intro other hother
      rw [Hnsw.config_add]
      exact hdim other (List.mem_cons_of_mem _ hother)

/-- A bulk load takes what a batch of the same vectors takes. -/
theorem bulkAdd_toOption {s : Settings} {h : Hnsw} (hdim : h.config.dim = s.config.index.dim)
    (added : List Bytes) (vectors : List VectorEntry) :
    (bulkAdd s h added vectors).2.toOption = (vectors.mapM (encodeEntry s)).toOption := by
  induction vectors generalizing h added with
  | nil => rfl
  | cons entry rest ih =>
      rw [bulkAdd, List.mapM_cons, encodeEntry]
      by_cases hempty : entry.id = [] ∨ entry.vector.length = 0
      · rw [if_pos hempty, if_pos hempty]
        rfl
      · rw [if_neg hempty, if_neg hempty, encodeVector]
        dsimp only
        by_cases hlength : entry.vector.length = s.config.index.dim
        · have hadd : (h.add s.arith entry.id entry.vector).2 = true :=
            (Hnsw.add_succeeds _ _).mpr (hlength.trans hdim.symm)
          rw [if_pos hadd, if_neg (not_not.mpr hlength)]
          cases encodeValue s entry.vector entry.metadata with
          | error err => rfl
          | ok value =>
              have hrest := @ih (h.add s.arith entry.id entry.vector).1
                (by rw [Hnsw.config_add, hdim]) (added ++ [entry.id])
              dsimp only
              generalize (bulkAdd s (h.add s.arith entry.id entry.vector).1 (added ++ [entry.id])
                rest).2 = bulk at hrest ⊢
              generalize rest.mapM (encodeEntry s) = batch at hrest ⊢
              cases bulk with
              | error err =>
                  cases batch with
                  | error err' => rfl
                  | ok pairs => cases hrest
              | ok pairs =>
                  cases batch with
                  | error err' => cases hrest
                  | ok pairs' =>
                      cases hrest
                      rfl
        · have hadd : ¬ (h.add s.arith entry.id entry.vector).2 = true := by
            intro hadd
            exact hlength (((Hnsw.add_succeeds _ _).mp hadd).trans hdim)
          rw [if_neg hadd, if_pos hlength]
          rfl

section Calls

variable {store : Store} (hsized : Sized m.toSettings store)

include hsized

theorem performs_storeVector (now : Nat) (id : Bytes) (vector : Vector) (metadata : Bytes) :
    Performs m store
      ((encodeVector m.toSettings vector metadata).toOption.map fun value => [(id, some value)])
      (Shard.storeVector m now id vector metadata store).1.isOk
      (Shard.storeVector m now id vector metadata store).2 := by
  rw [Shard.storeVector]
  cases hencode : encodeVector m.toSettings vector metadata with
  | error err =>
      have hplain : Worker.storeVector m.toSettings now id vector metadata store =
          (.error err, store) := by rw [Worker.storeVector, hencode]
      split
      next _ => exact Performs.failed hsized
      next _ =>
        rw [hplain]
        exact Performs.failed hsized
  | ok value =>
      split
      next _ =>
        exact Performs.commit ((effects_storeVectorOps _ now id value).of_append_noVector
          noVector_markIngestDirtyBatch) rfl (hsized.withDb _)
      next _ =>
        have hadd : (store.index.add m.arith id vector).2 = true :=
          (Hnsw.add_succeeds _ _).mpr ((encodeVector_dim hencode).trans hsized.index.symm)
        rw [Worker.storeVector, hencode]
        simp only [hadd, if_true]
        refine Performs.commit (effects_storeVectorOps _ now id value) rfl ⟨?_, hsized.snapshot⟩
        exact (congrArg IndexConfig.dim (Hnsw.config_add _ _)).trans hsized.index

theorem performs_bulkLoadVectors (now : Nat) (vectors : List VectorEntry) :
    Performs m store ((vectors.mapM (encodeEntry m.toSettings)).toOption.map pairWrites)
      (bulkLoadVectors m.toSettings now vectors store).1.isOk
      (bulkLoadVectors m.toSettings now vectors store).2 := by
  have hconfig := @bulkAdd_config m.toSettings store.index [] vectors
  rw [← bulkAdd_toOption hsized.index [], bulkLoadVectors]
  rcases hbulk : bulkAdd m.toSettings store.index [] vectors with ⟨index, outcome⟩
  rw [hbulk] at hconfig
  have hindex : index.config.dim = m.config.index.dim :=
    (congrArg IndexConfig.dim hconfig).trans hsized.index
  cases outcome with
  | error err => exact ⟨rfl, fun _ => rfl, ⟨hindex, hsized.snapshot⟩⟩
  | ok pairs =>
      refine Performs.commit (effects_bulkLoadOps _ pairs) rfl ⟨hindex, ?_⟩
      intro saved hsaved
      cases hsaved
      exact hindex

theorem performs_storeVectorBatch (now : Nat) (vectors : List VectorEntry) :
    Performs m store ((vectors.mapM (encodeEntry m.toSettings)).toOption.map pairWrites)
      (Shard.storeVectorBatch m now vectors store).1.isOk
      (Shard.storeVectorBatch m now vectors store).2 := by
  rw [Shard.storeVectorBatch, Worker.storeVectorBatch]
  by_cases hempty : vectors = []
  · subst hempty
    simp only [if_true, ite_self]
    exact Performs.nothing hsized
  rw [if_neg hempty, if_neg hempty]
  cases hencode : vectors.mapM (encodeEntry m.toSettings) with
  | error err =>
      split
      next _ => exact Performs.failed hsized
      next _ =>
        split
        next _ =>
          have hbulk := performs_bulkLoadVectors hsized now vectors
          rw [hencode] at hbulk
          exact hbulk
        next _ => exact Performs.failed hsized
  | ok pairs =>
      split
      next _ =>
        exact Performs.commit ((effects_storeVectorBatchOps _ now pairs).of_append_noVector
          noVector_markIngestDirtyBatch) rfl (hsized.withDb _)
      next _ =>
        split
        next _ =>
          have hbulk := performs_bulkLoadVectors hsized now vectors
          rw [hencode] at hbulk
          exact hbulk
        next _ =>
          have hdims : ∀ entry ∈ vectors, entry.vector.length = store.index.config.dim := by
            intro entry hentry
            rw [encodeEntries_dim (encodeEntries_eq_ok hencode) hentry, hsized.index]
          dsimp only
          rw [addAll_succeeds hdims]
          refine Performs.commit (effects_storeVectorBatchOps _ now pairs) rfl
            ⟨?_, hsized.snapshot⟩
          exact (congrArg IndexConfig.dim (addAll_config vectors)).trans hsized.index

end Calls

/-! ## Opening a shard -/

theorem sized_newStateMachine (order : RangeOrder) (db : Pebble) {snapshot : Option Snapshot}
    (hsnapshot : ∀ saved ∈ snapshot, saved.index.config.dim = m.config.index.dim) :
    Sized m.toSettings (newStateMachine m order db snapshot).store := by
  rw [newStateMachine]
  dsimp only
  split
  next _ => exact ⟨rfl, hsnapshot⟩
  next _ =>
    refine ⟨?_, hsnapshot⟩
    unfold openStore loadHNSW
    cases snapshot with
    | none =>
        dsimp only
        split
        next _ =>
          rw [config_replayWALFrom]
          rfl
        next _ => rfl
    | some saved =>
        dsimp only
        split
        next _ =>
          exact (congrArg IndexConfig.dim config_replayWALFrom).trans (hsnapshot saved rfl)
        next _ => exact hsnapshot saved rfl

/-- A shard with segments for vectors with one component. -/
def lineShard : ShardSettings where
  toSettings := lineSettings
  shardID := 1
  legacy := noLegacyDecoders
  useSegments := true
  ingestMode := false

end Vectron.Worker
