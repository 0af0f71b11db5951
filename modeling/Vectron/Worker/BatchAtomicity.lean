import Vectron.Worker.Effects

/-! # A batch that is refused

`StoreVectorBatch` checks its vectors before it writes anything. A bulk load puts them into
the index one after the other, and after an error takes out again whatever ids it has given
to the index by then. It is reserved for an empty index; an index whose vectors have all been
overwritten counts as one.
-/

namespace Vectron.Worker

open Foundation OrderedStore

/-! ## Runs of a shard -/

/-- A call on the store of a shard, whichever index it has. -/
def Shard.call (m : ShardSettings) (store : Store) : Call → Store
  | .storeVector now id vector metadata => (Shard.storeVector m now id vector metadata store).2
  | .storeVectorBatch now vectors => (Shard.storeVectorBatch m now vectors store).2
  | .deleteVector now id => Shard.deleteVector m now id store
  | .saveHNSW now => saveHNSW m.toSettings now store
  | .reopen order => (newStateMachine m order store.db store.snapshot).store

/-- The store after these calls. -/
def Shard.after (m : ShardSettings) (order : RangeOrder) (db : Pebble) (calls : List Call) : Store :=
  Run.run (Shard.call m) (newStateMachine m order db none).store calls

/-- Pebble, with the snapshot in it, and the live vectors of the index are as before. -/
structure Unchanged (arith : Arithmetic) (before after : Store) : Prop where
  db : after.db = before.db
  snapshot : after.snapshot = before.snapshot
  item : ∀ id, after.index.item arith id = before.index.item arith id

/-- The ids a bulk load has given to the index when it comes to an entry it refuses. The
index drops the vector of an id before it looks at the dimension of the new one. -/
def touched (s : Settings) : List VectorEntry → List Bytes
  | [] => []
  | entry :: rest =>
      if entry.id = [] ∨ entry.vector.length = 0 then []
      else if BulkValid s entry then entry.id :: touched s rest
      else [entry.id]

/-- The batch is loaded in bulk and an id it has touched is live. -/
def TakesLive (m : ShardSettings) (store : Store) (vectors : List VectorEntry) : Prop :=
  bypassesIndex m = false ∧
    shouldBulkLoad m.toSettings store.snapshotLoaded store.index vectors.length = true ∧
    ∃ id ∈ touched m.toSettings vectors, store.index.item m.arith id ≠ none

/-! ## The dimension of the index -/

section Dimension

variable {m : ShardSettings} {store : Store}

theorem sized_deleteVector (hsized : Sized m.toSettings store) (now : Nat)
    (id : Bytes) : Sized m.toSettings (Shard.deleteVector m now id store) := by
  rw [Shard.deleteVector]
  split
  next _ => exact hsized.withDb _
  next _ => exact ⟨(congrArg IndexConfig.dim (Hnsw.config_delete id)).trans hsized.index,
    hsized.snapshot⟩

theorem sized_call (hsized : Sized m.toSettings store) (call : Call) :
    Sized m.toSettings (Shard.call m store call) := by
  cases call with
  | storeVector now id vector metadata =>
      exact (performs_storeVector hsized now id vector metadata).sized
  | storeVectorBatch now vectors => exact (performs_storeVectorBatch hsized now vectors).sized
  | deleteVector now id => exact sized_deleteVector hsized now id
  | saveHNSW now =>
      refine ⟨hsized.index, ?_⟩
      intro saved hsaved
      cases hsaved
      exact hsized.index
  | reopen order => exact sized_newStateMachine order store.db hsized.snapshot

theorem sized_after (m : ShardSettings) (order : RangeOrder) (db : Pebble) (calls : List Call) :
    Sized m.toSettings (Shard.after m order db calls) := by
  have hopened : Sized m.toSettings (newStateMachine m order db none).store :=
    sized_newStateMachine order db nofun
  rw [Shard.after]
  generalize (newStateMachine m order db none).store = store at hopened
  induction calls generalizing store with
  | nil => exact hopened
  | cons call calls ih => exact ih _ (sized_call hopened call)

end Dimension

/-! ## What a failure leaves -/

section Failure

variable {s : Settings} {h : Hnsw}

/-- A bulk load that fails takes out of the index all it has touched. -/
theorem item_bulkAdd_touched (hdim : h.config.dim = s.config.index.dim) {added : List Bytes}
    {vectors : List VectorEntry} {err : StoreError}
    (hbulk : (bulkAdd s h added vectors).2 = .error err) (id : Bytes) :
    (bulkAdd s h added vectors).1.item s.arith id =
      if id ∈ added ∨ id ∈ touched s vectors then none else h.item s.arith id := by
  induction vectors generalizing h added err with
  | nil => cases hbulk
  | cons entry rest ih =>
      rw [bulkAdd] at hbulk ⊢
      rw [touched]
      split at hbulk
      next hempty =>
        rw [if_pos hempty, if_pos hempty, item_rollback]
        simp
      next hfull =>
        rw [if_neg hfull, if_neg hfull]
        dsimp only at hbulk ⊢
        by_cases hadd : (h.add s.arith entry.id entry.vector).2 = true
        · have hlength := (Hnsw.add_succeeds _ _).mp hadd
          rw [if_pos hadd] at hbulk ⊢
          cases hvalue : encodeValue s entry.vector entry.metadata with
          | error err' =>
              have hinvalid : ¬ BulkValid s entry := by
                rintro ⟨_, _, hencodes⟩
                rw [hvalue] at hencodes
                cases hencodes
              dsimp only
              rw [if_neg hinvalid, item_rollback, Hnsw.item_add hlength]
              by_cases hid : id = entry.id
              · simp [hid]
              · simp [hid]
          | ok value =>
              have hvalid : BulkValid s entry :=
                ⟨fun hid => hfull (Or.inl hid), hlength.trans hdim, by rw [hvalue]; rfl⟩
              rw [hvalue] at hbulk
              dsimp only at hbulk ⊢
              rw [if_pos hvalid]
              cases htail : (bulkAdd s (h.add s.arith entry.id entry.vector).1
                  (added ++ [entry.id]) rest).2 with
              | ok pairs =>
                  rw [htail] at hbulk
                  cases hbulk
              | error err' =>
                  rw [ih (by rw [Hnsw.config_add, hdim]) htail, Hnsw.item_add hlength]
                  by_cases hid : id = entry.id
                  · simp [hid]
                  · simp [hid]
        · have hlength : entry.vector.length ≠ h.config.dim :=
            fun hlength => hadd ((Hnsw.add_succeeds _ _).mpr hlength)
          have hinvalid : ¬ BulkValid s entry := fun hvalid =>
            hlength (hvalid.2.1.trans hdim.symm)
          rw [if_neg hadd, if_neg hinvalid, item_rollback, Hnsw.item_add_of_ne hlength]
          by_cases hid : id = entry.id
          · simp [hid]
          · simp [hid]

end Failure

theorem unchanged_refl (arith : Arithmetic) (store : Store) : Unchanged arith store store :=
  ⟨rfl, rfl, fun _ => rfl⟩

theorem unchanged_storeVectorBatch_iff {s : Settings} {store : Store}
    (hsized : Sized s store) {now : Nat} {vectors : List VectorEntry} {err : StoreError}
    (herr : (storeVectorBatch s now vectors store).1 = .error err) :
    Unchanged s.arith store (storeVectorBatch s now vectors store).2 ↔
      ¬ (shouldBulkLoad s store.snapshotLoaded store.index vectors.length = true ∧
        ∃ id ∈ touched s vectors, store.index.item s.arith id ≠ none) := by
  rw [storeVectorBatch] at herr ⊢
  by_cases hempty : vectors = []
  · rw [if_pos hempty] at herr
    cases herr
  · rw [if_neg hempty] at herr ⊢
    by_cases hbulk : shouldBulkLoad s store.snapshotLoaded store.index vectors.length = true
    · rw [if_pos hbulk] at herr ⊢
      rw [bulkLoadVectors] at herr ⊢
      have hitem := @item_bulkAdd_touched s store.index hsized.index [] vectors
      rcases hadd : bulkAdd s store.index [] vectors with ⟨index, result⟩
      rw [hadd] at hitem herr
      cases result with
      | ok pairs => cases herr
      | error err' =>
          dsimp only at herr ⊢
          have hitem := fun id => hitem rfl id
          simp only [List.not_mem_nil, false_or] at hitem
          constructor
          · rintro hsame ⟨_, id, hid, hlive⟩
            have hnow := hsame.item id
            dsimp only at hnow
            rw [hitem id, if_pos hid] at hnow
            exact hlive hnow.symm
          · intro hnot
            refine ⟨rfl, rfl, fun id => ?_⟩
            dsimp only
            rw [hitem id]
            split
            next hid =>
              by_contra hlive
              exact hnot ⟨hbulk, id, hid, Ne.symm hlive⟩
            next _ => rfl
    · rw [if_neg hbulk] at herr ⊢
      have hnot : ¬ (shouldBulkLoad s store.snapshotLoaded store.index vectors.length = true ∧
          ∃ id ∈ touched s vectors, store.index.item s.arith id ≠ none) := fun h => hbulk h.1
      cases hencode : vectors.mapM (encodeEntry s) with
      | error err' => exact ⟨fun _ => hnot, fun _ => unchanged_refl _ _⟩
      | ok pairs =>
          rw [hencode] at herr
          dsimp only at herr
          have hdims : ∀ entry ∈ vectors, entry.vector.length = store.index.config.dim := by
            intro entry hentry
            rw [encodeEntries_dim (encodeEntries_eq_ok hencode) hentry, hsized.index]
          rw [if_pos (addAll_succeeds hdims)] at herr
          cases herr

/-- A shard that loads two vectors or more in bulk. -/
def bulkShard : ShardSettings :=
  { lineShard with
    config := { lineShard.config with bulkLoadThreshold := 2 }
    useSegments := false }

/-- The index has one vector, which was overwritten, and counts itself empty. -/
def overwrittenOnce : List Call :=
  [.storeVector 1700000000000000000 (idOf 'a') [1] [],
    .storeVector 1700000000000000010 (idOf 'a') [2] []]

/-- A batch with a second entry that has no id. -/
def refusedBatch : List VectorEntry := [⟨idOf 'b', [3], []⟩, ⟨[], [1], []⟩]

end Vectron.Worker
