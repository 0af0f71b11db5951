import Vectron.Segment.Exact
import Vectron.Segment.Stability

/-! # Deleted and added documents

A tombstone is written for every deletion and read back whenever the shard is opened, and a
search drops whatever has one: a document whose latest operation is a deletion is never
returned. Nothing ever takes a tombstone away, so a document that is added again after it
was deleted stays hidden.
-/

namespace Vectron.Segment

open Foundation
open Worker (Hnsw Pebble Vector idOf kept)

/-! ## Deletions -/

/-- The tombstones of a shard against the operations so far. -/
structure Mourned (c : Config) (shard : Shard) (ops : List (Bytes × Option Vector)) : Prop where
  entombs : Entombs c shard.tombstoneDb (Dead c shard.tombstoneDb)
  tombstones : ∀ m, shard.mgr = some m → ∀ id,
    (m.tombstones.lookup id).isSome ↔ Dead c shard.tombstoneDb id
  deleted : ∀ id, lastOp ops id = some none → Dead c shard.tombstoneDb id

section Deletions

variable {c : Config} {shard : Shard}

theorem mourned_fresh (c : Config) : Mourned c Shard.fresh [] where
  entombs := (kept_fresh c).entombs
  tombstones _ hm := by cases hm
  deleted _ hlast := by cases hlast

theorem Mourned.step {ops : List (Bytes × Option Vector)} (hmourned : Mourned c shard ops)
    (event : Event) : Mourned c (shard.step c event) (ops ++ issued c shard event) := by
  cases @effect c shard event with
  | quiet hissued hprimary hdb hknown =>
      rw [hissued, List.append_nil]
      refine ⟨by rw [hdb]; exact hmourned.entombs, fun m' hm' id => ?_, fun id hlast => ?_⟩
      · rw [hdb]
        rcases hknown m' hm' with ⟨m, hm, hsame⟩ | hread
        · rw [hsame]
          exact hmourned.tombstones m hm id
        · rw [hread]
          rfl
      · rw [hdb]
        exact hmourned.deleted id hlast
  | @stored event m hm _ _ hissued hstep =>
      rw [hissued, hstep]
      refine ⟨hmourned.entombs, fun m' hm' id => ?_, fun id hlast => ?_⟩
      · obtain rfl := Option.some.inj hm'
        rw [Manager.stored_tombstones]
        exact hmourned.tombstones m hm id
      · rw [lastOp_append, lastOp_docs] at hlast
        cases hdoc : docOf event.docs id with
        | none =>
            rw [hdoc] at hlast
            exact hmourned.deleted id hlast
        | some vec =>
            rw [hdoc] at hlast
            cases hlast
  | @deleted id now m hm hissued hstep =>
      have hdead := dead_writeTombstone hmourned.entombs id now
      have hentombs : Dead c (writeTombstone c shard.tombstoneDb id now) =
          fun other => other = id ∨ Dead c shard.tombstoneDb other := by
        funext other
        exact propext (hdead other)
      rw [hissued, hstep]
      refine ⟨?_, fun m' hm' other => ?_, fun other hlast => ?_⟩
      · simp only
        rw [hentombs]
        exact hmourned.entombs.write id now
      · obtain rfl := Option.some.inj hm'
        rw [Manager.delete_tombstones, GoMap.lookup_insert_if, hdead, ← hmourned.tombstones m hm]
        by_cases hother : other = id
        · simp [hother]
        · simp [hother]
      · simp only
        rw [hdead]
        by_cases hother : other = id
        · exact Or.inl hother
        · refine Or.inr (hmourned.deleted other ?_)
          rw [lastOp_append] at hlast
          have hnone : lastOp [(id, none)] other = none := by
            simp [lastOp, latest, Ne.symm hother]
          rw [hnone, Option.none_or] at hlast
          exact hlast

theorem mourned_of_run (c : Config) (events : List Event) :
    Mourned c (Run.run (Shard.step c) Shard.fresh events) (history c events) := by
  have hmeets : Run.Meets (Shard.step c) (fun _ _ => True) Shard.fresh events :=
    Run.Meets.of_forall (fun _ _ => trivial) _ _
  have hrun := @Run.collect_invariant _ _ (Shard.step c) _ (fun _ _ => True) (issued c) (Mourned c)
    (fun _ event _ _ hmourned => hmourned.step event) _ _ _ hmeets (mourned_fresh c)
  rw [List.nil_append] at hrun
  exact hrun

end Deletions

/-- In every run, whatever the indexes answer, a search does not return a document whose
latest operation was a deletion. -/
theorem deleted_not_returned (c : Config) (env : SearchEnv) {events : List Event} {m : Manager}
    (hm : (Run.run (Shard.step c) Shard.fresh events).mgr = some m) {query : Vector} {k : Int}
    {opts : SearchOptions} {results : List Candidate}
    (hsearch : m.search env query k opts = some results) {id : Bytes}
    (hid : id ∈ results.map Prod.fst) : lastOp (history c events) id ≠ some none := by
  intro hlast
  obtain ⟨cand, hcand, rfl⟩ := List.mem_map.mp hid
  have hmourned := mourned_of_run c events
  have hsome := (hmourned.tombstones m hm cand.1).mpr (hmourned.deleted cand.1 hlast)
  obtain ⟨_, hnone⟩ := Manager.mem_of_search hsearch hcand
  rw [Option.isNone_iff_eq_none.mp hnone] at hsome
  cases hsome

/-- Two seals, a deletion, a compaction and a restart. -/
def mixedRun : List Event :=
  [.open_ (moment 1), .store (idOf 'a') (number 1), .triggerSeal (moment 2),
    .store (idOf 'b') (number 2), .delete (idOf 'a') (moment 3), .triggerSeal (moment 4),
    .runCompaction (moment 5), .storeBatch [(idOf 'c', number 3)], .open_ (moment 6)]

theorem deleted_not_returned_mixedRun :
    ∃ m results, (Run.run (Shard.step (lineConfig 2)) Shard.fresh mixedRun).mgr = some m ∧
      m.search lineEnv (number 1) 5 defaultSearchOptions = some results ∧
      results.map Prod.fst = [idOf 'b', idOf 'c'] ∧
      lastOp (history (lineConfig 2) mixedRun) (idOf 'a') = some none ∧
      lastOp (history (lineConfig 2) mixedRun) (idOf 'b') ≠ some none := by
  have hfound : ((Run.run (Shard.step (lineConfig 2)) Shard.fresh mixedRun).mgr.bind fun m =>
      m.search lineEnv (number 1) 5 defaultSearchOptions).map (List.map Prod.fst) =
        some [idOf 'b', idOf 'c'] := by decide +kernel
  obtain ⟨results, hresults, hids⟩ := Option.map_eq_some_iff.mp hfound
  obtain ⟨m, hm, hsearch⟩ := Option.bind_eq_some_iff.mp hresults
  refine ⟨m, results, hm, hsearch, hids, by decide +kernel, ?_⟩
  exact deleted_not_returned (lineConfig 2) lineEnv hm hsearch (by rw [hids]; exact List.mem_cons_self)

/-! ## Additions -/

/-- The index of some segment has a vector for the id. -/
def Manager.Holds (c : Config) (m : Manager) (id : Bytes) : Prop :=
  (m.mutable.item c id).isSome = true ∨
    ∃ segID seg, m.immutables.lookup segID = some seg ∧ (seg.hnsw.item c.arith id).isSome = true

/-- The run is orderly, and nothing is added that has a tombstone. -/
def Unburied (c : Config) (shard : Shard) (event : Event) : Prop :=
  Orderly c shard event ∧
    ∀ m ∈ shard.mgr, ∀ doc ∈ event.docs, (m.tombstones.lookup doc.1).isNone = true

instance (c : Config) (shard : Shard) (event : Event) : Decidable (Unburied c shard event) :=
  inferInstanceAs (Decidable (_ ∧ _))

/-- Documents whose latest operation is an addition have no tombstone. -/
structure Recorded (c : Config) (shard : Shard) (ops : List (Bytes × Option Vector)) : Prop where
  upright : Upright c shard
  alive : ∀ id vec, lastOp ops id = some (some vec) → ¬ Dead c shard.tombstoneDb id

section Additions

variable {c : Config} {shard : Shard}

theorem Recorded.step {ops : List (Bytes × Option Vector)} (hrecorded : Recorded c shard ops)
    {event : Event} (hunburied : Unburied c shard event) :
    Recorded c (shard.step c event) (ops ++ issued c shard event) := by
  refine ⟨hrecorded.upright.step hunburied.1, fun id vec hlast => ?_⟩
  rw [lastOp_append] at hlast
  cases @effect c shard event with
  | quiet hissued _ hdb _ =>
      rw [hissued] at hlast
      rw [hdb]
      exact hrecorded.alive id vec hlast
  | @stored event m hm _ _ hissued hstep =>
      rw [hissued, lastOp_docs] at hlast
      rw [hstep]
      cases hdoc : docOf event.docs id with
      | none =>
          rw [hdoc] at hlast
          exact hrecorded.alive id vec hlast
      | some given =>
          intro hdead
          obtain ⟨doc, hin, heq⟩ := List.mem_map.mp (isSome_docOf.mp (Option.isSome_of_eq_some hdoc))
          have hnone := hunburied.2 m hm doc hin
          have hsome := ((hrecorded.upright.tended m hm).tombstones id).mpr hdead
          rw [← heq, Option.isNone_iff_eq_none.mp hnone] at hsome
          cases hsome
  | @deleted other now m hm hissued hstep =>
      rw [hissued] at hlast
      have hne : id ≠ other := by
        intro heq
        subst heq
        simp [lastOp, latest] at hlast
      have hnone : lastOp [(other, none)] id = none := by simp [lastOp, latest, Ne.symm hne]
      rw [hnone, Option.none_or] at hlast
      rw [hstep]
      simp only
      rw [dead_writeTombstone hrecorded.upright.kept.entombs]
      exact fun hdead => hdead.elim hne (hrecorded.alive id vec hlast)

theorem recorded_of_run {events : List Event}
    (hmeets : Run.Meets (Shard.step c) (Unburied c) Shard.fresh events) :
    Recorded c (Run.run (Shard.step c) Shard.fresh events) (history c events) := by
  have hstart : Recorded c Shard.fresh [] := ⟨upright_fresh c, fun _ _ hlast => by cases hlast⟩
  have hrun := @Run.collect_invariant _ _ (Shard.step c) _ (Unburied c) (issued c) (Recorded c)
    (fun _ _ _ hunburied hrecorded => hrecorded.step hunburied) _ _ _ hmeets hstart
  rw [List.nil_append] at hrun
  exact hrun

end Additions

/-! ### Searches -/

/-- Every segment whose index has a vector for the id answers a search with the id. -/
def Manager.Finds (c : Config) (env : SearchEnv) (m : Manager) (query : Vector) (k : Int)
    (opts : SearchOptions) (id : Bytes) : Prop :=
  ((m.mutable.item c id).isSome = true → id ∈ (env.searchWithEf m.mutable.hnsw query
      (perSegK opts k) (effectiveEf opts k)).map Prod.fst) ∧
    ∀ seg ∈ m.sealedSegments env, (seg.hnsw.item c.arith id).isSome = true →
      id ∈ (seg.search env query (perSegK opts k) (effectiveEf opts k)).map Prod.fst

instance (c : Config) (env : SearchEnv) (m : Manager) (query : Vector) (k : Int)
    (opts : SearchOptions) (id : Bytes) : Decidable (m.Finds c env query k opts id) :=
  inferInstanceAs (Decidable (_ ∧ _))

/-- A search asks every sealed segment. -/
def Manager.Reaches (env : SearchEnv) (m : Manager) (opts : SearchOptions) : Prop :=
  let maxFanout := if opts.maxFanout ≤ 0 then env.maxFanout else opts.maxFanout
  maxFanout ≤ 0 ∨ (m.immutables.entries.length : Int) ≤ maxFanout

instance (env : SearchEnv) (m : Manager) (opts : SearchOptions) : Decidable (m.Reaches env opts) :=
  inferInstanceAs (Decidable (_ ∨ _))

/-- The documents a search sorts and cuts off at `k`. -/
def Manager.candidates (env : SearchEnv) (m : Manager) (query : Vector) (k : Int)
    (opts : SearchOptions) : List Candidate :=
  live (fun id => (m.tombstones.lookup id).isSome) (m.gather env query k opts)

section Searches

variable {c : Config} {env : SearchEnv} {m : Manager} {query : Vector} {k : Int}
  {opts : SearchOptions} {id : Bytes}

theorem Manager.isSome_gather (hreaches : m.Reaches env opts) (hholds : m.Holds c id)
    (hfinds : m.Finds c env query k opts id) :
    ((m.gather env query k opts).lookup id).isSome = true := by
  have hlength : (m.sealedSegments env).length = m.immutables.entries.length := by
    rw [sealedSegments, (env.sortSegments_perm _).length_eq, List.length_map]
  have hsome : ((mergeBest (mergeBest ∅ (env.searchWithEf m.mutable.hnsw query (perSegK opts k)
      (effectiveEf opts k))) ((m.sealedSegments env).map fun seg =>
        seg.search env query (perSegK opts k) (effectiveEf opts k)).flatten).lookup id).isSome =
      true := by
    rw [mergeBest, isSome_foldl_keepBest, mergeBest, isSome_foldl_keepBest]
    rcases hholds with hmutable | ⟨segID, seg, hseg, hitem⟩
    · exact Or.inl (Or.inr (hfinds.1 hmutable))
    · have hin : seg ∈ m.sealedSegments env := (env.sortSegments_perm _).mem_iff.mpr
        (List.mem_map.mpr ⟨⟨segID, seg⟩, AList.mem_lookup_iff.mp hseg, rfl⟩)
      obtain ⟨cand, hcand, hid⟩ := List.mem_map.mp (hfinds.2 seg hin hitem)
      exact Or.inr (List.mem_map.mpr
        ⟨cand, List.mem_flatten.mpr ⟨_, List.mem_map.mpr ⟨seg, hin, rfl⟩, hcand⟩, hid⟩)
  rw [← mergeAnswers_of_not_skips, ← mergeImmutables_eq, ← mergeCandidates_eq] at hsome
  · exact hsome
  · refine not_skips ?_
    rw [List.length_map, hlength, Nat.cast_zero, zero_add]
    exact hreaches

/-- A candidate that fewer than `k` others are as near as is returned. -/
theorem Manager.mem_search {cand : Candidate} (hcand : cand ∈ m.candidates env query k opts)
    (hsorted : (env.sort (m.candidates env query k opts)).Pairwise fun x y => ¬ y.2 < x.2)
    (hfew : ((m.candidates env query k opts).countP fun other =>
      decide (other.1 ≠ cand.1) && !decide (cand.2 < other.2) : Int) < k) :
    ∃ results, m.search env query k opts = some results ∧ cand ∈ results := by
  have hsearch : m.search env query k opts =
      some ((env.sort (m.candidates env query k opts)).take k.toNat) := by
    have hpos := List.length_pos_of_mem hcand
    unfold search
    simp only [← Option.not_isSome]
    exact (if_neg hpos.ne').trans (if_neg (by omega))
  refine ⟨_, hsearch, ?_⟩
  have hperm := env.sort_perm (m.candidates env query k opts)
  have hkeys := (hperm.map Prod.fst).nodup_iff.mpr (live_keys_nodup (m.gather env query k opts))
  obtain ⟨i, hi, hget⟩ := List.mem_iff_getElem.mp (hperm.mem_iff.mpr hcand)
  by_contra hnot
  have hge : k.toNat ≤ i := by
    by_contra hlt
    exact hnot (List.mem_take_iff_getElem.mpr ⟨i, by omega, hget⟩)
  -- the first `k` are others, and none of them is farther
  have hall : ∀ other ∈ (env.sort (m.candidates env query k opts)).take k.toNat,
      (decide (other.1 ≠ cand.1) && !decide (cand.2 < other.2)) = true := by
    intro other hother
    obtain ⟨j, hj, hother⟩ := List.mem_take_iff_getElem.mp hother
    have hji : j < i := by omega
    have hne : other.1 ≠ cand.1 := by
      rw [← hother, ← hget]
      exact List.pairwise_iff_getElem.mp (List.pairwise_map.mp hkeys) j i (by omega) hi hji
    have hnear := List.pairwise_iff_getElem.mp hsorted j i (by omega) hi hji
    rw [hother, hget] at hnear
    simp [hne, hnear]
  have hcount := (List.take_sublist k.toNat (env.sort (m.candidates env query k opts))).countP_le
    (p := fun other => decide (other.1 ≠ cand.1) && !decide (cand.2 < other.2))
  rw [List.countP_eq_length.mpr hall, List.length_take, hperm.countP_eq] at hcount
  omega

end Searches

/-- In every orderly run that adds nothing with a tombstone, a document whose latest
operation is an addition has none. With the queue drained and no more sealed segments than
the fan-out it is a candidate of every search that the index of its segment answers with it,
and is returned if fewer than `k` others are as near. -/
theorem added_visible {c : Config} {events : List Event}
    (hmeets : Run.Meets (Shard.step c) (Unburied c) Shard.fresh events) {m : Manager}
    (hm : (Run.run (Shard.step c) Shard.fresh events).mgr = some m) (hdrained : m.Drained)
    {id : Bytes} {vec : Vector} (hlast : lastOp (history c events) id = some (some vec))
    {env : SearchEnv} {opts : SearchOptions} (hreaches : m.Reaches env opts) {query : Vector}
    {k : Int} (hfinds : m.Finds c env query k opts id) :
    (m.tombstones.lookup id).isNone = true ∧
      ∃ score, (id, score) ∈ m.candidates env query k opts ∧
        ((env.sort (m.candidates env query k opts)).Pairwise (fun x y => ¬ y.2 < x.2) →
          ((m.candidates env query k opts).countP fun other =>
            decide (other.1 ≠ id) && !decide (score < other.2) : Int) < k →
          ∃ results, m.search env query k opts = some results ∧ (id, score) ∈ results) := by
  have hrecorded := recorded_of_run hmeets
  have htended := hrecorded.upright.tended m hm
  have halive := hrecorded.alive id vec hlast
  have hstored := stored_of_run c events id
  rw [hlast] at hstored
  have hnone : (m.tombstones.lookup id).isNone = true := by
    rw [← htended.tombstones] at halive
    simpa using halive
  have hholds : m.Holds c id := by
    rcases htended.covered id halive (Option.isSome_of_eq_some hstored) with ⟨op, hop, _⟩ | hholds
    · rw [hdrained] at hop
      cases hop
    · exact hholds
  obtain ⟨score, hscore⟩ := Option.isSome_iff_exists.mp
    (Manager.isSome_gather hreaches hholds hfinds)
  have hcand : (id, score) ∈ m.candidates env query k opts :=
    mem_live.mpr ⟨hscore, by simpa using hnone⟩
  exact ⟨hnone, score, hcand, fun hsorted hfew => Manager.mem_search hcand hsorted hfew⟩

theorem added_visible_mixedRun :
    Run.Meets (Shard.step (lineConfig 2)) (Unburied (lineConfig 2)) Shard.fresh mixedRun ∧
      ∃ m, (Run.run (Shard.step (lineConfig 2)) Shard.fresh mixedRun).mgr = some m ∧
        m.Drained ∧ m.Reaches lineEnv defaultSearchOptions ∧
        lastOp (history (lineConfig 2) mixedRun) (idOf 'b') = some (some (number 2)) ∧
        idOf 'b' ∈ (m.candidates lineEnv (number 2) 1 defaultSearchOptions).map Prod.fst := by
  have hmeets : Run.Meets (Shard.step (lineConfig 2)) (Unburied (lineConfig 2)) Shard.fresh
      mixedRun := by decide +kernel
  have hlast : lastOp (history (lineConfig 2) mixedRun) (idOf 'b') = some (some (number 2)) := by
    decide +kernel
  have hstate : ((Run.run (Shard.step (lineConfig 2)) Shard.fresh mixedRun).mgr.any fun m =>
      decide (m.Drained ∧ m.Reaches lineEnv defaultSearchOptions ∧
        m.Finds (lineConfig 2) lineEnv (number 2) 1 defaultSearchOptions (idOf 'b'))) = true := by
    decide +kernel
  obtain ⟨m, hm, hdecided⟩ := (Option.any_eq_true _ _).mp hstate
  obtain ⟨hdrained, hreaches, hfinds⟩ := of_decide_eq_true hdecided
  obtain ⟨_, score, hcand, _⟩ := added_visible hmeets hm hdrained hlast hreaches hfinds
  exact ⟨hmeets, m, hm, hdrained, hreaches, hlast, List.mem_map.mpr ⟨_, hcand, rfl⟩⟩

/-- A document is added, deleted and added again. -/
def revivalRun : List Event :=
  [.open_ (moment 1), .store (idOf 'a') (number 1), .delete (idOf 'a') (moment 2),
    .store (idOf 'a') (number 1)]

/-- The document is in the index, and the tombstone hides it from searches, before and after
a restart. -/
theorem readded_hidden :
    lastOp (history (lineConfig 4) revivalRun) (idOf 'a') = some (some (number 1)) ∧
      ((Run.run (Shard.step (lineConfig 4)) Shard.fresh revivalRun).mgr.any fun m =>
        decide m.Drained && (m.tombstones.lookup (idOf 'a')).isSome &&
          (m.mutable.item (lineConfig 4) (idOf 'a')).isSome) = true ∧
      ((Run.run (Shard.step (lineConfig 4)) Shard.fresh revivalRun).mgr.bind fun m =>
        m.search lineEnv (number 1) 5 defaultSearchOptions).map (List.map Prod.fst) = some [] ∧
      ((Run.run (Shard.step (lineConfig 4)) Shard.fresh
        (revivalRun ++ [.open_ (moment 3)])).mgr.any fun m =>
          (m.tombstones.lookup (idOf 'a')).isSome &&
            (m.mutable.item (lineConfig 4) (idOf 'a')).isNone) = true := by
  decide +kernel

end Vectron.Segment
