import Vectron.Segment.Calls

/-! # Searching the segments of a shard

A search asks the index of every segment, the mutable one first and then the sealed ones
from the newest on, and keeps the best score of each document. Documents with a tombstone
are dropped at the end. What the index of a segment answers is up to the index.
-/

namespace Vectron.Segment

open Foundation
open Worker (Arithmetic Hnsw Pebble Vector kept)

/-- An id and its score; nothing reads the kind of the segment. -/
abbrev Candidate := Bytes × Float32

/-- `SearchOptions` without the filter, which the manager sets. -/
structure SearchOptions where
  efSearch : Int
  candidatesPerSeg : Int
  maxFanout : Int
  minFanout : Int
  earlyStopFactor : Int

/-- `DefaultSearchOptions`. -/
def defaultSearchOptions : SearchOptions := ⟨100, 100, 0, 0, 0⟩

/-- What a search depends on besides the manager. -/
structure SearchEnv where
  /-- `SearchWithEf` of an index -/
  searchWithEf : Hnsw → Vector → (k ef : Int) → List Candidate
  /-- `sort.Slice` by score, on the candidates in the order of a map -/
  sort : List Candidate → List Candidate
  sort_perm : ∀ candidates, (sort candidates).Perm candidates
  /-- `sort.Slice` by age, on the segments in the order of a map -/
  sortSegments : List ImmutableSegment → List ImmutableSegment
  sortSegments_perm : ∀ segs, (sortSegments segs).Perm segs
  /-- `VECTRON_SEGMENT_SEARCH_MAX_FANOUT` -/
  maxFanout : Int
  /-- `VECTRON_SEGMENT_SEARCH_MIN_FANOUT` -/
  minFanout : Int

/-- `mergeCandidates`. -/
def mergeCandidates (dst : GoMap Bytes Float32) (cands : List Candidate) : GoMap Bytes Float32 :=
  cands.foldl
    (fun dst cand =>
      match dst.lookup cand.1 with
      | none => dst.insert cand.1 cand.2
      | some prev => if cand.2 < prev then dst.insert cand.1 cand.2 else dst) dst

section Search

variable (env : SearchEnv)

/-- How many candidates an immutable segment asks its index for. -/
def candidateK (k ef : Int) : Int :=
  let candidateK := if k < ef then ef else k
  if candidateK ≤ 0 then k else candidateK

/-- `Search` of an immutable segment. -/
def ImmutableSegment.search (seg : ImmutableSegment) (query : Vector) (k ef : Int) :
    List Candidate :=
  let found := env.searchWithEf seg.hnsw query (candidateK k ef) ef
  if 0 < k ∧ k < found.length then found.take k.toNat else found

/-- The loop over the sealed segments, with the place of the next one. -/
def mergeImmutables (query : Vector) (k ef maxFanout minFanout enough : Int) :
    Nat → List ImmutableSegment → GoMap Bytes Float32 → GoMap Bytes Float32
  | _, [], dedup => dedup
  | i, seg :: rest, dedup =>
      let dedup := mergeCandidates dedup (seg.search env query k ef)
      if 0 < maxFanout ∧ maxFanout ≤ i + 1 ∧ minFanout ≤ i + 1 ∧
          enough ≤ dedup.entries.length then dedup
      else mergeImmutables query k ef maxFanout minFanout enough (i + 1) rest dedup

/-- What the segments have for a query, before documents are dropped. -/
def Manager.gather (m : Manager) (query : Vector) (k : Int) (opts : SearchOptions) :
    GoMap Bytes Float32 :=
  let ef := if opts.efSearch ≤ 0 then 100 else opts.efSearch
  let ef := if ef < k then k else ef
  let perSegK :=
    if 0 < opts.candidatesPerSeg ∧ (k ≤ 0 ∨ opts.candidatesPerSeg < k) then opts.candidatesPerSeg
    else k
  let perSegK := if perSegK ≤ 0 then k else perSegK
  let dedup := mergeCandidates ∅ (env.searchWithEf m.mutable.hnsw query perSegK ef)
  let segs := env.sortSegments (m.immutables.entries.map fun entry => entry.2)
  let maxFanout := if opts.maxFanout ≤ 0 then env.maxFanout else opts.maxFanout
  let minFanout := if opts.minFanout ≤ 0 then env.minFanout else opts.minFanout
  let minFanout := min minFanout segs.length
  let earlyStopFactor := if opts.earlyStopFactor ≤ 0 then 2 else opts.earlyStopFactor
  mergeImmutables env query perSegK ef maxFanout minFanout (k * earlyStopFactor) 0 segs dedup

/-- `Search` of the manager. A negative number of results is refused by `make`, if there is
anything to return. -/
def Manager.search (m : Manager) (query : Vector) (k : Int) (opts : SearchOptions) :
    Option (List Candidate) :=
  let dedup := (m.gather env query k opts).entries.map fun entry => (entry.1, entry.2)
  let dedup := dedup.filter fun cand => (m.tombstones.lookup cand.1).isNone
  if dedup.length = 0 then some []
  else if k < 0 then none
  else some ((env.sort dedup).take k.toNat)

variable {env}

/-- Everything a search returns was gathered and has no tombstone. -/
theorem Manager.mem_of_search {m : Manager} {query : Vector} {k : Int} {opts : SearchOptions}
    {results : List Candidate} (hsearch : m.search env query k opts = some results)
    {cand : Candidate} (hcand : cand ∈ results) :
    (m.gather env query k opts).lookup cand.1 = some cand.2 ∧
      (m.tombstones.lookup cand.1).isNone := by
  have hmem : cand ∈ ((m.gather env query k opts).entries.map
      fun entry => (entry.1, entry.2)).filter
        fun cand => (m.tombstones.lookup cand.1).isNone := by
    unfold search at hsearch
    simp only at hsearch
    split at hsearch
    next =>
      cases hsearch
      cases hcand
    next =>
      split at hsearch
      next => cases hsearch
      next =>
        obtain rfl := Option.some.inj hsearch
        exact (env.sort_perm _).mem_iff.mp (List.mem_of_mem_take hcand)
  obtain ⟨hentry, hnone⟩ := List.mem_filter.mp hmem
  obtain ⟨entry, hin, rfl⟩ := List.mem_map.mp hentry
  exact ⟨AList.mem_lookup_iff.mpr hin, hnone⟩

end Search

/-! ## Where scores come from -/

/-- A property of all scores kept so far. -/
def Scored (property : Bytes → Float32 → Prop) (dedup : GoMap Bytes Float32) : Prop :=
  ∀ id score, dedup.lookup id = some score → property id score

section Scores

variable {env : SearchEnv} {property : Bytes → Float32 → Prop}

section

variable {dedup : GoMap Bytes Float32} (hscored : Scored property dedup)

include hscored

theorem Scored.insert {cand : Candidate} (hcand : property cand.1 cand.2) :
    Scored property (dedup.insert cand.1 cand.2) := by
  intro id score hlookup
  rw [GoMap.lookup_insert_if] at hlookup
  split at hlookup
  next heq =>
    subst heq
    obtain rfl := Option.some.inj hlookup
    exact hcand
  next => exact hscored id score hlookup

theorem Scored.mergeCandidates {cands : List Candidate}
    (hcands : ∀ cand ∈ cands, property cand.1 cand.2) :
    Scored property (mergeCandidates dedup cands) := by
  induction cands generalizing dedup with
  | nil => exact hscored
  | cons cand rest ih =>
      have hrest : ∀ cand ∈ rest, property cand.1 cand.2 :=
        fun other hother => hcands other (List.mem_cons_of_mem _ hother)
      have hcand := hcands cand List.mem_cons_self
      unfold Segment.mergeCandidates at ih ⊢
      rw [List.foldl_cons]
      refine ih ?_ hrest
      split
      next => exact hscored.insert hcand
      next =>
        split
        next => exact hscored.insert hcand
        next => exact hscored

end

theorem ImmutableSegment.mem_of_search {seg : ImmutableSegment} {query : Vector} {k ef : Int}
    {cand : Candidate} (hcand : cand ∈ seg.search env query k ef) :
    ∃ k', cand ∈ env.searchWithEf seg.hnsw query k' ef := by
  unfold search at hcand
  simp only at hcand
  split at hcand
  next => exact ⟨_, List.mem_of_mem_take hcand⟩
  next => exact ⟨_, hcand⟩

theorem Scored.mergeImmutables {query : Vector} {k ef maxFanout minFanout enough : Int} {i : Nat}
    {segs : List ImmutableSegment} {dedup : GoMap Bytes Float32} (hscored : Scored property dedup)
    (hsegs : ∀ seg ∈ segs, ∀ k', ∀ cand ∈ env.searchWithEf seg.hnsw query k' ef,
      property cand.1 cand.2) :
    Scored property (mergeImmutables env query k ef maxFanout minFanout enough i segs dedup) := by
  induction segs generalizing i dedup with
  | nil => exact hscored
  | cons seg rest ih =>
      have hmerged : Scored property
          (Segment.mergeCandidates dedup (seg.search env query k ef)) := by
        refine hscored.mergeCandidates fun cand hcand => ?_
        obtain ⟨k', hin⟩ := ImmutableSegment.mem_of_search hcand
        exact hsegs seg List.mem_cons_self k' cand hin
      rw [Segment.mergeImmutables]
      split
      next => exact hmerged
      next => exact ih hmerged fun other hother => hsegs other (List.mem_cons_of_mem _ hother)

/-- Scores come from the indexes of the mutable segment and of the loaded ones. -/
theorem Manager.scored_gather {m : Manager} {query : Vector} {k : Int} {opts : SearchOptions}
    (hmutable : ∀ k ef, ∀ cand ∈ env.searchWithEf m.mutable.hnsw query k ef,
      property cand.1 cand.2)
    (himmutables : ∀ segID seg, m.immutables.lookup segID = some seg → ∀ k ef,
      ∀ cand ∈ env.searchWithEf seg.hnsw query k ef, property cand.1 cand.2) :
    Scored property (m.gather env query k opts) := by
  have hstart : Scored property ∅ := fun _ _ hlookup => by simp at hlookup
  refine (hstart.mergeCandidates (hmutable _ _)).mergeImmutables fun seg hseg k' => ?_
  obtain ⟨entry, hentry, rfl⟩ := List.mem_map.mp ((env.sortSegments_perm _).mem_iff.mp hseg)
  exact himmutables entry.1 entry.2 (AList.mem_lookup_iff.mpr hentry) k' _

end Scores

/-! ## Histories -/

/-- The operations an event issues to a manager: an addition with its vector, or a deletion. -/
def issued (c : Config) (shard : Shard) (event : Event) : List (Bytes × Option Vector) :=
  if shard.mgr.isSome && event.accepted c then
    match event with
    | .delete id _ => [(id, none)]
    | event => event.docs.map fun doc => (doc.1, some doc.2)
  else []

/-- All operations of a run. -/
def history (c : Config) (events : List Event) : List (Bytes × Option Vector) :=
  Run.collect (Shard.step c) (issued c) Shard.fresh events

/-- The latest operation on an id. -/
def lastOp (operations : List (Bytes × Option Vector)) (id : Bytes) : Option (Option Vector) :=
  (latest Prod.fst operations id).map Prod.snd

theorem lastOp_append (first second : List (Bytes × Option Vector)) (id : Bytes) :
    lastOp (first ++ second) id = (lastOp second id).or (lastOp first id) := by
  unfold lastOp
  rw [latest_append]
  cases latest Prod.fst second id <;> rfl

theorem lastOp_docs (docs : List (Bytes × Vector)) (id : Bytes) :
    lastOp (docs.map fun doc => (doc.1, some doc.2)) id = (docOf docs id).map some := by
  unfold lastOp docOf
  rw [latest_map, Option.map_map, Option.map_map]
  rfl

section

variable {c : Config} {primary : GoMap Bytes Vector} {ops : List (Bytes × Option Vector)}
  (hstored : ∀ id, primary.lookup id = (lastOp ops id).join.map c.stored)

include hstored

/-- Storing documents, seen from the operations issued. -/
theorem lookup_storeAll_issued (docs : List (Bytes × Vector)) (id : Bytes) :
    (Shard.storeAll c primary docs).lookup id =
      (lastOp (ops ++ docs.map fun doc => (doc.1, some doc.2)) id).join.map c.stored := by
  rw [lastOp_append, lastOp_docs, Shard.lookup_storeAll, hstored]
  cases docOf docs id <;> rfl

theorem lookup_erase_issued (other id : Bytes) :
    (primary.erase other).lookup id =
      (lastOp (ops ++ [(other, none)]) id).join.map c.stored := by
  rw [lastOp_append, GoMap.lookup_erase_if, hstored]
  by_cases hid : id = other
  · simp [lastOp, latest, hid]
  · simp [lastOp, latest, hid, Ne.symm hid]

end

/-- The tombstones a manager knows after a step are those it knew or those in the database. -/
def KeepsTombstones (c : Config) (shard after : Shard) : Prop :=
  ∀ m', after.mgr = some m' → (∃ m, shard.mgr = some m ∧ m'.tombstones = m.tombstones) ∨
    m'.tombstones = getTombstones c shard.tombstoneDb

/-- What a step does to the storage and to the tombstones. -/
inductive Effect (c : Config) (shard : Shard) : Event → Prop where
  | quiet {event : Event} (hissued : issued c shard event = [])
      (hprimary : (shard.step c event).primary = shard.primary)
      (hdb : (shard.step c event).tombstoneDb = shard.tombstoneDb)
      (hknown : KeepsTombstones c shard (shard.step c event)) : Effect c shard event
  | stored {event : Event} {m : Manager} (hm : shard.mgr = some m) (hstore : event.isStore = true)
      (haccepted : event.accepted c = true)
      (hissued : issued c shard event = event.docs.map fun doc => (doc.1, some doc.2))
      (hstep : shard.step c event =
        { shard with
          primary := Shard.storeAll c shard.primary event.docs
          mgr := some (m.stored c (Shard.storeAll c shard.primary event.docs) event) }) :
      Effect c shard event
  | deleted {id : Bytes} {now : Instant} {m : Manager} (hm : shard.mgr = some m)
      (hissued : issued c shard (.delete id now) = [(id, none)])
      (hstep : shard.step c (.delete id now) =
        { shard with
          primary := shard.primary.erase id
          tombstoneDb := writeTombstone c shard.tombstoneDb id now
          clock := now.nanos
          mgr := some (m.delete c (shard.primary.erase id) id now) }) :
      Effect c shard (.delete id now)

section Effects

variable {c : Config} {shard : Shard} {m : Manager}

theorem Manager.stored_tombstones (primary : GoMap Bytes Vector) (m : Manager) (event : Event) :
    (m.stored c primary event).tombstones = m.tombstones := by
  cases event with
  | store id vec =>
      unfold stored add
      simp only
      split
      next => exact (enqueue_cases _).2.2.1
      next => rfl
  | storeBatch docs =>
      unfold stored addBatch
      simp only
      split
      next => exact (enqueue_cases _).2.2.1
      next => rfl
  | _ => rfl

theorem Manager.delete_tombstones (primary : GoMap Bytes Vector) (m : Manager) (id : Bytes)
    (now : Instant) :
    (m.delete c primary id now).tombstones = m.tombstones.insert id now.nanos := by
  unfold delete
  simp only
  split
  next => rw [(enqueue_cases _).2.2.1]
  next => rfl

theorem keepsTombstones_of_mgr {after : Shard} (hm : shard.mgr = some m) (mutable : MutableSegment)
    (immutables : GoMap SegmentID ImmutableSegment) (manifest : Manifest)
    (buffer channel : List IndexOp)
    (hafter : after.mgr = some ⟨mutable, immutables, manifest, m.tombstones, buffer, channel⟩) :
    KeepsTombstones c shard after := by
  intro m' hm'
  obtain rfl := Option.some.inj (hafter.symm.trans hm')
  exact Or.inl ⟨m, hm, rfl⟩

theorem keepsTombstones_of_none {after : Shard} (hafter : after.mgr = none) :
    KeepsTombstones c shard after := by
  intro m' hm'
  rw [hafter] at hm'
  cases hm'

theorem keepsTombstones_of_eq {after : Shard} (hafter : after.mgr = shard.mgr) :
    KeepsTombstones c shard after :=
  fun m' hm' => Or.inl ⟨m', hafter ▸ hm', rfl⟩

theorem issued_of_docs {event : Event} (hdocs : event.docs = [])
    (hdelete : ∀ id now, event ≠ .delete id now) : issued c shard event = [] := by
  unfold issued
  cases event with
  | delete id now => exact absurd rfl (hdelete id now)
  | _ => simp [hdocs]

theorem effect_compact {now : Instant} (hm : shard.mgr = some m) :
    Effect c shard (.runCompaction now) := by
  have hstep : shard.step c (.runCompaction now) =
      Shard.compact c { shard with clock := now.nanos } m now.nanos := by
    simp only [Shard.step, hm, Shard.serve]
  have hparts : (shard.step c (.runCompaction now)).primary = shard.primary ∧
      (shard.step c (.runCompaction now)).tombstoneDb = shard.tombstoneDb ∧
      KeepsTombstones c shard (shard.step c (.runCompaction now)) := by
    rw [hstep]
    unfold Shard.compact
    simp only
    split
    next => exact ⟨rfl, rfl, keepsTombstones_of_mgr hm _ _ _ _ _ rfl⟩
    next => exact ⟨rfl, rfl, keepsTombstones_of_none rfl⟩
    next => exact ⟨rfl, rfl, keepsTombstones_of_eq rfl⟩
    next => exact ⟨rfl, rfl, keepsTombstones_of_mgr hm _ _ _ _ _ rfl⟩
  exact .quiet (issued_of_docs rfl nofun) hparts.1 hparts.2.1 hparts.2.2

theorem effect_open (now : Instant) : Effect c shard (.open_ now) := by
  have hparts : (shard.step c (.open_ now)).primary = shard.primary ∧
      (shard.step c (.open_ now)).tombstoneDb = shard.tombstoneDb ∧
      KeepsTombstones c shard (shard.step c (.open_ now)) := by
    unfold Shard.step Shard.openShard
    simp only
    split
    next =>
      refine ⟨rfl, rfl, fun m' hm' => Or.inr ?_⟩
      obtain rfl := Option.some.inj hm'
      rfl
    next =>
      refine ⟨rfl, rfl, fun m' hm' => Or.inr ?_⟩
      simp only at hm'
      split at hm'
      next =>
        obtain rfl := Option.some.inj hm'
        rfl
      next => cases hm'
  exact .quiet (issued_of_docs rfl nofun) hparts.1 hparts.2.1 hparts.2.2

theorem effect_store (hm : shard.mgr = some m) {event : Event} (hstore : event.isStore = true)
    (hstep : shard.step c event = shard.serve c m event) : Effect c shard event := by
  rw [Shard.serve_of_isStore hstore] at hstep
  cases haccepted : event.accepted c with
  | true =>
      rw [haccepted, if_pos rfl] at hstep
      refine .stored hm hstore haccepted ?_ hstep
      unfold issued
      rw [hm, haccepted]
      cases event with
      | delete id now => cases hstore
      | _ => rfl
  | false =>
      have hsame : shard.step c event = shard := by
        rw [hstep, haccepted]
        rfl
      refine .quiet ?_ (by rw [hsame]) (by rw [hsame]) (keepsTombstones_of_eq (by rw [hsame]))
      unfold issued
      rw [haccepted, Bool.and_false]
      rfl

theorem effect (event : Event) : Effect c shard event := by
  cases hmgr : shard.mgr with
  | none =>
      have hissued : issued c shard event = [] := by
        unfold issued
        rw [hmgr]
        rfl
      cases event with
      | open_ now => exact effect_open now
      | _ =>
          refine .quiet hissued ?_ ?_ ?_
          · simp only [Shard.step, hmgr]
          · simp only [Shard.step, hmgr]
          · simp only [Shard.step, hmgr]
            exact keepsTombstones_of_eq rfl
  | some m =>
      cases event with
      | open_ now => exact effect_open now
      | store id vec
      | storeBatch docs => exact effect_store hmgr rfl (by simp only [Shard.step, hmgr])
      | runCompaction now => exact effect_compact hmgr
      | delete id now =>
          refine .deleted hmgr ?_ ?_
          · unfold issued
            rw [hmgr]
            rfl
          · simp only [Shard.step, hmgr, Shard.serve]
      | take =>
          have hparts : (shard.step c .take).primary = shard.primary ∧
              (shard.step c .take).tombstoneDb = shard.tombstoneDb ∧
              KeepsTombstones c shard (shard.step c .take) := by
            simp only [Shard.step, hmgr, Shard.serve]
            split
            next => exact ⟨rfl, rfl, keepsTombstones_of_mgr hmgr _ _ _ _ _ rfl⟩
            next => exact ⟨rfl, rfl, keepsTombstones_of_eq rfl⟩
          exact .quiet (issued_of_docs rfl nofun) hparts.1 hparts.2.1 hparts.2.2
      | apply =>
          have hparts : (shard.step c .apply).primary = shard.primary ∧
              (shard.step c .apply).tombstoneDb = shard.tombstoneDb ∧
              KeepsTombstones c shard (shard.step c .apply) := by
            simp only [Shard.step, hmgr, Shard.serve]
            split
            next => exact ⟨rfl, rfl, keepsTombstones_of_mgr hmgr _ _ _ _ _ rfl⟩
            next => exact ⟨rfl, rfl, keepsTombstones_of_eq rfl⟩
          exact .quiet (issued_of_docs rfl nofun) hparts.1 hparts.2.1 hparts.2.2
      | triggerSeal now =>
          have hparts : (shard.step c (.triggerSeal now)).primary = shard.primary ∧
              (shard.step c (.triggerSeal now)).tombstoneDb = shard.tombstoneDb ∧
              KeepsTombstones c shard (shard.step c (.triggerSeal now)) := by
            simp only [Shard.step, hmgr, Shard.serve]
            split
            next =>
              split
              next => exact ⟨rfl, rfl, keepsTombstones_of_mgr hmgr _ _ _ _ _ rfl⟩
              next => exact ⟨rfl, rfl, keepsTombstones_of_none rfl⟩
            next => exact ⟨rfl, rfl, keepsTombstones_of_eq hmgr.symm⟩
          exact .quiet (issued_of_docs rfl nofun) hparts.1 hparts.2.1 hparts.2.2

end Effects

/-- The storage holds exactly the documents whose latest operation is an addition. -/
theorem stored_of_run (c : Config) (events : List Event) (id : Bytes) :
    (Run.run (Shard.step c) Shard.fresh events).primary.lookup id =
      (lastOp (history c events) id).join.map c.stored := by
  have hmeets : Run.Meets (Shard.step c) (fun _ _ => True) Shard.fresh events :=
    Run.Meets.of_forall (fun _ _ => trivial) _ _
  have hstep : ∀ (shard : Shard) (event : Event) (ops : List (Bytes × Option Vector)), True →
      (∀ id, shard.primary.lookup id = (lastOp ops id).join.map c.stored) →
        ∀ id, (shard.step c event).primary.lookup id =
          (lastOp (ops ++ issued c shard event) id).join.map c.stored := by
    intro shard event ops _ hstored id
    cases @effect c shard event with
    | quiet hissued hprimary _ _ =>
        rw [hissued, hprimary, List.append_nil]
        exact hstored id
    | @stored event _ _ _ _ hissued hstep =>
        rw [hissued, hstep]
        exact lookup_storeAll_issued hstored event.docs id
    | @deleted other _ _ _ hissued hstep =>
        rw [hissued, hstep]
        exact lookup_erase_issued hstored other id
  have hrun := @Run.collect_invariant _ _ (Shard.step c) _ (fun _ _ => True) (issued c)
    (fun shard ops => ∀ id, shard.primary.lookup id = (lastOp ops id).join.map c.stored) hstep
    _ _ [] hmeets fun _ => rfl
  rw [List.nil_append] at hrun
  exact hrun id

/-! ### Vectors on a line -/

/-- Moments of examples. -/
def moment (n : Nat) : Instant := ⟨n % 1000 + 1, by omega, by omega⟩

/-- A vector with one component. -/
def number (n : Nat) : Vector := [(Float32.ofNat n).toBits]

/-- The squared Euclidean distance. -/
def lineDistance (query vec : Vector) : Float32 :=
  (query.zip vec).foldl
    (fun sum pair =>
      let d := Float32.ofBits pair.1 - Float32.ofBits pair.2
      sum + d * d) 0

def byScore (cands : List Candidate) : List Candidate :=
  cands.insertionSort fun first second => ¬ second.2 < first.2

/-- A search that compares the query with every vector of an index. -/
def lineEnv : SearchEnv where
  searchWithEf hnsw query k _ :=
    (byScore (hnsw.idToUint32.keys.filterMap fun id =>
      (hnsw.item Worker.wholeNumbers id).map fun vec => (id, lineDistance query vec))).take k.toNat
  sort := byScore
  sort_perm cands := List.perm_insertionSort _ cands
  sortSegments segs := segs.insertionSort fun first second =>
    second.info.sealedAt ≤ first.info.sealedAt
  sortSegments_perm segs := List.perm_insertionSort _ segs
  maxFanout := 8
  minFanout := 2

end Vectron.Segment
