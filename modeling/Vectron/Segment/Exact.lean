import Vectron.Foundation.Best
import Vectron.Foundation.Sorting
import Vectron.Segment.Search

/-! # What a search over segments misses

`Searcher.Search` for scores of any linear order. The sealed segments are given in the order in
which the search sorts them, and what each segment answers is a parameter.
-/

namespace Vectron.Segment

open Foundation
open Worker (Hnsw Vector)

section Merge

variable {S : Type} [LT S] [DecidableLT S]

/-- `mergeCandidates` for any scores. -/
def mergeBest (dst : GoMap Bytes S) (cands : List (Bytes × S)) : GoMap Bytes S :=
  cands.foldl (keepBest fun a b => decide (a < b)) dst

/-- The condition under which the loop over the sealed segments stops after the one at `i`. -/
def stopsAfter (maxFanout minFanout enough : Int) (i : Nat) (dedup : GoMap Bytes S) : Bool :=
  decide (0 < maxFanout ∧ maxFanout ≤ i + 1 ∧ minFanout ≤ i + 1 ∧ enough ≤ dedup.entries.length)

/-- The loop over the sealed segments, given their answers. -/
def mergeAnswers (maxFanout minFanout enough : Int) :
    Nat → List (List (Bytes × S)) → GoMap Bytes S → GoMap Bytes S
  | _, [], dedup => dedup
  | i, cands :: rest, dedup =>
      let dedup := mergeBest dedup cands
      if stopsAfter maxFanout minFanout enough i dedup then dedup
      else mergeAnswers maxFanout minFanout enough (i + 1) rest dedup

/-- The loop stops before the last segment. -/
def skips (maxFanout minFanout enough : Int) :
    Nat → List (List (Bytes × S)) → GoMap Bytes S → Bool
  | _, [], _ => false
  | i, cands :: rest, dedup =>
      let dedup := mergeBest dedup cands
      if stopsAfter maxFanout minFanout enough i dedup then !rest.isEmpty
      else skips maxFanout minFanout enough (i + 1) rest dedup

section

variable {maxFanout minFanout enough : Int} {i : Nat} {answers : List (List (Bytes × S))}
  {dedup : GoMap Bytes S}

theorem mergeAnswers_of_not_skips
    (hskips : skips maxFanout minFanout enough i answers dedup = false) :
    mergeAnswers maxFanout minFanout enough i answers dedup = mergeBest dedup answers.flatten := by
  induction answers generalizing i dedup with
  | nil => rfl
  | cons cands rest ih =>
      have hfold : mergeBest dedup (cands :: rest).flatten =
          mergeBest (mergeBest dedup cands) rest.flatten := by
        rw [mergeBest, List.flatten_cons, List.foldl_append]
        rfl
      rw [skips] at hskips
      rw [mergeAnswers, hfold]
      split
      next hstops =>
        rw [if_pos hstops] at hskips
        have hnil : rest = [] := by simpa using hskips
        rw [hnil]
        rfl
      next hgoes =>
        rw [if_neg hgoes] at hskips
        exact ih hskips

/-- A loop over no more segments than the fan-out does not stop before the last one. -/
theorem not_skips (hfanout : maxFanout ≤ 0 ∨ (i + answers.length : Int) ≤ maxFanout) :
    skips maxFanout minFanout enough i answers dedup = false := by
  induction answers generalizing i dedup with
  | nil => rfl
  | cons cands rest ih =>
      rw [List.length_cons] at hfanout
      rw [skips]
      split
      next hstops =>
        have hstops := of_decide_eq_true hstops
        have hlength : rest.length = 0 := by omega
        rw [List.eq_nil_of_length_eq_zero hlength]
        rfl
      next => exact ih (by push_cast at hfanout ⊢; omega)

end

end Merge

/-! ## The search -/

section Search

variable {S : Type} [LT S] [DecidableLT S]

/-- The documents of a segment with their distances to the query. -/
structure SegmentEntries (S : Type) where
  entries : List (Bytes × S)
  nodup : (entries.map Prod.fst).Nodup

/-- `Searcher`. The newest sealed segment comes first. -/
structure Searcher (S : Type) where
  mutable : Option (SegmentEntries S)
  immutables : List (SegmentEntries S)

/-- What a search depends on besides the segments. -/
structure SearcherEnv (S : Type) [LT S] where
  /-- what a segment answers -/
  answer : SegmentEntries S → (k ef : Int) → List (Bytes × S)
  /-- `sort.Slice` by score -/
  sort : List (Bytes × S) → List (Bytes × S)
  sorts : ∀ cands, Sorts (fun a b => a.2 < b.2) cands (sort cands)
  /-- `VECTRON_SEGMENT_SEARCH_MAX_FANOUT` -/
  maxFanout : Int
  /-- `VECTRON_SEGMENT_SEARCH_MIN_FANOUT` -/
  minFanout : Int

def effectiveEf (opts : SearchOptions) (k : Int) : Int :=
  let ef := if opts.efSearch ≤ 0 then 100 else opts.efSearch
  if ef < k then k else ef

/-- `perSegK`. -/
def perSegK (opts : SearchOptions) (k : Int) : Int :=
  let perSegK :=
    if 0 < opts.candidatesPerSeg ∧ (k ≤ 0 ∨ opts.candidatesPerSeg < k) then opts.candidatesPerSeg
    else k
  if perSegK ≤ 0 then k else perSegK

namespace Searcher

variable (env : SearcherEnv S) (s : Searcher S) (k : Int) (opts : SearchOptions)

def segments : List (SegmentEntries S) := s.mutable.toList ++ s.immutables

def answerOf (seg : SegmentEntries S) : List (Bytes × S) :=
  env.answer seg (perSegK opts k) (effectiveEf opts k)

def maxFanout : Int := if opts.maxFanout ≤ 0 then env.maxFanout else opts.maxFanout

def minFanout : Int :=
  min (if opts.minFanout ≤ 0 then env.minFanout else opts.minFanout) s.immutables.length

/-- The candidates with which the loop may stop early. -/
def enough : Int := k * (if opts.earlyStopFactor ≤ 0 then 2 else opts.earlyStopFactor)

def mutableCandidates : GoMap Bytes S :=
  mergeBest ∅ (s.mutable.toList.flatMap (answerOf env k opts))

/-- The candidates of all segments that are searched. -/
def gather : GoMap Bytes S :=
  mergeAnswers (maxFanout env opts) (s.minFanout env opts) (enough k opts) 0
    (s.immutables.map (answerOf env k opts)) (s.mutableCandidates env k opts)

/-- The early stop leaves a sealed segment out. -/
def stopsEarly : Bool :=
  skips (maxFanout env opts) (s.minFanout env opts) (enough k opts) 0
    (s.immutables.map (answerOf env k opts)) (s.mutableCandidates env k opts)

/-- `Search` with a filter for tombstones. A negative number of results is refused by `make`, if
there is anything to return. -/
def search (tombstoned : Bytes → Bool) : Option (List (Bytes × S)) :=
  let dedup := (s.gather env k opts).entries.map fun entry => (entry.1, entry.2)
  let dedup := dedup.filter fun cand => !tombstoned cand.1
  if dedup.length = 0 then some []
  else if k < 0 then none
  else some ((env.sort dedup).take k.toNat)

end Searcher

end Search

/-! ## The search of a manager -/

section Manager

variable {env : SearchEnv} {m : Manager} {query : Vector} {k : Int} {opts : SearchOptions}

theorem mergeCandidates_eq (dst : GoMap Bytes Float32) (cands : List Candidate) :
    mergeCandidates dst cands = mergeBest dst cands := by
  unfold mergeCandidates mergeBest
  congr
  funext dst cand
  unfold keepBest
  cases dst.lookup cand.1 with
  | none => rfl
  | some prev => simp

theorem mergeImmutables_eq {ef maxFanout minFanout enough : Int} (i : Nat)
    (segs : List ImmutableSegment) (dedup : GoMap Bytes Float32) :
    mergeImmutables env query k ef maxFanout minFanout enough i segs dedup =
      mergeAnswers maxFanout minFanout enough i
        (segs.map fun seg => seg.search env query k ef) dedup := by
  induction segs generalizing i dedup with
  | nil => rfl
  | cons seg rest ih =>
      simp only [mergeImmutables, mergeAnswers, List.map_cons, mergeCandidates_eq, ih, stopsAfter,
        decide_eq_true_eq]

variable (env m) in
/-- The sealed segments in the order in which a search asks them. -/
def Manager.sealedSegments : List ImmutableSegment :=
  env.sortSegments (m.immutables.entries.map fun entry => entry.2)

variable (env m) in
/-- The searcher of a manager, given the documents of an index. -/
def Manager.searcher (documents : Hnsw → SegmentEntries Float32) : Searcher Float32 :=
  ⟨some (documents m.mutable.hnsw),
    (m.sealedSegments env).map fun seg => documents seg.hnsw⟩

/-- The search of a manager is that of its searcher, whose segments answer with what their
indexes find. -/
theorem Manager.search_eq {searcherEnv : SearcherEnv Float32}
    {documents : Hnsw → SegmentEntries Float32}
    (hmutable : searcherEnv.answer (documents m.mutable.hnsw) (perSegK opts k)
      (effectiveEf opts k) =
        env.searchWithEf m.mutable.hnsw query (perSegK opts k) (effectiveEf opts k))
    (hsealed : ∀ seg ∈ m.sealedSegments env, searcherEnv.answer (documents seg.hnsw)
      (perSegK opts k) (effectiveEf opts k) =
        seg.search env query (perSegK opts k) (effectiveEf opts k))
    (hsort : searcherEnv.sort = env.sort) (hmax : searcherEnv.maxFanout = env.maxFanout)
    (hmin : searcherEnv.minFanout = env.minFanout) :
    m.search env query k opts = (m.searcher env documents).search searcherEnv k opts
      fun id => (m.tombstones.lookup id).isSome := by
  have hlength : (m.searcher env documents).immutables.length = (m.sealedSegments env).length :=
    List.length_map _
  have hanswers : (m.searcher env documents).immutables.map
      (Searcher.answerOf searcherEnv k opts) = (m.sealedSegments env).map fun seg =>
        seg.search env query (perSegK opts k) (effectiveEf opts k) := by
    rw [searcher, List.map_map]
    exact List.map_congr_left hsealed
  have hgather : m.gather env query k opts =
      (m.searcher env documents).gather searcherEnv k opts := by
    rw [Searcher.gather, hanswers, Searcher.mutableCandidates, Searcher.minFanout, hlength,
      Searcher.maxFanout, hmax, hmin]
    simp only [searcher, Option.toList_some, List.flatMap_cons, List.flatMap_nil, List.append_nil,
      Searcher.answerOf, hmutable, ← mergeCandidates_eq]
    exact mergeImmutables_eq 0 _ _
  unfold search Searcher.search
  rw [hgather, hsort]
  simp only [Option.not_isSome]

end Manager

/-! ## What it should find -/

variable {S : Type} [LinearOrder S]

def closer (a b : Bytes × S) : Bool := decide (a.2 < b.2)

theorem weakOrder_closer : WeakOrder (closer (S := S)) := WeakOrder.of_key Prod.snd

/-- The documents without a tombstone, each with its least distance. -/
def union (segments : List (SegmentEntries S)) (tombstoned : Bytes → Bool) : List (Bytes × S) :=
  let all := segments.flatMap SegmentEntries.entries
  (all.filter fun x => !tombstoned x.1 &&
    all.all fun y => decide (y.1 = x.1 → x.2 ≤ y.2)).dedup

theorem mem_union {segments : List (SegmentEntries S)} {tombstoned : Bytes → Bool}
    {x : Bytes × S} :
    x ∈ union segments tombstoned ↔
      (∃ seg ∈ segments, x ∈ seg.entries) ∧ tombstoned x.1 = false ∧
        ∀ seg ∈ segments, ∀ y ∈ seg.entries, y.1 = x.1 → x.2 ≤ y.2 := by
  simp only [union, List.mem_dedup, List.mem_filter, List.mem_flatMap, Bool.and_eq_true,
    Bool.not_eq_true', List.all_eq_true, decide_eq_true_eq]
  constructor
  · rintro ⟨hmem, hlive, hleast⟩
    exact ⟨hmem, hlive, fun seg hseg y hy => hleast y ⟨seg, hseg, hy⟩⟩
  · rintro ⟨hmem, hlive, hleast⟩
    exact ⟨hmem, hlive, fun y ⟨seg, hseg, hy⟩ => hleast seg hseg y hy⟩

theorem union_nodup (segments : List (SegmentEntries S)) (tombstoned : Bytes → Bool) :
    (union segments tombstoned).Nodup := List.nodup_dedup _

/-- The cap of a segment drops nothing, or there is room for `k` documents and the segment
answers with documents that have no tombstone. -/
def Fits (env : SearcherEnv S) (k : Int) (opts : SearchOptions) (tombstoned : Bytes → Bool)
    (seg : SegmentEntries S) : Prop :=
  (seg.entries.length : Int) ≤ perSegK opts k ∨
    k ≤ perSegK opts k ∧ ∀ x ∈ Searcher.answerOf env k opts seg, tombstoned x.1 = false

section Exact

variable {env : SearcherEnv S} {s : Searcher S} {k : Int} {opts : SearchOptions}
  {tombstoned : Bytes → Bool}

/-- The candidates without a tombstone. -/
def live (tombstoned : Bytes → Bool) (dedup : GoMap Bytes S) : List (Bytes × S) :=
  (dedup.entries.map fun entry => (entry.1, entry.2)).filter fun cand => !tombstoned cand.1

omit [LinearOrder S] in
theorem mem_live {dedup : GoMap Bytes S} {x : Bytes × S} :
    x ∈ live tombstoned dedup ↔ dedup.lookup x.1 = some x.2 ∧ tombstoned x.1 = false := by
  rw [live, List.mem_filter, List.mem_map]
  simp only [Bool.not_eq_true']
  constructor
  · rintro ⟨⟨entry, hentry, rfl⟩, hlive⟩
    exact ⟨AList.mem_lookup_iff.mpr hentry, hlive⟩
  · rintro ⟨hlookup, hlive⟩
    exact ⟨⟨⟨x.1, x.2⟩, AList.mem_lookup_iff.mp hlookup, rfl⟩, hlive⟩

omit [LinearOrder S] in
theorem live_keys_nodup (dedup : GoMap Bytes S) :
    ((live tombstoned dedup).map Prod.fst).Nodup := by
  have hkeys : ((dedup.entries.map fun entry => (entry.1, entry.2)).map Prod.fst).Nodup := by
    rw [List.map_map]
    exact dedup.keys_nodup
  exact (List.filter_sublist.map _).nodup hkeys

/-- Without an early stop the best answer of each document is gathered. -/
theorem Searcher.gather_eq (hstops : s.stopsEarly env k opts = false) :
    s.gather env k opts = mergeBest ∅ (s.segments.flatMap (Searcher.answerOf env k opts)) := by
  rw [gather, mergeAnswers_of_not_skips hstops, mutableCandidates, segments, List.flatMap_append,
    mergeBest, mergeBest, mergeBest, List.foldl_append]
  rfl

theorem lookup_mergeBest (cands : List (Bytes × S)) (id : Bytes) :
    (∀ score, (mergeBest ∅ cands).lookup id = some score →
      (id, score) ∈ cands ∧ ∀ other, (id, other) ∈ cands → score ≤ other) ∧
    ((mergeBest ∅ cands).lookup id = none → ∀ score, (id, score) ∉ cands) := by
  obtain ⟨hsome, hnone⟩ := lookup_keepBest (WeakOrder.of_key fun score : S => score) cands id
  refine ⟨?_, hnone⟩
  intro score hlookup
  obtain ⟨hmem, hall⟩ := hsome score hlookup
  refine ⟨hmem, ?_⟩
  intro other hother
  simpa using hall other hother

theorem exists_union {segments : List (SegmentEntries S)} {seg : SegmentEntries S}
    {x : Bytes × S} (hseg : seg ∈ segments) (hx : x ∈ seg.entries)
    (hlive : tombstoned x.1 = false) :
    ∃ y ∈ union segments tombstoned, y.1 = x.1 ∧ y.2 ≤ x.2 := by
  have hmem : x ∈ segments.flatMap SegmentEntries.entries := List.mem_flatMap.mpr ⟨seg, hseg, hx⟩
  obtain ⟨hsome, hnone⟩ := lookup_mergeBest (segments.flatMap SegmentEntries.entries) x.1
  cases hlookup : (mergeBest ∅ (segments.flatMap SegmentEntries.entries)).lookup x.1 with
  | none => exact absurd hmem (hnone hlookup x.2)
  | some least =>
      obtain ⟨hleast, hall⟩ := hsome least hlookup
      refine ⟨(x.1, least), mem_union.mpr ⟨List.mem_flatMap.mp hleast, hlive, ?_⟩, rfl,
        hall x.2 hmem⟩
      intro seg' hseg' y hy hid
      exact hall y.2 (List.mem_flatMap.mpr ⟨seg', hseg', hid ▸ hy⟩)

/-- The answers of all segments, each the nearest documents of its segment. -/
structure Answers (s : Searcher S) (cap : Nat) (answer : SegmentEntries S → List (Bytes × S)) :
    Prop where
  best {seg} : seg ∈ s.segments → Best closer cap seg.entries (answer seg)

namespace Answers

variable {cap : Nat} {answer : SegmentEntries S → List (Bytes × S)}

theorem lookup (hanswers : Answers s cap answer) {x : Bytes × S} {score : S}
    (hlookup : (mergeBest ∅ (s.segments.flatMap answer)).lookup x.1 = some score) :
    (∃ seg ∈ s.segments, (x.1, score) ∈ seg.entries) ∧
      ∀ seg ∈ s.segments, ∀ other, (x.1, other) ∈ answer seg → score ≤ other := by
  obtain ⟨hmem, hall⟩ := (lookup_mergeBest (s.segments.flatMap answer) x.1).1 score hlookup
  obtain ⟨seg, hseg, hanswer⟩ := List.mem_flatMap.mp hmem
  refine ⟨⟨seg, hseg, (hanswers.best hseg).subset hanswer⟩, ?_⟩
  intro seg' hseg' other hother
  exact hall other (List.mem_flatMap.mpr ⟨seg', hseg', hother⟩)

/-- Every answer is gathered with no larger a distance. -/
theorem exists_lookup (s : Searcher S) {seg : SegmentEntries S} (hseg : seg ∈ s.segments)
    {x : Bytes × S} (hx : x ∈ answer seg) :
    ∃ score, (mergeBest ∅ (s.segments.flatMap answer)).lookup x.1 = some score ∧ score ≤ x.2 := by
  have hmem : x ∈ s.segments.flatMap answer := List.mem_flatMap.mpr ⟨seg, hseg, hx⟩
  obtain ⟨hsome, hnone⟩ := lookup_mergeBest (s.segments.flatMap answer) x.1
  cases hlookup : (mergeBest ∅ (s.segments.flatMap answer)).lookup x.1 with
  | none => exact absurd hmem (hnone hlookup x.2)
  | some score => exact ⟨score, rfl, (hsome score hlookup).2 x.2 hmem⟩

/-- A document that no answer has at its distance is covered by `k` nearer ones. -/
theorem covered (hanswers : Answers s cap answer) {n : Nat}
    (hfits : ∀ seg ∈ s.segments, seg.entries.length ≤ cap ∨
      n ≤ cap ∧ ∀ x ∈ answer seg, tombstoned x.1 = false)
    {y : Bytes × S} (hy : y ∈ union s.segments tombstoned)
    (hnot : y ∉ live tombstoned (mergeBest ∅ (s.segments.flatMap answer))) :
    n ≤ (live tombstoned (mergeBest ∅ (s.segments.flatMap answer))).countP
      fun z => !closer y z := by
  obtain ⟨⟨seg, hseg, hentry⟩, hlive, hleast⟩ := mem_union.mp hy
  have hbest := hanswers.best hseg
  by_cases hanswer : y ∈ answer seg
  · obtain ⟨score, hlookup, hle⟩ := exists_lookup s hseg hanswer
    obtain ⟨⟨seg', hseg', hentry'⟩, -⟩ := hanswers.lookup hlookup
    have heq : score = y.2 := le_antisymm hle (hleast seg' hseg' _ hentry' rfl)
    exact absurd (mem_live.mpr ⟨heq ▸ hlookup, hlive⟩) hnot
  · rcases hfits seg hseg with hsmall | ⟨hcap, hall⟩
    · exact absurd ((hbest.perm_of_le hsmall).mem_iff.mp hentry) hanswer
    · obtain ⟨dropped, hsplit, hdropped⟩ := hbest.split
      have hydropped := (List.mem_append.mp (hsplit.mem_iff.mp hentry)).resolve_left hanswer
      have hfull : n ≤ (answer seg).length := by
        have hlength := hsplit.length_eq
        have hpos := List.length_pos_of_mem hydropped
        have hkept := hbest.length
        rw [List.length_append] at hlength
        omega
      have hids : ((answer seg).map Prod.fst).Nodup := by
        have h := (hsplit.map Prod.fst).nodup_iff.mp seg.nodup
        rw [List.map_append] at h
        exact h.of_append_left
      have hsub : (answer seg).map Prod.fst ⊆
          ((live tombstoned (mergeBest ∅ (s.segments.flatMap answer))).filter
            fun z => !closer y z).map Prod.fst := by
        intro id hid
        obtain ⟨x, hx, rfl⟩ := List.mem_map.mp hid
        obtain ⟨score, hlookup, hle⟩ := exists_lookup s hseg hx
        have hnear : x.2 ≤ y.2 := by
          have h := hdropped x hx y hydropped
          simpa [closer] using h
        refine List.mem_map.mpr ⟨(x.1, score), List.mem_filter.mpr ⟨?_, ?_⟩, rfl⟩
        · exact mem_live.mpr ⟨hlookup, hall x hx⟩
        · simpa [closer] using hle.trans hnear
      have hle := (List.subperm_of_subset hids hsub).length_le
      rw [List.length_map, List.length_map, ← List.countP_eq_length_filter] at hle
      exact hfull.trans hle

/-- A gathered document that is not at its least distance has a nearer one that no answer has. -/
theorem foreign (hanswers : Answers s cap answer) {x : Bytes × S}
    (hx : x ∈ live tombstoned (mergeBest ∅ (s.segments.flatMap answer)))
    (hnot : x ∉ union s.segments tombstoned) :
    ∃ y ∈ union s.segments tombstoned,
      y ∉ live tombstoned (mergeBest ∅ (s.segments.flatMap answer)) ∧ closer y x = true := by
  obtain ⟨hlookup, hlive⟩ := mem_live.mp hx
  obtain ⟨⟨seg, hseg, hentry⟩, -⟩ := hanswers.lookup hlookup
  obtain ⟨y, hy, hid, hle⟩ := exists_union hseg hentry hlive
  have hne : y.2 ≠ x.2 := by
    intro heq
    obtain rfl : y = x := Prod.ext hid heq
    exact hnot hy
  refine ⟨y, hy, ?_, decide_eq_true (lt_of_le_of_ne hle hne)⟩
  intro hylive
  have hsame := (mem_live.mp hylive).1
  rw [hid, hlookup] at hsame
  exact hne (Option.some.inj hsame).symm

end Answers

/-- A search that stops early nowhere returns the nearest documents of all segments, as far as
the caps and the tombstones leave them in the answers. -/
theorem Searcher.search_exact (hk : 0 ≤ k)
    (hbest : ∀ seg ∈ s.segments,
      Best closer (perSegK opts k).toNat seg.entries (answerOf env k opts seg))
    (hstops : s.stopsEarly env k opts = false)
    (hfits : ∀ seg ∈ s.segments, Fits env k opts tombstoned seg) :
    ∃ results, s.search env k opts tombstoned = some results ∧
      Best closer k.toNat (union s.segments tombstoned) results ∧
      results.Pairwise fun x y => x.2 ≤ y.2 := by
  have hanswers : Answers s (perSegK opts k).toNat (answerOf env k opts) :=
    ⟨fun hseg => hbest _ hseg⟩
  have hgather := Searcher.gather_eq hstops
  set found := live tombstoned (s.gather env k opts) with hfound
  have hnodup : found.Nodup := (live_keys_nodup _).of_map _
  have hexact : ∀ results, Best closer k.toNat found results →
      Best closer k.toNat (union s.segments tombstoned) results := by
    intro results hresults
    rw [hfound, hgather] at hresults
    rw [hfound, hgather] at hnodup
    apply hresults.of_covered weakOrder_closer hnodup (union_nodup _ _)
    · intro y hy hnot
      apply hanswers.covered _ hy hnot
      intro seg hseg
      rcases hfits seg hseg with hsmall | ⟨hcap, hall⟩
      · exact Or.inl (by omega)
      · exact Or.inr ⟨by omega, hall⟩
    · intro x hx hnot
      exact hanswers.foreign hx hnot
  unfold search
  change ∃ results, (if found.length = 0 then some [] else if k < 0 then none else
    some ((env.sort found).take k.toNat)) = some results ∧ _
  split
  next hempty =>
    refine ⟨[], rfl, hexact [] ?_, List.Pairwise.nil⟩
    rw [List.eq_nil_of_length_eq_zero hempty]
    exact Best.nil closer k.toNat
  next =>
    rw [if_neg (not_lt.mpr hk)]
    have hsorts := env.sorts found
    have hsorted : (env.sort found).Pairwise fun x y => ¬ y.2 < x.2 := by
      apply hsorts.ordered
      exact isStrictWeakOrder_of_key fun x : {x // x ∈ found} => x.1.2
    refine ⟨_, rfl, hexact _ ?_, ?_⟩
    · apply Best.perm _ hsorts.perm
      apply Best.take
      exact hsorted.imp fun h => by simpa [closer] using h
    · exact (hsorted.sublist (List.take_sublist _ _)).imp fun h => not_lt.mp h

end Exact

/-! ## An older segment left out -/

/-- A segment with one document. -/
def single (id : UInt8) (score : Nat) : SegmentEntries Nat := ⟨[([id], score)], by simp⟩

/-- Nine sealed segments, of which the oldest has the nearest document. -/
def nineSegments : Searcher Nat :=
  ⟨none, [single 1 2, single 2 3, single 3 4, single 4 5, single 5 6, single 6 7, single 7 8,
    single 8 9, single 9 1]⟩

/-- Segments that answer with all that they have, and the default fan-out. -/
def wholeAnswers : SearcherEnv Nat where
  answer seg _ _ := seg.entries
  sort cands := cands.insertionSort fun a b => a.2 ≤ b.2
  sorts cands := by
    refine ⟨List.perm_insertionSort _ cands, fun _ => ?_⟩
    have : Std.Total fun a b : Bytes × Nat => a.2 ≤ b.2 := ⟨fun a b => le_total a.2 b.2⟩
    have : IsTrans (Bytes × Nat) fun a b => a.2 ≤ b.2 := ⟨fun _ _ _ => le_trans⟩
    exact (List.pairwise_insertionSort _ cands).imp fun h => not_lt.mpr h
  maxFanout := 8
  minFanout := 2

theorem oldest_segment_left_out :
    nineSegments.search wholeAnswers 1 defaultSearchOptions (fun _ => false) =
        some [([1], 2)] ∧
      ¬ Best closer 1 (union nineSegments.segments fun _ => false) [([1], 2)] := by
  constructor
  · decide +kernel
  · rintro ⟨-, dropped, hsplit, hdropped⟩
    have hmem : ([9], 1) ∈ union nineSegments.segments fun _ => false := by decide +kernel
    have hdrop := (List.mem_append.mp (hsplit.mem_iff.mp hmem)).resolve_left (by decide)
    exact absurd (hdropped _ List.mem_cons_self _ hdrop) (by decide)

/-- A current segment with a deleted document, and a sealed one with more documents than are asked
of it. -/
def cappedSegment : Searcher Nat :=
  ⟨some ⟨[([9], 0), ([1], 4)], by simp⟩, [⟨[([1], 1), ([2], 2), ([3], 3)], by simp⟩]⟩

/-- Segments that answer with their first documents. -/
def firstAnswers : SearcherEnv Nat :=
  { wholeAnswers with answer := fun seg k _ => seg.entries.take k.toNat }

theorem Searcher.search_exact_capped :
    ∃ results, cappedSegment.search firstAnswers 2 defaultSearchOptions (fun id => id == [9]) =
        some results ∧
      Best closer (2 : Int).toNat (union cappedSegment.segments fun id => id == [9]) results ∧
      results.Pairwise fun x y => x.2 ≤ y.2 := by
  have hsorted : ∀ seg ∈ cappedSegment.segments,
      seg.entries.Pairwise fun x y => closer y x = false := by
    decide
  have hfits : ∀ seg ∈ cappedSegment.segments,
      (seg.entries.length : Int) ≤ perSegK defaultSearchOptions 2 ∨
        2 ≤ perSegK defaultSearchOptions 2 ∧
          ∀ x ∈ Searcher.answerOf firstAnswers 2 defaultSearchOptions seg,
            (x.1 == [9]) = false := by
    decide
  exact Searcher.search_exact (by decide) (fun seg hseg => Best.take _ (hsorted seg hseg))
    (by decide +kernel) hfits

end Vectron.Segment
