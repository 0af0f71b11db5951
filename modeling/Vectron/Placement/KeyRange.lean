import Vectron.Foundation.Boundaries
import Vectron.Placement.Effect
import Vectron.Placement.Server

/-! # Key ranges

The shards of a new collection divide the 64-bit hash space. The width of a range
comes from a floating-point division, so it is only known up to rounding; the last
range is stretched to the end of the space. As long as the rounding error is below
one part in `2 ^ 53`, the ranges are a partition, and the placement driver and the
gateway find the same shard for every hash.
-/

namespace Vectron.Placement

open Foundation

/-- The size of the hash space. -/
def hashSpace : Nat := 2 ^ 64

/-- The range width is within one part in `2 ^ 53` of an even division. -/
def NearEven (count : Nat) (width : UInt64) : Prop :=
  (width.toNat * count - hashSpace : Int).natAbs * 2 ^ 53 ≤ hashSpace

/-! ## The ranges -/

theorem width_bounds {count : Nat} {width : UInt64} (hcount : 1 < count) (hmax : count < 2 ^ 53)
    (hnear : NearEven count width) :
    2 ^ 11 ≤ width.toNat ∧ (count - 1) * width.toNat < hashSpace := by
  have hspace : hashSpace = 2 ^ 64 := rfl
  -- the product is off by at most `2 ^ 11`
  have herror : (width.toNat * count - hashSpace : Int).natAbs ≤ 2 ^ 11 := by
    unfold NearEven at hnear
    omega
  have hproduct : width.toNat * count ≤ hashSpace + 2 ^ 11 ∧
      hashSpace ≤ width.toNat * count + 2 ^ 11 := by
    omega
  have hlow : 2 ^ 11 ≤ width.toNat := by
    by_contra hsmall
    have hle : width.toNat * count ≤ (2 ^ 11 - 1) * (2 ^ 53 - 1) :=
      Nat.mul_le_mul (by omega) (by omega)
    omega
  refine ⟨hlow, ?_⟩
  have hsplit : (count - 1) * width.toNat + width.toNat = width.toNat * count := by
    rw [Nat.mul_comm width.toNat count, ← Nat.succ_mul]
    congr 1
    omega
  rcases Nat.lt_or_ge (2 ^ 11) width.toNat with hlarge | hexact
  · omega
  · have hwidth : width.toNat = 2 ^ 11 := by omega
    rw [hwidth]
    omega

/-- The boundaries of the ranges of a new collection. -/
def keyBoundaries (count : Nat) (width : UInt64) (hcount : 0 < count) (hmax : count < 2 ^ 53)
    (hnear : 1 < count → NearEven count width) : Boundaries count hashSpace :=
  .even count width.toNat hashSpace hcount
    (fun hmany => by have hlow := (width_bounds hmany hmax (hnear hmany)).1; omega)
    (by
      by_cases hmany : 1 < count
      · exact (width_bounds hmany hmax (hnear hmany)).2
      · have hone : count - 1 = 0 := by omega
        rw [hone, Nat.zero_mul]
        decide)

/-- The hash falls into the range of the shard. -/
def ShardInfo.matches (shard : ShardInfo) (hash : UInt64) : Bool :=
  inRange hash shard.keyRangeStart shard.keyRangeEnd

/-- The shards of a collection, numbered by `ids`, have the cells of the boundaries
as their key ranges. -/
structure Collection.DividedBy (coll : Collection) {count : Nat}
    (boundaries : Boundaries count hashSpace) (ids : Nat → UInt64) : Prop where
  keys : ∀ id, id ∈ coll.shards ↔ ∃ i < count, id = ids i
  distinct : ∀ i < count, ∀ j < count, ids i = ids j → i = j
  ranges : ∀ i < count, ∀ shard, coll.shards.lookup (ids i) = some shard →
    shard.keyRangeStart.toNat = boundaries.bound i ∧
      shard.keyRangeEnd.toNat + 1 = boundaries.bound (i + 1)

/-- The range of the shard built in iteration `i`: neither product wraps around. -/
theorem shard_range {spec : ShardSpec} {workers : GoMap UInt64 WorkerInfo} {shardId : UInt64}
    {i : Nat} (hi : i < spec.numShards) (hmax : spec.numShards < 2 ^ 53)
    (hnear : 1 < spec.numShards → NearEven spec.numShards spec.rangeSize) :
    let boundaries := keyBoundaries spec.numShards spec.rangeSize (by omega) hmax hnear
    (spec.shard workers shardId i).keyRangeStart.toNat = boundaries.bound i ∧
      (spec.shard workers shardId i).keyRangeEnd.toNat + 1 = boundaries.bound (i + 1) := by
  have hspace : hashSpace = 2 ^ 64 := rfl
  -- a product with an index below the last one stays below the size of the space
  have hproduct : ∀ j ≤ spec.numShards - 1,
      (UInt64.ofNat j * spec.rangeSize).toNat = j * spec.rangeSize.toNat := by
    intro j hj
    have hlt : j * spec.rangeSize.toNat < 2 ^ 64 := by
      by_cases hmany : 1 < spec.numShards
      · have hle := Nat.mul_le_mul_right spec.rangeSize.toNat hj
        have hlast := (width_bounds hmany hmax (hnear hmany)).2
        omega
      · have hzero : j = 0 := by omega
        rw [hzero, Nat.zero_mul]
        decide
    rw [UInt64.toNat_mul, UInt64.toNat_ofNat_of_lt' (by simp only [UInt64.size]; omega)]
    exact Nat.mod_eq_of_lt hlt
  simp only [ShardSpec.shard, keyBoundaries, Boundaries.even]
  refine ⟨?_, ?_⟩
  · rw [if_pos hi]
    exact hproduct i (by omega)
  · by_cases hlast : i + 1 = spec.numShards
    · rw [if_pos hlast, if_neg (by omega)]
      rfl
    · have hmany : 1 < spec.numShards := by omega
      have hlow := (width_bounds hmany hmax (hnear hmany)).1
      have hend := hproduct (i + 1) (by omega)
      have hpositive : 0 < (i + 1) * spec.rangeSize.toNat := Nat.mul_pos (by omega) (by omega)
      rw [if_neg hlast, if_pos (by omega), UInt64.toNat_sub_of_le, hend]
      · have hone : (1 : UInt64).toNat = 1 := rfl
        omega
      · rw [UInt64.le_iff_toNat_le, hend]
        exact hpositive

theorem createdCollection_dividedBy {cfg : Config} {env : Env} {fsm : Fsm}
    {payload : CreateCollectionPayload}
    (hmax : (createSpec cfg env fsm payload).numShards < 2 ^ 53)
    (hnear : 1 < (createSpec cfg env fsm payload).numShards →
      NearEven (createSpec cfg env fsm payload).numShards
        (createSpec cfg env fsm payload).rangeSize) :
    (createdCollection cfg env fsm payload).DividedBy
      (keyBoundaries _ _ (createSpec_numShards cfg env fsm payload).1 hmax hnear)
      fun i => fsm.nextShardId + UInt64.ofNat i := by
  refine ⟨?_, ?_, ?_⟩
  · intro id
    constructor
    · intro hmem
      obtain ⟨shard, hlookup⟩ := Option.isSome_iff_exists.mp (AList.lookup_isSome.mpr hmem)
      obtain ⟨i, hi, hid, _⟩ := createdCollection_lookup hlookup
      exact ⟨i, hi, hid⟩
    · rintro ⟨i, hi, rfl⟩
      exact GoMap.mem_of_lookup_eq_some (createdCollection_lookup_add hi)
  · intro i hi j hj hid
    have hoffset := (UInt64.add_right_inj fsm.nextShardId).mp hid
    have hnat := congrArg UInt64.toNat hoffset
    rwa [UInt64.toNat_ofNat_of_lt' (by simp only [UInt64.size]; omega),
      UInt64.toNat_ofNat_of_lt' (by simp only [UInt64.size]; omega)] at hnat
  · intro i hi shard hlookup
    rw [createdCollection_lookup_add hi] at hlookup
    obtain rfl := Option.some.inj hlookup
    exact shard_range hi hmax hnear

/-! ## Routing -/

section Divided

variable {coll : Collection} {count : Nat} {boundaries : Boundaries count hashSpace}
  {ids : Nat → UInt64}

theorem Collection.DividedBy.matches_iff (hdivided : coll.DividedBy boundaries ids) {i : Nat}
    (hi : i < count) {shard : ShardInfo} (hlookup : coll.shards.lookup (ids i) = some shard)
    (hash : UInt64) :
    shard.matches hash = true ↔ boundaries.Contains i hash.toNat := by
  obtain ⟨hstart, hstop⟩ := hdivided.ranges i hi shard hlookup
  simp only [ShardInfo.matches, inRange, Bool.and_eq_true, decide_eq_true_eq, ge_iff_le,
    UInt64.le_iff_toNat_le, Boundaries.Contains]
  omega

/-- Every hash falls into the range of exactly one shard. -/
theorem Collection.DividedBy.exists_unique_match (hdivided : coll.DividedBy boundaries ids)
    (hash : UInt64) :
    ∃ id shard, coll.shards.lookup id = some shard ∧ shard.matches hash = true ∧
      ∀ other found, coll.shards.lookup other = some found → found.matches hash = true →
        other = id ∧ found = shard := by
  obtain ⟨i, hi, hcontains⟩ := boundaries.exists_contains (show hash.toNat < hashSpace from
    hash.toNat_lt)
  have hmem : ids i ∈ coll.shards := (hdivided.keys (ids i)).mpr ⟨i, hi, rfl⟩
  obtain ⟨shard, hlookup⟩ := Option.isSome_iff_exists.mp (AList.lookup_isSome.mpr hmem)
  refine ⟨ids i, shard, hlookup, (hdivided.matches_iff hi hlookup hash).mpr hcontains, ?_⟩
  intro other found hother hmatches
  obtain ⟨j, hj, rfl⟩ := (hdivided.keys other).mp (GoMap.mem_of_lookup_eq_some hother)
  have hcell := (hdivided.matches_iff hj hother hash).mp hmatches
  obtain rfl := boundaries.eq_of_contains hi hj hcontains hcell
  rw [hlookup] at hother
  exact ⟨rfl, (Option.some.inj hother).symm⟩

end Divided

/-- The placement driver finds the matching shard in whatever order it scans. -/
theorem shardOfHash_eq {coll : Collection} {hash id : UInt64} {shard : ShardInfo}
    (hlookup : coll.shards.lookup id = some shard) (hmatches : shard.matches hash = true)
    (hunique : ∀ other found, coll.shards.lookup other = some found →
      found.matches hash = true → other = id ∧ found = shard) (env : ServerEnv) :
    shardOfHash env coll hash = some shard := by
  rw [shardOfHash, find?_eq_some_of_forall (RangeOrder.mem_range.mpr hlookup) hmatches]
  · rfl
  · rintro ⟨other, found⟩ hmem hfound
    obtain ⟨rfl, rfl⟩ := hunique other found (RangeOrder.mem_range.mp hmem) hfound
    rfl

/-- So does the gateway, from the status of the collection. -/
theorem pickShardFromRoutingKey_eq {fsm : Fsm} {name : String} {coll : Collection}
    {hash id : UInt64} {shard : ShardInfo} (hcoll : fsm.collections.lookup name = some coll)
    (hlookup : coll.shards.lookup id = some shard) (hmatches : shard.matches hash = true)
    (hunique : ∀ other found, coll.shards.lookup other = some found →
      found.matches hash = true → other = id ∧ found = shard) {env : ServerEnv}
    {resp : GetCollectionStatusResponse} (hresp : getCollectionStatus env fsm name = .ok resp) :
    ∃ routed, pickShardFromRoutingKey (routingShards resp) hash = some routed ∧
      routed.shardId = shard.shardId.toUInt32.toUInt64 ∧
      routed.start = shard.keyRangeStart ∧ routed.stop = shard.keyRangeEnd := by
  unfold getCollectionStatus at hresp
  split at hresp
  next => contradiction
  next =>
    rw [hcoll] at hresp
    obtain rfl := Except.ok.inj hresp
    simp only [routingShards, List.map_map]
    refine ⟨_, find?_eq_some_of_forall (List.mem_map_of_mem (RangeOrder.mem_range.mpr hlookup))
      hmatches ?_, rfl, rfl, rfl⟩
    intro other hother hfound
    obtain ⟨⟨key, found⟩, hmem, rfl⟩ := List.mem_map.mp hother
    obtain ⟨rfl, rfl⟩ := hunique key found (RangeOrder.mem_range.mp hmem) hfound
    rfl

theorem createSpec_numShards_eq (cfg : Config) (env : Env) (fsm : Fsm)
    {payload : CreateCollectionPayload} (hpositive : 1 ≤ payload.initialShards.toInt) :
    (createSpec cfg env fsm payload).numShards = payload.initialShards.toInt.toNat ∧
      (createSpec cfg env fsm payload).rangeSize =
        shardRangeSize cfg payload.initialShards := by
  have hnum : numShards payload = payload.initialShards := by
    rw [numShards, if_neg]
    rw [Int64.le_iff_toInt_le]
    have hzero : (0 : Int64).toInt = 0 := rfl
    omega
  refine ⟨?_, ?_⟩
  · rw [createSpec, hnum]
    rfl
  · rw [createSpec, hnum]

/-- The shards of a new collection divide the hash space into consecutive ranges,
every hash falls into exactly one of them, and for every vector id the placement
driver and the gateway route to that one, in whatever order they scan. -/
theorem key_ranges_partition (cfg : Config) (env : Env) (fsm : Fsm)
    (payload : CreateCollectionPayload) (hpositive : 1 ≤ payload.initialShards.toInt)
    (hmax : payload.initialShards.toInt < 2 ^ 53)
    (hnear : 1 < payload.initialShards.toInt →
      NearEven payload.initialShards.toInt.toNat (shardRangeSize cfg payload.initialShards))
    (hok : (applyCommand cfg env (.createCollection (.ok payload)) fsm).appErr = none) :
    let after := (applyCommand cfg env (.createCollection (.ok payload)) fsm).fsm
    ∃ coll, after.collections.lookup payload.name = some coll ∧
      (∃ (boundaries : Boundaries payload.initialShards.toInt.toNat hashSpace)
        (ids : Nat → UInt64), coll.DividedBy boundaries ids) ∧
      (∀ hash, ∃! id, ∃ shard, coll.shards.lookup id = some shard ∧
        shard.matches hash = true) ∧
      ∀ vectorId, vectorId ≠ "" → ∃ shard, shard.matches (hashVectorId vectorId) = true ∧
        (∀ server, targetShard server coll vectorId = some shard) ∧
        (∀ server resp, getWorker server after ⟨payload.name, vectorId⟩ = .ok resp →
          resp.shardId = shard.shardId.toUInt32) ∧
        (∀ server resp, getCollectionStatus server after payload.name = .ok resp →
          ∃ routed, pickShardFromRouting (routingShards resp) vectorId = some routed ∧
            routed.shardId = shard.shardId.toUInt32.toUInt64 ∧
            routed.start = shard.keyRangeStart ∧ routed.stop = shard.keyRangeEnd) := by
  intro after
  obtain ⟨hnew, heligible⟩ := createCollection_guards cfg env fsm hok
  obtain ⟨hcount, hwidth⟩ := createSpec_numShards_eq cfg env fsm hpositive
  have hcoll : after.collections.lookup payload.name =
      some (createdCollection cfg env fsm payload) := by
    change (Outcome.ofExec _ _).fsm.collections.lookup payload.name = _
    rw [applyCreateCollection_outcome cfg env fsm payload hnew heligible]
    exact AList.lookup_insert _
  have hdivided := @createdCollection_dividedBy cfg env fsm payload (by omega) (by
    intro hmany
    rw [hcount, hwidth]
    exact hnear (by omega))
  refine ⟨_, hcoll, ?_, ?_, ?_⟩
  · rw [← hcount]
    exact ⟨_, _, hdivided⟩
  · intro hash
    obtain ⟨id, shard, hlookup, hmatches, hunique⟩ := hdivided.exists_unique_match hash
    refine ⟨id, ⟨shard, hlookup, hmatches⟩, ?_⟩
    rintro other ⟨found, hother, hfound⟩
    exact (hunique other found hother hfound).1
  · intro vectorId hvector
    obtain ⟨id, shard, hlookup, hmatches, hunique⟩ :=
      hdivided.exists_unique_match (hashVectorId vectorId)
    have htarget : ∀ server, targetShard server (createdCollection cfg env fsm payload) vectorId =
        some shard := by
      intro server
      rw [targetShard, if_pos hvector]
      exact shardOfHash_eq hlookup hmatches hunique server
    refine ⟨shard, hmatches, htarget, ?_, ?_⟩
    · intro server resp hresp
      obtain ⟨found, routed, worker, hfound, hrouted, _, _, hid, _⟩ := getWorker_eq_ok hresp
      rw [hcoll] at hfound
      obtain rfl := Option.some.inj hfound
      rw [htarget] at hrouted
      rw [hid, Option.some.inj hrouted]
    · intro server resp hresp
      rw [pickShardFromRouting, if_neg hvector]
      exact pickShardFromRoutingKey_eq hcoll hlookup hmatches hunique hresp

instance (count : Nat) (width : UInt64) : Decidable (NearEven count width) :=
  inferInstanceAs (Decidable (_ ≤ _))

/-- Three shards, with the range width that the division gives. -/
theorem key_ranges_partition_three :
    let fsm := Run.run step newFsm (startWorkers 1)
    let payload : CreateCollectionPayload := { name := "docs", initialShards := 3 }
    let after := (applyCommand modelConfig (envAt 0) (.createCollection (.ok payload)) fsm).fsm
    shardRangeSize modelConfig 3 = 6148914691236516864 ∧
      ∃ coll, after.collections.lookup "docs" = some coll ∧
        ∀ hash, ∃! id, ∃ shard, coll.shards.lookup id = some shard ∧
          shard.matches hash = true := by
  intro fsm payload after
  obtain ⟨coll, hcoll, _, hunique, _⟩ := key_ranges_partition modelConfig (envAt 0) fsm payload
    (by decide) (by decide) (by intro _; decide +kernel) (by decide +kernel)
  exact ⟨by decide +kernel, coll, hcoll, hunique⟩

end Vectron.Placement
