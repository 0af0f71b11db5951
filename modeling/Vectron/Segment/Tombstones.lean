import Vectron.Segment.Files
import Vectron.Worker.Scans

/-! # Tombstones in the database

A deletion leaves a key that spells out the shard, the document and the time. Opening a
shard and compacting it read these keys back. A document may contain the separator of the
key, so the key is cut at its first and at its last separator.
-/

namespace Vectron.Segment

open Foundation OrderedStore
open Worker (Pebble nsKey nsKey_eq underscore)
open Worker.Shard (segTombstonePrefix)

/-- `time.Now().UnixNano()` on a clock that shows a time after 1970. -/
structure Instant where
  nanos : Nat
  pos : 0 < nanos
  lt : nanos < 2 ^ 63

/-! ## Keys -/

variable (c : Config)

/-- `SegmentTombstonePrefix` without the namespace. -/
def tombstoneFront : Bytes := segTombstonePrefix ++ (decimal c.shardID.toNat ++ [underscore])

/-- `SegmentTombstonePrefix`. -/
def segmentTombstonePrefix : Bytes := nsKey c.ns (tombstoneFront c)

/-- `SegmentTombstoneKey`. -/
def segmentTombstoneKey (docID : Bytes) (epoch : Nat) : Bytes :=
  nsKey c.ns (segTombstonePrefix ++ (decimal c.shardID.toNat ++ underscore ::
    (docID ++ underscore :: decimal epoch)))

/-- `prefixPrefixSuccessor`: increment the last byte that is not 0xff. -/
def prefixSuccessor (front : Bytes) : Option Bytes :=
  (cutReversed front.reverse).map List.reverse
where
  /-- The same on the bytes from the last to the first. -/
  cutReversed : Bytes → Option Bytes
    | [] => none
    | byte :: rest =>
        if byte < 0xff then some ((byte + 1) :: rest)
        else (cutReversed rest).map (byte :: ·)

/-- `stripNamespace`. -/
def stripNamespace (ns key : Bytes) : Bytes :=
  if ns.length = 0 ∨ key.length < ns.length then key else key.drop ns.length

/-- What stands before and behind the last separator. -/
def cutAtLast (sep : UInt8) (bytes : Bytes) : Option (Bytes × Bytes) :=
  (cutAt sep bytes.reverse).map fun parts => (parts.2.reverse, parts.1.reverse)

/-- `strconv.ParseUint(s, 10, 64)` without the cause of a failure. -/
def parseUint64 (bytes : Bytes) : Option Nat :=
  (parseDecimal bytes).bind fun n => if n < 2 ^ 64 then some n else none

/-- `ParseSegmentTombstoneKey`. -/
def parseSegmentTombstoneKey (ns key : Bytes) : Option (Nat × Bytes × Int) := do
  let key := stripNamespace ns key
  if !segTombstonePrefix.isPrefixOf key then none
  else
    let (shard, tail) ← cutAt underscore (key.drop segTombstonePrefix.length)
    if shard = [] then none
    else
      let (docID, time) ← cutAtLast underscore tail
      let shardID ← parseUint64 shard
      let epoch ← parseInt64 time
      pure (shardID, docID, epoch)

/-- `WriteTombstone`. -/
def writeTombstone (db : Pebble) (docID : Bytes) (epoch : Instant) : Pebble :=
  db.set (segmentTombstoneKey c docID epoch.nanos) ['1'.toUInt8]

/-- One round of the loop of `GetTombstones(0)`. -/
def noteTombstone (tombstones : GoMap Bytes Int) (entry : Bytes × Bytes) : GoMap Bytes Int :=
  match parseSegmentTombstoneKey c.ns entry.1 with
  | none => tombstones
  | some (_, docID, epoch) =>
      if 0 < epoch ∧ (tombstones.lookup docID).getD 0 < epoch then tombstones.insert docID epoch
      else tombstones

/-- `GetTombstones(0)`. -/
def getTombstones (db : Pebble) : GoMap Bytes Int :=
  (db.scan (segmentTombstonePrefix c) (prefixSuccessor (segmentTombstonePrefix c))).foldl
    (noteTombstone c) ∅

variable {c}

theorem underscore_notMem (n : Nat) : underscore ∉ decimal n := notMem_decimal (by decide) n

/-! ## Reading a key back -/

theorem stripNamespace_nsKey (ns key : Bytes) : stripNamespace ns (nsKey ns key) = key := by
  unfold stripNamespace nsKey
  by_cases hns : ns.length = 0
  · simp [hns]
  · rw [if_neg hns, if_neg, List.drop_left]
    rw [List.length_append]
    omega

theorem cutAtLast_append {sep : UInt8} {back : Bytes} (hback : sep ∉ back) (front : Bytes) :
    cutAtLast sep (front ++ sep :: back) = some (front, back) := by
  have hreverse : (front ++ sep :: back).reverse = back.reverse ++ sep :: front.reverse := by simp
  rw [cutAtLast, hreverse, cutAt_append (by simpa using hback)]
  simp

/-! ## Any shard and any time -/

namespace Tombstone

/-- `strconv.AppendInt` to the base ten. -/
def formatInt (n : Int) : Bytes :=
  if n < 0 then '-'.toUInt8 :: decimal n.natAbs else decimal n.toNat

section Keys

variable (ns : Bytes) (shardID : UInt64)

/-- `SegmentTombstonePrefix`. -/
def segmentTombstonePrefix : Bytes :=
  nsKey ns (segTombstonePrefix ++ (decimal shardID.toNat ++ [underscore]))

/-- `SegmentTombstoneKey`. -/
def segmentTombstoneKey (docID : Bytes) (epoch : Int64) : Bytes :=
  nsKey ns (segTombstonePrefix ++ (decimal shardID.toNat ++ underscore ::
    (docID ++ underscore :: formatInt epoch.toInt)))

/-- One round of the loop of `GetTombstones`. -/
def noteTombstone (sinceEpoch : Int) (tombstones : GoMap Bytes Int) (entry : Bytes × Bytes) :
    GoMap Bytes Int :=
  match parseSegmentTombstoneKey ns entry.1 with
  | none => tombstones
  | some (_, docID, epoch) =>
      if sinceEpoch < epoch then
        if (tombstones.lookup docID).getD 0 < epoch then tombstones.insert docID epoch
        else tombstones
      else tombstones

/-- `GetTombstones`. -/
def getTombstones (sinceEpoch : Int) (db : Pebble) : GoMap Bytes Int :=
  (db.scan (segmentTombstonePrefix ns shardID)
    (prefixSuccessor (segmentTombstonePrefix ns shardID))).foldl (noteTombstone ns sinceEpoch) ∅

end Keys

variable {ns : Bytes} {shardID : UInt64} {db : Pebble} {sinceEpoch : Int}

theorem underscore_notMem_formatInt (n : Int) : underscore ∉ formatInt n := by
  unfold formatInt
  split
  · rw [List.mem_cons, not_or]
    exact ⟨by decide, underscore_notMem _⟩
  · exact underscore_notMem _

theorem parseInt64_formatInt (epoch : Int64) :
    parseInt64 (formatInt epoch.toInt) = some epoch.toInt := by
  have hlow := epoch.le_toInt
  have hhigh := epoch.toInt_lt
  unfold formatInt
  split
  next hneg =>
    have hplus : '-'.toUInt8 ≠ '+'.toUInt8 := by decide
    rw [parseInt64, if_neg hplus, if_pos rfl, parseDecimal_decimal, Option.bind_some,
      if_pos (by omega)]
    congr 1
    omega
  next hpos =>
    rw [parseInt64_decimal (by omega)]
    congr 1
    omega

/-- A key is read back with all its fields. -/
theorem parse_segmentTombstoneKey (ns : Bytes) (shardID : UInt64) (docID : Bytes) (epoch : Int64) :
    parseSegmentTombstoneKey ns (segmentTombstoneKey ns shardID docID epoch) =
      some (shardID.toNat, docID, epoch.toInt) := by
  have hfront : segTombstonePrefix.isPrefixOf (segTombstonePrefix ++ (decimal shardID.toNat ++
      underscore :: (docID ++ underscore :: formatInt epoch.toInt))) = true :=
    List.isPrefixOf_iff_prefix.mpr (List.prefix_append _ _)
  have hshard : parseUint64 (decimal shardID.toNat) = some shardID.toNat := by
    rw [parseUint64, parseDecimal_decimal, Option.bind_some, if_pos shardID.toNat_lt]
  unfold parseSegmentTombstoneKey segmentTombstoneKey
  simp only [stripNamespace_nsKey, hfront, Bool.not_true, Bool.false_eq_true, if_false,
    List.drop_left, cutAt_append (underscore_notMem shardID.toNat), decimal_ne_nil,
    cutAtLast_append (underscore_notMem_formatInt epoch.toInt), hshard,
    parseInt64_formatInt epoch, Option.bind_eq_bind, Option.bind_some]
  rfl

theorem prefix_segmentTombstoneKey (docID : Bytes) (epoch : Int64) :
    segmentTombstonePrefix ns shardID <+: segmentTombstoneKey ns shardID docID epoch := by
  rw [segmentTombstonePrefix, segmentTombstoneKey, nsKey_eq, nsKey_eq]
  exact ⟨docID ++ underscore :: formatInt epoch.toInt, by simp⟩

theorem prefixSuccessor_concat (front : Bytes) :
    prefixSuccessor (front ++ [underscore]) = some (front ++ [underscore + 1]) := by
  have hlt : underscore < 0xff := by decide
  simp [prefixSuccessor, prefixSuccessor.cutReversed, hlt]

/-- A scan visits exactly the keys with the prefix of the shard. -/
theorem within_iff_prefix {key : Bytes} :
    within (segmentTombstonePrefix ns shardID) (prefixSuccessor (segmentTombstonePrefix ns shardID))
      key = true ↔ segmentTombstonePrefix ns shardID <+: key := by
  have hsplit : segmentTombstonePrefix ns shardID =
      (ns ++ (segTombstonePrefix ++ decimal shardID.toNat)) ++ [underscore] := by
    rw [segmentTombstonePrefix, nsKey_eq]
    simp
  have hbetween := @Worker.between_successor_iff
    (ns ++ (segTombstonePrefix ++ decimal shardID.toNat)) underscore (by decide) [] key
  rw [within_iff, hsplit, prefixSuccessor_concat]
  constructor
  · intro hwithin
    obtain ⟨rest, rfl, _⟩ := hbetween.mp ⟨hwithin.1, hwithin.2 _ rfl⟩
    exact ⟨rest, by simp⟩
  · rintro ⟨rest, rfl⟩
    obtain ⟨hle, hlt⟩ := hbetween.mpr ⟨rest, by simp, not_lt.mp (List.not_lt_nil rest)⟩
    refine ⟨hle, fun bound hbound => ?_⟩
    obtain rfl := Option.some.inj hbound
    exact hlt

/-! ## The greatest epoch -/

/-- What the loop keeps of the epochs of one document. -/
def greater (best : Option Int) (epoch : Int) : Option Int :=
  if best.getD 0 < epoch then some epoch else best

theorem foldl_greater_some (epochs : List Int) (best : Int) :
    epochs.foldl greater (some best) = some (epochs.foldl max best) := by
  induction epochs generalizing best with
  | nil => rfl
  | cons epoch rest ih =>
      have hstep : greater (some best) epoch = some (max best epoch) := by
        rw [greater, Option.getD_some]
        split
        next hlt => rw [max_eq_right hlt.le]
        next hge => rw [max_eq_left (not_lt.mp hge)]
      rw [List.foldl_cons, hstep, ih, List.foldl_cons]

theorem foldl_greater {epochs : List Int} (hpos : ∀ epoch ∈ epochs, 0 < epoch) :
    epochs.foldl greater none = epochs.max? := by
  cases epochs with
  | nil => rfl
  | cons epoch rest =>
      have hfirst : greater none epoch = some epoch := if_pos (hpos epoch List.mem_cons_self)
      rw [List.foldl_cons, hfirst, foldl_greater_some, List.max?_cons']

/-- The epoch of an entry, if it is one of the document and later than the given one. -/
def epochOf (ns : Bytes) (sinceEpoch : Int) (docID : Bytes) (entry : Bytes × Bytes) : Option Int :=
  match parseSegmentTombstoneKey ns entry.1 with
  | some (_, other, epoch) => if other = docID ∧ sinceEpoch < epoch then some epoch else none
  | none => none

theorem epochOf_eq_some {docID : Bytes} {entry : Bytes × Bytes} {epoch : Int} :
    epochOf ns sinceEpoch docID entry = some epoch ↔
      sinceEpoch < epoch ∧ ∃ shard, parseSegmentTombstoneKey ns entry.1 =
        some (shard, docID, epoch) := by
  unfold epochOf
  cases parseSegmentTombstoneKey ns entry.1 with
  | none => simp
  | some parsed =>
      obtain ⟨shard, other, found⟩ := parsed
      simp only [Option.ite_none_right_eq_some, Option.some.injEq, Prod.mk.injEq]
      constructor
      · rintro ⟨⟨rfl, hlt⟩, rfl⟩
        exact ⟨hlt, shard, rfl, rfl, rfl⟩
      · rintro ⟨hlt, _, _, rfl, rfl⟩
        exact ⟨⟨rfl, hlt⟩, rfl⟩

theorem lookup_foldl_noteTombstone (docID : Bytes) (entries : List (Bytes × Bytes))
    (tombstones : GoMap Bytes Int) :
    (entries.foldl (noteTombstone ns sinceEpoch) tombstones).lookup docID =
      (entries.filterMap (epochOf ns sinceEpoch docID)).foldl greater (tombstones.lookup docID) := by
  induction entries generalizing tombstones with
  | nil => rfl
  | cons entry rest ih =>
      have hstep : (noteTombstone ns sinceEpoch tombstones entry).lookup docID =
          (epochOf ns sinceEpoch docID entry).elim (tombstones.lookup docID)
            (greater (tombstones.lookup docID)) := by
        unfold noteTombstone epochOf greater
        cases parseSegmentTombstoneKey ns entry.1 with
        | none => rfl
        | some parsed =>
            obtain ⟨shard, other, epoch⟩ := parsed
            by_cases hsince : sinceEpoch < epoch
            · by_cases hsame : other = docID
              · subst hsame
                simp only [hsince, and_self, if_true, Option.elim]
                split
                · rw [GoMap.lookup_insert_if, if_pos rfl]
                · rfl
              · simp only [hsince, hsame, false_and, if_true, if_false, Option.elim]
                split
                · rw [GoMap.lookup_insert_if, if_neg (Ne.symm hsame)]
                · rfl
            · simp [hsince]
      rw [List.foldl_cons, ih, hstep, List.filterMap_cons]
      cases epochOf ns sinceEpoch docID entry with
      | none => rfl
      | some epoch => rfl

/-- An epoch that a scan of the shard meets for the document. -/
def Met (ns : Bytes) (shardID : UInt64) (db : Pebble) (sinceEpoch : Int) (docID : Bytes)
    (epoch : Int) : Prop :=
  sinceEpoch < epoch ∧ ∃ key shard, (db.get key).isSome ∧
    segmentTombstonePrefix ns shardID <+: key ∧
    parseSegmentTombstoneKey ns key = some (shard, docID, epoch)

theorem lookup_getTombstones (hsince : 0 ≤ sinceEpoch) (docID : Bytes) :
    (getTombstones ns shardID sinceEpoch db).lookup docID = none ∧
        (∀ epoch, ¬Met ns shardID db sinceEpoch docID epoch) ∨
      ∃ last, (getTombstones ns shardID sinceEpoch db).lookup docID = some last ∧
        IsGreatest {epoch | Met ns shardID db sinceEpoch docID epoch} last := by
  have hmem : ∀ epoch, epoch ∈ (db.scan (segmentTombstonePrefix ns shardID)
      (prefixSuccessor (segmentTombstonePrefix ns shardID))).filterMap
        (epochOf ns sinceEpoch docID) ↔ Met ns shardID db sinceEpoch docID epoch := by
    intro epoch
    rw [List.mem_filterMap]
    constructor
    · rintro ⟨⟨key, value⟩, hentry, hepoch⟩
      obtain ⟨hget, hwithin⟩ := mem_scan.mp hentry
      obtain ⟨hlt, shard, hparse⟩ := epochOf_eq_some.mp hepoch
      exact ⟨hlt, key, shard, by rw [hget]; rfl, within_iff_prefix.mp hwithin, hparse⟩
    · rintro ⟨hlt, key, shard, hsome, hbegin, hparse⟩
      obtain ⟨value, hget⟩ := Option.isSome_iff_exists.mp hsome
      exact ⟨(key, value), mem_scan.mpr ⟨hget, within_iff_prefix.mpr hbegin⟩,
        epochOf_eq_some.mpr ⟨hlt, shard, hparse⟩⟩
  rw [getTombstones, lookup_foldl_noteTombstone, AList.lookup_empty,
    foldl_greater fun epoch hepoch => hsince.trans_lt ((hmem epoch).mp hepoch).1]
  cases hmax : List.max? (List.filterMap (epochOf ns sinceEpoch docID) _) with
  | none =>
      refine Or.inl ⟨rfl, fun epoch hmet => ?_⟩
      have hepoch := (hmem epoch).mpr hmet
      rw [List.max?_eq_none_iff.mp hmax] at hepoch
      exact absurd hepoch List.not_mem_nil
  | some last =>
      obtain ⟨hlast, hall⟩ := List.max?_eq_some_iff.mp hmax
      exact Or.inr ⟨last, rfl, (hmem last).mp hlast, fun epoch hmet =>
        hall epoch ((hmem epoch).mpr hmet)⟩

/-! ## Shared databases -/

/-- A document of a shard has a tombstone of an epoch. -/
def Has (ns : Bytes) (shardID : UInt64) (db : Pebble) (docID : Bytes) (time : Int) : Prop :=
  ∃ epoch : Int64, epoch.toInt = time ∧ (db.get (segmentTombstoneKey ns shardID docID epoch)).isSome

/-- A database of several namespaces. A key in one of them that reads as a tombstone was written
as one. -/
structure Shared (namespaces : Bytes → Prop) (db : Pebble) : Prop where
  separate : ∀ ns other, namespaces ns → namespaces other → ns <+: other → ns = other
  written : ∀ key, (db.get key).isSome → ∃ ns front, namespaces ns ∧ key = nsKey ns front ∧
    ∀ shard docID time, parseSegmentTombstoneKey ns key = some (shard, docID, time) →
      ∃ shardID epoch, key = segmentTombstoneKey ns shardID docID epoch

variable {namespaces : Bytes → Prop}

theorem Shared.write (hshared : Shared namespaces db) (hns : namespaces ns) (docID : Bytes)
    (epoch : Int64) (value : Bytes) :
    Shared namespaces (db.set (segmentTombstoneKey ns shardID docID epoch) value) := by
  refine ⟨hshared.separate, fun key hsome => ?_⟩
  rw [get_set] at hsome
  split at hsome
  next heq =>
    subst heq
    refine ⟨ns, _, hns, rfl, fun shard other time hparse => ⟨shardID, epoch, ?_⟩⟩
    rw [parse_segmentTombstoneKey] at hparse
    cases hparse
    rfl
  next => exact hshared.written key hsome

/-- The key of one shard does not begin like those of another. -/
theorem shardID_eq_of_prefix {other : UInt64} {docID : Bytes} {epoch : Int64}
    (hbegin : segmentTombstonePrefix ns shardID <+: segmentTombstoneKey ns other docID epoch) :
    other = shardID := by
  obtain ⟨rest, hrest⟩ := hbegin
  rw [segmentTombstonePrefix, segmentTombstoneKey, nsKey_eq, nsKey_eq] at hrest
  simp only [List.append_assoc, List.append_cancel_left_eq, List.singleton_append] at hrest
  have hfirst := cutAt_append (underscore_notMem shardID.toNat) rest
  rw [hrest, cutAt_append (underscore_notMem other.toNat)] at hfirst
  have hdecimal := congrArg Prod.fst (Option.some.inj hfirst)
  exact UInt64.toNat_inj.mp (decimal_injective hdecimal)

/-- What a scan meets in a shared database are the tombstones of its own shard. -/
theorem Shared.met_iff (hshared : Shared namespaces db) (hns : namespaces ns) {docID : Bytes}
    {time : Int} :
    Met ns shardID db sinceEpoch docID time ↔
      sinceEpoch < time ∧ Has ns shardID db docID time := by
  refine and_congr_right fun _ => ⟨?_, ?_⟩
  · rintro ⟨key, shard, hsome, hbegin, hparse⟩
    obtain ⟨other, front, hother, hkey, hwritten⟩ := hshared.written key hsome
    -- both namespaces begin the key, so one of them begins the other
    have hbegins : ns <+: key := by
      rw [segmentTombstonePrefix, nsKey_eq] at hbegin
      exact (List.prefix_append ns _).trans hbegin
    have hbegins' : other <+: key := by
      rw [hkey, nsKey_eq]
      exact List.prefix_append other front
    obtain rfl : other = ns := by
      rcases List.prefix_or_prefix_of_prefix hbegins' hbegins with hfirst | hfirst
      · exact hshared.separate other ns hother hns hfirst
      · exact (hshared.separate ns other hns hother hfirst).symm
    obtain ⟨found, epoch, rfl⟩ := hwritten shard docID time hparse
    obtain rfl := shardID_eq_of_prefix hbegin
    rw [parse_segmentTombstoneKey] at hparse
    cases hparse
    exact ⟨epoch, rfl, hsome⟩
  · rintro ⟨epoch, rfl, hsome⟩
    exact ⟨_, _, hsome, prefix_segmentTombstoneKey docID epoch, parse_segmentTombstoneKey _ _ _ _⟩

/-- Every key is read back, and a shard that shares its database reads exactly its own tombstones
after the given epoch, for each document the last one. -/
theorem tombstones_told_apart :
    (∀ ns shardID docID epoch,
      parseSegmentTombstoneKey ns (segmentTombstoneKey ns shardID docID epoch) =
        some (shardID.toNat, docID, epoch.toInt)) ∧
    ∀ namespaces db, Shared namespaces db → ∀ ns, namespaces ns →
      ∀ shardID sinceEpoch docID, 0 ≤ sinceEpoch →
        (getTombstones ns shardID sinceEpoch db).lookup docID = none ∧
            (∀ time, sinceEpoch < time → ¬Has ns shardID db docID time) ∨
          ∃ last, (getTombstones ns shardID sinceEpoch db).lookup docID = some last ∧
            IsGreatest {time | sinceEpoch < time ∧ Has ns shardID db docID time} last := by
  refine ⟨parse_segmentTombstoneKey, ?_⟩
  intro namespaces db hshared ns hns shardID sinceEpoch docID hsince
  have hread := @lookup_getTombstones ns shardID db sinceEpoch hsince docID
  simp only [hshared.met_iff hns, not_and] at hread
  exact hread

/-- Two shards of a namespace, one number beginning like the other. -/
theorem tombstones_told_apart_two :
    let docID := [underscore]
    let db := (OrderedStore.empty.set (segmentTombstoneKey [] 1 docID 5) []).set
      (segmentTombstoneKey [] 11 docID (-7)) []
    (getTombstones [] 1 0 db).lookup docID = none ∧
        (∀ time, 0 < time → ¬Has [] 1 db docID time) ∨
      ∃ last, (getTombstones [] 1 0 db).lookup docID = some last ∧
        IsGreatest {time | 0 < time ∧ Has [] 1 db docID time} last := by
  intro docID db
  have hempty : Shared (· = []) OrderedStore.empty :=
    ⟨fun ns other hns hother _ => hns.trans hother.symm, fun key hsome => by simp at hsome⟩
  exact tombstones_told_apart.2 _ db ((hempty.write rfl docID 5 []).write rfl docID (-7) []) [] rfl
    1 0 docID le_rfl

end Tombstone

/-! ## Reading the tombstones back -/

theorem Instant.exists_epoch (epoch : Instant) : ∃ time : Int64, time.toInt = epoch.nanos :=
  ⟨Int64.ofNat epoch.nanos, Int64.toInt_ofNat_of_lt epoch.lt⟩

theorem segmentTombstoneKey_eq {time : Int64} {epoch : Nat} (htime : time.toInt = epoch)
    (docID : Bytes) :
    segmentTombstoneKey c docID epoch = Tombstone.segmentTombstoneKey c.ns c.shardID docID time := by
  have hformat : Tombstone.formatInt time.toInt = decimal epoch := by
    rw [htime, Tombstone.formatInt, if_neg (by omega), Int.toNat_natCast]
  rw [segmentTombstoneKey, Tombstone.segmentTombstoneKey, hformat]

theorem getTombstones_eq (db : Pebble) :
    getTombstones c db = Tombstone.getTombstones c.ns c.shardID 0 db := by
  have hnote : noteTombstone c = Tombstone.noteTombstone c.ns 0 := by
    funext tombstones entry
    simp only [noteTombstone, Tombstone.noteTombstone, ite_and]
  rw [getTombstones, hnote]
  rfl

theorem parse_segmentTombstoneKey (docID : Bytes) (epoch : Instant) :
    parseSegmentTombstoneKey c.ns (segmentTombstoneKey c docID epoch.nanos) =
      some (c.shardID.toNat, docID, (epoch.nanos : Int)) := by
  obtain ⟨time, htime⟩ := epoch.exists_epoch
  rw [segmentTombstoneKey_eq htime, Tombstone.parse_segmentTombstoneKey, htime]

/-- The tombstones in a database are those of the documents of a set, at some time each. -/
structure Entombs (c : Config) (db : Pebble) (dead : Bytes → Prop) : Prop where
  written : ∀ key, (db.get key).isSome → ∃ id epoch, dead id ∧
    key = segmentTombstoneKey c id (Instant.nanos epoch)
  found : ∀ id, dead id → ∃ epoch : Instant,
    (db.get (segmentTombstoneKey c id epoch.nanos)).isSome

theorem entombs_empty : Entombs c OrderedStore.empty fun _ => False :=
  ⟨fun _ hsome => by simp at hsome, fun _ hdead => hdead.elim⟩

section

variable {db : Pebble} {dead : Bytes → Prop} (hentombs : Entombs c db dead) (id : Bytes)

include hentombs

theorem Entombs.write (now : Instant) :
    Entombs c (writeTombstone c db id now) fun other => other = id ∨ dead other where
  written key hsome := by
    rw [writeTombstone, get_set] at hsome
    split at hsome
    next heq => exact ⟨id, now, Or.inl rfl, heq⟩
    next =>
      obtain ⟨other, epoch, hdead, heq⟩ := hentombs.written key hsome
      exact ⟨other, epoch, Or.inr hdead, heq⟩
  found other hdead := by
    by_cases heq : other = id
    · subst heq
      refine ⟨now, ?_⟩
      rw [writeTombstone, get_set, if_pos rfl]
      rfl
    · obtain ⟨epoch, hsome⟩ := hentombs.found other (hdead.resolve_left heq)
      refine ⟨epoch, ?_⟩
      rw [writeTombstone, get_set]
      split
      next => rfl
      next => exact hsome

/-- Exactly the documents of the set are dead for a shard that reads its tombstones. -/
theorem Entombs.isSome_getTombstones :
    ((getTombstones c db).lookup id).isSome ↔ dead id := by
  have hread := @Tombstone.lookup_getTombstones c.ns c.shardID db 0 le_rfl id
  rw [getTombstones_eq]
  constructor
  · intro hsome
    rcases hread with ⟨hnone, _⟩ | ⟨last, _, ⟨_, key, shard, hkey, _, hparse⟩, _⟩
    · rw [hnone] at hsome
      cases hsome
    · obtain ⟨other, time, hdead, rfl⟩ := hentombs.written key hkey
      rw [parse_segmentTombstoneKey] at hparse
      cases hparse
      exact hdead
  · intro hdead
    obtain ⟨epoch, hsome⟩ := hentombs.found id hdead
    obtain ⟨time, htime⟩ := epoch.exists_epoch
    rcases hread with ⟨_, hnever⟩ | ⟨last, hlast, _⟩
    · refine absurd ⟨Int.natCast_pos.mpr epoch.pos, _, _, hsome, ?_,
        parse_segmentTombstoneKey id epoch⟩ (hnever epoch.nanos)
      rw [segmentTombstoneKey_eq htime]
      exact Tombstone.prefix_segmentTombstoneKey id time
    · rw [hlast]
      rfl

end

end Vectron.Segment
