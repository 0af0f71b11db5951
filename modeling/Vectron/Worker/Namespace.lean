import Vectron.Foundation.ByteOrder
import Vectron.Foundation.OrderedStore

/-! # Shards in one shared database

The shards of a worker may share one Pebble database, each under a namespace that
starts every key of the shard. A shard is backed up by exporting the keys an iterator
finds between the namespace and its successor, and restored by clearing the namespace
and writing the exported records under it.
-/

namespace Vectron.Worker

open Foundation OrderedStore

/-- A Pebble database. -/
abbrev Pebble := OrderedStore Bytes Bytes

/-- `pebble.DefaultComparer.Successor(nil, key)`: increment the first byte that is not
0xff and drop what follows it. -/
def successor : Bytes → Bytes
  | [] => []
  | byte :: rest => if byte ≠ 0xff then [byte + 1] else byte :: successor rest

/-- `nsKey`. -/
def nsKey (ns key : Bytes) : Bytes :=
  if ns.length = 0 then key else ns ++ key

/-- `nsBounds`. A nil lower bound is the empty key; a nil upper bound is none. -/
def nsBounds (ns front : Bytes) : Bytes × Option Bytes :=
  if ns.length = 0 ∧ front.length = 0 then ([], none)
  else (nsKey ns front, some (successor (nsKey ns front)))

/-- `NewIterator`: the database entries it will visit. -/
def newIterator (ns front : Bytes) (db : Pebble) : List (Bytes × Bytes) :=
  db.scan (nsBounds ns front).1 (nsBounds ns front).2

/-- `pebbleIterator.Key`, which cuts the length of the namespace and does not look at
the bytes it cuts. -/
def iteratorKey (ns key : Bytes) : Bytes :=
  if 0 < ns.length ∧ ns.length ≤ key.length then key.drop ns.length else key

/-- One record of an export file. -/
def writeRecord (record : Bytes × Bytes) : Bytes :=
  putUint32 (UInt32.ofNat record.1.length) ++ (putUint32 (UInt32.ofNat record.2.length) ++
    (record.1 ++ record.2))

/-- `exportNamespace`: the contents of the export file. -/
def exportNamespace (ns : Bytes) (db : Pebble) : Bytes :=
  (newIterator ns [] db).flatMap fun entry => writeRecord (iteratorKey ns entry.1, entry.2)

/-- The record behind its key length. -/
def readRecord (klen : UInt32) : Reader ReadError (Bytes × Bytes) := do
  let vlen ← Reader.word
  let key ← Reader.readFull klen.toNat
  let val ← Reader.readFull vlen.toNat
  pure (key, val)

/-- The loop of `importNamespace`. Every round takes at least eight bytes, so the fuel
of the call below is not used up. -/
def readRecords : Nat → Bytes → Except ReadError (List (Bytes × Bytes))
  | 0, _ => .ok []
  | fuel + 1, input =>
      match Reader.word.run input with
      | .error .eof => .ok []
      | .error err => .error err
      | .ok (klen, rest) =>
          match (readRecord klen).run rest with
          | .error err => .error err
          | .ok (record, rest) => (readRecords fuel rest).map fun records => record :: records

/-- The database after the first batch of `importNamespace`. -/
def clearNamespace (ns : Bytes) (db : Pebble) : Pebble :=
  db.commit ((newIterator ns [] db).map fun entry => .delete (nsKey ns (iteratorKey ns entry.1)))

/-- `importNamespace`. The keys are cleared before the file is read, so a bad file
leaves the namespace empty. -/
def importNamespace (ns file : Bytes) (db : Pebble) : Except ReadError Unit × Pebble :=
  match readRecords (file.length + 1) file with
  | .error err => (.error err, clearNamespace ns db)
  | .ok records =>
      (.ok (), (clearNamespace ns db).commit
        (records.map fun record => .set (nsKey ns record.1) record.2))

/-- The namespace `NewStateMachine` gives a shard, `s%020d:`. -/
def shardNamespace (clusterId : UInt64) : Bytes :=
  's'.toUInt8 :: (paddedDecimal 20 clusterId.toNat ++ [':'.toUInt8])

/-! ## Namespaces and bounds -/

theorem nsKey_eq (ns key : Bytes) : nsKey ns key = ns ++ key := by
  rw [nsKey]
  split
  next hempty => rw [List.eq_nil_of_length_eq_zero hempty, List.nil_append]
  next _ => rfl

theorem iteratorKey_nsKey (ns key : Bytes) : iteratorKey ns (nsKey ns key) = key := by
  rw [iteratorKey, nsKey_eq]
  split
  next _ => exact List.drop_left
  next hshort =>
    have hempty : ns = [] := by
      rw [List.length_append] at hshort
      exact List.eq_nil_of_length_eq_zero (by omega)
    rw [hempty, List.nil_append]

@[simp] theorem shardNamespace_length (shard : UInt64) : (shardNamespace shard).length = 22 := by
  simp [shardNamespace]

theorem shard_lt_width (shard : UInt64) : shard.toNat < 10 ^ 20 :=
  lt_trans shard.toNat_lt (by decide)

theorem shardNamespace_lt_iff (first second : UInt64) :
    shardNamespace first < shardNamespace second ↔ first < second := by
  rw [shardNamespace, shardNamespace, List.cons_lt_cons_iff, append_lt_append_iff (by simp),
    paddedDecimal_lt_iff (shard_lt_width first) (shard_lt_width second),
    UInt64.lt_iff_toNat_lt]
  simp

theorem shardNamespace_injective {first second : UInt64}
    (heq : shardNamespace first = shardNamespace second) : first = second := by
  have htail := (List.cons.inj heq).2
  have hdigits := (List.append_inj htail (by simp)).1
  exact UInt64.toNat_inj.mp
    (paddedDecimal_injective (shard_lt_width first) (shard_lt_width second) hdigits)

theorem nsBounds_shardNamespace (shard : UInt64) :
    nsBounds (shardNamespace shard) [] = (shardNamespace shard, some ['t'.toUInt8]) := by
  have hsuccessor : successor (shardNamespace shard) = ['t'.toUInt8] := rfl
  rw [nsBounds, if_neg (by simp), nsKey_eq, List.append_nil, hsuccessor]

/-- The bounds of a shard take in the keys of that shard and of all later ones. -/
theorem mem_newIterator_shard {shard other : UInt64} {key value : Bytes} {db : Pebble} :
    (shardNamespace other ++ key, value) ∈ newIterator (shardNamespace shard) [] db ↔
      db.get (shardNamespace other ++ key) = some value ∧ shard ≤ other := by
  have hupper : shardNamespace other ++ key < ['t'.toUInt8] :=
    List.cons_lt_cons_iff.mpr (Or.inl (by decide))
  have hlower : shardNamespace shard ≤ shardNamespace other ++ key ↔ shard ≤ other := by
    rw [← not_lt, ← List.append_nil (shardNamespace shard),
      append_lt_append_iff (by simp), shardNamespace_lt_iff, ← UInt64.not_lt]
    simp
  rw [newIterator, nsBounds_shardNamespace, mem_scan, within_iff, hlower]
  constructor
  · rintro ⟨hget, hle, _⟩
    exact ⟨hget, hle⟩
  · rintro ⟨hget, hle⟩
    refine ⟨hget, hle, ?_⟩
    intro bound hbound
    rw [← Option.some.inj hbound]
    exact hupper

/-- The own keys among those an export visits. -/
theorem mem_newIterator_nsKey {shard : UInt64} {src : Pebble} {key value : Bytes} :
    (nsKey (shardNamespace shard) key, value) ∈ newIterator (shardNamespace shard) [] src ↔
      src.get (nsKey (shardNamespace shard) key) = some value := by
  rw [nsKey_eq, mem_newIterator_shard]
  exact ⟨fun h => h.1, fun hget => ⟨hget, UInt64.le_refl _⟩⟩

/-! ## Export files -/

theorem readRecords_flatMap {records : List (Bytes × Bytes)}
    (hsmall : ∀ record ∈ records, record.1.length < 2 ^ 32 ∧ record.2.length < 2 ^ 32)
    {fuel : Nat} (hfuel : records.length < fuel) :
    readRecords fuel (records.flatMap writeRecord) = .ok records := by
  induction records generalizing fuel with
  | nil =>
      cases fuel with
      | zero => rfl
      | succ fuel => rfl
  | cons record records ih =>
      cases fuel with
      | zero => cases hfuel
      | succ fuel =>
          obtain ⟨hkey, hval⟩ := hsmall record List.mem_cons_self
          have htail := ih (fun record hmem => hsmall record (List.mem_cons_of_mem _ hmem))
            (Nat.lt_of_succ_lt_succ hfuel)
          have hrecord : Reader.Reads (readRecord (UInt32.ofNat record.1.length))
              (putUint32 (UInt32.ofNat record.2.length) ++ (record.1 ++ (record.2 ++ []))) record := by
            apply Reader.Reads.bind (Reader.Reads.word _)
            rw [toNat_ofNat_length hkey, toNat_ofNat_length hval]
            apply Reader.Reads.bind (Reader.Reads.readFull _)
            exact Reader.Reads.bind (Reader.Reads.readFull _) (Reader.Reads.pure record)
          rw [List.append_nil] at hrecord
          have hread := hrecord (records.flatMap writeRecord)
          simp only [List.append_assoc] at hread
          rw [List.flatMap_cons, writeRecord, readRecords]
          simp only [List.append_assoc, Reader.Reads.word _ _, hread, htail, Except.map]

theorem length_le_flatMap_writeRecord (records : List (Bytes × Bytes)) :
    records.length ≤ (records.flatMap writeRecord).length := by
  induction records with
  | nil => rfl
  | cons record records ih =>
      rw [List.flatMap_cons, List.length_cons, List.length_append, writeRecord]
      simp only [List.length_append, putUint32_length]
      omega

/-! ## Isolation -/

/-- Every key belongs to some shard. -/
def SharedKeys (db : Pebble) : Prop :=
  ∀ entry ∈ db.entries, ∃ shard key, entry.1 = nsKey (shardNamespace shard) key

/-- Pebble takes no batch of 4 GiB, so it stores no key or value of that size. -/
def Storable (db : Pebble) : Prop :=
  ∀ entry ∈ db.entries, entry.1.length < 2 ^ 32 ∧ entry.2.length < 2 ^ 32

/-- What a backup of one shard restored into a database is to do. -/
structure Isolated (shard : UInt64) (src dst : Pebble) : Prop where
  /-- no key of another namespace is in the file, so none is imported -/
  exported : ∀ entry ∈ newIterator (shardNamespace shard) [] src,
    shardNamespace shard <+: entry.1
  imported : (importNamespace (shardNamespace shard)
    (exportNamespace (shardNamespace shard) src) dst).1 = .ok ()
  own : ∀ key, (importNamespace (shardNamespace shard)
      (exportNamespace (shardNamespace shard) src) dst).2.get
        (nsKey (shardNamespace shard) key) =
    src.get (nsKey (shardNamespace shard) key)
  others : ∀ key, ¬ shardNamespace shard <+: key →
    (importNamespace (shardNamespace shard)
      (exportNamespace (shardNamespace shard) src) dst).2.get key = dst.get key

theorem get_clearNamespace_nsKey (shard : UInt64) (db : Pebble) (key : Bytes) :
    (clearNamespace (shardNamespace shard) db).get (nsKey (shardNamespace shard) key) = none := by
  have hmap : (newIterator (shardNamespace shard) [] db).map (fun entry =>
      (.delete (nsKey (shardNamespace shard) (iteratorKey (shardNamespace shard) entry.1)) :
        StoreOp Bytes Bytes)) =
      ((newIterator (shardNamespace shard) [] db).map fun entry =>
        nsKey (shardNamespace shard) (iteratorKey (shardNamespace shard) entry.1)).map .delete := by
    rw [List.map_map]
    rfl
  rw [clearNamespace, hmap, get_commit_deletes]
  split
  next _ => rfl
  next hnot =>
    cases hget : db.get (nsKey (shardNamespace shard) key) with
    | none => rfl
    | some value =>
        exfalso
        apply hnot
        refine List.mem_map.mpr ⟨(nsKey (shardNamespace shard) key, value), ?_, ?_⟩
        · exact mem_newIterator_nsKey.mpr hget
        · rw [iteratorKey_nsKey]

theorem get_clearNamespace_other {ns key : Bytes} (hkey : ¬ ns <+: key) (db : Pebble) :
    (clearNamespace ns db).get key = db.get key := by
  apply get_commit_of_forall_ne
  intro op hop heq
  obtain ⟨entry, _, rfl⟩ := List.mem_map.mp hop
  apply hkey
  rw [← heq, opKey, nsKey_eq]
  exact List.prefix_append _ _

section NoLaterShard

variable {shard : UInt64} {src : Pebble}

/-- No shard behind the exported one has a key in the database. -/
def NoLaterShard (shard : UInt64) (db : Pebble) : Prop :=
  ∀ other, shard < other → ∀ key, db.get (nsKey (shardNamespace other) key) = none

theorem newIterator_own (hshared : SharedKeys src) (hlater : NoLaterShard shard src)
    {entry : Bytes × Bytes} (hmem : entry ∈ newIterator (shardNamespace shard) [] src) :
    ∃ key, entry.1 = nsKey (shardNamespace shard) key := by
  obtain ⟨other, key, hkey⟩ := hshared entry (List.mem_filter.mp hmem).1
  rcases entry with ⟨raw, value⟩
  simp only at hkey
  subst hkey
  rw [nsKey_eq, mem_newIterator_shard] at hmem
  have hnot : ¬ shard < other := by
    intro hlt
    have hnone := hlater other hlt key
    rw [nsKey_eq, hmem.1] at hnone
    cases hnone
  have heq : shard = other := UInt64.le_antisymm hmem.2 (UInt64.not_lt.mp hnot)
  rw [heq]
  exact ⟨key, rfl⟩

/-- The records of the export file, as the import reads them. -/
theorem readRecords_exportNamespace (ns : Bytes) (hstorable : Storable src) :
    readRecords ((exportNamespace ns src).length + 1) (exportNamespace ns src) =
      .ok ((newIterator ns [] src).map fun entry => (iteratorKey ns entry.1, entry.2)) := by
  have hfile : exportNamespace ns src =
      ((newIterator ns [] src).map fun entry =>
        (iteratorKey ns entry.1, entry.2)).flatMap writeRecord := by
    rw [exportNamespace, List.flatMap_map]
  rw [hfile]
  apply readRecords_flatMap
  · intro record hrecord
    obtain ⟨entry, hentry, rfl⟩ := List.mem_map.mp hrecord
    obtain ⟨hkey, hval⟩ := hstorable entry (List.mem_filter.mp hentry).1
    refine ⟨lt_of_le_of_lt ?_ hkey, hval⟩
    simp only [iteratorKey]
    split
    next _ => simp
    next _ => exact le_rfl
  · exact Nat.lt_succ_of_le (length_le_flatMap_writeRecord _)

/-- With no later shard in the database, the import writes back the entries the
export visited. -/
theorem importNamespace_eq (hshared : SharedKeys src) (hstorable : Storable src)
    (hlater : NoLaterShard shard src) (dst : Pebble) :
    importNamespace (shardNamespace shard) (exportNamespace (shardNamespace shard) src) dst =
      (.ok (), (clearNamespace (shardNamespace shard) dst).commit
        ((newIterator (shardNamespace shard) [] src).map fun entry =>
          .set entry.1 entry.2)) := by
  rw [importNamespace, readRecords_exportNamespace _ hstorable]
  simp only [List.map_map]
  congr 2
  apply List.map_congr_left
  intro entry hentry
  obtain ⟨key, hkey⟩ := newIterator_own hshared hlater hentry
  simp only [Function.comp, hkey, iteratorKey_nsKey]

theorem newIterator_keys_nodup (ns front : Bytes) (db : Pebble) :
    ((newIterator ns front db).map Prod.fst).Nodup := by
  rw [List.Nodup, List.pairwise_map]
  exact (scan_sorted db _ _).imp fun hlt => ne_of_lt hlt

theorem isolated_of_noLaterShard (hshared : SharedKeys src) (hstorable : Storable src)
    (hlater : NoLaterShard shard src) (dst : Pebble) : Isolated shard src dst := by
  have himport := importNamespace_eq hshared hstorable hlater dst
  have hnodup := newIterator_keys_nodup (shardNamespace shard) [] src
  refine ⟨?_, ?_, ?_, ?_⟩
  · intro entry hentry
    obtain ⟨key, hkey⟩ := newIterator_own hshared hlater hentry
    rw [hkey, nsKey_eq]
    exact List.prefix_append _ _
  · rw [himport]
  · intro key
    rw [himport]
    cases hget : src.get (nsKey (shardNamespace shard) key) with
    | some value => exact get_commit_sets_of_mem hnodup (mem_newIterator_nsKey.mpr hget)
    | none =>
        rw [get_commit_of_forall_ne, get_clearNamespace_nsKey]
        intro op hop heq
        obtain ⟨⟨raw, value⟩, hentry, rfl⟩ := List.mem_map.mp hop
        obtain rfl : raw = nsKey (shardNamespace shard) key := heq
        rw [mem_newIterator_nsKey, hget] at hentry
        cases hentry
  · intro key hkey
    rw [himport, get_commit_of_forall_ne, get_clearNamespace_other hkey]
    intro op hop heq
    obtain ⟨entry, hentry, rfl⟩ := List.mem_map.mp hop
    obtain ⟨own, hown⟩ := newIterator_own hshared hlater hentry
    apply hkey
    rw [← heq, opKey, hown, nsKey_eq]
    exact List.prefix_append _ _

theorem noLaterShard_of_exported
    (hexported : ∀ entry ∈ newIterator (shardNamespace shard) [] src,
      shardNamespace shard <+: entry.1) : NoLaterShard shard src := by
  intro other hlt key
  cases hget : src.get (nsKey (shardNamespace other) key) with
  | none => rfl
  | some value =>
      exfalso
      rw [nsKey_eq] at hget
      have hmem := mem_newIterator_shard.mpr ⟨hget, UInt64.le_of_lt hlt⟩
      obtain ⟨rest, hrest⟩ := hexported _ hmem
      have hns := (List.append_inj hrest (by simp)).1
      rw [shardNamespace_injective hns] at hlt
      exact absurd hlt (UInt64.lt_irrefl other)

end NoLaterShard

/-- Backing up one shard and restoring it elsewhere moves that shard alone exactly
when the database it is exported from has no key of a shard with a larger id. -/
theorem isolated_iff_noLaterShard (shard : UInt64) (src dst : Pebble)
    (hshared : SharedKeys src) (hstorable : Storable src) :
    Isolated shard src dst ↔ NoLaterShard shard src :=
  ⟨fun hisolated => noLaterShard_of_exported hisolated.exported,
    fun hlater => isolated_of_noLaterShard hshared hstorable hlater dst⟩

/-- A database of shards 1 and 2, with one vector each. -/
def twoShards : Pebble :=
  ((empty : Pebble).set (nsKey (shardNamespace 1) [118, 95, 97]) [1]).set
    (nsKey (shardNamespace 2) [118, 95, 98]) [2]

theorem twoShards_sharedKeys : SharedKeys twoShards := by
  intro entry hentry
  have hentries : twoShards.entries = [(nsKey (shardNamespace 1) [118, 95, 97], [1]),
      (nsKey (shardNamespace 2) [118, 95, 98], [2])] := by decide +kernel
  rw [hentries] at hentry
  rcases List.mem_cons.mp hentry with rfl | hentry
  · exact ⟨1, _, rfl⟩
  · rw [List.mem_singleton.mp hentry]
    exact ⟨2, _, rfl⟩

theorem twoShards_storable : Storable twoShards := by
  have hall : twoShards.entries.all (fun entry =>
      decide (entry.1.length < 2 ^ 32) && decide (entry.2.length < 2 ^ 32)) = true := by
    decide +kernel
  intro entry hentry
  have hentry' := List.all_eq_true.mp hall entry hentry
  simpa using hentry'

/-- The last shard of the database is moved alone. -/
theorem isolated_last_shard :
    SharedKeys twoShards ∧ Storable twoShards ∧
      (Isolated 2 twoShards empty ↔ NoLaterShard 2 twoShards) :=
  ⟨twoShards_sharedKeys, twoShards_storable,
    isolated_iff_noLaterShard 2 twoShards empty twoShards_sharedKeys twoShards_storable⟩

/-- Exporting shard 1 also exports the vector of shard 2, which the import then
writes into shard 1. -/
theorem first_shard_not_isolated :
    SharedKeys twoShards ∧ Storable twoShards ∧ ¬ Isolated 1 twoShards empty ∧
      twoShards.get (nsKey (shardNamespace 1) [118, 95, 98]) = none ∧
      (importNamespace (shardNamespace 1) (exportNamespace (shardNamespace 1) twoShards)
        empty).2.get (nsKey (shardNamespace 1) [118, 95, 98]) = some [2] := by
  have hnone : twoShards.get (nsKey (shardNamespace 1) [118, 95, 98]) = none := by
    decide +kernel
  have hsome : (importNamespace (shardNamespace 1)
      (exportNamespace (shardNamespace 1) twoShards) empty).2.get
        (nsKey (shardNamespace 1) [118, 95, 98]) = some [2] := by
    decide +kernel
  refine ⟨twoShards_sharedKeys, twoShards_storable, ?_, hnone, hsome⟩
  intro hisolated
  have hown := hisolated.own [118, 95, 98]
  rw [hnone, hsome] at hown
  cases hown

end Vectron.Worker
