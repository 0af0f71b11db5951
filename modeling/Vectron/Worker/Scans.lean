import Vectron.Worker.WalKeys

/-! # Scans of a shared database

A scan over a prefix asks Pebble for the keys from the prefix up to its `Successor`, which
increments the first byte that can be incremented. Between the two stand the keys with the
prefix, and all those that agree with it up to that byte and come later. The scans of the
log have no upper bound at all and look at what follows the namespace of any key.
-/

namespace Vectron.Worker

open Foundation OrderedStore

/-! ## The scans -/

/-- The keys and values a `pebbleIterator` returns. -/
def iterated (ns front : Bytes) (db : Pebble) : List (Bytes × Bytes) :=
  (newIterator ns front db).map fun entry => (iteratorKey ns entry.1, entry.2)

/-- The loop of `Scan`. -/
def scanLoop (limit : Nat) : List (Bytes × Bytes) → List (Bytes × Bytes) → List (Bytes × Bytes)
  | results, [] => results
  | results, entry :: rest =>
      if 0 < limit ∧ limit ≤ results.length then results
      else scanLoop limit (results ++ [entry]) rest

/-- `Scan`. -/
def scan (ns front : Bytes) (limit : Nat) (db : Pebble) : List (Bytes × Bytes) :=
  scanLoop limit [] (iterated ns front db)

/-- The loop of `Iterate`: the calls of the callback. Its answer may depend on all it was
called with. -/
def iterateLoop (fn : List (Bytes × Bytes) → Bool) :
    List (Bytes × Bytes) → List (Bytes × Bytes) → List (Bytes × Bytes)
  | calls, [] => calls
  | calls, entry :: rest =>
      if fn (calls ++ [entry]) then iterateLoop fn (calls ++ [entry]) rest
      else calls ++ [entry]

/-- `Iterate`. -/
def iterate (ns front : Bytes) (fn : List (Bytes × Bytes) → Bool) (db : Pebble) :
    List (Bytes × Bytes) :=
  iterateLoop fn [] (iterated ns front db)

/-- `EntryCount`. -/
def entryCount (ns front : Bytes) (db : Pebble) : Nat :=
  (iterate ns front (fun _ => true) db).length

/-- The keys of the namespace that start with the prefix, in their order. -/
def ownEntries (ns front : Bytes) (db : Pebble) : List (Bytes × Bytes) :=
  (db.entries.filter fun entry => (nsKey ns front).isPrefixOf entry.1).map fun entry =>
    (entry.1.drop ns.length, entry.2)

/-- The entries the scans of the log look at. -/
def walScan (ns : Bytes) (ts : Nat) (db : Pebble) : List (Bytes × Bytes) :=
  db.scan (nsKey ns (walCut ts)) none

/-- Every scan of a store sees what is in its namespace and nothing else. -/
structure SeesOwn (ns front : Bytes) (limit : Nat) (fn : List (Bytes × Bytes) → Bool) (ts : Nat)
    (db : Pebble) : Prop where
  iterator : iterated ns front db = ownEntries ns front db
  ordered : ((iterated ns front db).map Prod.fst).Pairwise (· < ·)
  scan : scan ns front limit db =
    if limit = 0 then ownEntries ns front db else (ownEntries ns front db).take limit
  iterate : iterate ns front fn db = iterateLoop fn [] (ownEntries ns front db)
  entryCount : entryCount ns front db = (ownEntries ns front db).length
  /-- what is taken for a record of the log is one of the namespace -/
  walForeign : ∀ entry ∈ walScan ns ts db, parseWalKey (iteratorKey ns entry.1) ≠ none →
    nsKey ns hnswWALPrefix <+: entry.1
  walOwn : ∀ key : WalKey, key.ts < 2 ^ 63 → walCut ts ≤ key.bytes →
    ∀ value, db.get (nsKey ns key.bytes) = some value →
      (nsKey ns key.bytes, value) ∈ walScan ns ts db ∧
        parseWalKey (iteratorKey ns (nsKey ns key.bytes)) ≠ none

/-! ## Keys out of place -/

/-- A key that agrees with the prefix up to the byte that `Successor` increments, comes
later and does not start with the prefix. -/
def Swept (bound key : Bytes) : Prop :=
  ∃ front byte rest rest', bound = front ++ byte :: rest ∧ (∀ b ∈ front, b = 0xff) ∧
    byte ≠ 0xff ∧ key = front ++ byte :: rest' ∧ rest < rest' ∧ ¬ rest <+: rest'

/-- A key that starts with a prefix `Successor` cannot increment. -/
def Lost (bound key : Bytes) : Prop := bound ≠ [] ∧ (∀ b ∈ bound, b = 0xff) ∧ bound <+: key

/-- No key of the database is out of place for these scans. -/
structure NothingStrays (ns front : Bytes) (ts : Nat) (db : Pebble) : Prop where
  swept : ∀ entry ∈ db.entries, ¬ Swept (nsKey ns front) entry.1
  lost : ∀ entry ∈ db.entries, ¬ Lost (nsKey ns front) entry.1
  foreign : ∀ entry ∈ db.entries, nsKey ns (walCut ts) ≤ entry.1 →
    parseWalKey (iteratorKey ns entry.1) ≠ none → nsKey ns hnswWALPrefix <+: entry.1
  /-- no vector with the id `delete` -/
  skipped : ∀ ts', ts' < 2 ^ 63 → walCut ts ≤ walKey ts' deleteWord →
    db.get (nsKey ns (walKey ts' deleteWord)) = none

/-! ## Bounds -/

theorem ff_or_split (bound : Bytes) : (∀ b ∈ bound, b = 0xff) ∨
    ∃ front byte rest, bound = front ++ byte :: rest ∧ (∀ b ∈ front, b = 0xff) ∧
      byte ≠ 0xff := by
  induction bound with
  | nil => exact Or.inl nofun
  | cons head tail ih =>
      by_cases hhead : head = 0xff
      · rcases ih with hall | ⟨front, byte, rest, rfl, hfront, hbyte⟩
        · exact Or.inl (List.forall_mem_cons.mpr ⟨hhead, hall⟩)
        · right
          exact ⟨head :: front, byte, rest, rfl, List.forall_mem_cons.mpr ⟨hhead, hfront⟩, hbyte⟩
      · exact Or.inr ⟨[], head, tail, rfl, nofun, hhead⟩

theorem successor_of_ff {bound : Bytes} (hbound : ∀ b ∈ bound, b = 0xff) :
    successor bound = bound := by
  induction bound with
  | nil => rfl
  | cons head tail ih =>
      obtain ⟨hhead, htail⟩ := List.forall_mem_cons.mp hbound
      rw [successor, if_neg (not_not.mpr hhead), ih htail]

theorem successor_split {front : Bytes} (hfront : ∀ b ∈ front, b = 0xff) {byte : UInt8}
    (hbyte : byte ≠ 0xff) (rest : Bytes) :
    successor (front ++ byte :: rest) = front ++ [byte + 1] := by
  induction front with
  | nil => rw [List.nil_append, successor, if_pos hbyte, List.nil_append]
  | cons head front ih =>
      obtain ⟨hhead, htail⟩ := List.forall_mem_cons.mp hfront
      rw [List.cons_append, successor, if_neg (not_not.mpr hhead), ih htail, List.cons_append]

theorem lt_add_one_iff {byte other : UInt8} (hbyte : byte ≠ 0xff) :
    other < byte + 1 ↔ other ≤ byte := by
  rw [UInt8.lt_iff_toNat_lt, UInt8.le_iff_toNat_le, UInt8.toNat_add]
  have hlt := byte.toNat_lt
  have hne : byte.toNat ≠ 255 := fun heq => hbyte (UInt8.toNat_inj.mp heq)
  have hone : (1 : UInt8).toNat = 1 := rfl
  rw [hone, Nat.mod_eq_of_lt (by omega)]
  omega

theorem cons_le_cons {first second : UInt8} {left right : Bytes} :
    first :: left ≤ second :: right ↔ first < second ∨ first = second ∧ left ≤ right := by
  rw [← not_lt, List.cons_lt_cons_iff, not_or, not_lt, not_and, not_lt]
  constructor
  · rintro ⟨hle, htail⟩
    rcases hle.lt_or_eq with hlt | rfl
    · exact Or.inl hlt
    · exact Or.inr ⟨rfl, htail rfl⟩
  · rintro (hlt | ⟨rfl, hle⟩)
    · exact ⟨hlt.le, fun heq => absurd heq.symm hlt.ne⟩
    · exact ⟨le_rfl, fun _ => hle⟩

/-- The keys between a prefix and its successor. -/
theorem between_successor_iff {front : Bytes} {byte : UInt8} (hbyte : byte ≠ 0xff)
    {rest key : Bytes} :
    front ++ byte :: rest ≤ key ∧ key < front ++ [byte + 1] ↔
      ∃ rest', key = front ++ byte :: rest' ∧ rest ≤ rest' := by
  constructor
  · rintro ⟨hle, hlt⟩
    induction front generalizing key with
    | nil =>
        cases key with
        | nil => exact absurd (List.nil_lt_cons byte rest) (not_lt.mpr hle)
        | cons head tail =>
            rw [List.nil_append, List.cons_lt_cons_iff, lt_add_one_iff hbyte] at hlt
            rw [List.nil_append, cons_le_cons] at hle
            have hhead : head ≤ byte := by
              rcases hlt with hlt | ⟨_, hnil⟩
              · exact hlt
              · exact absurd hnil (List.not_lt_nil _)
            rcases hle with hlt | ⟨rfl, hrest⟩
            · exact absurd hlt (not_lt.mpr hhead)
            · exact ⟨tail, rfl, hrest⟩
    | cons first front ih =>
        cases key with
        | nil => exact absurd (List.nil_lt_cons _ _) (not_lt.mpr hle)
        | cons head tail =>
            rw [List.cons_append, List.cons_lt_cons_iff] at hlt
            rw [List.cons_append, cons_le_cons] at hle
            obtain ⟨rfl, hrest⟩ : first = head ∧ front ++ byte :: rest ≤ tail := by
              rcases hle with hfirst | hsame
              · rcases hlt with hlt | ⟨rfl, _⟩
                · exact absurd hfirst (lt_asymm hlt)
                · exact absurd hfirst (lt_irrefl _)
              · exact hsame
            have hlt : tail < front ++ [byte + 1] := by
              rcases hlt with hlt | hlt
              · exact absurd hlt (lt_irrefl _)
              · exact hlt.2
            obtain ⟨rest', rfl, hbehind⟩ := ih hrest hlt
            exact ⟨rest', rfl, hbehind⟩
  · rintro ⟨rest', rfl, hrest⟩
    constructor
    · rw [append_left_le_iff, cons_le_cons]
      exact Or.inr ⟨rfl, hrest⟩
    · rw [append_left_lt_iff, List.cons_lt_cons_iff, lt_add_one_iff hbyte]
      exact Or.inl le_rfl

/-- An iterator visits the keys with its prefix, unless they are lost, and those it sweeps
up. -/
theorem within_nsBounds_iff {ns front key : Bytes} :
    within (nsBounds ns front).1 (nsBounds ns front).2 key = true ↔
      (nsKey ns front <+: key ∧ ¬ Lost (nsKey ns front) key) ∨ Swept (nsKey ns front) key := by
  rw [nsBounds]
  split
  next hempty =>
    have hbound : nsKey ns front = [] := by
      rw [nsKey_eq, List.eq_nil_of_length_eq_zero hempty.1, List.eq_nil_of_length_eq_zero hempty.2]
      rfl
    rw [within_iff, hbound]
    simp [Lost, Swept, not_lt.mp (List.not_lt_nil key)]
  next hne =>
    have hbound : nsKey ns front ≠ [] := by
      rw [nsKey_eq]
      intro hnil
      rw [List.append_eq_nil_iff] at hnil
      exact hne ⟨by rw [hnil.1]; rfl, by rw [hnil.2]; rfl⟩
    generalize nsKey ns front = bound at hbound
    have hupper : within bound (some (successor bound)) key = true ↔
        bound ≤ key ∧ key < successor bound := by
      rw [within_iff]
      simp
    rw [hupper]
    rcases ff_or_split bound with hall | ⟨first, byte, rest, rfl, hfirst, hbyte⟩
    · rw [successor_of_ff hall]
      constructor
      · rintro ⟨hle, hlt⟩
        exact absurd hlt (not_lt.mpr hle)
      · rintro (⟨hstarts, hkept⟩ | ⟨first, byte, rest, rest', rfl, _, hbyte, _⟩)
        · exact absurd ⟨hbound, hall, hstarts⟩ hkept
        · exact absurd (hall byte (by simp)) hbyte
    · rw [successor_split hfirst hbyte, between_successor_iff hbyte]
      constructor
      · rintro ⟨rest', rfl, hle⟩
        by_cases hstarts : rest <+: rest'
        · left
          obtain ⟨more, rfl⟩ := hstarts
          refine ⟨⟨more, by simp⟩, ?_⟩
          rintro ⟨_, hall, _⟩
          exact hbyte (hall byte (by simp))
        · right
          refine ⟨first, byte, rest, rest', rfl, hfirst, hbyte, rfl, ?_, hstarts⟩
          exact lt_of_le_of_ne hle fun heq => hstarts (heq ▸ List.prefix_refl _)
      · rintro (⟨⟨more, rfl⟩, _⟩ | ⟨first', byte', rest₁, rest', heq, hfirst', hbyte', rfl, hlt, _⟩)
        · exact ⟨rest ++ more, by simp, le_append_right _ _⟩
        · -- the byte that is incremented is the first one that is not 0xff
          have hsucc := congrArg successor heq
          rw [successor_split hfirst hbyte, successor_split hfirst' hbyte'] at hsucc
          obtain ⟨rfl, _⟩ := List.append_inj' hsucc rfl
          obtain ⟨rfl, rfl⟩ := List.cons.inj (List.append_cancel_left heq)
          exact ⟨rest', rfl, hlt.le⟩

/-! ## What the scans return -/

section Loops

theorem iterateLoop_true (calls entries : List (Bytes × Bytes)) :
    iterateLoop (fun _ => true) calls entries = calls ++ entries := by
  induction entries generalizing calls with
  | nil => simp [iterateLoop]
  | cons entry rest ih => simp [iterateLoop, ih]

theorem scanLoop_eq (limit : Nat) {results : List (Bytes × Bytes)}
    (hshort : limit = 0 ∨ results.length ≤ limit) (entries : List (Bytes × Bytes)) :
    scanLoop limit results entries =
      if limit = 0 then results ++ entries else (results ++ entries).take limit := by
  induction entries generalizing results with
  | nil =>
      rw [scanLoop, List.append_nil]
      split
      next _ => rfl
      next hpos => rw [List.take_of_length_le (hshort.resolve_left hpos)]
  | cons entry rest ih =>
      rw [scanLoop]
      split
      next hfull =>
        have hlength : results.length = limit := by omega
        rw [if_neg hfull.1.ne', ← hlength, List.take_left]
      next hroom =>
        have hmore : limit = 0 ∨ (results ++ [entry]).length ≤ limit := by
          rw [List.length_append, List.length_singleton]
          omega
        rw [ih hmore, List.append_assoc, List.singleton_append]

end Loops

variable {ns front : Bytes} {ts : Nat} {db : Pebble}

theorem iteratorKey_prefixed {key : Bytes} (hkey : nsKey ns front <+: key) :
    iteratorKey ns key = key.drop ns.length := by
  obtain ⟨rest, rfl⟩ := hkey
  rw [nsKey_eq, List.append_assoc, ← nsKey_eq ns (front ++ rest), iteratorKey_nsKey, nsKey_eq,
    List.drop_left]

theorem visited_eq_ownEntries (hswept : ∀ entry ∈ db.entries, ¬ Swept (nsKey ns front) entry.1)
    (hlost : ∀ entry ∈ db.entries, ¬ Lost (nsKey ns front) entry.1) :
    iterated ns front db = ownEntries ns front db := by
  have hfilter : newIterator ns front db =
      db.entries.filter fun entry => (nsKey ns front).isPrefixOf entry.1 := by
    apply List.filter_congr
    intro entry hentry
    rw [Bool.eq_iff_iff, List.isPrefixOf_iff_prefix, within_nsBounds_iff]
    constructor
    · rintro (hstarts | hout)
      · exact hstarts.1
      · exact absurd hout (hswept entry hentry)
    · exact fun hstarts => Or.inl ⟨hstarts, hlost entry hentry⟩
  rw [iterated, hfilter, ownEntries]
  apply List.map_congr_left
  intro entry hentry
  have hstarts := List.isPrefixOf_iff_prefix.mp (List.mem_filter.mp hentry).2
  rw [iteratorKey_prefixed hstarts]

/-- A scan of the right length visits nothing that is out of place. -/
theorem not_stray_of_length (hlength : (newIterator ns front db).length =
      (db.entries.filter fun entry => (nsKey ns front).isPrefixOf entry.1).length) :
    ∀ entry ∈ db.entries, ¬ Swept (nsKey ns front) entry.1 ∧ ¬ Lost (nsKey ns front) entry.1 := by
  intro entry hentry
  rcases ff_or_split (nsKey ns front) with hall | ⟨first, byte, rest, hbound, _, hbyte⟩
  · -- nothing is visited, or everything
    have hnotSwept : ∀ key, ¬ Swept (nsKey ns front) key := by
      rintro key ⟨first, byte, rest, rest', hbound, _, hbyte, _⟩
      exact hbyte (hall byte (by rw [hbound]; simp))
    refine ⟨hnotSwept entry.1, ?_⟩
    rintro hlost
    have hempty : newIterator ns front db = [] := by
      rw [newIterator, OrderedStore.scan, List.filter_eq_nil_iff]
      intro other _ hwithin
      rcases within_nsBounds_iff.mp hwithin with ⟨hstarts, hkept⟩ | hout
      · exact hkept ⟨hlost.1, hall, hstarts⟩
      · exact hnotSwept _ hout
    rw [hempty, List.length_nil] at hlength
    have hnone := List.filter_eq_nil_iff.mp (List.eq_nil_of_length_eq_zero hlength.symm)
    exact hnone entry hentry (List.isPrefixOf_iff_prefix.mpr hlost.2.2)
  · have hnotLost : ∀ key, ¬ Lost (nsKey ns front) key := by
      rintro key ⟨_, hall, _⟩
      exact hbyte (hall byte (by rw [hbound]; simp))
    refine ⟨?_, hnotLost entry.1⟩
    intro hswept
    -- the keys with the prefix are among those visited, and there are no more
    have hinner : (newIterator ns front db).filter
        (fun entry => (nsKey ns front).isPrefixOf entry.1) =
        db.entries.filter fun entry => (nsKey ns front).isPrefixOf entry.1 := by
      rw [newIterator, OrderedStore.scan, List.filter_filter]
      apply List.filter_congr
      intro other _
      cases hstarts : (nsKey ns front).isPrefixOf other.1 with
      | false => rfl
      | true =>
          rw [Bool.true_and]
          have hstarts := List.isPrefixOf_iff_prefix.mp hstarts
          exact within_nsBounds_iff.mpr (Or.inl ⟨hstarts, hnotLost _⟩)
    rw [← hinner] at hlength
    have hvisited : entry ∈ newIterator ns front db :=
      List.mem_filter.mpr ⟨hentry, within_nsBounds_iff.mpr (Or.inr hswept)⟩
    have hstarts := List.length_filter_eq_length_iff.mp hlength.symm entry hvisited
    obtain ⟨first, byte, rest, rest', hbound, _, _, hkey, _, hnot⟩ := hswept
    apply hnot
    rw [List.isPrefixOf_iff_prefix, hbound, hkey] at hstarts
    obtain ⟨more, heq⟩ := hstarts
    rw [List.append_assoc] at heq
    have htail := (List.cons.inj (List.append_cancel_left heq)).2
    exact ⟨more, htail⟩

theorem ownEntries_ordered : ((ownEntries ns front db).map Prod.fst).Pairwise (· < ·) := by
  rw [ownEntries, List.map_map, List.pairwise_map]
  have hsorted := db.sorted.filter fun entry => (nsKey ns front).isPrefixOf entry.1
  apply List.Pairwise.imp_of_mem _ hsorted
  intro first second hfirst hsecond hlt
  obtain ⟨rest, hrest⟩ := List.isPrefixOf_iff_prefix.mp (List.mem_filter.mp hfirst).2
  obtain ⟨rest', hrest'⟩ := List.isPrefixOf_iff_prefix.mp (List.mem_filter.mp hsecond).2
  rw [nsKey_eq, List.append_assoc] at hrest hrest'
  simp only [Function.comp]
  rw [← hrest, ← hrest', append_left_lt_iff] at hlt
  rw [← hrest, ← hrest', List.drop_left, List.drop_left]
  exact hlt

/-! ## The log -/

/-- Of all keys of records, the readers skip those of vectors with the id `delete`. -/
theorem parseWalKey_eq_none_iff {key : WalKey} (hts : key.ts < 2 ^ 63) :
    parseWalKey key.bytes = none ↔ key = .add key.ts deleteWord := by
  by_cases hambiguous : key.Ambiguous
  · cases key with
    | delete ts id => exact hambiguous.elim
    | batch ts => exact hambiguous.elim
    | add ts id =>
        obtain ⟨before, heq⟩ := hambiguous
        cases before with
        | nil =>
            obtain rfl : deleteWord = id := (List.cons.inj heq).2
            have hsuffix := (isSuffixOf_walKey ts deleteWord).mpr (List.suffix_refl _)
            have htrim : trimEnd (underscore :: deleteWord) (decimal ts ++ underscore :: deleteWord) =
                decimal ts := trimEnd_append _ _
            have hnone : parseWalKey (walKey ts deleteWord) = none := by
              rw [parseWalKey, walKey, trimFront_append]
              simp only [not_batchMark, Bool.false_eq_true, if_false, htrim,
                cutAt_eq_none (underscore_notMem_decimal ts), Option.bind_none]
            exact ⟨fun _ => rfl, fun _ => hnone⟩
        | cons byte before =>
            obtain ⟨rfl, hid⟩ := List.cons.inj heq
            obtain rfl : before ++ underscore :: deleteWord = id := hid
            have hsome : parseWalKey (walKey ts (before ++ underscore :: deleteWord)) =
                some (.delete ts before) := parseWalKey_delete hts before
            constructor
            · intro hnone
              rw [WalKey.bytes, hsome] at hnone
              cases hnone
            · intro hkey
              have hlength := congrArg List.length (WalKey.add.inj hkey).2
              rw [List.length_append, List.length_cons] at hlength
              omega
  · rw [(WalKey.parsed_iff hts).mpr hambiguous]
    constructor
    · intro hnone
      cases hnone
    · intro hkey
      rw [hkey] at hambiguous
      exact absurd (List.suffix_refl _) hambiguous

theorem mem_walScan {key value : Bytes} :
    (key, value) ∈ walScan ns ts db ↔ db.get key = some value ∧ nsKey ns (walCut ts) ≤ key := by
  rw [walScan, mem_scan, within_iff]
  simp

/-- The scans of a store see what is its own exactly when no key of the database is out of
place for them. -/
theorem seesOwn_iff_nothingStrays (ns front : Bytes) (limit : Nat)
    (fn : List (Bytes × Bytes) → Bool) (ts : Nat) (db : Pebble) :
    SeesOwn ns front limit fn ts db ↔ NothingStrays ns front ts db := by
  constructor
  · intro hsees
    have hlength := congrArg List.length hsees.iterator
    rw [iterated, ownEntries, List.length_map, List.length_map] at hlength
    have hplace := not_stray_of_length hlength
    refine ⟨fun entry hentry => (hplace entry hentry).1,
      fun entry hentry => (hplace entry hentry).2, ?_, ?_⟩
    · intro entry hentry hle
      exact hsees.walForeign entry (mem_walScan.mpr ⟨get_eq_some.mpr hentry, hle⟩)
    · intro ts' hts hle
      cases hget : db.get (nsKey ns (walKey ts' deleteWord)) with
      | none => rfl
      | some value =>
          exfalso
          apply (hsees.walOwn (.add ts' deleteWord) hts hle value hget).2
          rw [iteratorKey_nsKey]
          exact (parseWalKey_eq_none_iff (show (WalKey.add ts' deleteWord).ts < 2 ^ 63 from hts)).mpr rfl
  · intro hstrays
    have hvisited := visited_eq_ownEntries hstrays.swept hstrays.lost
    refine ⟨hvisited, ?_, ?_, ?_, ?_, ?_, ?_⟩
    · rw [hvisited]
      exact ownEntries_ordered
    · rw [scan, scanLoop_eq limit (Or.inr (Nat.zero_le _)), hvisited, List.nil_append]
    · rw [iterate, hvisited]
    · rw [entryCount, iterate, iterateLoop_true, List.nil_append, hvisited]
    · intro entry hentry
      obtain ⟨hget, hle⟩ := mem_walScan.mp hentry
      exact hstrays.foreign entry (get_eq_some.mp hget) hle
    · intro key hts hle value hget
      refine ⟨mem_walScan.mpr ⟨hget, (nsKey_le_iff ns _ _).mpr hle⟩, ?_⟩
      rw [iteratorKey_nsKey, Ne, parseWalKey_eq_none_iff hts]
      intro hkey
      rw [hkey] at hle hget
      rw [WalKey.bytes, hstrays.skipped key.ts hts hle] at hget
      cases hget

/-- A scan of shard 1 over the vector keys also returns the vector of shard 2. -/
theorem twoShards_not_seesOwn :
    SharedKeys twoShards ∧
      ¬ SeesOwn (shardNamespace 1) [118, 95] 0 (fun _ => true) 0 twoShards := by
  refine ⟨twoShards_sharedKeys, ?_⟩
  intro hsees
  have hlength := congrArg List.length hsees.iterator
  revert hlength
  decide +kernel

end Vectron.Worker
