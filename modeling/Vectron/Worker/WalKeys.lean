import Vectron.Worker.UpdateStream

/-! # The keys of the log

A key of the log packs the kind of its record, a timestamp and an id into one string.
`replayWALFrom` and `IterateWALFrom` take it apart with the same tests, which look for the
word of a deletion at the end of the key before they look for the id. An id that ends like
the key of a deletion is taken for one.
-/

namespace Vectron.Worker

open Foundation OrderedStore

/-- What a key of the log is built from. -/
inductive WalKey where
  | add (ts : Nat) (id : Bytes)
  | delete (ts : Nat) (id : Bytes)
  | batch (ts : Nat)
  deriving Repr, DecidableEq

namespace WalKey

/-- The key that `walKey`, `walKeySuffix` or `walKeyBatch` builds. -/
def bytes : WalKey → Bytes
  | .add ts id => walKey ts id
  | .delete ts id => walKeySuffix ts id deleteWord
  | .batch ts => walKeyBatch ts

def ts : WalKey → Nat
  | .add ts _ => ts
  | .delete ts _ => ts
  | .batch ts => ts

/-- What a reader should find. -/
def reading : WalKey → WalKeyReading
  | .add ts id => .add ts id
  | .delete ts id => .delete ts id
  | .batch ts => .batch ts

/-- The key of a vector whose id looks like the end of a deletion. -/
def Ambiguous : WalKey → Prop
  | .add _ id => ReadsAsDelete id
  | _ => False

/-- The key of a vector that is stored as the deletion of another id is. -/
def Masks : WalKey → WalKey → Prop
  | .add ts id, .delete ts' id' => ts = ts' ∧ id = id' ++ underscore :: deleteWord
  | _, _ => False

/-- Both readers recover what the key was built from. -/
structure Recovered (key : WalKey) : Prop where
  parsed : parseWalKey key.bytes = some key.reading
  replayed : ∀ value, readWal key.bytes value = key.reading.replayed value
  streamed : ∀ value, readUpdates key.bytes value = key.reading.streamed value

theorem reading_injective {first second : WalKey} (heq : first.reading = second.reading) :
    first = second := by
  cases first with
  | add ts id =>
      cases second with
      | add ts' id' => simpa [reading] using heq
      | delete ts' id' => cases heq
      | batch ts' => cases heq
  | delete ts id =>
      cases second with
      | add ts' id' => cases heq
      | delete ts' id' => simpa [reading] using heq
      | batch ts' => cases heq
  | batch ts =>
      cases second with
      | add ts' id' => cases heq
      | delete ts' id' => cases heq
      | batch ts' => simpa [reading] using heq

end WalKey

/-! ## What the readers find -/

/-- The key of a vector with such an id is read as that of a deletion, or skipped. -/
theorem parseWalKey_add_ne {ts : Nat} {id : Bytes} (hid : ReadsAsDelete id) (ts' : Int)
    (id' : Bytes) : parseWalKey (walKey ts id) ≠ some (.add ts' id') := by
  have hsuffix := (isSuffixOf_walKey ts id).mpr hid
  rw [parseWalKey, walKey, trimFront_append]
  simp only [not_batchMark, Bool.false_eq_true, if_false, hsuffix, if_true]
  intro heq
  obtain ⟨parts, _, hparts⟩ := Option.bind_eq_some_iff.mp heq
  obtain ⟨found, _, hfound⟩ := Option.map_eq_some_iff.mp hparts
  cases hfound

namespace WalKey

theorem parsed_iff {key : WalKey} (hts : key.ts < 2 ^ 63) :
    parseWalKey key.bytes = some key.reading ↔ ¬ key.Ambiguous := by
  cases key with
  | add ts id => exact ⟨fun heq hid => parseWalKey_add_ne hid _ _ heq, parseWalKey_add hts⟩
  | delete ts id => exact ⟨fun _ hid => hid, fun _ => parseWalKey_delete hts id⟩
  | batch ts => exact ⟨fun _ hid => hid, fun _ => parseWalKey_batch hts⟩

theorem recovered_iff {key : WalKey} (hts : key.ts < 2 ^ 63) :
    key.Recovered ↔ ¬ key.Ambiguous := by
  rw [← parsed_iff hts]
  constructor
  · exact Recovered.parsed
  · intro hparsed
    refine ⟨hparsed, fun value => ?_, fun value => ?_⟩
    · rw [readWal_eq_replayed, hparsed, Option.elim_some]
    · rw [readUpdates_eq_streamed, hparsed, Option.elim_some]

/-- Keys of vectors are told apart, whatever their ids are. -/
theorem add_injective {ts ts' : Nat} {id id' : Bytes} (heq : walKey ts id = walKey ts' id')
    (hts : ts < 2 ^ 63) (hts' : ts' < 2 ^ 63) : ts = ts' ∧ id = id' := by
  have hcut := congrArg (cutAt underscore) (List.append_cancel_left heq)
  rw [cutAt_append (underscore_notMem_decimal ts),
    cutAt_append (underscore_notMem_decimal ts')] at hcut
  obtain ⟨hfront, hid⟩ := Prod.mk.inj (Option.some.inj hcut)
  have hparse := congrArg parseInt64 hfront
  rw [parseInt64_decimal hts, parseInt64_decimal hts'] at hparse
  exact ⟨Int.ofNat.inj (Option.some.inj hparse), hid⟩

theorem readsAsDelete_append (id : Bytes) : ReadsAsDelete (id ++ underscore :: deleteWord) :=
  List.suffix_append (underscore :: id) (underscore :: deleteWord)

/-- Two keys of one string are the same, or one masks the other. -/
theorem eq_or_masks {first second : WalKey} (hfirst : first.ts < 2 ^ 63)
    (hsecond : second.ts < 2 ^ 63) (heq : first.bytes = second.bytes) :
    first = second ∨ first.Masks second ∨ second.Masks first := by
  have hbatch : ∀ {ts ts' : Nat} {id : Bytes}, walKey ts id ≠ walKeyBatch ts' := by
    intro ts ts' id hkeys
    have hmark := not_batchMark ts (underscore :: id)
    rw [List.append_cancel_left hkeys] at hmark
    have hstarts : batchMark.isPrefixOf (batchMark ++ decimal ts') = true :=
      List.isPrefixOf_iff_prefix.mpr (List.prefix_append _ _)
    rw [hstarts] at hmark
    cases hmark
  cases first with
  | add ts id =>
      cases second with
      | add ts' id' =>
          obtain ⟨rfl, rfl⟩ := add_injective heq hfirst hsecond
          exact Or.inl rfl
      | delete ts' id' => exact Or.inr (Or.inl (add_injective heq hfirst hsecond))
      | batch ts' => exact absurd heq hbatch
  | delete ts id =>
      cases second with
      | add ts' id' => exact Or.inr (Or.inr (add_injective heq.symm hsecond hfirst))
      | delete ts' id' =>
          obtain ⟨rfl, hid⟩ := add_injective (heq : walKey ts _ = walKey ts' _) hfirst hsecond
          rw [List.append_cancel_right hid]
          exact Or.inl rfl
      | batch ts' => exact absurd heq hbatch
  | batch ts =>
      cases second with
      | add ts' id'
      | delete ts' id' => exact absurd heq.symm hbatch
      | batch ts' =>
          have hparse := congrArg parseWalKey heq
          rw [(parsed_iff hfirst).mpr not_false, (parsed_iff hsecond).mpr not_false] at hparse
          exact Or.inl (reading_injective (Option.some.inj hparse))

theorem Masks.bytes_eq {first second : WalKey} (hmasks : first.Masks second) :
    first.bytes = second.bytes ∧ first ≠ second := by
  cases first with
  | add ts id =>
      cases second with
      | add ts' id' => exact hmasks.elim
      | delete ts' id' =>
          obtain ⟨rfl, rfl⟩ := hmasks
          exact ⟨rfl, nofun⟩
      | batch ts' => exact hmasks.elim
  | delete ts id => exact hmasks.elim
  | batch ts => exact hmasks.elim

/-- Both readers recover a key exactly when it is not that of a vector whose id looks like
the end of a deletion, and two keys are told apart unless one is such a key and the other
that of the deletion it looks like. -/
theorem recovered_and_distinct_iff {first second : WalKey} (hfirst : first.ts < 2 ^ 63)
    (hsecond : second.ts < 2 ^ 63) :
    (first.Recovered ↔ ¬ first.Ambiguous) ∧
      ((first.bytes = second.bytes → first = second) ↔
        ¬ first.Masks second ∧ ¬ second.Masks first) := by
  refine ⟨recovered_iff hfirst, ?_, ?_⟩
  · intro hinjective
    constructor
    · intro hmasks
      exact hmasks.bytes_eq.2 (hinjective hmasks.bytes_eq.1)
    · intro hmasks
      exact hmasks.bytes_eq.2 (hinjective hmasks.bytes_eq.1.symm).symm
  · rintro ⟨hnot, hnot'⟩ heq
    rcases eq_or_masks hfirst hsecond heq with hsame | hmasks | hmasks
    · exact hsame
    · exact absurd hmasks hnot
    · exact absurd hmasks hnot'

theorem recovered_and_distinct_iff_plain :
    ((add 0 [underscore]).Recovered ↔ ¬ (add 0 [underscore]).Ambiguous) ∧
      (((add 0 [underscore]).bytes = (batch 7).bytes → add 0 [underscore] = batch 7) ↔
        ¬ (add 0 [underscore]).Masks (batch 7) ∧ ¬ (batch 7).Masks (add 0 [underscore])) :=
  recovered_and_distinct_iff (by decide) (by decide)

/-- The key of the vector `a_delete` is read as that of the deletion of `a`, and is the same
string. -/
theorem not_recovered_a_delete :
    ¬ (add 1 ('a'.toUInt8 :: underscore :: deleteWord)).Recovered ∧
      (add 1 ('a'.toUInt8 :: underscore :: deleteWord)).bytes = (delete 1 ['a'.toUInt8]).bytes := by
  refine ⟨fun hrecovered => ?_, rfl⟩
  exact (parsed_iff (by decide)).mp hrecovered.parsed (readsAsDelete_append ['a'.toUInt8])

end WalKey

end Vectron.Worker
