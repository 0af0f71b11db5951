import Mathlib

/-! # Identifiers drawn from a counter

A ledger is the list of all keys that were ever given an identifier. It outlives
the keys: a key that is gone stays in the ledger, so that an identifier issued
later can be compared with every one issued before.
-/

namespace Foundation

/-- The keys that are live now and were not live before. -/
def newKeys {Key : Type} [DecidableEq Key] (before after : List Key) : List Key :=
  after.filter fun key => key ∉ before

theorem mem_newKeys {Key : Type} [DecidableEq Key] {before after : List Key} {key : Key} :
    key ∈ newKeys before after ↔ key ∈ after ∧ key ∉ before := by
  simp [newKeys]

@[simp] theorem newKeys_self {Key : Type} [DecidableEq Key] (keys : List Key) :
    newKeys keys keys = [] := by
  rw [List.eq_nil_iff_forall_not_mem]
  intro key hkey
  obtain ⟨hafter, hbefore⟩ := mem_newKeys.mp hkey
  exact hbefore hafter

variable {Key Id : Type} [LinearOrder Id]

/-- The identifiers of all `issued` keys differ and are below the counter, and every
live key is among them. -/
structure Ledger (idOf : Key → Id) (next : Id) (live issued : List Key) : Prop where
  distinct : (issued.map idOf).Nodup
  below : ∀ key ∈ issued, idOf key < next
  recorded : ∀ key ∈ live, key ∈ issued

variable {idOf : Key → Id}

theorem Ledger.empty (next : Id) : Ledger idOf next [] [] where
  distinct := List.nodup_nil
  below _ hkey := absurd hkey List.not_mem_nil
  recorded _ hkey := absurd hkey List.not_mem_nil

/-- Two live keys with the same identifier are the same key. -/
theorem Ledger.eq_of_id_eq {next : Id} {live issued : List Key}
    (hledger : Ledger idOf next live issued) {first second : Key} (hfirst : first ∈ live)
    (hsecond : second ∈ live) (hid : idOf first = idOf second) : first = second :=
  List.inj_on_of_nodup_map hledger.distinct (hledger.recorded first hfirst)
    (hledger.recorded second hsecond) hid

/-- Keys that become live with different identifiers between the old and the new
value of the counter extend the ledger. -/
theorem Ledger.extend [DecidableEq Key] {next next' : Id} {live live' issued : List Key}
    (hledger : Ledger idOf next live issued) (hnext : next ≤ next')
    (hdistinct : ((newKeys live live').map idOf).Nodup)
    (hfresh : ∀ key ∈ newKeys live live', next ≤ idOf key ∧ idOf key < next') :
    Ledger idOf next' live' (issued ++ newKeys live live') where
  distinct := by
    rw [List.map_append]
    refine hledger.distinct.append hdistinct ?_
    intro id hissued hnew
    obtain ⟨old, hold, rfl⟩ := List.mem_map.mp hissued
    obtain ⟨new, hkey, heq⟩ := List.mem_map.mp hnew
    have hle : next ≤ idOf old := heq ▸ (hfresh new hkey).1
    exact absurd (hledger.below old hold) (not_lt.mpr hle)
  below := by
    intro key hkey
    rcases List.mem_append.mp hkey with hissued | hnew
    · exact lt_of_lt_of_le (hledger.below key hissued) hnext
    · exact (hfresh key hnew).2
  recorded := by
    intro key hlive
    by_cases hbefore : key ∈ live
    · exact List.mem_append_left _ (hledger.recorded key hbefore)
    · exact List.mem_append_right _ (mem_newKeys.mpr ⟨hlive, hbefore⟩)

end Foundation
