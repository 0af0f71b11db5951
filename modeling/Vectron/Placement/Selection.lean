import Vectron.Placement.Placement

/-! # Facts about choosing replicas

The workers that getWorkersSortedByLoad returns are the eligible ones, each once.
Whatever the three passes select from them is duplicate-free, within the
replication factor, and not empty when there is anyone to select.
-/

namespace Vectron.Placement

open Foundation

/-! ## The sorted workers -/

theorem mem_workerLoads {env : Env} {fsm : Fsm} {load : WorkerLoad} :
    load ∈ workerLoads env fsm ↔
      ∃ id worker, fsm.workers.lookup id = some worker ∧
        isWorkerEligibleForPlacement (env.clock (.sortEligible id)) worker = true ∧
        workerLoad id worker = load := by
  simp only [workerLoads, List.mem_filterMap, Prod.exists, RangeOrder.mem_range]
  constructor
  · rintro ⟨id, worker, hworker, hload⟩
    split at hload
    next heligible => exact ⟨id, worker, hworker, heligible, Option.some.inj hload⟩
    next => contradiction
  · rintro ⟨id, worker, hworker, heligible, rfl⟩
    exact ⟨id, worker, hworker, by rw [if_pos heligible]⟩

theorem mem_getWorkersSortedByLoad {env : Env} {fsm : Fsm} {id : UInt64} :
    id ∈ getWorkersSortedByLoad env fsm ↔
      ∃ worker, fsm.workers.lookup id = some worker ∧
        isWorkerEligibleForPlacement (env.clock (.sortEligible id)) worker = true := by
  simp only [getWorkersSortedByLoad, List.mem_map, (exchangeSort_perm _ _).mem_iff,
    mem_workerLoads]
  constructor
  · rintro ⟨_, ⟨id, worker, hworker, heligible, rfl⟩, rfl⟩
    exact ⟨worker, hworker, heligible⟩
  · rintro ⟨worker, hworker, heligible⟩
    exact ⟨_, ⟨id, worker, hworker, heligible, rfl⟩, rfl⟩

private theorem filterMap_ids_sublist (eligible : UInt64 × WorkerInfo → Bool)
    (entries : List (UInt64 × WorkerInfo)) :
    ((entries.filterMap fun entry =>
        if eligible entry then some (workerLoad entry.1 entry.2) else none).map
          WorkerLoad.id).Sublist (entries.map Prod.fst) := by
  induction entries with
  | nil => exact List.Sublist.refl _
  | cons entry rest ih =>
      by_cases heligible : eligible entry = true
      · simp only [List.filterMap_cons, heligible, ↓reduceIte, List.map_cons]
        exact ih.cons_cons _
      · simp only [List.filterMap_cons, heligible, Bool.false_eq_true, ↓reduceIte,
          List.map_cons]
        exact ih.cons _

theorem workerLoads_ids_nodup (env : Env) (fsm : Fsm) :
    ((workerLoads env fsm).map WorkerLoad.id).Nodup :=
  (filterMap_ids_sublist
    (fun entry => isWorkerEligibleForPlacement (env.clock (.sortEligible entry.1)) entry.2)
    _).nodup (RangeOrder.range_keys_nodup _ _)

theorem getWorkersSortedByLoad_nodup (env : Env) (fsm : Fsm) :
    (getWorkersSortedByLoad env fsm).Nodup :=
  ((exchangeSort_perm _ _).map WorkerLoad.id).nodup_iff.mpr (workerLoads_ids_nodup env fsm)

/-! ## The passes -/

/-- One iteration of a pass keeps the selection or appends the visited worker to
it while there is room. -/
def Extends (replicationFactor : Nat) (before after : Selection) (workerId : UInt64) : Prop :=
  after.selected = before.selected ∨
    (after.selected = before.selected ++ [workerId] ∧
      before.selected.length < replicationFactor)

variable {workers : GoMap UInt64 WorkerInfo} {replicationFactor : Nat}

section

variable (selection : Selection) (workerId : UInt64)

theorem zonePass_extends :
    Extends replicationFactor selection
      (zonePass workers replicationFactor selection workerId) workerId := by
  unfold zonePass
  split
  · exact Or.inl rfl
  next hroom =>
    split
    · exact Or.inl rfl
    · split
      · exact Or.inl rfl
      · exact Or.inr ⟨rfl, not_le.mp hroom⟩

theorem rackPass_extends :
    Extends replicationFactor selection
      (rackPass workers replicationFactor selection workerId) workerId := by
  unfold rackPass
  split
  · exact Or.inl rfl
  next hroom =>
    split
    · exact Or.inl rfl
    · split
      · exact Or.inl rfl
      · split
        · exact Or.inl rfl
        · exact Or.inr ⟨rfl, not_le.mp hroom⟩

theorem fillPass_extends :
    Extends replicationFactor selection
      (fillPass replicationFactor selection workerId) workerId := by
  unfold fillPass
  split
  · exact Or.inl rfl
  next hroom =>
    split
    · exact Or.inl rfl
    · exact Or.inr ⟨rfl, not_le.mp hroom⟩

end

section

variable {selection : Selection} {workerId : UInt64} (hmem : workerId ∈ selection.selected)

include hmem

/-- The later passes skip workers that are already selected. -/
theorem rackPass_eq_of_mem :
    rackPass workers replicationFactor selection workerId = selection := by
  unfold rackPass
  rw [if_pos hmem, ite_self]

theorem fillPass_eq_of_mem :
    fillPass replicationFactor selection workerId = selection := by
  unfold fillPass
  rw [if_pos hmem, ite_self]

end

/-- What a selection keeps to: no worker twice, only workers among `candidates`,
at most `replicationFactor` of them. -/
structure Selection.Sound (replicationFactor : Nat) (candidates : List UInt64)
    (selection : Selection) : Prop where
  nodup : selection.selected.Nodup
  subset : ∀ id ∈ selection.selected, id ∈ candidates
  bounded : selection.selected.length ≤ replicationFactor

theorem Selection.Sound.mono {candidates more : List UInt64} {selection : Selection}
    (hsound : selection.Sound replicationFactor candidates)
    (hsubset : ∀ id ∈ candidates, id ∈ more) : selection.Sound replicationFactor more where
  nodup := hsound.nodup
  subset id hid := hsubset id (hsound.subset id hid)
  bounded := hsound.bounded

theorem Extends.sound {candidates : List UInt64} {before after : Selection} {workerId : UInt64}
    (hextends : Extends replicationFactor before after workerId)
    (hbefore : before.Sound replicationFactor candidates)
    (hcandidate : workerId ∈ candidates)
    (hfresh : workerId ∈ before.selected → after.selected = before.selected) :
    after.Sound replicationFactor candidates := by
  by_cases hmem : workerId ∈ before.selected
  · have heq := hfresh hmem
    exact ⟨heq ▸ hbefore.nodup, heq ▸ hbefore.subset, heq ▸ hbefore.bounded⟩
  · rcases hextends with heq | ⟨heq, hroom⟩
    · exact ⟨heq ▸ hbefore.nodup, heq ▸ hbefore.subset, heq ▸ hbefore.bounded⟩
    · refine ⟨?_, ?_, ?_⟩
      · rw [heq]
        exact List.nodup_append.mpr ⟨hbefore.nodup, by simp, by
          intro id hid other hother
          rw [List.mem_singleton.mp hother]
          exact fun hsame => hmem (hsame ▸ hid)⟩
      · intro id hid
        rw [heq, List.mem_append, List.mem_singleton] at hid
        rcases hid with hid | rfl
        · exact hbefore.subset id hid
        · exact hcandidate
      · rw [heq, List.length_append, List.length_singleton]
        omega

/-- The first pass does not look at what is selected: it appends a worker at most
once because it visits each worker once. -/
theorem foldl_zonePass_sound {visited ids : List UInt64} {selection : Selection}
    (hsound : selection.Sound replicationFactor visited) (hnodup : (visited ++ ids).Nodup) :
    (ids.foldl (zonePass workers replicationFactor) selection).Sound replicationFactor
      (visited ++ ids) := by
  induction ids generalizing visited selection with
  | nil => simpa using hsound
  | cons id rest ih =>
      have hnew : id ∉ visited := by
        intro hmem
        exact (List.nodup_append.mp hnodup).2.2 id hmem id List.mem_cons_self rfl
      have hstep : (zonePass workers replicationFactor selection id).Sound replicationFactor
          (visited ++ [id]) := by
        apply (zonePass_extends selection id).sound
        · exact hsound.mono fun other hother => List.mem_append_left _ hother
        · simp
        · exact fun hmem => absurd (hsound.subset id hmem) hnew
      have hassoc : visited ++ id :: rest = visited ++ [id] ++ rest := by simp
      rw [List.foldl_cons, hassoc]
      exact ih hstep (by rwa [← hassoc])

/-- The later passes check before they append. -/
theorem foldl_sound {candidates ids : List UInt64} {selection : Selection}
    {pass : Selection → UInt64 → Selection}
    (hextends : ∀ selection id, Extends replicationFactor selection (pass selection id) id)
    (hskip : ∀ selection id, id ∈ selection.selected → pass selection id = selection)
    (hsound : selection.Sound replicationFactor candidates)
    (hids : ∀ id ∈ ids, id ∈ candidates) :
    (ids.foldl pass selection).Sound replicationFactor candidates := by
  induction ids generalizing selection with
  | nil => exact hsound
  | cons id rest ih =>
      refine ih ?_ fun other hother => hids other (List.mem_cons_of_mem _ hother)
      exact (hextends selection id).sound hsound (hids id List.mem_cons_self)
        fun hmem => by rw [hskip selection id hmem]

theorem foldl_selected_ne_nil {ids : List UInt64} {selection : Selection}
    {pass : Selection → UInt64 → Selection}
    (hextends : ∀ selection id, Extends replicationFactor selection (pass selection id) id)
    (hselection : selection.selected ≠ []) : (ids.foldl pass selection).selected ≠ [] := by
  induction ids generalizing selection with
  | nil => exact hselection
  | cons id rest ih =>
      apply ih
      rcases hextends selection id with heq | ⟨heq, _⟩
      · rw [heq]
        exact hselection
      · simp [heq]

/-- The third pass takes the first worker if nothing was selected before. -/
theorem foldl_fillPass_ne_nil {ids : List UInt64} {selection : Selection}
    (hpositive : 0 < replicationFactor) (hids : ids ≠ []) :
    (ids.foldl (fillPass replicationFactor) selection).selected ≠ [] := by
  cases ids with
  | nil => exact absurd rfl hids
  | cons id rest =>
      rw [List.foldl_cons]
      apply foldl_selected_ne_nil fillPass_extends
      by_cases hselected : selection.selected = []
      · simp [fillPass, hselected, Nat.not_le.mpr hpositive]
      · have hextends : Extends replicationFactor selection _ id := fillPass_extends selection id
        rcases hextends with heq | ⟨heq, _⟩
        · rw [heq]
          exact hselected
        · simp [heq]

/-! ## The selected replicas -/

theorem selectReplicasWithFailureDomain_sound {sortedWorkerIds : List UInt64}
    (hpositive : 0 < replicationFactor) (hnodup : sortedWorkerIds.Nodup) :
    let replicas := selectReplicasWithFailureDomain workers replicationFactor sortedWorkerIds
    replicas.Nodup ∧ (∀ id ∈ replicas, id ∈ sortedWorkerIds) ∧
      replicas.length ≤ replicationFactor := by
  simp only [selectReplicasWithFailureDomain]
  split
  · split
    · simp
    · simpa using Nat.succ_le_of_lt hpositive
  · have hempty : Selection.Sound replicationFactor [] {} :=
      ⟨List.nodup_nil, by simp, Nat.zero_le _⟩
    have hzones : (sortedWorkerIds.foldl (zonePass workers replicationFactor) {}).Sound
        replicationFactor sortedWorkerIds :=
      foldl_zonePass_sound hempty hnodup
    have hracks : (sortedWorkerIds.foldl (rackPass workers replicationFactor) _).Sound
        replicationFactor sortedWorkerIds :=
      foldl_sound rackPass_extends (fun _ _ => rackPass_eq_of_mem) hzones fun _ hid => hid
    have hfilled := foldl_sound fillPass_extends (fun _ _ => fillPass_eq_of_mem) hracks
      (fun _ hid => hid)
    exact ⟨hfilled.nodup, hfilled.subset, hfilled.bounded⟩

theorem selectReplicasWithFailureDomain_ne_nil {sortedWorkerIds : List UInt64}
    (hsorted : sortedWorkerIds ≠ []) :
    selectReplicasWithFailureDomain workers replicationFactor sortedWorkerIds ≠ [] := by
  simp only [selectReplicasWithFailureDomain]
  split
  · split
    · exact absurd rfl hsorted
    · simp
  next hlarge => exact foldl_fillPass_ne_nil (by omega) hsorted

end Vectron.Placement
