import Vectron.Foundation.Run
import Vectron.Reranker.Strategy

/-! # One fetch of a worker list for many searches

Without fan-out, a search that finds no workers for a collection in its caches asks the placement
driver, and other searches of the collection wait for what it gets: `waitForWorkerList`,
`finishWorkerList` and the fetch in `searchUncached` and `searchStreamUncached`, in
`apigateway/cmd/apigateway/main.go`. The answers of the placement driver and the roles of the
workers are given from outside. The searches follow each other in any interleaving.
-/

namespace Vectron.Gateway

open Foundation Reranker

/-! ## The list of one search -/

/-- An error of a call to the placement driver. `stale` says that its code is `Unavailable` or
`Internal`. -/
structure PlacementError where
  stale : Bool
  message : Text
deriving DecidableEq

/-- How the fetch fails, each with the error it reports. -/
inductive FetchFailure where
  /-- "could not get placement driver client: %v" -/
  | client (err : Text)
  /-- "could not list workers for collection %q: %v" -/
  | list (err : PlacementError)
  /-- "could not update placement driver leader: %v" -/
  | updateLeader (err : Text)
  /-- "could not list workers for collection %q after leader update: %v" -/
  | listAfterUpdate (err : PlacementError)
deriving DecidableEq

/-- What a search that fetches a list meets with. -/
structure FetchRun where
  /-- the search is a `SearchStream` -/
  stream : Bool
  linearizable : Bool
  /-- `cfg.PreferSearchOnlyWorkers` -/
  preferSearchOnly : Bool
  routeKey : UInt64
  getPlacementClient : Except Text Unit
  listWorkers : Except PlacementError (List Text)
  updateLeader : Except Text Unit
  listWorkersAgain : Except PlacementError (List Text)
  /-- `getWorkerRoles` after the fetch, and once more in a stream -/
  roles : Option (GoMap Text Text)
  rolesAgain : Option (GoMap Text Text)

def filterSearchOnly (addrs : List Text) (roles : GoMap Text Text) : List Text :=
  addrs.filter fun addr => (roles.lookup addr).getD [] = "search_only".toList

def filterPreferSearchOnly (roles : Option (GoMap Text Text)) (addrs : List Text) : List Text :=
  match roles with
  | none => []
  | some roles => filterSearchOnly addrs roles

/-- The address that a key picks. -/
def pickAddressByKey (addrs : List Text) (key : UInt64) : Text :=
  (addrs[key.toNat % addrs.length]?).getD []

/-- Without fan-out a search keeps one address. -/
def pickOne (addrs : List Text) (key : UInt64) : List Text :=
  if 1 < addrs.length ∧ pickAddressByKey addrs key ≠ [] then [pickAddressByKey addrs key] else addrs

namespace FetchRun

variable (run : FetchRun)

/-- The workers that only search, if they are preferred and there are any. -/
def prefer (roles : Option (GoMap Text Text)) (addrs : List Text) : List Text :=
  if !run.linearizable && run.preferSearchOnly && filterPreferSearchOnly roles addrs ≠ [] then
    filterPreferSearchOnly roles addrs
  else addrs

/-- The fetch. -/
def fetch : Except FetchFailure (List Text) :=
  match run.getPlacementClient with
  | .error err => .error (.client err)
  | .ok () =>
      match run.listWorkers with
      | .ok addrs => .ok addrs
      | .error err =>
          if err.stale then
            match run.updateLeader with
            | .error err => .error (.updateLeader err)
            | .ok () =>
                match run.listWorkersAgain with
                | .ok addrs => .ok addrs
                | .error err => .error (.listAfterUpdate err)
          else .error (.list err)

def preferred (addrs : List Text) : List Text :=
  if run.stream then run.prefer run.rolesAgain (run.prefer run.roles addrs)
  else run.prefer run.roles addrs

/-- `workerAddresses` when the function returns. -/
def workerAddresses : List Text :=
  match run.fetch with
  | .error _ => []
  | .ok addrs => pickOne (run.preferred addrs) run.routeKey

end FetchRun

/-- What a flight holds when it is done. -/
structure PublishedList where
  addrs : List Text
  err : Option FetchFailure
deriving DecidableEq

/-- What the deferred closure hands to `finishWorkerList`. Its `err` is that of the `if` around
it, which `waitForWorkerList` has set to nil; the errors of the fetch are other variables. -/
def FetchRun.publish (run : FetchRun) : PublishedList := ⟨run.workerAddresses, none⟩

/-- The list is what a fetch has produced. -/
def PublishedList.Is (published : PublishedList) : Except FetchFailure (List Text) → Prop
  | .ok addrs => published = ⟨addrs, none⟩
  | .error err => published.err = some err

/-- The fetch succeeds with a list that is left as it is: no workers are preferred and no address
is picked. -/
def FetchRun.KeepsList (run : FetchRun) : Prop :=
  ∃ addrs, run.fetch = .ok addrs ∧ run.preferred addrs = addrs ∧
    (addrs.length ≤ 1 ∨ pickAddressByKey addrs run.routeKey = [])

section Published

variable {run : FetchRun}

theorem prefer_sublist (run : FetchRun) (roles : Option (GoMap Text Text)) (addrs : List Text) :
    (run.prefer roles addrs).Sublist addrs := by
  unfold FetchRun.prefer
  split
  · unfold filterPreferSearchOnly
    split
    · exact List.nil_sublist _
    · exact List.filter_sublist
  · exact List.Sublist.refl _

theorem preferred_sublist (run : FetchRun) (addrs : List Text) :
    (run.preferred addrs).Sublist addrs := by
  unfold FetchRun.preferred
  split
  · exact (prefer_sublist _ _ _).trans (prefer_sublist _ _ _)
  · exact prefer_sublist _ _ _

/-- A list with an address picked from it is shorter. -/
theorem pickOne_eq_iff {addrs shorter : List Text} {key : UInt64}
    (hsublist : shorter.Sublist addrs) :
    pickOne shorter key = addrs ↔
      shorter = addrs ∧ (addrs.length ≤ 1 ∨ pickAddressByKey addrs key = []) := by
  unfold pickOne
  constructor
  · intro h
    split at h
    next hpicks =>
      have hlength := hsublist.length_le
      rw [← h, List.length_singleton] at hlength
      omega
    next hkeeps =>
      subst h
      refine ⟨rfl, ?_⟩
      by_contra hnot
      simp only [not_or, not_le] at hnot
      exact hkeeps hnot
  · rintro ⟨rfl, hkeeps⟩
    rw [if_neg]
    rintro ⟨hmany, hpicked⟩
    rcases hkeeps with hfew | hnone
    · omega
    · exact hpicked hnone

/-- What is published is what was fetched exactly if the list is left as it is. -/
theorem publish_is_iff (run : FetchRun) : run.publish.Is run.fetch ↔ run.KeepsList := by
  unfold FetchRun.publish FetchRun.workerAddresses FetchRun.KeepsList
  cases hfetch : run.fetch with
  | error err => simp [PublishedList.Is]
  | ok addrs =>
      simp only [PublishedList.Is, PublishedList.mk.injEq, and_true, Except.ok.injEq,
        exists_eq_left']
      exact pickOne_eq_iff (preferred_sublist run addrs)

end Published

/-! ## The flights -/

inductive ListPhase where
  /-- before `waitForWorkerList` -/
  | arrived
  /-- it fetches the list -/
  | leading
  /-- it waits for the fetch of another search -/
  | joined (leader : Nat)
  /-- it has fetched, and its deferred closure has run -/
  | finished (run : FetchRun)
  /-- it has what another search has published -/
  | obtained (leader : Nat) (published : PublishedList)
  /-- its context was done while it waited -/
  | gaveUp

structure ListCall where
  collection : Text
  phase : ListPhase

structure ListFlights where
  calls : List ListCall
  /-- `inflightWorkerListShards`: the search that fetches the list of a collection -/
  inFlight : GoMap Text Nat

inductive ListStep where
  | search (collection : Text)
  | enter (call : Nat)
  | finish (call : Nat) (run : FetchRun)
  | collect (call : Nat)
  | abandon (call : Nat)

namespace ListFlights

def idle : ListFlights := ⟨[], ∅⟩

def setPhase (state : ListFlights) (i : Nat) (call : ListCall) (phase : ListPhase) : ListFlights :=
  { state with calls := state.calls.set i { call with phase := phase } }

/-- `waitForWorkerList` up to the wait. -/
def enter (state : ListFlights) (i : Nat) (call : ListCall) : ListFlights :=
  match call.phase with
  | .arrived =>
      match state.inFlight.lookup call.collection with
      | some leader => state.setPhase i call (.joined leader)
      | none =>
          { state.setPhase i call .leading with
            inFlight := state.inFlight.insert call.collection i }
  | _ => state

/-- `finishWorkerList`. -/
def finish (state : ListFlights) (i : Nat) (run : FetchRun) (call : ListCall) : ListFlights :=
  match call.phase with
  | .leading =>
      { state.setPhase i call (.finished run) with
        inFlight := state.inFlight.erase call.collection }
  | _ => state

/-- The channel of the flight is closed. -/
def collect (state : ListFlights) (i : Nat) (call : ListCall) : ListFlights :=
  match call.phase with
  | .joined leader =>
      match (state.calls[leader]?).map ListCall.phase with
      | some (.finished run) => state.setPhase i call (.obtained leader run.publish)
      | _ => state
  | _ => state

def abandon (state : ListFlights) (i : Nat) (call : ListCall) : ListFlights :=
  match call.phase with
  | .joined _ => state.setPhase i call .gaveUp
  | _ => state

/-- A search takes a step. -/
def withCall (state : ListFlights) (i : Nat) (next : ListCall → ListFlights) : ListFlights :=
  match state.calls[i]? with
  | none => state
  | some call => next call

def step (state : ListFlights) : ListStep → ListFlights
  | .search collection => { state with calls := state.calls ++ [⟨collection, .arrived⟩] }
  | .enter i => state.withCall i (state.enter i)
  | .finish i run => state.withCall i (state.finish i run)
  | .collect i => state.withCall i (state.collect i)
  | .abandon i => state.withCall i (state.abandon i)

/-- Searches from an idle gateway. -/
def serve (steps : List ListStep) : ListFlights := Run.run step idle steps

/-- Every search that has the list of another one has what the fetch of that search for the same
collection has produced. -/
def FollowersServed (state : ListFlights) : Prop :=
  ∀ (i : Nat) collection leader published,
    state.calls[i]? = some ⟨collection, .obtained leader published⟩ →
      ∃ run, state.calls[leader]? = some ⟨collection, .finished run⟩ ∧ published.Is run.fetch

/-- Every fetch that another search has the list of leaves the list as it is. -/
def LeadersKeep (state : ListFlights) : Prop :=
  ∀ (i : Nat) collection leader published run collection',
    state.calls[i]? = some ⟨collection, .obtained leader published⟩ →
    state.calls[leader]? = some ⟨collection', .finished run⟩ → run.KeepsList

/-- Where searches wait, the search they wait for fetches the list of their collection. -/
structure WellLed (state : ListFlights) : Prop where
  inFlight : ∀ collection (leader : Nat), state.inFlight.lookup collection = some leader →
    state.calls[leader]? = some ⟨collection, .leading⟩
  joined : ∀ (i : Nat) collection leader, state.calls[i]? = some ⟨collection, .joined leader⟩ →
    state.calls[leader]? = some ⟨collection, .leading⟩ ∨
      ∃ run, state.calls[leader]? = some ⟨collection, .finished run⟩
  obtained : ∀ (i : Nat) collection leader published,
    state.calls[i]? = some ⟨collection, .obtained leader published⟩ →
      ∃ run, state.calls[leader]? = some ⟨collection, .finished run⟩ ∧ published = run.publish

variable {state : ListFlights} {steps : List ListStep}

theorem WellLed.step (hled : state.WellLed) (next : ListStep) : (state.step next).WellLed := by
  obtain ⟨hflight, hjoined, hobtained⟩ := hled
  cases next with
  | search collection =>
      constructor <;> simp only [ListFlights.step] <;> grind
  | enter i =>
      simp only [ListFlights.step, withCall, enter, setPhase]
      split
      · exact ⟨hflight, hjoined, hobtained⟩
      next call hcall =>
        obtain ⟨collection, phase⟩ := call
        cases phase with
        | arrived =>
            dsimp only
            split <;> constructor <;> grind [GoMap.lookup_insert_if]
        | _ => exact ⟨hflight, hjoined, hobtained⟩
  | finish i run =>
      simp only [ListFlights.step, withCall, finish, setPhase]
      split
      · exact ⟨hflight, hjoined, hobtained⟩
      next call hcall =>
        obtain ⟨collection, phase⟩ := call
        cases phase with
        | leading =>
            dsimp only
            constructor <;> grind [GoMap.lookup_erase_if]
        | _ => exact ⟨hflight, hjoined, hobtained⟩
  | collect i =>
      simp only [ListFlights.step, withCall, collect, setPhase]
      split
      · exact ⟨hflight, hjoined, hobtained⟩
      next call hcall =>
        obtain ⟨collection, phase⟩ := call
        cases phase with
        | joined leader =>
            dsimp only
            split
            · constructor <;> grind
            · exact ⟨hflight, hjoined, hobtained⟩
        | _ => exact ⟨hflight, hjoined, hobtained⟩
  | abandon i =>
      simp only [ListFlights.step, withCall, abandon, setPhase]
      split
      · exact ⟨hflight, hjoined, hobtained⟩
      next call hcall =>
        obtain ⟨collection, phase⟩ := call
        cases phase with
        | joined leader =>
            dsimp only
            constructor <;> grind
        | _ => exact ⟨hflight, hjoined, hobtained⟩

theorem WellLed.idle : ListFlights.idle.WellLed := by
  constructor <;> simp [ListFlights.idle]

theorem serve_wellLed (steps : List ListStep) : (serve steps).WellLed :=
  Run.run_preserves WellLed (fun _ next hled => hled.step next) steps WellLed.idle

/-- In every run, the searches that waited have what was fetched exactly if the searches they
waited for have left the list as it was. -/
theorem followersServed_iff (steps : List ListStep) :
    (serve steps).FollowersServed ↔ (serve steps).LeadersKeep := by
  have hled := serve_wellLed steps
  constructor
  · intro hserved i collection leader published run collection' hfollower hleader
    obtain ⟨run', hleader', his⟩ := hserved i collection leader published hfollower
    obtain ⟨run'', hleader'', rfl⟩ := hled.obtained i collection leader published hfollower
    simp only [hleader', Option.some.injEq, ListCall.mk.injEq, ListPhase.finished.injEq]
      at hleader hleader''
    obtain ⟨-, rfl⟩ := hleader
    obtain ⟨-, rfl⟩ := hleader''
    exact (publish_is_iff _).mp his
  · intro hkeep i collection leader published hfollower
    obtain ⟨run, hleader, rfl⟩ := hled.obtained i collection leader published hfollower
    exact ⟨run, hleader,
      (publish_is_iff run).mpr (hkeep i collection leader _ run collection hfollower hleader)⟩

/-- The placement driver cannot be reached. -/
def unreachable : FetchRun where
  stream := false
  linearizable := false
  preferSearchOnly := false
  routeKey := 0
  getPlacementClient := .error "no leader".toList
  listWorkers := .ok []
  updateLeader := .ok ()
  listWorkersAgain := .ok []
  roles := none
  rolesAgain := none

/-- Two searches at a time, of which the second gets an empty list and no error. -/
theorem failure_hidden :
    ¬(serve [.search "docs".toList, .search "docs".toList, .enter 0, .enter 1,
      .finish 0 unreachable, .collect 1]).FollowersServed := by
  intro hserved
  obtain ⟨run, hleader, his⟩ := hserved 1 "docs".toList 0 ⟨[], none⟩ rfl
  obtain rfl : unreachable = run := by
    injection hleader with hcall
    injection hcall with _ hphase
    injection hphase
  cases his

end ListFlights

end Vectron.Gateway
