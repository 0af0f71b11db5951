import Vectron.Foundation.MapEdit
import Vectron.Placement.MoveConservation

/-! # How many moves are in flight

A pass of the manager starts as many moves as `MaxConcurrentMoves` leaves room for. A move
that waits for the answer to its first proposal is in no record yet, and its slot is kept for
it until the answer comes.
-/

namespace Vectron.Placement

open Foundation

namespace Driver

variable (driver : Driver)

/-- The move whose start waits for Raft, if there is one. -/
def startingMoves : List RebalanceMove :=
  driver.waiting.toList.filterMap fun pending =>
    match pending.purpose with
    | .start move _ => some move
    | _ => none

/-- The moves that were started and are not over. -/
def openMoves : List RebalanceMove :=
  driver.inflightMoves.entries.map (fun entry => entry.2.move) ++ driver.startingMoves

/-- A manager between two passes that has no moves in flight, with any state and any tables. -/
structure Vacant : Prop where
  inflightMoves : driver.inflightMoves = ∅
  planned : driver.planned = []
  waiting : driver.waiting = none

end Driver

/-- The passes of a manager with this `MaxConcurrentMoves`. -/
def HasLimit (limit : Nat) : DriverInput → Prop
  | .plan _ config _ => config.maxConcurrentMoves = limit
  | _ => True

/-- The move is in no record, and there is a slot for it. -/
structure Room (limit : Nat) (driver : Driver) (move : RebalanceMove) : Prop where
  slots : driver.inflightMoves.size + driver.slots ≤ limit
  pos : 0 < driver.slots
  free : driver.inflightMoves.lookup move.shardId = none
  distinct : move.sourceWorkerId ≠ move.targetWorkerId

structure Limited (limit : Nat) (driver : Driver) : Prop where
  size : driver.inflightMoves.size ≤ limit
  planned : driver.planned ≠ [] → driver.inflightMoves.size + driver.slots ≤ limit
  keyed : Keyed driver
  distinct : ∀ shardId inflight, driver.inflightMoves.lookup shardId = some inflight →
    inflight.move.sourceWorkerId ≠ inflight.move.targetWorkerId
  starting : ∀ move ∈ driver.startingMoves, Room limit driver move

/-! ## The number of records -/

namespace Driver

variable (driver : Driver)

theorem mem_startingMoves {move : RebalanceMove} :
    move ∈ driver.startingMoves ↔
      ∃ pending shard, driver.waiting = some pending ∧ pending.purpose = .start move shard := by
  rw [startingMoves, List.mem_filterMap]
  constructor
  · rintro ⟨pending, hpending, hmove⟩
    split at hmove
    next started shard hpurpose =>
      cases hmove
      exact ⟨pending, shard, Option.mem_toList.mp hpending, hpurpose⟩
    next => cases hmove
  · rintro ⟨pending, shard, hwaiting, hpurpose⟩
    refine ⟨pending, Option.mem_toList.mpr hwaiting, ?_⟩
    simp only [hpurpose]

theorem startingMoves_length : driver.startingMoves.length ≤ 1 := by
  have hle := List.length_filterMap_le (fun pending : Pending =>
    match pending.purpose with
    | .start move _ => some move
    | _ => none) driver.waiting.toList
  exact le_trans hle Option.length_toList_le

theorem revise_size (shardId : UInt64) (change : InflightMove → InflightMove) :
    (driver.revise shardId change).inflightMoves.size = driver.inflightMoves.size := by
  unfold revise
  split
  next => rfl
  next inflight hlookup =>
    exact GoMap.size_insert_of_mem (GoMap.mem_of_lookup_eq_some hlookup) (change inflight)

theorem begin_size {move : RebalanceMove} (hfree : driver.inflightMoves.lookup move.shardId = none)
    (serial : Nat) (shard : ShardInfo) (addedByMove : Bool) :
    (driver.begin serial move shard addedByMove).inflightMoves.size =
      driver.inflightMoves.size + 1 :=
  GoMap.size_insert_of_notMem (AList.lookup_eq_none.mp hfree) _

@[simp] theorem revise_planned (shardId : UInt64) (change : InflightMove → InflightMove) :
    (driver.revise shardId change).planned = driver.planned := by
  unfold revise
  split <;> rfl

@[simp] theorem revise_slots (shardId : UInt64) (change : InflightMove → InflightMove) :
    (driver.revise shardId change).slots = driver.slots := by
  unfold revise
  split <;> rfl

end Driver

/-- No look at a move proposes to start one. -/
theorem Look.not_start {view : MoveView} {shardId : UInt64} {inflight inflight' : InflightMove}
    {purpose : Purpose} {repair : Repair}
    (hlook : Look view shardId inflight (.propose purpose repair inflight')) :
    ∀ move shard, purpose ≠ .start move shard := by
  intro move shard hpurpose
  subst hpurpose
  cases hlook

/-! ## Steps -/

namespace Limited

variable {limit : Nat} {driver next : Driver}

section

variable (hlimited : Limited limit driver)

include hlimited

/-- The records of the moves stay records of moves with two workers. -/
theorem distinct_step (input : DriverInput) :
    ∀ shardId inflight, (driver.step input).inflightMoves.lookup shardId = some inflight →
      inflight.move.sourceWorkerId ≠ inflight.move.targetWorkerId := by
  intro shardId inflight' hlookup'
  have hstep := step_moveStep driver input shardId
  rw [hlookup'] at hstep
  cases hlookup : driver.inflightMoves.lookup shardId with
  | none =>
      rw [hlookup] at hstep
      cases hstep with
      | begun hidle hchecks hmember => exact executeMove_distinct hchecks
      | started before hwaiting hpurpose =>
          exact (hlimited.starting _ (driver.mem_startingMoves.mpr ⟨_, _, hwaiting, hpurpose⟩)).distinct
  | some inflight =>
      rw [hlookup] at hstep
      rcases hstep.record with hsame | ⟨pending, move, shard, hwaiting, hpurpose, -, rfl⟩
      · rw [hsame.move]
        exact hlimited.distinct shardId inflight hlookup
      · exact (hlimited.starting _ (driver.mem_startingMoves.mpr ⟨_, _, hwaiting, hpurpose⟩)).distinct

/-- What a step does to the counters decides whether the limit is kept. -/
structure Counts (limit : Nat) (next : Driver) : Prop where
  size : next.inflightMoves.size ≤ limit
  planned : next.planned ≠ [] → next.inflightMoves.size + next.slots ≤ limit
  starting : ∀ move ∈ next.startingMoves, Room limit next move

theorem of_counts {input : DriverInput} (hcounts : Counts limit (driver.step input)) :
    Limited limit (driver.step input) :=
  ⟨hcounts.size, hcounts.planned, step_keyed driver input hlimited.keyed,
    hlimited.distinct_step input, hcounts.starting⟩

/-- A step of another party leaves the manager as it is. -/
theorem counts_of_same (hmoves : next.inflightMoves = driver.inflightMoves)
    (hplanned : next.planned = driver.planned) (hslots : next.slots = driver.slots)
    (hwaiting : next.waiting = driver.waiting) :
    Counts limit next := by
  refine ⟨?_, ?_, ?_⟩
  · rw [hmoves]
    exact hlimited.size
  · rw [hmoves, hplanned, hslots]
    exact hlimited.planned
  · intro move hmove
    have hstarting : next.startingMoves = driver.startingMoves := by
      rw [Driver.startingMoves, hwaiting, Driver.startingMoves]
    rw [hstarting] at hmove
    obtain ⟨hroom, hpos, hfree, hdistinct⟩ := hlimited.starting move hmove
    exact ⟨by rw [hmoves, hslots]; exact hroom, by rw [hslots]; exact hpos,
      by rw [hmoves]; exact hfree, hdistinct⟩

/-- A step that starts no move and does not add records. -/
theorem counts_of_le (hsize : next.inflightMoves.size ≤ driver.inflightMoves.size)
    (hplanned : next.planned = driver.planned) (hslots : next.slots = driver.slots)
    (hstarting : next.startingMoves = []) : Counts limit next := by
  refine ⟨le_trans hsize hlimited.size, ?_, ?_⟩
  · rw [hplanned, hslots]
    intro hne
    have hle := hlimited.planned hne
    omega
  · rw [hstarting]
    simp

end

theorem startingMoves_of_none (hwaiting : next.waiting = none) : next.startingMoves = [] := by
  rw [Driver.startingMoves, hwaiting]
  rfl

theorem starting_of_none (hwaiting : next.waiting = none) :
    ∀ move ∈ next.startingMoves, Room limit next move := by
  rw [startingMoves_of_none hwaiting]
  simp

/-- A new record takes up a slot. -/
theorem counts_begin {move : RebalanceMove} (hroom : Room limit driver move)
    (hwaiting : driver.waiting = none)
    (serial : Nat) (shard : ShardInfo) (addedByMove : Bool) :
    Counts limit (driver.begin serial move shard addedByMove) := by
  have hsize := driver.begin_size hroom.free serial shard addedByMove
  have hslots : (driver.begin serial move shard addedByMove).slots = driver.slots - 1 := rfl
  have hle := hroom.slots
  have hpos := hroom.pos
  refine ⟨?_, ?_, ?_⟩
  · omega
  · intro _
    omega
  · exact starting_of_none hwaiting

section

variable (hlimited : Limited limit driver)

include hlimited

section

variable (hidle : driver.waiting = none)

include hidle

theorem advance (cfg : Config) (orders : Orders) (shardId : UInt64) :
    Counts limit (driver.advance cfg orders shardId) := by
  unfold Driver.advance
  split
  next => exact hlimited.counts_of_same rfl rfl rfl rfl
  next inflight _ =>
    split
    next inflight' _ =>
      refine hlimited.counts_of_le (driver.revise_size _ _).le (by simp) (by simp) ?_
      exact startingMoves_of_none (by simp [hidle])
    next purpose repair inflight' haction =>
      have hlook : Look (driver.view cfg orders) shardId inflight
          (.propose purpose repair inflight') := haction ▸ advanceMove_look _ _ _
      refine hlimited.counts_of_le (driver.revise_size _ _).le (driver.revise_planned _ _)
        (driver.revise_slots _ _) ?_
      rw [List.eq_nil_iff_forall_not_mem]
      intro move hmove
      obtain ⟨pending, shard, hwaiting, hpurpose⟩ := (Driver.mem_startingMoves _).mp hmove
      cases hwaiting
      exact hlook.not_start move shard hpurpose
    next =>
      exact hlimited.counts_of_le (GoMap.size_erase_le _ _) rfl rfl (startingMoves_of_none hidle)
    next =>
      exact hlimited.counts_of_le (GoMap.size_erase_le _ _) rfl rfl (startingMoves_of_none hidle)

theorem plan (cfg : Config) {config : RebalanceConfig} (hlimit : config.maxConcurrentMoves = limit)
    (orders : PlanSite → Orders) :
    Counts limit (driver.plan cfg config orders) := by
  refine ⟨hlimited.size, ?_, ?_⟩
  · intro _
    have hsize : driver.inflightMoves.entries.length = driver.inflightMoves.size :=
      (List.length_map _).symm
    have hle := hlimited.size
    have hslots : (driver.plan cfg config orders).slots ≤
        config.maxConcurrentMoves - driver.inflightMoves.entries.length := min_le_right _ _
    have hmoves : (driver.plan cfg config orders).inflightMoves = driver.inflightMoves := rfl
    rw [hmoves]
    omega
  · exact starting_of_none hidle

theorem execute (orders : Orders) :
    Counts limit (driver.execute orders) := by
  unfold Driver.execute
  split
  next => exact hlimited.counts_of_same rfl rfl rfl rfl
  next move rest hplanned =>
    have hslots := hlimited.planned (by rw [hplanned]; simp)
    -- the rest of the plan has the same slots
    have hrest : Counts limit { driver with planned := rest } :=
      ⟨hlimited.size, fun _ => hslots, starting_of_none hidle⟩
    split
    next => exact ⟨hlimited.size, by simp, starting_of_none hidle⟩
    next hsome =>
      split
      next => exact hrest
      next hfree =>
        split
        next => exact hrest
        next shard hchecks =>
          have hroom : Room limit driver move :=
            ⟨hslots, Nat.pos_of_ne_zero hsome, Option.not_isSome_iff_eq_none.mp hfree,
              executeMove_distinct hchecks⟩
          simp only
          split
          next =>
            refine counts_begin ?_ ?_ _ _ _
            · exact ⟨hroom.slots, hroom.pos, hroom.free, hroom.distinct⟩
            · exact hidle
          next =>
            refine ⟨hlimited.size, fun _ => hslots, ?_⟩
            intro started hstarted
            obtain ⟨pending, shard', hwaiting, hpurpose⟩ := (Driver.mem_startingMoves _).mp hstarted
            cases hwaiting
            cases hpurpose
            exact ⟨hroom.slots, hroom.pos, hroom.free, hroom.distinct⟩

end

/-- Raft answers with the command applied. -/
theorem acknowledge {pending : Pending} (hwaiting : driver.waiting = some pending) (cfg : Config)
    (env : Env) :
    Counts limit (({ driver with waiting := none }.apply
      ⟨cfg, env, pending.repair.command⟩).acknowledge pending) := by
  unfold Driver.acknowledge
  split
  next move shard hpurpose =>
    have hroom := hlimited.starting move (driver.mem_startingMoves.mpr ⟨_, _, hwaiting, hpurpose⟩)
    refine counts_begin ?_ ?_ _ _ _
    · exact ⟨hroom.slots, hroom.pos, hroom.free, hroom.distinct⟩
    · rfl
  next =>
    exact hlimited.counts_of_le (Driver.revise_size _ _ _).le (Driver.revise_planned _ _ _)
      (Driver.revise_slots _ _ _) (startingMoves_of_none (Driver.revise_waiting _ _ _))
  next =>
    exact hlimited.counts_of_le (Driver.revise_size _ _ _).le (Driver.revise_planned _ _ _)
      (Driver.revise_slots _ _ _) (startingMoves_of_none (Driver.revise_waiting _ _ _))
  next =>
    exact hlimited.counts_of_le (GoMap.size_erase_le _ _) rfl rfl (startingMoves_of_none rfl)

/-- Raft answers with an error. -/
theorem giveUp (pending : Pending) :
    Counts limit ({ driver with
      waiting := none
      late := driver.late ++ [pending] }.giveUp pending) := by
  unfold Driver.giveUp
  split
  next => exact hlimited.counts_of_le le_rfl rfl rfl (startingMoves_of_none rfl)
  next =>
    exact hlimited.counts_of_le (Driver.revise_size _ _ _).le (Driver.revise_planned _ _ _)
      (Driver.revise_slots _ _ _) (startingMoves_of_none (Driver.revise_waiting _ _ _))

theorem step {input : DriverInput} (hlimit : HasLimit limit input) :
    Limited limit (driver.step input) := by
  apply hlimited.of_counts
  have hsame : Counts limit driver := hlimited.counts_of_same rfl rfl rfl rfl
  cases input with
  | command applied
  | report orders req
  | wait elapsed => exact hlimited.counts_of_same rfl rfl rfl rfl
  | startPass
  | lateApply position cfg env =>
      rw [Driver.step]
      split
      next => exact hsame
      next => exact hlimited.counts_of_same rfl rfl rfl rfl
  | advance cfg orders shardId =>
      rw [Driver.step]
      split
      next => exact hsame
      next hidle => exact hlimited.advance (Option.not_isSome_iff_eq_none.mp hidle) _ _ _
  | plan cfg config orders =>
      rw [Driver.step]
      split
      next => exact hsame
      next hidle => exact hlimited.plan (Option.not_isSome_iff_eq_none.mp hidle) _ hlimit _
  | execute orders =>
      rw [Driver.step]
      split
      next => exact hsame
      next hidle => exact hlimited.execute (Option.not_isSome_iff_eq_none.mp hidle) _
  | settle settlement =>
      cases hwaiting : driver.waiting with
      | none =>
          simp only [Driver.step, hwaiting]
          exact hsame
      | some pending =>
          cases settlement with
          | applied cfg env =>
              simp only [Driver.step, hwaiting]
              exact hlimited.acknowledge hwaiting cfg env
          | failed =>
              simp only [Driver.step, hwaiting]
              exact hlimited.giveUp pending

end

theorem of_vacant (limit : Nat) (hvacant : driver.Vacant) : Limited limit driver := by
  have hlookup : ∀ shardId, driver.inflightMoves.lookup shardId = none := by
    intro shardId
    rw [hvacant.inflightMoves]
    rfl
  have hsize : driver.inflightMoves.size = 0 := by
    rw [hvacant.inflightMoves]
    rfl
  refine ⟨by omega, ?_, ?_, ?_, ?_⟩
  · intro hplanned
    exact absurd hvacant.planned hplanned
  · intro shardId inflight hsome
    rw [hlookup] at hsome
    cases hsome
  · intro shardId inflight hsome
    rw [hlookup] at hsome
    cases hsome
  · rw [startingMoves_of_none hvacant.waiting]
    simp

section

variable (hlimited : Limited limit driver)

include hlimited

theorem run {inputs : List DriverInput} (hlimit : ∀ input ∈ inputs, HasLimit limit input) :
    Limited limit (Run.run Driver.step driver inputs) := by
  induction inputs generalizing driver with
  | nil => exact hlimited
  | cons input inputs ih =>
      obtain ⟨hinput, hinputs⟩ := List.forall_mem_cons.mp hlimit
      exact ih (hlimited.step hinput) hinputs

theorem openMoves_length : driver.openMoves.length ≤ limit := by
  have hsize : driver.inflightMoves.entries.length = driver.inflightMoves.size :=
    (List.length_map _).symm
  rw [Driver.openMoves, List.length_append, List.length_map, hsize]
  cases hstarting : driver.startingMoves with
  | nil => simpa using hlimited.size
  | cons move rest =>
      obtain ⟨hroom, hpos, -, -⟩ := hlimited.starting move (by rw [hstarting]; simp)
      have hone := driver.startingMoves_length
      rw [hstarting] at hone
      omega

theorem openMoves_nodup :
    (driver.openMoves.map RebalanceMove.shardId).Nodup := by
  have hkeys : (driver.inflightMoves.entries.map fun entry => entry.2.move).map
      RebalanceMove.shardId = driver.inflightMoves.keys := by
    rw [List.map_map]
    apply List.map_congr_left
    rintro ⟨shardId, inflight⟩ hentry
    exact hlimited.keyed shardId inflight (AList.mem_lookup_iff.mpr hentry)
  rw [Driver.openMoves, List.map_append, hkeys]
  refine List.Nodup.append driver.inflightMoves.keys_nodup ?_ ?_
  · have hone := driver.startingMoves_length
    cases hstarting : driver.startingMoves with
    | nil => simp
    | cons move rest =>
        rw [hstarting] at hone
        have hrest : rest.length = 0 := Nat.le_zero.mp (Nat.le_of_succ_le_succ hone)
        obtain rfl : rest = [] := List.eq_nil_of_length_eq_zero hrest
        simp
  · intro shardId hkey hstarting
    obtain ⟨move, hmove, rfl⟩ := List.mem_map.mp hstarting
    exact AList.lookup_eq_none.mp (hlimited.starting move hmove).free hkey

theorem openMoves_distinct :
    ∀ move ∈ driver.openMoves, move.sourceWorkerId ≠ move.targetWorkerId := by
  intro move hmove
  rcases List.mem_append.mp hmove with hrecord | hstarting
  · obtain ⟨⟨shardId, inflight⟩, hentry, rfl⟩ := List.mem_map.mp hrecord
    exact hlimited.distinct shardId inflight (AList.mem_lookup_iff.mpr hentry)
  · exact (hlimited.starting move hstarting).distinct

end

end Limited

/-- However the passes of a manager and the other parties take turns, at most
`MaxConcurrentMoves` moves are open at a time, no two for one shard, and none from a worker to
itself. -/
theorem openMoves_bounded {limit : Nat} {driver : Driver} (hvacant : driver.Vacant)
    {inputs : List DriverInput} (hlimit : ∀ input ∈ inputs, HasLimit limit input) :
    let next := Run.run Driver.step driver inputs
    next.inflightMoves.entries.length ≤ next.openMoves.length ∧
      next.openMoves.length ≤ limit ∧
      (next.openMoves.map RebalanceMove.shardId).Nodup ∧
      ∀ move ∈ next.openMoves, move.sourceWorkerId ≠ move.targetWorkerId := by
  intro next
  have hlimited : Limited limit next := (Limited.of_vacant limit hvacant).run hlimit
  refine ⟨?_, hlimited.openMoves_length, hlimited.openMoves_nodup, hlimited.openMoves_distinct⟩
  rw [Driver.openMoves, List.length_append, List.length_map]
  exact Nat.le_add_right _ _

theorem openMoves_bounded_drainedShard :
    let next := Run.run Driver.step newDriver (drainedShard ++ moveStarted)
    next.openMoves.length ≤ 2 ∧ next.inflightMoves.entries.length = 1 := by
  have hlimit : ∀ input ∈ drainedShard ++ moveStarted, HasLimit 2 input := by
    simp [drainedShard, ledShard, moveStarted, commandInput, HasLimit, defaultRebalanceConfig]
  exact ⟨(openMoves_bounded ⟨rfl, rfl, rfl⟩ hlimit).2.1, by decide +kernel⟩

end Vectron.Placement
