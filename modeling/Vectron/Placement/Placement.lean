import Vectron.Foundation.ExchangeSort
import Vectron.Placement.Types

/-! # Choosing replicas

The pure parts of `fsm.go` and `health.go` that placement uses: the replication
factor, eligibility of a worker, the order of the workers by load and the choice
of replicas across failure domains.
-/

namespace Vectron.Placement

open Foundation

def defaultReplicationFactor : Nat := 3
def minReplicationFactor : Nat := 1
def maxReplicationFactor : Nat := 5

/-- `WorkerTimeout`, 30 seconds. -/
def workerTimeout : Int := 30 * 1000000000

/-! ## The replication factor -/

/-- The characters `strings.TrimSpace` removes. -/
def isSpace (c : Char) : Bool :=
  c.val ∈ [0x09, 0x0a, 0x0b, 0x0c, 0x0d, 0x20, 0x85, 0xa0, 0x1680, 0x2028, 0x2029, 0x202f,
    0x205f, 0x3000] || (0x2000 ≤ c.val && c.val ≤ 0x200a)

def trimSpace (chars : List Char) : List Char :=
  ((chars.dropWhile isSpace).reverse.dropWhile isSpace).reverse

/-- The value of a non-empty string of decimal digits. -/
def digitsValue (chars : List Char) : Option Nat :=
  if chars ≠ [] ∧ chars.all Char.isDigit then
    some (chars.foldl (fun value c => 10 * value + (c.toNat - '0'.toNat)) 0)
  else none

/-- `strconv.Atoi` for a 64-bit `int`; `none` is its error. -/
def atoi (chars : List Char) : Option Int :=
  let parsed : Option Int :=
    match chars with
    | '-' :: digits => (digitsValue digits).map fun value => -(value : Int)
    | '+' :: digits => (digitsValue digits).map fun value => (value : Int)
    | digits => (digitsValue digits).map fun value => (value : Int)
  parsed.filter fun value => -(2 ^ 63) ≤ value ∧ value < 2 ^ 63

/-- `ReplicationFactor`: the configured replication factor, clamped. -/
def replicationFactor (cfg : Config) : Nat :=
  let val := trimSpace cfg.replicationFactorVar.toList
  if val = [] then defaultReplicationFactor
  else
    match atoi val with
    | none => defaultReplicationFactor
    | some n =>
        if n < minReplicationFactor then minReplicationFactor
        else if n > maxReplicationFactor then maxReplicationFactor
        else n.toNat

theorem replicationFactor_bounds (cfg : Config) :
    minReplicationFactor ≤ replicationFactor cfg ∧
      replicationFactor cfg ≤ maxReplicationFactor := by
  have hmin : minReplicationFactor = 1 := rfl
  have hdefault : defaultReplicationFactor = 3 := rfl
  have hmax : maxReplicationFactor = 5 := rfl
  simp only [replicationFactor]
  split
  · omega
  · split
    next => omega
    next n _ =>
      by_cases hlow : n < minReplicationFactor
      · rw [if_pos hlow]
        omega
      · by_cases hhigh : n > maxReplicationFactor
        · rw [if_neg hlow, if_pos hhigh]
          omega
        · rw [if_neg hlow, if_neg hhigh]
          omega

/-! ## Load order -/

/-- `math.Min`. -/
def mathMin (x y : Float) : Float :=
  if x == -1 / 0 || y == -1 / 0 then -1 / 0
  else if x.isNaN || y.isNaN then 0 / 0
  else if x == 0 && x == y then (if 1 / x < 0 then x else y)
  else if x < y then x
  else y

/-- `calculateLoadScore`: a composite load score, lower is better. -/
def calculateLoadScore (worker : WorkerInfo) : Float :=
  let normalizedQueries := mathMin (worker.queriesPerSecond / 1000.0) 1.0
  let normalizedShards := mathMin (Float.ofInt worker.activeShards.toInt / 100.0) 1.0
  worker.cpuUsagePercent * 0.3 + worker.memoryUsagePercent * 0.3 +
    worker.diskUsagePercent * 0.15 + normalizedQueries * 0.15 * 100 +
    normalizedShards * 0.1 * 100

/-- `isWorkerEligibleForPlacement`, with the clock reading of its `time.Since`. -/
def isWorkerEligibleForPlacement (now : Time) (worker : WorkerInfo) : Bool :=
  if worker.state ≠ .ready then false
  else if worker.role = "search_only" then false
  else now - worker.lastHeartbeat < workerTimeout

theorem role_ne_of_eligible {now : Time} {worker : WorkerInfo}
    (heligible : isWorkerEligibleForPlacement now worker = true) :
    worker.role ≠ "search_only" := by
  intro hrole
  simp [isWorkerEligibleForPlacement, hrole] at heligible

/-- The local type `workerLoad` of `getWorkersSortedByLoad`. -/
structure WorkerLoad where
  id : UInt64
  loadRatio : Float
  rawLoad : Float
  capacity : Int64
deriving DecidableEq

def workerLoad (id : UInt64) (worker : WorkerInfo) : WorkerLoad :=
  let rawLoad := calculateLoadScore worker
  let capacity := Float.ofInt worker.totalCapacity.toInt
  let capacity := if capacity < 100 then 100 else capacity
  { id := id
    loadRatio := rawLoad / capacity
    rawLoad := rawLoad
    capacity := worker.totalCapacity }

def WorkerLoad.lt (left right : WorkerLoad) : Bool :=
  left.loadRatio < right.loadRatio

/-- The entries `getWorkersSortedByLoad` collects before it sorts them. -/
def workerLoads (env : Env) (fsm : Fsm) : List WorkerLoad :=
  ((env.order .sortEligible).range fsm.workers).filterMap fun (id, worker) =>
    if isWorkerEligibleForPlacement (env.clock (.sortEligible id)) worker then
      some (workerLoad id worker)
    else none

/-- `getWorkersSortedByLoad`: the eligible workers, least loaded first. The
source also sums the capacities of the eligible workers, which nothing reads. -/
def getWorkersSortedByLoad (env : Env) (fsm : Fsm) : List UInt64 :=
  (exchangeSort WorkerLoad.lt (workerLoads env fsm)).map WorkerLoad.id

/-! ## Failure domains -/

/-- The locals of `selectReplicasWithFailureDomain`. -/
structure Selection where
  selected : List UInt64 := []
  usedZones : List String := []
  usedRacks : List String := []

def zoneKey (worker : WorkerInfo) : String :=
  worker.region ++ "/" ++ worker.zone

def rackKey (worker : WorkerInfo) : String :=
  worker.region ++ "/" ++ worker.zone ++ "/" ++ worker.rack

section Passes

variable (workers : GoMap UInt64 WorkerInfo) (replicationFactor : Nat)

/-- First pass: workers from different zones. Once enough are selected, the
`break` of the source leaves the selection as it is. -/
def zonePass (selection : Selection) (workerId : UInt64) : Selection :=
  if replicationFactor ≤ selection.selected.length then selection
  else
    match workers.lookup workerId with
    | none => selection
    | some worker =>
        if zoneKey worker ∈ selection.usedZones then selection
        else
          { selected := selection.selected ++ [workerId]
            usedZones := zoneKey worker :: selection.usedZones
            usedRacks := rackKey worker :: selection.usedRacks }

/-- Second pass: different racks within used zones. -/
def rackPass (selection : Selection) (workerId : UInt64) : Selection :=
  if replicationFactor ≤ selection.selected.length then selection
  else if workerId ∈ selection.selected then selection
  else
    match workers.lookup workerId with
    | none => selection
    | some worker =>
        if rackKey worker ∈ selection.usedRacks then selection
        else
          { selection with
            selected := selection.selected ++ [workerId]
            usedRacks := rackKey worker :: selection.usedRacks }

/-- Third pass: fill with the remaining workers. -/
def fillPass (selection : Selection) (workerId : UInt64) : Selection :=
  if replicationFactor ≤ selection.selected.length then selection
  else if workerId ∈ selection.selected then selection
  else { selection with selected := selection.selected ++ [workerId] }

/-- `selectReplicasWithFailureDomain`, over the workers of the state. -/
def selectReplicasWithFailureDomain (sortedWorkerIds : List UInt64) : List UInt64 :=
  if replicationFactor ≤ 1 then
    match sortedWorkerIds with
    | [] => []
    | first :: _ => [first]
  else
    let zones := sortedWorkerIds.foldl (zonePass workers replicationFactor) {}
    let racks := sortedWorkerIds.foldl (rackPass workers replicationFactor) zones
    let filled := sortedWorkerIds.foldl (fillPass replicationFactor) racks
    filled.selected

end Passes

end Vectron.Placement
