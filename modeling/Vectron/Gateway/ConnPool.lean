import Vectron.Foundation.MapEdit
import Vectron.Foundation.Reader
import Vectron.Foundation.Run

/-! # Connections to workers

`WorkerConnPool` in `apigateway/cmd/apigateway/main.go`: one connection for each address, and
counts of connections that limit how many are opened. The maps of connections and of clients are
written together and are one map here, as are the shards. Connections change their states by
themselves, but only the pool closes them.
-/

namespace Vectron.Gateway

open Foundation

/-! ## Circuit breakers -/

inductive CircuitState where
  | closed
  | «open»
  | halfOpen
deriving DecidableEq

structure CircuitBreaker where
  failures : Nat
  lastFailure : Int
  state : CircuitState

namespace CircuitBreaker

/-- `defaultCircuitBreakerThreshold` -/
def threshold : Nat := 5

/-- `defaultCircuitBreakerTimeout`, in milliseconds -/
def timeout : Int := 30000

def new : CircuitBreaker := ⟨0, 0, .closed⟩

def recordSuccess (cb : CircuitBreaker) : CircuitBreaker :=
  { cb with
    failures := 0
    state := if cb.state = .halfOpen then .closed else cb.state }

def recordFailure (cb : CircuitBreaker) (now : Int) : CircuitBreaker where
  failures := cb.failures + 1
  lastFailure := now
  state := if cb.state = .halfOpen ∨ threshold ≤ cb.failures + 1 then .open else cb.state

def allowRequest (cb : CircuitBreaker) (now : Int) : Bool × CircuitBreaker :=
  match cb.state with
  | .closed | .halfOpen => (true, cb)
  | .open =>
      if timeout < now - cb.lastFailure then (true, { cb with state := .halfOpen }) else (false, cb)

end CircuitBreaker

/-! ## The pool -/

/-- `connectivity.State`. -/
inductive ConnState where
  | idle
  | connecting
  | ready
  | transientFailure
  | shutdown
deriving DecidableEq

def ConnState.healthy (state : ConnState) : Bool :=
  state ≠ .shutdown && state ≠ .transientFailure

/-- `maxConnsPerWorker` and `maxTotalConns`, which the constructors make positive. -/
structure PoolLimits where
  maxConnsPerWorker : Int
  maxTotalConns : Int
  perWorker_pos : 0 < maxConnsPerWorker
  total_pos : 0 < maxTotalConns

structure WorkerConnPool where
  conns : GoMap Bytes ConnState
  connCount : GoMap Bytes Int
  circuitBreakers : GoMap Bytes CircuitBreaker
  totalConns : Int

/-- The states of a connection, while it is not closed, at the reads of the slow path. -/
structure SlowReads where
  total : ConnState
  perWorker : ConnState
  doubleCheck : ConnState

inductive PoolOp where
  /-- `dials` says that a dial succeeds -/
  | getClient (addr : Bytes) (now : Int) (reads : SlowReads) (dials : Bool)
  | closeAll
  /-- a connection that is not closed changes its state -/
  | change (addr : Bytes) (state : ConnState)

inductive GetClientError where
  /-- "circuit breaker open for worker %s" -/
  | circuitOpen
  /-- "max total connections reached (%d)" -/
  | maxTotal
  /-- "failed to dial worker %s: %w" -/
  | dial
deriving DecidableEq

namespace WorkerConnPool

variable (limits : PoolLimits)

def new : WorkerConnPool := ⟨∅, ∅, ∅, 0⟩

def count (pool : WorkerConnPool) (addr : Bytes) : Int := (pool.connCount.lookup addr).getD 0

/-- The stored connection can be used. -/
def usable (pool : WorkerConnPool) (addr : Bytes) : Bool :=
  ((pool.conns.lookup addr).map ConnState.healthy).getD false

def breaker (pool : WorkerConnPool) (addr : Bytes) : CircuitBreaker :=
  (pool.circuitBreakers.lookup addr).getD .new

def setBreaker (pool : WorkerConnPool) (addr : Bytes) (cb : CircuitBreaker) : WorkerConnPool :=
  { pool with circuitBreakers := pool.circuitBreakers.insert addr cb }

/-- Close the stored connection and count it out. It stays in the map. -/
def close (pool : WorkerConnPool) (addr : Bytes) : WorkerConnPool :=
  if addr ∈ pool.conns then
    { pool with
      conns := pool.conns.insert addr .shutdown
      connCount := pool.connCount.insert addr (pool.count addr - 1)
      totalConns := pool.totalConns - 1 }
  else pool

/-- Store a new connection and count it in. -/
def add (pool : WorkerConnPool) (addr : Bytes) : WorkerConnPool :=
  { pool with
    conns := pool.conns.insert addr .idle
    connCount := pool.connCount.insert addr (pool.count addr + 1)
    totalConns := pool.totalConns + 1 }

/-- A connection that is not closed changes its state. -/
def change (pool : WorkerConnPool) (addr : Bytes) (state : ConnState) : WorkerConnPool :=
  match pool.conns.lookup addr with
  | none | some .shutdown => pool
  | some _ =>
      if state = .shutdown then pool else { pool with conns := pool.conns.insert addr state }

/-- The double check and the new connection. -/
def replace (pool : WorkerConnPool) (addr : Bytes) (now : Int) (state : ConnState) (dials : Bool) :
    WorkerConnPool × Except GetClientError Unit :=
  let pool := pool.change addr state
  if pool.usable addr then (pool, .ok ())
  else
    let pool := pool.close addr
    if dials then ((pool.add addr).setBreaker addr (pool.breaker addr).recordSuccess, .ok ())
    else (pool.setBreaker addr ((pool.breaker addr).recordFailure now), .error .dial)

/-- The slow path. -/
def redial (pool : WorkerConnPool) (addr : Bytes) (now : Int) (reads : SlowReads) (dials : Bool) :
    WorkerConnPool × Except GetClientError Unit :=
  if limits.maxTotalConns ≤ pool.totalConns then
    let pool := pool.change addr reads.total
    (pool, if pool.usable addr then .ok () else .error .maxTotal)
  else
    let pool := pool.change addr reads.perWorker
    if limits.maxConnsPerWorker ≤ pool.count addr then
      if pool.usable addr then (pool, .ok ())
      else (pool.close addr).replace addr now reads.doubleCheck dials
    else pool.replace addr now reads.doubleCheck dials

def getClient (pool : WorkerConnPool) (addr : Bytes) (now : Int) (reads : SlowReads)
    (dials : Bool) : WorkerConnPool × Except GetClientError Unit :=
  let (allowed, cb) := (pool.breaker addr).allowRequest now
  let pool := pool.setBreaker addr cb
  if !allowed then (pool, .error .circuitOpen)
  else if pool.usable addr then (pool.setBreaker addr cb.recordSuccess, .ok ())
  else pool.redial limits addr now reads dials

def closeAll : WorkerConnPool := new

def step (pool : WorkerConnPool) : PoolOp → WorkerConnPool
  | .getClient addr now reads dials => (pool.getClient limits addr now reads dials).1
  | .closeAll => closeAll
  | .change addr state => pool.change addr state

/-- One for a connection that is not closed. -/
def openWeight (state : ConnState) : Int := if state = .shutdown then 0 else 1

/-- The number of open connections in the pool. -/
def openConns (pool : WorkerConnPool) : Int := GoMap.total openWeight pool.conns

/-- The sum of the counts of all addresses. -/
def counted (pool : WorkerConnPool) : Int := GoMap.total (fun count => count) pool.connCount

/-- The counts are those of the open connections, and none is negative. -/
structure Accounted (pool : WorkerConnPool) : Prop where
  total : pool.totalConns = pool.counted
  counted : pool.counted = pool.openConns
  total_nonneg : 0 ≤ pool.totalConns
  count_nonneg : ∀ addr, 0 ≤ pool.count addr

/-- The call goes on to replace a connection that is closed already, or one that fails while there
are as many connections as the worker may have. -/
def Miscounts (pool : WorkerConnPool) : PoolOp → Prop
  | .getClient addr now reads _ =>
      ((pool.breaker addr).allowRequest now).1 = true ∧ pool.usable addr = false ∧
        pool.totalConns < limits.maxTotalConns ∧
          (pool.conns.lookup addr = some .shutdown ∨
            limits.maxConnsPerWorker ≤ pool.count addr ∧
              (pool.change addr reads.perWorker).usable addr = false)
  | .closeAll | .change _ _ => False

variable {limits} {pool : WorkerConnPool} {addr : Bytes}

/-- Each address counts its connection if that is open. -/
structure Exact (pool : WorkerConnPool) : Prop where
  total : pool.totalConns = pool.counted
  counted : pool.counted = pool.openConns
  count : ∀ addr, pool.count addr = ((pool.conns.lookup addr).map openWeight).getD 0

theorem openWeight_nonneg (state : ConnState) : 0 ≤ openWeight state := by
  unfold openWeight
  split <;> omega

theorem openConns_nonneg (pool : WorkerConnPool) : 0 ≤ pool.openConns := by
  apply List.sum_nonneg
  intro weight hweight
  obtain ⟨entry, -, rfl⟩ := List.mem_map.mp hweight
  exact openWeight_nonneg _

theorem Exact.accounted (hexact : pool.Exact) : pool.Accounted where
  total := hexact.total
  counted := hexact.counted
  total_nonneg := by
    rw [hexact.total, hexact.counted]
    exact openConns_nonneg pool
  count_nonneg addr := by
    rw [hexact.count]
    cases pool.conns.lookup addr with
    | none => exact le_refl _
    | some state => exact openWeight_nonneg state

theorem Exact.new : WorkerConnPool.new.Exact := ⟨rfl, rfl, fun _ => rfl⟩

theorem Exact.setBreaker (hexact : pool.Exact) (addr : Bytes) (cb : CircuitBreaker) :
    (pool.setBreaker addr cb).Exact := ⟨hexact.total, hexact.counted, hexact.count⟩

/-! ## One connection more or less -/

theorem counted_close (hstored : addr ∈ pool.conns) :
    (pool.close addr).counted = pool.counted - 1 := by
  rw [counted, close, if_pos hstored, GoMap.total_insert, counted, count]
  cases pool.connCount.lookup addr <;> simp <;> omega

theorem openConns_close {state : ConnState} (hstate : pool.conns.lookup addr = some state) :
    (pool.close addr).openConns = pool.openConns - openWeight state := by
  have hstored := GoMap.mem_of_lookup_eq_some hstate
  rw [openConns, close, if_pos hstored, GoMap.total_insert, hstate, openConns]
  simp [openWeight]

section

variable (hstored : addr ∈ pool.conns)

include hstored

theorem count_close (other : Bytes) :
    (pool.close addr).count other = if other = addr then pool.count addr - 1 else pool.count other := by
  rw [count, close, if_pos hstored]
  simp only [GoMap.lookup_insert_if]
  split <;> rfl

theorem lookup_close (other : Bytes) :
    (pool.close addr).conns.lookup other =
      if other = addr then some .shutdown else pool.conns.lookup other := by
  rw [close, if_pos hstored]
  exact GoMap.lookup_insert_if _ _ _ _

theorem totalConns_close :
    (pool.close addr).totalConns = pool.totalConns - 1 := by
  rw [close, if_pos hstored]

end

section

variable (pool : WorkerConnPool)

theorem counted_add (addr : Bytes) :
    (pool.add addr).counted = pool.counted + 1 := by
  rw [counted, add, GoMap.total_insert, counted, count]
  cases pool.connCount.lookup addr with
  | none => simp
  | some _ =>
      simp
      omega

theorem openConns_add (addr : Bytes) :
    (pool.add addr).openConns =
      pool.openConns + 1 - ((pool.conns.lookup addr).map openWeight).getD 0 := by
  rw [openConns, add, GoMap.total_insert, openConns]
  rfl

theorem count_add (addr other : Bytes) :
    (pool.add addr).count other =
      if other = addr then pool.count addr + 1 else pool.count other := by
  rw [count, add]
  simp only [GoMap.lookup_insert_if]
  split <;> rfl

theorem lookup_add (addr other : Bytes) :
    (pool.add addr).conns.lookup other =
      if other = addr then some .idle else pool.conns.lookup other :=
  GoMap.lookup_insert_if _ _ _ _

end

/-- An open connection that is closed is counted out. -/
theorem Exact.close (hexact : pool.Exact) {state : ConnState}
    (hstate : pool.conns.lookup addr = some state) (hopen : state ≠ .shutdown) :
    (pool.close addr).Exact := by
  have hstored := GoMap.mem_of_lookup_eq_some hstate
  have hweight : openWeight state = 1 := if_neg hopen
  refine ⟨?_, ?_, ?_⟩
  · rw [totalConns_close hstored, counted_close hstored, hexact.total]
  · rw [counted_close hstored, openConns_close hstate, hexact.counted, hweight]
  · intro other
    rw [count_close hstored, lookup_close hstored]
    split
    next hsame =>
      rw [hexact.count, hstate]
      simp [openWeight, hopen]
    next => exact hexact.count other

/-- A new connection takes the place of one that is closed. -/
theorem Exact.add (hexact : pool.Exact)
    (hclosed : ((pool.conns.lookup addr).map openWeight).getD 0 = 0) : (pool.add addr).Exact := by
  refine ⟨?_, ?_, ?_⟩
  · rw [counted_add, ← hexact.total]
    rfl
  · rw [counted_add, openConns_add, hclosed, hexact.counted]
    omega
  · intro other
    rw [count_add, lookup_add]
    split
    next hsame =>
      rw [hexact.count, hclosed]
      rfl
    next => exact hexact.count other

theorem Exact.change (hexact : pool.Exact) (addr : Bytes) (state : ConnState) :
    (pool.change addr state).Exact := by
  unfold WorkerConnPool.change
  split
  · exact hexact
  · exact hexact
  next before hclosed hlookup =>
    split
    · exact hexact
    next hopen =>
      have hbefore : before ≠ .shutdown := by
        rintro rfl
        exact hclosed rfl
      refine ⟨hexact.total, ?_, ?_⟩
      · rw [openConns, GoMap.total_insert, hlookup]
        simp only [Option.map_some, Option.getD_some, openWeight, if_neg hopen, if_neg hbefore]
        exact hexact.counted.trans (by rw [openConns]; omega)
      · intro other
        refine (hexact.count other).trans ?_
        simp only [GoMap.lookup_insert_if]
        split
        next hsame =>
          subst hsame
          simp [hlookup, openWeight, hopen, hbefore]
        next => rfl

/-! ## Replacing a connection -/

theorem lookup_close_self {state : ConnState} (hstate : pool.conns.lookup addr = some state) :
    (pool.close addr).conns.lookup addr = some .shutdown := by
  rw [lookup_close (GoMap.mem_of_lookup_eq_some hstate), if_pos rfl]

/-- A closed connection stays closed. -/
theorem change_closed (hclosed : pool.conns.lookup addr = some .shutdown) (state : ConnState) :
    pool.change addr state = pool := by
  rw [change, hclosed]

theorem change_closed_iff (pool : WorkerConnPool) (addr : Bytes) (state : ConnState) :
    (pool.change addr state).conns.lookup addr = some .shutdown ↔
      pool.conns.lookup addr = some .shutdown := by
  unfold change
  split
  · rfl
  · rfl
  next before hbefore hlookup =>
    split
    · rfl
    next hopen =>
      have hkept : before ≠ .shutdown := fun heq => hbefore heq
      simp [hlookup, hopen, hkept]

theorem change_setBreaker (pool : WorkerConnPool) (addr other : Bytes) (cb : CircuitBreaker)
    (state : ConnState) :
    (pool.setBreaker other cb).change addr state = (pool.change addr state).setBreaker other cb := by
  have hsame : (pool.setBreaker other cb).conns = pool.conns := rfl
  rw [change, change, hsame]
  split
  · rfl
  · rfl
  · split <;> rfl

@[simp] theorem count_change (pool : WorkerConnPool) (addr other : Bytes) (state : ConnState) :
    (pool.change addr state).count other = pool.count other := by
  unfold change
  split
  · rfl
  · rfl
  · split <;> rfl

theorem usable_closed (hclosed : pool.conns.lookup addr = some .shutdown) :
    pool.usable addr = false := by
  rw [usable, hclosed]
  rfl

section

variable (hexact : pool.Exact)

include hexact

/-- A connection that is not closed, or none at all, is replaced one for one. -/
theorem Exact.replace (hopen : pool.conns.lookup addr ≠ some .shutdown) (now : Int)
    (state : ConnState) (dials : Bool) :
    (pool.replace addr now state dials).1.Exact := by
  have hchanged := hexact.change addr state
  have hkept := mt (change_closed_iff pool addr state).mp hopen
  have hshut : ((pool.change addr state).close addr).Exact ∧
      ((((pool.change addr state).close addr).conns.lookup addr).map openWeight).getD 0 = 0 := by
    cases hlookup : (pool.change addr state).conns.lookup addr with
    | none =>
        have hmissing : addr ∉ (pool.change addr state).conns :=
          AList.lookup_eq_none.mp hlookup
        rw [WorkerConnPool.close, if_neg hmissing, hlookup]
        exact ⟨hchanged, rfl⟩
    | some before =>
        have hbefore : before ≠ .shutdown := by
          rintro rfl
          exact hkept hlookup
        rw [lookup_close_self hlookup]
        exact ⟨hchanged.close hlookup hbefore, rfl⟩
  unfold WorkerConnPool.replace
  simp only
  split
  · exact hchanged
  · split
    · exact (hshut.1.add hshut.2).setBreaker _ _
    · exact hshut.1.setBreaker _ _

/-- Replacing a closed connection counts it out a second time. -/
theorem Exact.replace_closed (hclosed : pool.conns.lookup addr = some .shutdown) (now : Int)
    (state : ConnState) (dials : Bool) : ¬(pool.replace addr now state dials).1.Accounted := by
  have hstored := GoMap.mem_of_lookup_eq_some hclosed
  have hcount : pool.count addr = 0 := by
    rw [hexact.count, hclosed]
    rfl
  rw [WorkerConnPool.replace, change_closed hclosed, usable_closed hclosed]
  cases dials with
  | false =>
      intro haccounted
      have hneg : (pool.close addr).count addr = -1 := by
        rw [count_close hstored, if_pos rfl, hcount]
        rfl
      have hnonneg : 0 ≤ (pool.close addr).count addr := haccounted.count_nonneg addr
      omega
  | true =>
      intro haccounted
      have hcounted : ((pool.close addr).add addr).counted = pool.openConns := by
        rw [counted_add, counted_close hstored, hexact.counted]
        omega
      have hopened : ((pool.close addr).add addr).openConns = pool.openConns + 1 := by
        rw [openConns_add, lookup_close_self hclosed, openConns_close hclosed]
        simp [openWeight]
      have hequal : ((pool.close addr).add addr).counted = ((pool.close addr).add addr).openConns :=
        haccounted.counted
      omega

/-! ## A whole call -/

/-- Where the worker has as many connections as it may, its connection is open. -/
theorem Exact.open_of_limit (hlimit : limits.maxConnsPerWorker ≤ pool.count addr) :
    ∃ state, pool.conns.lookup addr = some state ∧ state ≠ .shutdown := by
  have hpos := limits.perWorker_pos
  rw [hexact.count] at hlimit
  cases hlookup : pool.conns.lookup addr with
  | none =>
      rw [hlookup] at hlimit
      exact absurd (hpos.trans_le hlimit) (lt_irrefl 0)
  | some state =>
      refine ⟨state, rfl, ?_⟩
      rintro rfl
      rw [hlookup] at hlimit
      exact absurd (hpos.trans_le hlimit) (lt_irrefl 0)

theorem Exact.redial {reads : SlowReads} {now : Int} {dials : Bool}
    (hkept : ¬(pool.totalConns < limits.maxTotalConns ∧ (pool.conns.lookup addr = some .shutdown ∨
      limits.maxConnsPerWorker ≤ pool.count addr ∧ (pool.change addr reads.perWorker).usable addr =
      false))) :
    (pool.redial limits addr now reads dials).1.Exact := by
  unfold WorkerConnPool.redial
  split
  · exact hexact.change _ _
  next htotal =>
    have hopen : pool.conns.lookup addr ≠ some .shutdown := fun hclosed =>
      hkept ⟨not_le.mp htotal, .inl hclosed⟩
    simp only [count_change]
    split
    next hlimit =>
      split
      · exact hexact.change _ _
      next hunusable =>
        exact absurd ⟨not_le.mp htotal, .inr ⟨hlimit, Bool.eq_false_iff.mpr hunusable⟩⟩ hkept
    next =>
      exact (hexact.change _ _).replace (mt (change_closed_iff _ _ _).mp hopen) _ _ _

theorem Exact.redial_miscounts {reads : SlowReads} (now : Int) (dials : Bool)
    (htotal : pool.totalConns < limits.maxTotalConns)
    (hcase : pool.conns.lookup addr = some .shutdown ∨ limits.maxConnsPerWorker ≤ pool.count addr ∧
      (pool.change addr reads.perWorker).usable addr = false) :
    ¬(pool.redial limits addr now reads dials).1.Accounted := by
  rw [WorkerConnPool.redial, if_neg (not_le.mpr htotal)]
  simp only [count_change]
  obtain hclosed | ⟨hlimit, hunusable⟩ := hcase
  · have hbelow : ¬limits.maxConnsPerWorker ≤ pool.count addr := by
      intro hlimit
      obtain ⟨state, hstate, hopen⟩ := hexact.open_of_limit hlimit
      rw [hclosed] at hstate
      exact hopen (Option.some.inj hstate).symm
    rw [if_neg hbelow, change_closed hclosed]
    exact hexact.replace_closed hclosed _ _ _
  · obtain ⟨state, hstate, hopen⟩ := hexact.open_of_limit hlimit
    have hchanged := hexact.change addr reads.perWorker
    have hchangedLimit : limits.maxConnsPerWorker ≤ (pool.change addr reads.perWorker).count addr := by
      rw [count_change]
      exact hlimit
    obtain ⟨after, hafter, hafterOpen⟩ := hchanged.open_of_limit hchangedLimit
    rw [if_pos hlimit, hunusable]
    exact (hchanged.close hafter hafterOpen).replace_closed (lookup_close_self hafter) _ _ _

/-- What a step that does not miscount keeps. -/
theorem Exact.step {op : PoolOp} (hkept : ¬pool.Miscounts limits op) :
    (pool.step limits op).Exact := by
  cases op with
  | closeAll => exact Exact.new
  | change addr state => exact hexact.change addr state
  | getClient addr now reads dials =>
      have hset := hexact.setBreaker addr ((pool.breaker addr).allowRequest now).2
      simp only [WorkerConnPool.step, WorkerConnPool.getClient]
      split
      · exact hset
      next hallowed =>
        split
        · exact hset.setBreaker _ _
        next hunusable =>
          refine hset.redial ?_
          rw [change_setBreaker]
          rintro ⟨htotal, hcase⟩
          exact hkept ⟨by simpa using hallowed, Bool.eq_false_iff.mpr hunusable, htotal, hcase⟩

/-- And what it does otherwise. -/
theorem Exact.step_miscounts {op : PoolOp} (hmis : pool.Miscounts limits op) :
    ¬(pool.step limits op).Accounted := by
  cases op with
  | closeAll => exact absurd hmis id
  | change addr state => exact absurd hmis id
  | getClient addr now reads dials =>
      obtain ⟨hallowed, hunusable, htotal, hcase⟩ := hmis
      have hset := hexact.setBreaker addr ((pool.breaker addr).allowRequest now).2
      have hslow : pool.step limits (.getClient addr now reads dials) =
          ((pool.setBreaker addr ((pool.breaker addr).allowRequest now).2).redial limits addr now
            reads dials).1 := by
        have hsame : (pool.setBreaker addr ((pool.breaker addr).allowRequest now).2).usable addr =
            pool.usable addr := rfl
        simp only [WorkerConnPool.step, WorkerConnPool.getClient, hallowed, hsame, hunusable]
        rfl
      rw [hslow]
      refine hset.redial_miscounts now dials htotal ?_
      rw [change_setBreaker]
      exact hcase

end

variable (limits)

/-- The counts stay right in a run exactly if no step of it miscounts. -/
theorem accounted_iff_not_miscounts (ops : List PoolOp) :
    Run.Meets (step limits) (fun pool op => (pool.step limits op).Accounted) new ops ↔
      Run.Meets (step limits) (fun pool op => ¬pool.Miscounts limits op) new ops := by
  have hrun : ∀ pool : WorkerConnPool, pool.Exact →
      (Run.Meets (step limits) (fun pool op => (pool.step limits op).Accounted) pool ops ↔
        Run.Meets (step limits) (fun pool op => ¬pool.Miscounts limits op) pool ops) := by
    induction ops with
    | nil => exact fun _ _ => Iff.rfl
    | cons op ops ih =>
        intro pool hexact
        constructor
        · intro hmeets
          have hkept : ¬pool.Miscounts limits op := fun hmis =>
            hexact.step_miscounts hmis hmeets.1
          exact ⟨hkept, (ih _ (hexact.step hkept)).mp hmeets.2⟩
        · intro hmeets
          have hafter := hexact.step hmeets.1
          exact ⟨hafter.accounted, (ih _ hafter).mpr hmeets.2⟩
  exact hrun new Exact.new

/-- The limits of `NewWorkerConnPool`. -/
def defaultLimits : PoolLimits := ⟨10, 1000, by decide, by decide⟩

/-- Reads that find a connection as it is. -/
def idleReads : SlowReads := ⟨.idle, .idle, .idle⟩

/-- A connection fails, and two dials to replace it fail. -/
def failing : List PoolOp :=
  [.getClient [] 0 idleReads true, .change [] .transientFailure,
    .getClient [] 0 ⟨.transientFailure, .transientFailure, .transientFailure⟩ false,
    .getClient [] 0 idleReads false]

theorem failing_dials_uncount : ¬(Run.run (step defaultLimits) new failing).Accounted := by
  intro haccounted
  have hcount : (Run.run (step defaultLimits) new failing).count [] = -1 := by decide
  have hnonneg := haccounted.count_nonneg []
  omega

end WorkerConnPool

end Vectron.Gateway
