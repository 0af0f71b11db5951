import Vectron.Segment.Calls

/-! # The threads of the segment manager

Any number of callers, the index worker and the compaction loop share the manager. They are
interleaved here at every point where one of them can wait or see what another has done: the
lock of the manager, the channel of the index worker, the reads of the primary storage and the
change of the segment. What a reader of the lock does while it has it is one step, so the lock
is only ever seen free or held by a writer.

This is the manager with its queue, which is the default. What a seal does to the directories
is left to the model of the shard: here it replaces the segment.
-/

namespace Vectron.Segment

open Foundation
open Worker (Vector idOf)

/-! ## Data -/

/-- The configuration of a manager with an index worker. `initIndexer` and `indexerLoop` use
their defaults for sizes that are not positive. -/
structure Indexer extends Config where
  /-- `VECTRON_SEGMENT_INDEX_BATCH_SIZE` -/
  batchSize : Nat
  queue_pos : 0 < queueSize
  batch_pos : 0 < batchSize

/-- What stands in `indexerCh`. -/
inductive QueueItem where
  | operation (op : IndexOp)
  /-- the barrier of a caller, who waits for its `done` -/
  | barrier (caller : Nat)
  deriving DecidableEq

def QueueItem.op? : QueueItem → Option IndexOp
  | .operation op => some op
  | .barrier _ => none

/-- `applyIndexOp` after it has looked at the mutable segment. -/
structure Work where
  op : IndexOp
  /-- the ids still to be read from the storage -/
  rest : List Bytes
  /-- what was read -/
  docs : List (Bytes × Vector)
  deriving DecidableEq

inductive Request where
  | add (id : Bytes) (vec : Vector)
  | addBatch (docs : List (Bytes × Vector))
  | delete (id : Bytes)
  | search
  /-- `runCompaction`, from the loop -/
  | compact
  deriving DecidableEq

/-- What the lock is taken for. -/
inductive Errand where
  /-- `triggerSeal` -/
  | triggerSeal
  /-- the tombstone of a deletion -/
  | bury (id : Bytes)
  | compact
  deriving DecidableEq

/-- Where a caller is. -/
inductive Stage where
  | idle
  /-- waits to read which segment is the mutable one -/
  | reading (request : Request)
  /-- `ReserveAdd` and `ReserveAddBatch` -/
  | reserving (op : IndexOp)
  /-- at the `select` of `enqueueIndexOp` or `enqueueIndexBatch` -/
  | enqueueing (op : IndexOp)
  /-- the channel is full: waits to look at the mutable segment in `applyIndexOp` -/
  | applying (op : IndexOp)
  | working (work : Work)
  /-- `ShouldSeal` of the segment that was read -/
  | checking (segID : SegmentID)
  /-- waits for the lock -/
  | locking (errand : Errand)
  /-- has the lock and sends the barrier -/
  | sending
  /-- has the lock and waits for the answer to the barrier -/
  | awaiting
  /-- has the lock and an answer -/
  | sealing
  /-- has the lock -/
  | compacting
  deriving DecidableEq

/-- Where the index worker is. -/
inductive Task where
  /-- at the `select` of `indexerLoop` -/
  | selecting
  /-- in `flush`, before the next operation; with the caller to answer afterwards -/
  | flushing (answer : Option Nat)
  | working (answer : Option Nat) (work : Work)
  deriving DecidableEq

structure Threads where
  primary : GoMap Bytes Vector
  mutable : MutableSegment
  /-- the documents of the segments that were sealed -/
  sealed : List Bytes
  /-- the counter of `GenerateSegmentID` -/
  seq : Nat
  /-- what was issued so far: the vector that was added, or none for a deletion -/
  issued : List (Bytes × Option Vector)
  /-- the writer that has the lock -/
  lock : Option Nat
  channel : List QueueItem
  /-- the operations the index worker has taken -/
  buffer : List IndexOp
  worker : Task
  calls : GoMap Nat Stage

/-- A choice of the scheduler. -/
inductive Move where
  /-- somebody makes a call -/
  | begin_ (caller : Nat) (request : Request)
  /-- a caller goes on -/
  | proceed (caller : Nat) (now : Nat)
  /-- the index worker receives from the channel -/
  | receive
  /-- the timer of the index worker runs out -/
  | timer
  /-- the index worker goes on with a flush -/
  | work

/-! ## Applying an operation -/

namespace Work

def start (op : IndexOp) : Work :=
  ⟨op, match op.opType with
    | .add => op.targets
    | .delete => [], []⟩

/-- One document is read from the storage. -/
def load (primary : GoMap Bytes Vector) (work : Work) (id : Bytes) (rest : List Bytes) : Work :=
  { work with
    rest := rest
    docs := work.docs ++ loadVectors primary [id] }

/-- The change of the segment. One that was sealed in between is not the mutable one any
more. -/
def finish (c : Config) (work : Work) (m : MutableSegment) : MutableSegment :=
  if m.id ≠ work.op.segID then m
  else
    match work.op.opType with
    | .add => (m.applyAddBatch c work.docs).1
    | .delete => m.delete work.op.id

end Work

/-! ## Steps -/

/-- The operation of a request that was told the mutable segment. -/
def Request.op? (segID : SegmentID) : Request → Option IndexOp
  | .add id _ => some ⟨.add, id, [], segID⟩
  | .addBatch docs => some ⟨.add, [], docs.map Prod.fst, segID⟩
  | .delete id => some ⟨.delete, id, [], segID⟩
  | .search => none
  | .compact => none

/-- The first stage of a call. -/
def Request.enter : Request → Stage
  | .compact => .locking .compact
  | request => .reading request

/-- The stage of a call that was told the mutable segment. -/
def Request.read (segID : SegmentID) (request : Request) : Stage :=
  match request.op? segID with
  | some op =>
      match op.opType with
      | .add => .reserving op
      | .delete => .enqueueing op
  | none => .idle

/-- What a call goes on with when its operation is handed over. -/
def IndexOp.after (op : IndexOp) : Stage :=
  match op.opType with
  | .add => .checking op.segID
  | .delete => .locking (.bury op.id)

namespace Threads

/-- A new manager. -/
def start (c : Config) (now : Nat) : Threads where
  primary := ∅
  mutable := newMutableSegment c ⟨now, 1⟩ now
  sealed := []
  seq := 1
  issued := []
  lock := none
  channel := []
  buffer := []
  worker := .selecting
  calls := ∅

def stage (s : Threads) (caller : Nat) : Stage := (s.calls.lookup caller).getD .idle

def setStage (s : Threads) (caller : Nat) (stage : Stage) : Threads :=
  { s with calls := s.calls.insert caller stage }

/-- The operations that wait, in the order they are applied. -/
def queue (s : Threads) : List IndexOp := s.buffer ++ s.channel.filterMap QueueItem.op?

/-- A call begins: the storage is written first. -/
def begin_ (c : Config) (s : Threads) (caller : Nat) (request : Request) : Option Threads :=
  match s.stage caller with
  | .idle =>
      match request with
      | .add id vec =>
          if Shard.accepts c vec then
            some { s.setStage caller (.reading request) with
              primary := Shard.storeAll c s.primary [(id, vec)]
              issued := s.issued ++ [(id, some vec)] }
          else none
      | .addBatch docs =>
          if Shard.acceptsBatch c docs then
            some { s.setStage caller (.reading request) with
              primary := Shard.storeAll c s.primary docs
              issued := s.issued ++ docs.map fun doc => (doc.1, some doc.2) }
          else none
      | .delete id =>
          some { s.setStage caller (.reading request) with
            primary := s.primary.erase id
            issued := s.issued ++ [(id, none)] }
      | request => some (s.setStage caller request.enter)
  | _ => none

/-- The lock is free: what its new holder does first. The tombstone of a deletion is put into
the map at once. -/
def acquire (c : Config) (s : Threads) (caller now : Nat) : Errand → Threads
  | .triggerSeal =>
      if s.mutable.shouldSeal c now then { s.setStage caller .sending with lock := some caller }
      else s.setStage caller .idle
  | .bury _ => s.setStage caller .idle
  | .compact => { s.setStage caller .compacting with lock := some caller }

/-- A caller goes on, unless it has to wait. -/
def proceed (c : Config) (s : Threads) (caller now : Nat) : Option Threads :=
  match s.stage caller with
  | .idle => none
  | .reading request =>
      if s.lock.isNone then some (s.setStage caller (request.read s.mutable.id)) else none
  | .reserving op =>
      -- a segment that was sealed in between refuses the addition
      if s.mutable.id = op.segID then some (s.setStage caller (.enqueueing op))
      else some (s.setStage caller .idle)
  | .enqueueing op =>
      if s.channel.length < c.queueSize then
        some { s.setStage caller op.after with channel := s.channel ++ [.operation op] }
      else some (s.setStage caller (.applying op))
  | .applying op =>
      if s.lock.isNone then
        if s.mutable.id = op.segID then some (s.setStage caller (.working (.start op)))
        else some (s.setStage caller op.after)
      else none
  | .working work =>
      match work.rest with
      | id :: rest => some (s.setStage caller (.working (work.load s.primary id rest)))
      | [] => some { s.setStage caller work.op.after with mutable := work.finish c s.mutable }
  | .checking segID =>
      -- a segment that was sealed in between was full
      if s.mutable.id ≠ segID ∨ s.mutable.shouldSeal c now = true then
        some (s.setStage caller (.locking .triggerSeal))
      else some (s.setStage caller .idle)
  | .locking errand => if s.lock.isNone then some (s.acquire c caller now errand) else none
  | .sending =>
      if s.channel.length < c.queueSize then
        some { s.setStage caller .awaiting with channel := s.channel ++ [.barrier caller] }
      else none
  | .awaiting => none
  | .sealing =>
      some { s.setStage caller .idle with
        mutable := newMutableSegment c ⟨now, s.seq + 1⟩ now
        sealed := s.sealed ++ s.mutable.activeIDs
        seq := s.seq + 1
        lock := none }
  | .compacting => some { s.setStage caller .idle with lock := none }

/-- The index worker receives. -/
def receive (ix : Indexer) (s : Threads) : Option Threads :=
  match s.worker, s.channel with
  | .selecting, .operation op :: rest =>
      some { s with
        channel := rest
        buffer := s.buffer ++ [op]
        worker := if ix.batchSize ≤ s.buffer.length + 1 then .flushing none else .selecting }
  | .selecting, .barrier caller :: rest =>
      some { s with
        channel := rest
        worker := .flushing (some caller) }
  | _, _ => none

def timer (s : Threads) : Option Threads :=
  match s.worker, s.buffer with
  | .selecting, _ :: _ => some { s with worker := .flushing none }
  | _, _ => none

/-- The barrier is answered. -/
def close (s : Threads) : Option Nat → Threads
  | some caller => { s.setStage caller .sealing with worker := .selecting }
  | none => { s with worker := .selecting }

/-- The index worker goes on with a flush. -/
def work (c : Config) (s : Threads) : Option Threads :=
  match s.worker with
  | .selecting => none
  | .flushing answer =>
      match s.buffer with
      | [] => some (s.close answer)
      | op :: rest =>
          if s.lock.isNone then
            if s.mutable.id = op.segID then
              some { s with buffer := rest, worker := .working answer (.start op) }
            else some { s with buffer := rest }
          else none
  | .working answer work =>
      match work.rest with
      | id :: rest => some { s with worker := .working answer (work.load s.primary id rest) }
      | [] =>
          some { s with
            mutable := work.finish c s.mutable
            worker := .flushing answer }

/-- A move, unless it has to wait. -/
def attempt (ix : Indexer) (s : Threads) : Move → Option Threads
  | .begin_ caller request => s.begin_ ix.toConfig caller request
  | .proceed caller now => s.proceed ix.toConfig caller now
  | .receive => s.receive ix
  | .timer => s.timer
  | .work => s.work ix.toConfig

/-- A move that has to wait changes nothing. -/
def step (ix : Indexer) (s : Threads) (move : Move) : Threads := (s.attempt ix move).getD s

end Threads

/-! ## What a move can do -/

namespace Threads

@[simp] theorem stage_setStage (s : Threads) (caller : Nat) (stage : Stage) (other : Nat) :
    (s.setStage caller stage).stage other = if other = caller then stage else s.stage other := by
  unfold setStage Threads.stage
  simp only
  rw [GoMap.lookup_insert_if]
  split
  next => rfl
  next => rfl

/-- The changes of the state, each with what must be the case before it. -/
inductive Change (ix : Indexer) (s : Threads) : Move → Threads → Prop where
  | store {caller : Nat} {request : Request} (docs : List (Bytes × Vector))
      (hidle : s.stage caller = .idle)
      (hdims : ∀ doc ∈ docs, doc.2.length = ix.index.dim)
      (hop : ∃ op, request.op? s.mutable.id = some op ∧ op.opType = .add ∧
        ∀ id ∈ docs.map Prod.fst, id ∈ op.targets) :
      Change ix s (.begin_ caller request)
        { s.setStage caller (.reading request) with
          primary := Shard.storeAll ix.toConfig s.primary docs
          issued := s.issued ++ docs.map fun doc => (doc.1, some doc.2) }
  | delete {caller : Nat} (id : Bytes) (hidle : s.stage caller = .idle) :
      Change ix s (.begin_ caller (.delete id))
        { s.setStage caller (.reading (.delete id)) with
          primary := s.primary.erase id
          issued := s.issued ++ [(id, none)] }
  | enter {caller : Nat} {request : Request} (hidle : s.stage caller = .idle)
      (hop : request.op? s.mutable.id = none) :
      Change ix s (.begin_ caller request) (s.setStage caller request.enter)
  | read {caller now : Nat} (request : Request) (hstage : s.stage caller = .reading request)
      (hlock : s.lock = none) :
      Change ix s (.proceed caller now) (s.setStage caller (request.read s.mutable.id))
  | reserve {caller now : Nat} (op : IndexOp) (hstage : s.stage caller = .reserving op)
      (hseg : s.mutable.id = op.segID) :
      Change ix s (.proceed caller now) (s.setStage caller (.enqueueing op))
  | refuse {caller now : Nat} (op : IndexOp) (hstage : s.stage caller = .reserving op)
      (hseg : s.mutable.id ≠ op.segID) :
      Change ix s (.proceed caller now) (s.setStage caller .idle)
  | enqueue {caller now : Nat} (op : IndexOp) (hstage : s.stage caller = .enqueueing op)
      (hroom : s.channel.length < ix.queueSize) :
      Change ix s (.proceed caller now)
        { s.setStage caller op.after with channel := s.channel ++ [.operation op] }
  | full {caller now : Nat} (op : IndexOp) (hstage : s.stage caller = .enqueueing op)
      (hroom : ¬ s.channel.length < ix.queueSize) :
      Change ix s (.proceed caller now) (s.setStage caller (.applying op))
  | startCall {caller now : Nat} (op : IndexOp) (hstage : s.stage caller = .applying op)
      (hlock : s.lock = none) (hseg : s.mutable.id = op.segID) :
      Change ix s (.proceed caller now) (s.setStage caller (.working (.start op)))
  | dropCall {caller now : Nat} (op : IndexOp) (hstage : s.stage caller = .applying op)
      (hlock : s.lock = none) (hseg : s.mutable.id ≠ op.segID) :
      Change ix s (.proceed caller now) (s.setStage caller op.after)
  | loadCall {caller now : Nat} (work : Work) (id : Bytes) (rest : List Bytes)
      (hstage : s.stage caller = .working work) (hrest : work.rest = id :: rest) :
      Change ix s (.proceed caller now)
        (s.setStage caller (.working (work.load s.primary id rest)))
  | finishCall {caller now : Nat} (work : Work) (hstage : s.stage caller = .working work)
      (hrest : work.rest = []) :
      Change ix s (.proceed caller now)
        { s.setStage caller work.op.after with mutable := work.finish ix.toConfig s.mutable }
  | check {caller now : Nat} (segID : SegmentID) (hstage : s.stage caller = .checking segID)
      (stage : Stage) (hnext : stage = .locking .triggerSeal ∨ stage = .idle) :
      Change ix s (.proceed caller now) (s.setStage caller stage)
  | lockSeal {caller now : Nat} (hstage : s.stage caller = .locking .triggerSeal)
      (hlock : s.lock = none) (hfull : s.mutable.shouldSeal ix.toConfig now = true) :
      Change ix s (.proceed caller now) { s.setStage caller .sending with lock := some caller }
  | pass {caller now : Nat} (errand : Errand) (hstage : s.stage caller = .locking errand)
      (hlock : s.lock = none) :
      Change ix s (.proceed caller now) (s.setStage caller .idle)
  | lockCompact {caller now : Nat} (hstage : s.stage caller = .locking .compact)
      (hlock : s.lock = none) :
      Change ix s (.proceed caller now) { s.setStage caller .compacting with lock := some caller }
  | send {caller now : Nat} (hstage : s.stage caller = .sending)
      (hroom : s.channel.length < ix.queueSize) :
      Change ix s (.proceed caller now)
        { s.setStage caller .awaiting with channel := s.channel ++ [.barrier caller] }
  | replace {caller now : Nat} (hstage : s.stage caller = .sealing) :
      Change ix s (.proceed caller now)
        { s.setStage caller .idle with
          mutable := newMutableSegment ix.toConfig ⟨now, s.seq + 1⟩ now
          sealed := s.sealed ++ s.mutable.activeIDs
          seq := s.seq + 1
          lock := none }
  | release {caller now : Nat} (hstage : s.stage caller = .compacting) :
      Change ix s (.proceed caller now) { s.setStage caller .idle with lock := none }
  | receive (op : IndexOp) (rest : List QueueItem) (hworker : s.worker = .selecting)
      (hchannel : s.channel = .operation op :: rest) (task : Task)
      (htask : task = .flushing none ∨ task = .selecting) :
      Change ix s .receive { s with channel := rest, buffer := s.buffer ++ [op], worker := task }
  | receiveBarrier (caller : Nat) (rest : List QueueItem) (hworker : s.worker = .selecting)
      (hchannel : s.channel = .barrier caller :: rest) :
      Change ix s .receive { s with channel := rest, worker := .flushing (some caller) }
  | timer (hworker : s.worker = .selecting) (hbuffer : s.buffer ≠ []) :
      Change ix s .timer { s with worker := .flushing none }
  | close (answer : Option Nat) (hworker : s.worker = .flushing answer) (hbuffer : s.buffer = []) :
      Change ix s .work (s.close answer)
  | startWork (answer : Option Nat) (op : IndexOp) (rest : List IndexOp)
      (hworker : s.worker = .flushing answer) (hbuffer : s.buffer = op :: rest)
      (hlock : s.lock = none) (hseg : s.mutable.id = op.segID) :
      Change ix s .work { s with buffer := rest, worker := .working answer (.start op) }
  | dropWork (answer : Option Nat) (op : IndexOp) (rest : List IndexOp)
      (hworker : s.worker = .flushing answer) (hbuffer : s.buffer = op :: rest)
      (hlock : s.lock = none) (hseg : s.mutable.id ≠ op.segID) :
      Change ix s .work { s with buffer := rest }
  | loadWork (answer : Option Nat) (work : Work) (id : Bytes) (rest : List Bytes)
      (hworker : s.worker = .working answer work) (hrest : work.rest = id :: rest) :
      Change ix s .work { s with worker := .working answer (work.load s.primary id rest) }
  | finishWork (answer : Option Nat) (work : Work) (hworker : s.worker = .working answer work)
      (hrest : work.rest = []) :
      Change ix s .work
        { s with mutable := work.finish ix.toConfig s.mutable, worker := .flushing answer }

variable {ix : Indexer} {s s' : Threads} {caller now : Nat}

theorem change_of_begin {request : Request}
    (hbegin : s.begin_ ix.toConfig caller request = some s') :
    Change ix s (.begin_ caller request) s' := by
  unfold begin_ at hbegin
  split at hbegin
  next hidle =>
    cases request with
    | add id vec =>
        simp only at hbegin
        split at hbegin
        next haccepts =>
          obtain rfl := Option.some.inj hbegin
          refine .store [(id, vec)] hidle
            (@Event.dims_of_accepted ix.toConfig (.store id vec) haccepts) ⟨_, rfl, rfl, ?_⟩
          simp [IndexOp.targets]
        next => cases hbegin
    | addBatch docs =>
        simp only at hbegin
        split at hbegin
        next haccepts =>
          obtain rfl := Option.some.inj hbegin
          refine .store docs hidle
            (@Event.dims_of_accepted ix.toConfig (.storeBatch docs) haccepts) ⟨_, rfl, rfl, ?_⟩
          intro id hid
          have hne : (docs.map Prod.fst).length ≠ 0 := (List.length_pos_of_mem hid).ne'
          unfold IndexOp.targets
          simp only [hne, if_false]
          exact hid
        next => cases hbegin
    | delete id =>
        obtain rfl := Option.some.inj hbegin
        exact .delete id hidle
    | search
    | compact =>
        obtain rfl := Option.some.inj hbegin
        exact .enter hidle rfl
  next => cases hbegin

theorem change_of_acquire {errand : Errand} (hstage : s.stage caller = .locking errand)
    (hlock : s.lock = none) :
    Change ix s (.proceed caller now) (s.acquire ix.toConfig caller now errand) := by
  cases errand with
  | triggerSeal =>
      unfold acquire
      simp only
      split
      next hfull => exact .lockSeal hstage hlock hfull
      next => exact .pass _ hstage hlock
  | bury id => exact .pass _ hstage hlock
  | compact => exact .lockCompact hstage hlock

theorem change_of_proceed (hproceed : s.proceed ix.toConfig caller now = some s') :
    Change ix s (.proceed caller now) s' := by
  unfold proceed at hproceed
  split at hproceed
  next => cases hproceed
  next request hstage =>
    split at hproceed
    next hlock =>
      obtain rfl := Option.some.inj hproceed
      exact .read request hstage (Option.isNone_iff_eq_none.mp hlock)
    next => cases hproceed
  next op hstage =>
    split at hproceed
    next hseg =>
      obtain rfl := Option.some.inj hproceed
      exact .reserve op hstage hseg
    next hseg =>
      obtain rfl := Option.some.inj hproceed
      exact .refuse op hstage hseg
  next op hstage =>
    split at hproceed
    next hroom =>
      obtain rfl := Option.some.inj hproceed
      exact .enqueue op hstage hroom
    next hroom =>
      obtain rfl := Option.some.inj hproceed
      exact .full op hstage hroom
  next op hstage =>
    split at hproceed
    next hlock =>
      have hfree := Option.isNone_iff_eq_none.mp hlock
      split at hproceed
      next hseg =>
        obtain rfl := Option.some.inj hproceed
        exact .startCall op hstage hfree hseg
      next hseg =>
        obtain rfl := Option.some.inj hproceed
        exact .dropCall op hstage hfree hseg
    next => cases hproceed
  next work hstage =>
    split at hproceed
    next id rest hrest =>
      obtain rfl := Option.some.inj hproceed
      exact .loadCall work id rest hstage hrest
    next hrest =>
      obtain rfl := Option.some.inj hproceed
      exact .finishCall work hstage hrest
  next segID hstage =>
    split at hproceed
    next =>
      obtain rfl := Option.some.inj hproceed
      exact .check segID hstage _ (Or.inl rfl)
    next =>
      obtain rfl := Option.some.inj hproceed
      exact .check segID hstage _ (Or.inr rfl)
  next errand hstage =>
    split at hproceed
    next hlock =>
      obtain rfl := Option.some.inj hproceed
      exact change_of_acquire hstage (Option.isNone_iff_eq_none.mp hlock)
    next => cases hproceed
  next hstage =>
    split at hproceed
    next hroom =>
      obtain rfl := Option.some.inj hproceed
      exact .send hstage hroom
    next => cases hproceed
  next => cases hproceed
  next hstage =>
    obtain rfl := Option.some.inj hproceed
    exact .replace hstage
  next hstage =>
    obtain rfl := Option.some.inj hproceed
    exact .release hstage

theorem change_of_receive (hreceive : s.receive ix = some s') : Change ix s .receive s' := by
  unfold receive at hreceive
  split at hreceive
  next op rest hworker hchannel =>
    obtain rfl := Option.some.inj hreceive
    refine .receive op rest hworker hchannel _ ?_
    split
    next => exact Or.inl rfl
    next => exact Or.inr rfl
  next caller rest hworker hchannel =>
    obtain rfl := Option.some.inj hreceive
    exact .receiveBarrier caller rest hworker hchannel
  next => cases hreceive

theorem change_of_timer (htimer : s.timer = some s') : Change ix s .timer s' := by
  unfold timer at htimer
  split at htimer
  next op rest hworker hbuffer =>
    obtain rfl := Option.some.inj htimer
    refine .timer hworker ?_
    rw [hbuffer]
    exact List.cons_ne_nil _ _
  next => cases htimer

theorem change_of_work (hwork : s.work ix.toConfig = some s') : Change ix s .work s' := by
  unfold work at hwork
  split at hwork
  next => cases hwork
  next answer hworker =>
    split at hwork
    next hbuffer =>
      obtain rfl := Option.some.inj hwork
      exact .close answer hworker hbuffer
    next op rest hbuffer =>
      split at hwork
      next hlock =>
        have hfree := Option.isNone_iff_eq_none.mp hlock
        split at hwork
        next hseg =>
          obtain rfl := Option.some.inj hwork
          exact .startWork answer op rest hworker hbuffer hfree hseg
        next hseg =>
          obtain rfl := Option.some.inj hwork
          exact .dropWork answer op rest hworker hbuffer hfree hseg
      next => cases hwork
  next answer work hworker =>
    split at hwork
    next id rest hrest =>
      obtain rfl := Option.some.inj hwork
      exact .loadWork answer work id rest hworker hrest
    next hrest =>
      obtain rfl := Option.some.inj hwork
      exact .finishWork answer work hworker hrest

/-- A move that does not have to wait makes one of the changes. -/
theorem change_of_attempt {move : Move} (hattempt : s.attempt ix move = some s') :
    Change ix s move s' := by
  cases move with
  | begin_ caller request => exact change_of_begin hattempt
  | proceed caller now => exact change_of_proceed hattempt
  | receive => exact change_of_receive hattempt
  | timer => exact change_of_timer hattempt
  | work => exact change_of_work hattempt

/-- What every change keeps, a step keeps. -/
theorem step_invariant {invariant : Threads → Prop} {move : Move} (hinvariant : invariant s)
    (hchange : ∀ s', Change ix s move s' → invariant s') : invariant (s.step ix move) := by
  unfold step
  cases hattempt : s.attempt ix move with
  | none => exact hinvariant
  | some s' => exact hchange s' (change_of_attempt hattempt)

end Threads

end Vectron.Segment
