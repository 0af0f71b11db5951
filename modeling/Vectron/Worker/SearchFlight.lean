import Vectron.Foundation.Run
import Vectron.Worker.Index

/-! # Searches that share their work

A worker answers a search from its cache, from an equal search that is under way, or by
searching its shards. The cache and the table of searches under way are addressed by a
hash of the request. A linearizable search reads a shard through Raft: `SyncRead` answers
from a state that has every write of the shard that was acknowledged before it was called.
Any other read answers from some state of the replica.

The model follows the searches of one worker and the writes to its shards in any
interleaving. The state a shard is read in is the number of its writes that are in it, and
a response carries the states it was computed from, which the code does not.
-/

namespace Vectron.Worker

open Foundation

/-- What `Search` reads of a `worker.SearchRequest`. The number of results is the 32 bits
that carry it. -/
structure SearchRequest where
  shardID : UInt64
  k : UInt32
  linearizable : Bool
  bruteForce : Bool
  collection : Bytes
  vector : Vector
  deriving Repr, DecidableEq

/-- A number of writes for each shard. -/
abbrev Marks := GoMap UInt64 Nat

def mark (marks : Marks) (shard : UInt64) : Nat := (marks.lookup shard).getD 0

/-- The ids of a `worker.SearchResponse`, and the shards and states they come from. -/
structure SearchResponse where
  ids : List Bytes
  basis : List (UInt64 × Nat)
  deriving Repr, DecidableEq

/-- How far the search of one shard is. -/
inductive ShardRead where
  | idle
  /-- `SearchShard` was called when this many writes were acknowledged -/
  | reading (floor : Nat)
  | done (floor : Nat) (response : SearchResponse)
  | failed
  deriving Repr, DecidableEq

structure Target where
  shard : UInt64
  read : ShardRead
  deriving Repr, DecidableEq

inductive SearchPhase where
  /-- past the cache, before `waitForInFlight` -/
  | arrived
  /-- in `searchCore`, at first without its shards -/
  | leading (targets : Option (List Target))
  /-- waiting for the search of another call -/
  | joined (flight : Nat)
  /-- with a response, or with an error -/
  | returned (response : Option SearchResponse)
  deriving Repr, DecidableEq

/-- A call of `Search` that has passed its checks. -/
structure SearchCall where
  request : SearchRequest
  key : UInt64
  /-- the writes acknowledged when it arrived -/
  ackedBefore : Marks
  phase : SearchPhase

structure SearchWorker where
  committed : Marks
  acked : Marks
  calls : List SearchCall
  /-- `inFlightShards`: the call that leads the search of a key -/
  inFlight : GoMap UInt64 Nat
  /-- `searchCache`: responses and the times they expire at -/
  cache : GoMap UInt64 (SearchResponse × Nat)

/-- What the worker is started with. -/
structure SearchSettings where
  /-- `maphash` with the seed of the process -/
  hash : Bytes → UInt64
  /-- `searchCacheQuantBits` -/
  quantBits : Int
  /-- the cache has a positive size -/
  cacheEnabled : Bool
  ttl : Nat
  /-- the best results of several shards -/
  merge : SearchRequest → List (List Bytes) → List Bytes

inductive SearchStep where
  | commitWrite (shard : UInt64)
  | ackWrite (shard : UInt64) (index : Nat)
  | search (request : SearchRequest) (now : Nat)
  | enter (call : Nat)
  /-- `searchCore` asks the shard manager for the shards of a broadcast -/
  | listShards (call : Nat) (shards : List UInt64)
  | beginRead (call place now : Nat)
  /-- `SearchShard` answers from the state with this many writes; `evicted` makes room in
  the cache -/
  | endRead (call place version : Nat) (ids : List Bytes) (now : Nat) (evicted : Option UInt64)
  | failRead (call place : Nat)
  | finish (call now : Nat) (evicted : Option UInt64)
  /-- a call that waits gets the response -/
  | collect (call : Nat)
  /-- its context is done -/
  | abandon (call : Nat)
  deriving Repr, DecidableEq

/-! ## Keys -/

variable (s : SearchSettings)

namespace SearchRequest

/-- The bits of a component that enter the key. -/
def keyBits (bits : UInt32) : UInt32 :=
  if 0 < s.quantBits ∧ s.quantBits < 23 then
    let mantissaMask : UInt32 := (1 <<< UInt32.ofNat (23 - s.quantBits).toNat) - 1
    (bits &&& 0xFF800000) ||| (bits &&& 0x007FFFFF &&& ~~~mantissaMask)
  else bits

def flags (request : SearchRequest) : UInt8 :=
  (if request.linearizable then 1 else 0) ||| (if request.bruteForce then 2 else 0)

/-- `binary.LittleEndian.PutUint64`. -/
def putUint64 (word : UInt64) : Bytes :=
  putUint32 word.toUInt32 ++ putUint32 (word >>> 32).toUInt32

/-- `computeSearchKeyWithShard`. -/
def computeSearchKeyWithShard (request : SearchRequest) (shardID : UInt64) : UInt64 :=
  s.hash (putUint64 shardID ++ (putUint32 request.k ++ (request.flags ::
    (request.collection ++ request.vector.flatMap fun bits => putUint32 (keyBits s bits)))))

/-- `computeSearchKey`. -/
def computeSearchKey (request : SearchRequest) : UInt64 :=
  request.computeSearchKeyWithShard s request.shardID

def cacheable (request : SearchRequest) : Bool := !request.linearizable && !request.bruteForce

end SearchRequest

/-! ## Cache -/

/-- `searchCache.Get`, with the test of its callers that the response is not empty. An
entry that has expired is taken out the next time. -/
def cacheGet (cache : GoMap UInt64 (SearchResponse × Nat)) (key : UInt64) (now : Nat) :
    Option SearchResponse :=
  match cache.lookup key with
  | none => none
  | some (response, expiresAt) =>
      if expiresAt ≤ now ∨ response.ids = [] then none else some response

/-- `searchCache.Set`, with the tests of its callers. A new key takes the place of another
one when its part of the cache is full. -/
def cacheSet (request : SearchRequest) (cache : GoMap UInt64 (SearchResponse × Nat))
    (key : UInt64) (response : SearchResponse) (now : Nat) (evicted : Option UInt64) :
    GoMap UInt64 (SearchResponse × Nat) :=
  if s.cacheEnabled && request.cacheable && !response.ids.isEmpty then
    if key ∈ cache then cache.insert key (response, now + s.ttl)
    else (evicted.elim cache cache.erase).insert key (response, now + s.ttl)
  else cache

/-! ## Steps -/

namespace Target

def settled (target : Target) : Bool :=
  match target.read with
  | .done _ _ => true
  | .failed => true
  | _ => false

def response? (target : Target) : Option SearchResponse :=
  match target.read with
  | .done _ response => some response
  | _ => none

end Target

/-- The outcome of `searchCore`. The error of the only shard is that of the search; of
several shards those that fail are left out. -/
def searchOutcome (request : SearchRequest) (targets : List Target) : Option SearchResponse :=
  match targets with
  | [target] => target.response?
  | _ =>
      let responses := targets.filterMap Target.response?
      some ⟨s.merge request (responses.map SearchResponse.ids),
        responses.flatMap SearchResponse.basis⟩

namespace SearchWorker

def setCall (worker : SearchWorker) (i : Nat) (call : SearchCall) (phase : SearchPhase) :
    SearchWorker :=
  { worker with calls := worker.calls.set i { call with phase := phase } }

/-- A call of `Search` up to the table of searches under way. -/
def search (worker : SearchWorker) (request : SearchRequest) (now : Nat) : SearchWorker :=
  let key := request.computeSearchKey s
  let cached := if request.cacheable then cacheGet worker.cache key now else none
  let phase := cached.elim SearchPhase.arrived fun response => .returned (some response)
  { worker with calls := worker.calls ++ [⟨request, key, worker.acked, phase⟩] }

/-- `waitForInFlight` up to the wait. -/
def enter (worker : SearchWorker) (i : Nat) (call : SearchCall) : SearchWorker :=
  match call.phase with
  | .arrived =>
      match worker.inFlight.lookup call.key with
      | some flight => worker.setCall i call (.joined flight)
      | none =>
          { worker.setCall i call (.leading none) with
            inFlight := worker.inFlight.insert call.key i }
  | _ => worker

/-- The first read of a shard, which may find it in the cache. -/
def beginRead (worker : SearchWorker) (i place now : Nat) (call : SearchCall)
    (targets : List Target) (target : Target) : SearchWorker :=
  match target.read with
  | .idle =>
      let cached :=
        if call.request.cacheable then
          cacheGet worker.cache (call.request.computeSearchKeyWithShard s target.shard) now
        else none
      let read := cached.elim
        (ShardRead.reading (if call.request.linearizable then mark worker.acked target.shard else 0))
        fun response => .done 0 response
      worker.setCall i call (.leading (some (targets.set place ⟨target.shard, read⟩)))
  | _ => worker

def endRead (worker : SearchWorker) (i place version : Nat) (ids : List Bytes) (now : Nat)
    (evicted : Option UInt64) (call : SearchCall) (targets : List Target) (target : Target) :
    SearchWorker :=
  match target.read with
  | .reading floor =>
      if floor ≤ version ∧ version ≤ mark worker.committed target.shard then
        let response : SearchResponse := ⟨ids, [(target.shard, version)]⟩
        { worker.setCall i call
            (.leading (some (targets.set place ⟨target.shard, .done floor response⟩))) with
          cache := cacheSet s call.request worker.cache
            (call.request.computeSearchKeyWithShard s target.shard) response now evicted }
      else worker
  | _ => worker

def failRead (worker : SearchWorker) (i place : Nat) (call : SearchCall) (targets : List Target)
    (target : Target) : SearchWorker :=
  match target.read with
  | .reading _ => worker.setCall i call (.leading (some (targets.set place ⟨target.shard, .failed⟩)))
  | _ => worker

/-- The end of a search that was not shared, with `finishInFlight`. -/
def finish (worker : SearchWorker) (i now : Nat) (evicted : Option UInt64) (call : SearchCall)
    (targets : List Target) : SearchWorker :=
  if targets.all Target.settled then
    let outcome := searchOutcome s call.request targets
    { worker.setCall i call (.returned outcome) with
      inFlight := worker.inFlight.erase call.key
      cache := outcome.elim worker.cache fun response =>
        cacheSet s call.request worker.cache call.key response now evicted }
  else worker

/-- A call that leads a search takes a step with one of its shards. -/
def withTarget (worker : SearchWorker) (i place : Nat)
    (next : SearchCall → List Target → Target → SearchWorker) : SearchWorker :=
  match worker.calls[i]? with
  | none => worker
  | some call =>
      match call.phase with
      | .leading (some targets) =>
          match targets[place]? with
          | none => worker
          | some target => next call targets target
      | _ => worker

def step (worker : SearchWorker) : SearchStep → SearchWorker
  | .commitWrite shard =>
      { worker with
        committed := worker.committed.insert shard (mark worker.committed shard + 1) }
  | .ackWrite shard index =>
      if index ≤ mark worker.committed shard then
        { worker with acked := worker.acked.insert shard (max (mark worker.acked shard) index) }
      else worker
  | .search request now => worker.search s request now
  | .enter i =>
      match worker.calls[i]? with
      | none => worker
      | some call => worker.enter i call
  | .listShards i shards =>
      match worker.calls[i]? with
      | none => worker
      | some call =>
          match call.phase with
          | .leading none =>
              let searched := if call.request.shardID = 0 then shards else [call.request.shardID]
              worker.setCall i call (.leading (some (searched.map fun shard => ⟨shard, .idle⟩)))
          | _ => worker
  | .beginRead i place now => worker.withTarget i place (worker.beginRead s i place now)
  | .endRead i place version ids now evicted =>
      worker.withTarget i place (worker.endRead s i place version ids now evicted)
  | .failRead i place => worker.withTarget i place (worker.failRead i place)
  | .finish i now evicted =>
      match worker.calls[i]? with
      | none => worker
      | some call =>
          match call.phase with
          | .leading (some targets) => worker.finish s i now evicted call targets
          | _ => worker
  | .collect i =>
      match worker.calls[i]? with
      | none => worker
      | some call =>
          match call.phase with
          | .joined flight =>
              match worker.calls[flight]? with
              | none => worker
              | some leader =>
                  match leader.phase with
                  | .returned outcome => worker.setCall i call (.returned outcome)
                  | _ => worker
          | _ => worker
  | .abandon i =>
      match worker.calls[i]? with
      | none => worker
      | some call =>
          match call.phase with
          | .joined _ => worker.setCall i call (.returned none)
          | _ => worker

/-- A worker without searches. -/
def start : SearchWorker := ⟨∅, ∅, [], ∅, ∅⟩

end SearchWorker

/-! ## What a linearizable search may return -/

/-- The states the response was computed from have these writes. -/
def SearchResponse.Includes (marks : Marks) (response : SearchResponse) : Prop :=
  ∀ read ∈ response.basis, mark marks read.1 ≤ read.2

/-- Every linearizable search that has returned a response has one that includes the
writes acknowledged before it arrived. -/
def NotFromThePast (worker : SearchWorker) : Prop :=
  ∀ call ∈ worker.calls, call.request.linearizable = true →
    ∀ response ∈ (match call.phase with | .returned response => response | _ => none),
      response.Includes call.ackedBefore

instance (worker : SearchWorker) : Decidable (NotFromThePast worker) := by
  delta NotFromThePast SearchResponse.Includes
  infer_instance

/-- The read of the shard had not begun, or no write of the shard was acknowledged between
its begin and the time of the marks. -/
def Target.Since (marks : Marks) (target : Target) : Prop :=
  match target.read with
  | .reading floor => mark marks target.shard ≤ floor
  | .done floor _ => mark marks target.shard ≤ floor
  | _ => True

instance (marks : Marks) (target : Target) : Decidable (target.Since marks) := by
  delta Target.Since
  cases target.read <;> infer_instance

/-- The call that a search is to join is linearizable and has not begun to read a shard
before a write that the search has to see was acknowledged. -/
def Joinable (marks : Marks) (leader : SearchCall) : Prop :=
  leader.request.linearizable = true ∧
    ∀ targets ∈ (match leader.phase with | .leading targets => targets | _ => none),
      ∀ target ∈ targets, target.Since marks

instance (marks : Marks) (leader : SearchCall) : Decidable (Joinable marks leader) := by
  delta Joinable
  infer_instance

/-- A linearizable search joins another one only if it is joinable. -/
def JoinsInTime (worker : SearchWorker) : SearchStep → Prop
  | .enter i =>
      ∀ call ∈ worker.calls[i]?, call.request.linearizable = true → call.phase = .arrived →
        ∀ flight ∈ worker.inFlight.lookup call.key, ∀ leader ∈ worker.calls[flight]?,
          Joinable call.ackedBefore leader
  | _ => True

instance (worker : SearchWorker) : ∀ step : SearchStep, Decidable (JoinsInTime worker step)
  | .enter i =>
      inferInstanceAs (Decidable (∀ call ∈ worker.calls[i]?, call.request.linearizable = true →
        call.phase = .arrived → ∀ flight ∈ worker.inFlight.lookup call.key,
          ∀ leader ∈ worker.calls[flight]?, Joinable call.ackedBefore leader))
  | .commitWrite _ => isTrue trivial
  | .ackWrite _ _ => isTrue trivial
  | .search _ _ => isTrue trivial
  | .listShards _ _ => isTrue trivial
  | .beginRead _ _ _ => isTrue trivial
  | .endRead _ _ _ _ _ _ => isTrue trivial
  | .failRead _ _ => isTrue trivial
  | .finish _ _ _ => isTrue trivial
  | .collect _ => isTrue trivial
  | .abandon _ => isTrue trivial

/-! ## The invariant -/

/-- A shard that was read in the state it was to be read in at least. -/
def Target.Sound (target : Target) : Prop :=
  ∀ floor response, target.read = .done floor response →
    ∀ read ∈ response.basis, read.1 = target.shard ∧ floor ≤ read.2

/-- A search that will have these writes in its response, or has. -/
def SearchPhase.Serves (marks : Marks) : SearchPhase → Prop
  | .arrived => False
  | .joined _ => False
  | .leading none => True
  | .leading (some targets) => ∀ target ∈ targets, target.Since marks ∧ target.Sound
  | .returned none => True
  | .returned (some response) => response.Includes marks

/-- The marks are not ahead of the others. -/
def Marks.Le (first second : Marks) : Prop := ∀ shard, mark first shard ≤ mark second shard

/-- A linearizable call is served, by its own search or by the one it has joined. -/
def Served (worker : SearchWorker) (call : SearchCall) : Prop :=
  call.phase = .arrived ∨ call.phase.Serves call.ackedBefore ∨
    ∃ flight leader, call.phase = .joined flight ∧ worker.calls[flight]? = some leader ∧
      leader.request.linearizable = true ∧ leader.phase.Serves call.ackedBefore

structure Flying (worker : SearchWorker) : Prop where
  bounded : ∀ call ∈ worker.calls, Marks.Le call.ackedBefore worker.acked
  served : ∀ call ∈ worker.calls, call.request.linearizable = true → Served worker call
  flights : ∀ key flight, worker.inFlight.lookup key = some flight →
    ∃ leader targets, worker.calls[flight]? = some leader ∧ leader.key = key ∧
      leader.phase = .leading targets

theorem flying_start : Flying SearchWorker.start where
  bounded := by simp [SearchWorker.start]
  served := by simp [SearchWorker.start]
  flights key flight hlookup := by
    rw [SearchWorker.start, AList.lookup_empty] at hlookup
    cases hlookup

theorem Flying.notFromThePast {worker : SearchWorker} (hflying : Flying worker) :
    NotFromThePast worker := by
  intro call hcall hlinear response hresponse
  cases hphase : call.phase with
  | returned outcome =>
      rw [hphase] at hresponse
      cases hresponse
      rcases hflying.served call hcall hlinear with harrived | hserves | ⟨_, _, hjoined, _⟩
      · rw [hphase] at harrived
        cases harrived
      · rw [hphase] at hserves
        exact hserves
      · rw [hphase] at hjoined
        cases hjoined
  | arrived
  | leading targets
  | joined flight =>
      rw [hphase] at hresponse
      cases hresponse

namespace Flying

variable {s : SearchSettings} {worker : SearchWorker}

section

variable (hflying : Flying worker) {i : Nat} {call : SearchCall} {phase : SearchPhase}
  (hcall : worker.calls[i]? = some call)
  (hleads : (∀ targets, call.phase ≠ .leading targets) ∨ ∃ targets, phase = .leading targets)
  (hcarries : call.request.linearizable = true → ∀ marks : Marks, Marks.Le marks worker.acked →
    call.phase.Serves marks → phase.Serves marks)
  (hserved : call.request.linearizable = true → ¬ call.phase.Serves call.ackedBefore →
    phase.Serves call.ackedBefore ∨ ∃ flight leader, phase = .joined flight ∧
      worker.calls[flight]? = some leader ∧ leader.request.linearizable = true ∧
        leader.phase.Serves call.ackedBefore)

include hflying hcall hcarries hserved

/-- A call goes from one phase to the next. -/
theorem setCall :
    (∀ other ∈ (worker.setCall i call phase).calls, Marks.Le other.ackedBefore worker.acked) ∧
      ∀ other ∈ (worker.setCall i call phase).calls, other.request.linearizable = true →
        Served (worker.setCall i call phase) other := by
  have hi : i < worker.calls.length := (List.getElem?_eq_some_iff.mp hcall).1
  have hmem := List.mem_of_getElem? hcall
  have hcases : ∀ {other : SearchCall}, other ∈ worker.calls.set i { call with phase := phase } →
      other = { call with phase := phase } ∨ other ∈ worker.calls := by
    intro other hother
    exact (List.mem_or_eq_of_mem_set hother).symm
  -- a leader serves afterwards whom it served before
  have hleads : ∀ {flight : Nat} {leader : SearchCall} {marks : Marks},
      worker.calls[flight]? = some leader → leader.request.linearizable = true →
      Marks.Le marks worker.acked → leader.phase.Serves marks →
      ∃ leader', (worker.setCall i call phase).calls[flight]? = some leader' ∧
        leader'.request.linearizable = true ∧ leader'.phase.Serves marks := by
    intro flight leader marks hleader hlinear hle hserves
    rw [SearchWorker.setCall]
    dsimp only
    rw [List.getElem?_set]
    by_cases heq : i = flight
    · subst heq
      rw [hcall] at hleader
      cases hleader
      rw [if_pos rfl, if_pos hi]
      exact ⟨_, rfl, hlinear, hcarries hlinear marks hle hserves⟩
    · rw [if_neg heq]
      exact ⟨leader, hleader, hlinear, hserves⟩
  constructor
  · intro other hother
    rcases hcases hother with rfl | hother
    · exact hflying.bounded call hmem
    · exact hflying.bounded other hother
  · intro other hother hlinear
    rcases hcases hother with rfl | hother
    · have hbound := hflying.bounded call hmem
      by_cases hserves : call.phase.Serves call.ackedBefore
      · exact Or.inr (Or.inl (hcarries hlinear _ hbound hserves))
      · rcases hserved hlinear hserves with hnow | ⟨flight, leader, rfl, hleader, hlinear', hleads'⟩
        · exact Or.inr (Or.inl hnow)
        · obtain ⟨leader', hleader', hlinear'', hserves'⟩ := hleads hleader hlinear' hbound hleads'
          exact Or.inr (Or.inr ⟨flight, leader', rfl, hleader', hlinear'', hserves'⟩)
    · rcases hflying.served other hother hlinear with harrived | hserves |
        ⟨flight, leader, hjoined, hleader, hlinear', hserves⟩
      · exact Or.inl harrived
      · exact Or.inr (Or.inl hserves)
      · obtain ⟨leader', hleader', hlinear'', hserves'⟩ :=
          hleads hleader hlinear' (hflying.bounded other hother) hserves
        exact Or.inr (Or.inr ⟨flight, leader', hjoined, hleader', hlinear'', hserves'⟩)

include hleads

/-- The same for a call that keeps its place in the table, or has none. -/
theorem move :
    Flying (worker.setCall i call phase) := by
  obtain ⟨hbounded, hserved'⟩ := hflying.setCall hcall hcarries hserved
  refine ⟨hbounded, hserved', ?_⟩
  intro key flight hlookup
  obtain ⟨leader, targets, hleader, hkey, hleading⟩ := hflying.flights key flight hlookup
  by_cases heq : i = flight
  · subst heq
    rw [hcall] at hleader
    cases hleader
    rcases hleads with hnot | ⟨targets', rfl⟩
    · exact absurd hleading (hnot targets)
    · refine ⟨{ call with phase := .leading targets' }, targets', ?_, hkey, rfl⟩
      rw [SearchWorker.setCall, List.getElem?_set_self (List.getElem?_eq_some_iff.mp hcall).1]
  · refine ⟨leader, targets, ?_, hkey, hleading⟩
    rw [SearchWorker.setCall, List.getElem?_set_ne heq]
    exact hleader

end

theorem withCache (hflying : Flying worker) (cache : GoMap UInt64 (SearchResponse × Nat)) :
    Flying { worker with cache := cache } :=
  ⟨hflying.bounded, hflying.served, hflying.flights⟩

/-- A search that goes on keeps whom it serves. -/
theorem lead (hflying : Flying worker) {i : Nat} {call : SearchCall}
    {before targets : Option (List Target)} (hcall : worker.calls[i]? = some call)
    (hphase : call.phase = .leading before)
    (hcarries : call.request.linearizable = true → ∀ marks : Marks, Marks.Le marks worker.acked →
      (SearchPhase.leading before).Serves marks → (SearchPhase.leading targets).Serves marks) :
    Flying (worker.setCall i call (.leading targets)) := by
  apply hflying.move hcall (Or.inr ⟨targets, rfl⟩)
  · rw [hphase]
    exact hcarries
  · intro hlinear hnot
    rcases hflying.served call (List.mem_of_getElem? hcall) hlinear with harrived | hserves |
      ⟨flight, leader, hjoined, _⟩
    · rw [hphase] at harrived
      cases harrived
    · exact absurd hserves hnot
    · rw [hphase] at hjoined
      cases hjoined

theorem mark_insert (marks : Marks) (shard other : UInt64) (n : Nat) :
    mark (marks.insert shard n) other = if other = shard then n else mark marks other := by
  rw [mark, mark, GoMap.lookup_insert_if]
  split
  next _ => rfl
  next _ => rfl

section

variable (hflying : Flying worker)

include hflying

theorem ackWrite (shard : UInt64) (index : Nat) :
    Flying (worker.step s (.ackWrite shard index)) := by
  rw [SearchWorker.step]
  split
  next _ =>
    refine ⟨?_, hflying.served, hflying.flights⟩
    intro call hcall other
    refine le_trans (hflying.bounded call hcall other) ?_
    dsimp only
    rw [mark_insert]
    split
    next heq =>
      rw [heq]
      exact Nat.le_max_left _ _
    next _ => exact le_refl _
  next _ => exact hflying

theorem search (request : SearchRequest) (now : Nat) :
    Flying (worker.search s request now) := by
  rw [SearchWorker.search]
  constructor
  · intro call hcall
    rcases List.mem_append.mp hcall with hcall | hcall
    · exact hflying.bounded call hcall
    · rw [List.mem_singleton.mp hcall]
      exact fun shard => le_refl _
  · intro call hcall hlinear
    rcases List.mem_append.mp hcall with hcall | hcall
    · rcases hflying.served call hcall hlinear with harrived | hserves |
        ⟨flight, leader, hjoined, hleader, hrest⟩
      · exact Or.inl harrived
      · exact Or.inr (Or.inl hserves)
      · refine Or.inr (Or.inr ⟨flight, leader, hjoined, ?_, hrest⟩)
        rw [List.getElem?_append_left (List.getElem?_eq_some_iff.mp hleader).1]
        exact hleader
    · left
      rw [List.mem_singleton.mp hcall] at hlinear ⊢
      have hcacheable : request.cacheable = false := by
        rw [SearchRequest.cacheable, hlinear]
        rfl
      simp only [hcacheable, Bool.false_eq_true, if_false, Option.elim]
  · intro key flight hlookup
    obtain ⟨leader, targets, hleader, hrest⟩ := hflying.flights key flight hlookup
    refine ⟨leader, targets, ?_, hrest⟩
    rw [List.getElem?_append_left (List.getElem?_eq_some_iff.mp hleader).1]
    exact hleader

theorem enter {i : Nat} {call : SearchCall} (hcall : worker.calls[i]? = some call)
    (hjoins : JoinsInTime worker (.enter i)) :
    Flying (worker.enter i call) := by
  rw [SearchWorker.enter]
  split
  next hphase =>
    have hnot : ∀ marks, ¬ call.phase.Serves marks := by
      rw [hphase]
      exact fun _ h => h
    have hnotLeading : ∀ targets, call.phase ≠ .leading targets := by
      rw [hphase]
      exact fun _ h => by cases h
    cases hflight : worker.inFlight.lookup call.key with
    | some flight =>
        obtain ⟨leader, targets, hleader, _, hleading⟩ := hflying.flights call.key flight hflight
        refine hflying.move hcall (Or.inl hnotLeading) (fun _ marks _ h => absurd h (hnot marks)) ?_
        intro hlinear _
        obtain ⟨hlinear', hsince⟩ := hjoins call hcall hlinear hphase flight hflight leader hleader
        refine Or.inr ⟨flight, leader, rfl, hleader, hlinear', ?_⟩
        -- the reads of the leader are sound because it serves itself
        have hself : leader.phase.Serves leader.ackedBefore := by
          rcases hflying.served leader (List.mem_of_getElem? hleader) hlinear' with harrived |
            hserves | ⟨_, _, hjoined, _⟩
          · rw [hleading] at harrived
            cases harrived
          · exact hserves
          · rw [hleading] at hjoined
            cases hjoined
        rw [hleading] at hsince hself ⊢
        cases targets with
        | none => exact trivial
        | some targets =>
            exact fun target htarget =>
              ⟨hsince targets rfl target htarget, (hself target htarget).2⟩
    | none =>
        obtain ⟨hbounded, hserved⟩ := @setCall worker hflying i call (.leading none) hcall
          (fun _ marks _ h => absurd h (hnot marks)) (fun _ _ => Or.inl trivial)
        refine ⟨hbounded, hserved, ?_⟩
        intro key flight hlookup
        dsimp only at hlookup
        rw [GoMap.lookup_insert_if] at hlookup
        split at hlookup
        next heq =>
          cases hlookup
          refine ⟨{ call with phase := .leading none }, none, ?_, heq.symm, rfl⟩
          exact List.getElem?_set_self (List.getElem?_eq_some_iff.mp hcall).1
        next _ =>
          obtain ⟨leader, targets, hleader, hkey, hleading⟩ := hflying.flights key flight hlookup
          refine ⟨leader, targets, ?_, hkey, hleading⟩
          have hne : i ≠ flight := by
            rintro rfl
            rw [hcall] at hleader
            cases hleader
            exact hnotLeading targets hleading
          exact (List.getElem?_set_ne hne).trans hleader
  next _ => exact hflying

/-- One shard of a search goes on. -/
theorem leadTarget {i place : Nat} {call : SearchCall} {targets : List Target} {next : Target}
    (hcall : worker.calls[i]? = some call) (hphase : call.phase = .leading (some targets))
    (hnext : call.request.linearizable = true → ∀ marks : Marks, Marks.Le marks worker.acked →
      (∀ target ∈ targets, target.Since marks ∧ target.Sound) → next.Since marks ∧ next.Sound) :
    Flying (worker.setCall i call (.leading (some (targets.set place next)))) := by
  apply hflying.lead hcall hphase
  intro hlinear marks hle hserves target htarget
  rcases List.mem_or_eq_of_mem_set htarget with htarget | rfl
  · exact hserves target htarget
  · exact hnext hlinear marks hle hserves

theorem withTarget {i place : Nat} {next : SearchCall → List Target → Target → SearchWorker}
    (hnext : ∀ call targets target, worker.calls[i]? = some call →
      call.phase = .leading (some targets) → target ∈ targets → Flying (next call targets target)) :
    Flying (worker.withTarget i place next) := by
  rw [SearchWorker.withTarget]
  cases hcall : worker.calls[i]? with
  | none => exact hflying
  | some call =>
      dsimp only
      split
      next targets hphase =>
        cases htarget : targets[place]? with
        | none => exact hflying
        | some target =>
            exact hnext call targets target hcall hphase (List.mem_of_getElem? htarget)
      next _ => exact hflying

theorem beginRead {i place now : Nat} {call : SearchCall} {targets : List Target} (target : Target)
    (hcall : worker.calls[i]? = some call) (hphase : call.phase = .leading (some targets)) :
    Flying (worker.beginRead s i place now call targets target) := by
  rw [SearchWorker.beginRead]
  split
  next _ =>
    apply hflying.leadTarget hcall hphase
    intro hlinear marks hle _
    have hcacheable : call.request.cacheable = false := by
      rw [SearchRequest.cacheable, hlinear]
      rfl
    simp only [hcacheable, hlinear, Bool.false_eq_true, if_false, if_true, Option.elim]
    exact ⟨hle target.shard, fun _ _ hdone => by cases hdone⟩
  next _ => exact hflying

theorem endRead {i place version now : Nat} {ids : List Bytes} {evicted : Option UInt64}
    {call : SearchCall} {targets : List Target} {target : Target}
    (hcall : worker.calls[i]? = some call) (hphase : call.phase = .leading (some targets))
    (htarget : target ∈ targets) :
    Flying (worker.endRead s i place version ids now evicted call targets target) := by
  rw [SearchWorker.endRead]
  split
  next floor hread =>
    split
    next hversion =>
      apply Flying.withCache
      apply hflying.leadTarget hcall hphase
      intro _ marks _ hserves
      have hsince := (hserves target htarget).1
      rw [Target.Since, hread] at hsince
      refine ⟨hsince, ?_⟩
      intro floor' response hdone read hmem
      cases hdone
      rw [List.mem_singleton.mp hmem]
      exact ⟨rfl, hversion.1⟩
    next _ => exact hflying
  next _ => exact hflying

theorem failRead {i place : Nat} {call : SearchCall} {targets : List Target} (target : Target)
    (hcall : worker.calls[i]? = some call) (hphase : call.phase = .leading (some targets)) :
    Flying (worker.failRead i place call targets target) := by
  rw [SearchWorker.failRead]
  split
  next _ =>
    apply hflying.leadTarget hcall hphase
    exact fun _ _ _ _ => ⟨trivial, fun _ _ hdone => by cases hdone⟩
  next _ => exact hflying

end

/-- The response of a search includes what its reads include. -/
theorem serves_searchOutcome {request : SearchRequest} {targets : List Target} {marks : Marks}
    (hserves : ∀ target ∈ targets, target.Since marks ∧ target.Sound) :
    (SearchPhase.returned (searchOutcome s request targets)).Serves marks := by
  have htarget : ∀ target ∈ targets, ∀ response, target.response? = some response →
      response.Includes marks := by
    intro target hmem response hresponse read hread
    obtain ⟨hsince, hsound⟩ := hserves target hmem
    rw [Target.response?] at hresponse
    split at hresponse
    next floor response' hdone =>
      cases hresponse
      obtain ⟨hshard, hfloor⟩ := hsound floor response hdone read hread
      rw [Target.Since, hdone] at hsince
      rw [hshard]
      exact le_trans hsince hfloor
    next _ => cases hresponse
  unfold searchOutcome
  split
  next target =>
    cases hresponse : target.response? with
    | none => exact trivial
    | some response => exact htarget target (List.mem_singleton_self _) response hresponse
  next _ =>
    intro read hread
    obtain ⟨response, hresponse, hread⟩ := List.mem_flatMap.mp hread
    obtain ⟨target, hmem, hresponse⟩ := List.mem_filterMap.mp hresponse
    exact htarget target hmem response hresponse read hread

theorem finish (hflying : Flying worker) {i now : Nat} {evicted : Option UInt64}
    {call : SearchCall} {targets : List Target} (hcall : worker.calls[i]? = some call)
    (hphase : call.phase = .leading (some targets)) :
    Flying (worker.finish s i now evicted call targets) := by
  rw [SearchWorker.finish]
  split
  next _ =>
    have hcarries : ∀ marks, call.phase.Serves marks →
        (SearchPhase.returned (searchOutcome s call.request targets)).Serves marks := by
      intro marks hserves
      rw [hphase] at hserves
      exact serves_searchOutcome hserves
    obtain ⟨hbounded, hserved⟩ := @setCall worker hflying i call _ hcall
      (fun _ marks _ hserves => hcarries marks hserves) (by
        intro hlinear hnot
        rcases hflying.served call (List.mem_of_getElem? hcall) hlinear with harrived | hserves |
          ⟨_, _, hjoined, _⟩
        · rw [hphase] at harrived
          cases harrived
        · exact absurd hserves hnot
        · rw [hphase] at hjoined
          cases hjoined)
    refine ⟨hbounded, hserved, ?_⟩
    intro key flight hlookup
    dsimp only at hlookup
    rw [GoMap.lookup_erase_if] at hlookup
    split at hlookup
    next _ => cases hlookup
    next hne =>
      obtain ⟨leader, targets', hleader, hkey, hleading⟩ := hflying.flights key flight hlookup
      refine ⟨leader, targets', ?_, hkey, hleading⟩
      have hother : i ≠ flight := by
        rintro rfl
        rw [hcall] at hleader
        cases hleader
        exact hne hkey.symm
      exact (List.getElem?_set_ne hother).trans hleader
  next _ => exact hflying

theorem collect (hflying : Flying worker) {i flight : Nat} {call leader : SearchCall}
    {outcome : Option SearchResponse} (hcall : worker.calls[i]? = some call)
    (hjoined : call.phase = .joined flight) (hleader : worker.calls[flight]? = some leader)
    (hreturned : leader.phase = .returned outcome) :
    Flying (worker.setCall i call (.returned outcome)) := by
  have hnot : ∀ marks, ¬ call.phase.Serves marks := by
    rw [hjoined]
    exact fun _ h => h
  refine hflying.move hcall (Or.inl ?_) (fun _ marks _ h => absurd h (hnot marks)) ?_
  · rw [hjoined]
    exact fun _ h => by cases h
  · intro hlinear _
    left
    rcases hflying.served call (List.mem_of_getElem? hcall) hlinear with harrived | hserves |
      ⟨flight', leader', hjoined', hleader', _, hserves⟩
    · rw [hjoined] at harrived
      cases harrived
    · exact absurd hserves (hnot _)
    · rw [hjoined] at hjoined'
      cases hjoined'
      rw [hleader] at hleader'
      cases hleader'
      rw [hreturned] at hserves
      exact hserves

theorem step (hflying : Flying worker) {step : SearchStep} (hjoins : JoinsInTime worker step) :
    Flying (worker.step s step) := by
  cases step with
  | commitWrite shard => exact ⟨hflying.bounded, hflying.served, hflying.flights⟩
  | ackWrite shard index => exact hflying.ackWrite shard index
  | search request now => exact hflying.search request now
  | enter i =>
      rw [SearchWorker.step]
      cases hcall : worker.calls[i]? with
      | none => exact hflying
      | some call => exact hflying.enter hcall hjoins
  | listShards i shards =>
      rw [SearchWorker.step]
      cases hcall : worker.calls[i]? with
      | none => exact hflying
      | some call =>
          dsimp only
          split
          next hphase =>
            apply hflying.lead hcall hphase
            intro _ marks _ _ target htarget
            obtain ⟨shard, _, rfl⟩ := List.mem_map.mp htarget
            exact ⟨trivial, fun _ _ hdone => by cases hdone⟩
          next _ => exact hflying
  | beginRead i place now =>
      exact hflying.withTarget fun call targets target hcall hphase _ =>
        hflying.beginRead target hcall hphase
  | endRead i place version ids now evicted =>
      exact hflying.withTarget fun call targets target hcall hphase htarget =>
        hflying.endRead hcall hphase htarget
  | failRead i place =>
      exact hflying.withTarget fun call targets target hcall hphase _ =>
        hflying.failRead target hcall hphase
  | finish i now evicted =>
      rw [SearchWorker.step]
      cases hcall : worker.calls[i]? with
      | none => exact hflying
      | some call =>
          dsimp only
          split
          next targets hphase => exact hflying.finish hcall hphase
          next _ => exact hflying
  | collect i =>
      rw [SearchWorker.step]
      cases hcall : worker.calls[i]? with
      | none => exact hflying
      | some call =>
          dsimp only
          split
          next flight hjoined =>
            cases hleader : worker.calls[flight]? with
            | none => exact hflying
            | some leader =>
                dsimp only
                split
                next outcome hreturned => exact hflying.collect hcall hjoined hleader hreturned
                next _ => exact hflying
          next _ => exact hflying
  | abandon i =>
      rw [SearchWorker.step]
      cases hcall : worker.calls[i]? with
      | none => exact hflying
      | some call =>
          dsimp only
          split
          next flight hjoined =>
            refine hflying.move hcall (Or.inl ?_) ?_ (fun _ _ => Or.inl trivial)
            · rw [hjoined]
              exact fun _ h => by cases h
            · exact fun _ _ _ _ => trivial
          next _ => exact hflying

end Flying

/-- In a run in which a linearizable search joins another one only when that is
linearizable too and no write was acknowledged between the begin of its reads and the
arrival of the search, every linearizable search returns a response computed from states
with every write acknowledged before it arrived. -/
theorem linearizable_searches_current (s : SearchSettings) (steps : List SearchStep)
    (hjoins : Run.Meets (SearchWorker.step s) JoinsInTime SearchWorker.start steps) :
    NotFromThePast (Run.run (SearchWorker.step s) SearchWorker.start steps) := by
  have hflying : Flying (Run.run (SearchWorker.step s) SearchWorker.start steps) :=
    Run.run_invariant (fun _ _ hstep hflying => hflying.step hstep) hjoins flying_start
  exact hflying.notFromThePast

/-- A worker without a cache that puts the results of its shards behind one another. -/
def plainSearch : SearchSettings where
  hash bytes := bytes.foldl (fun sum byte => sum * 31 + byte.toUInt64) 0
  quantBits := 0
  cacheEnabled := false
  ttl := 200
  merge request results := results.flatten.take request.k.toNat

def nearestOnShard : SearchRequest := ⟨1, 10, true, false, [], [0x3f800000]⟩

/-- A search that is joined before it reads its shard, with a write in between. -/
def joinedEarly : List SearchStep :=
  [.search nearestOnShard 10, .enter 0, .listShards 0 [],
    .commitWrite 1, .ackWrite 1 1,
    .search nearestOnShard 20, .enter 1,
    .beginRead 0 0 30, .endRead 0 0 1 [[97]] 40 none, .finish 0 50 none, .collect 1]

theorem linearizable_searches_current_joinedEarly :
    let worker := Run.run (SearchWorker.step plainSearch) SearchWorker.start joinedEarly
    Run.Meets (SearchWorker.step plainSearch) JoinsInTime SearchWorker.start joinedEarly ∧
      worker.calls.map SearchCall.phase =
        [.returned (some ⟨[[97]], [(1, 1)]⟩), .returned (some ⟨[[97]], [(1, 1)]⟩)] ∧
      NotFromThePast worker := by
  have hjoins : Run.Meets (SearchWorker.step plainSearch) JoinsInTime SearchWorker.start
      joinedEarly := by decide +kernel
  exact ⟨hjoins, by decide +kernel, linearizable_searches_current plainSearch joinedEarly hjoins⟩

/-- A search that is joined after it has read its shard. The write in between was
acknowledged before the second search arrived. -/
def joinedLate : List SearchStep :=
  [.search nearestOnShard 10, .enter 0, .listShards 0 [],
    .beginRead 0 0 20, .endRead 0 0 0 [] 30 none,
    .commitWrite 1, .ackWrite 1 1,
    .search nearestOnShard 40, .enter 1, .finish 0 50 none, .collect 1]

theorem joinedLate_from_the_past :
    let worker := Run.run (SearchWorker.step plainSearch) SearchWorker.start joinedLate
    (worker.calls[1]?.map fun call => (call.request.linearizable, mark call.ackedBefore 1)) =
        some (true, 1) ∧
      (worker.calls[1]?.map SearchCall.phase) = some (.returned (some ⟨[], [(1, 0)]⟩)) ∧
      ¬ NotFromThePast worker := by
  decide +kernel

end Vectron.Worker
