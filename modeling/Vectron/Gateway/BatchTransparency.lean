import Vectron.Gateway.BatchDelivery
import Vectron.Worker.BatchSearch

/-! # Batched searches and searches on their own

The batcher of the gateway with the `BatchSearch` of a worker behind it. What the worker finds for
each request, what its checks read, the order in which its goroutines end and the time at which its
answer is there are given from outside.
-/

namespace Vectron.Gateway

open Foundation Worker

variable {S : Type}

inductive WorkerRpcError where
  | rejected (rejection : SearchRejection)
  /-- `DeadlineExceeded` -/
  | deadlineExceeded
deriving DecidableEq

/-- A call of `BatchSearch`. -/
structure WorkerCall (S : Type) where
  searchOnly : Bool
  readings : Nat → LeaseReading
  found : Nat → Except SearchStatus (ShardSearchResult S)
  /-- the order in which so many goroutines end -/
  order : Nat → List Nat
  perm : ∀ n, (order n).Perm (List.range n)
  /-- when the answer is there -/
  arrival : Int

namespace WorkerCall

variable (call : WorkerCall S)

def run (n : Nat) : BatchRun S := ⟨call.readings, call.found, call.order n⟩

/-- The deadline has passed when the answer is there. -/
def late (deadline : Option Int) : Bool :=
  match deadline with
  | none => false
  | some deadline => deadline < call.arrival

def rpc (deadline : Option Int) (requests : List LeasedSearch) :
    Except WorkerRpcError (List (ShardSearchResult S)) :=
  if call.late deadline then .error .deadlineExceeded
  else (batchSearch call.searchOnly (call.run requests.length) requests).mapError .rejected

/-- What the worker answers to the request at a place of the batch on its own. -/
def alone (k : Nat) (request : LeasedSearch) : Except SearchRejection (ShardSearchResult S) :=
  aloneSearch call.searchOnly (call.run 0) k request

/-- The same within the request's own deadline, as the caller gets it. -/
def aloneOutcome (k : Nat) (request : LeasedSearch) (deadline : Option Int) :
    BatchOutcome (ShardSearchResult S) WorkerRpcError :=
  if call.late deadline then .error (.rpc .deadlineExceeded)
  else (call.alone k request).mapError fun rejection => .rpc (.rejected rejection)

/-- The answer is there in time, and each request succeeds on its own. -/
def Succeeds (batch : List (Nat × LeasedSearch)) (deadline : Option Int) : Prop :=
  call.late deadline = false ∧ ∀ (k : Nat) entry, batch[k]? = some entry →
    ∃ response, call.alone k entry.2 = .ok response

/-- What a batch that does not succeed fails with. -/
def FailsWith (batch : List (Nat × LeasedSearch)) (deadline : Option Int) :
    WorkerRpcError → Prop
  | .deadlineExceeded => call.late deadline = true
  | .rejected rejection =>
      ∃ (k : Nat) (entry : Nat × LeasedSearch), batch[k]? = some entry ∧
        call.alone k entry.2 = .error rejection

variable {call} {batch : List (Nat × LeasedSearch)} {deadline : Option Int}

theorem answer_of_succeeds (hne : batch ≠ []) (hsucceeds : call.Succeeds batch deadline) :
    ∃ responses, WorkerSearchBatcher.answer WorkerCall.rpc batch deadline call = .ok responses ∧
      ∀ (k : Nat) (entry : Nat × LeasedSearch), batch[k]? = some entry → ∃ response,
        responses[k]? = some response ∧ call.alone k entry.2 = .ok response := by
  obtain ⟨htime, halone⟩ := hsucceeds
  have hentry : ∀ {k : Nat} {request : LeasedSearch}, (batch.map Prod.snd)[k]? = some request →
      ∃ entry, batch[k]? = some entry ∧ entry.2 = request := by
    intro k request hk
    rw [List.getElem?_map] at hk
    exact Option.map_eq_some_iff.mp hk
  have hrequests : batch.map Prod.snd ≠ [] := by simpa using hne
  obtain ⟨responses, hok, hlength, hresponses⟩ :=
    batchSearch_ok call.searchOnly (call.run batch.length) hrequests (by
      intro k request hrequest
      obtain ⟨entry, hk, rfl⟩ := hentry hrequest
      exact halone k entry hk)
  refine ⟨responses, ?_, ?_⟩
  · have hrpc : call.rpc deadline (batch.map Prod.snd) = .ok responses := by
      rw [rpc, htime, List.length_map, hok]
      rfl
    rw [WorkerSearchBatcher.answer, hrpc]
    dsimp only
    rw [if_neg (by simpa using hlength)]
  · intro k entry hk
    exact hresponses k entry.2 (by rw [List.getElem?_map, hk]; rfl)

theorem answer_of_fails (hmany : 1 < batch.length) (hfails : ¬call.Succeeds batch deadline) :
    ∃ err, WorkerSearchBatcher.answer WorkerCall.rpc batch deadline call = .error (.rpc err) ∧
      call.FailsWith batch deadline err := by
  have hanswer : ∀ {err : WorkerRpcError}, call.rpc deadline (batch.map Prod.snd) = .error err →
      WorkerSearchBatcher.answer WorkerCall.rpc batch deadline call = .error (.rpc err) := by
    intro err hrpc
    rw [WorkerSearchBatcher.answer, hrpc]
  cases htime : call.late deadline with
  | true =>
      refine ⟨.deadlineExceeded, hanswer ?_, htime⟩
      rw [rpc, htime]
      rfl
  | false =>
      obtain ⟨k, entry, hk, hnot⟩ : ∃ (k : Nat) (entry : Nat × LeasedSearch),
          batch[k]? = some entry ∧ ∀ response, call.alone k entry.2 ≠ .ok response := by
        by_contra hall
        push Not at hall
        exact hfails ⟨htime, hall⟩
      obtain ⟨rejection, hrejection⟩ : ∃ rejection, call.alone k entry.2 = .error rejection := by
        cases halone : call.alone k entry.2 with
        | error rejection => exact ⟨rejection, rfl⟩
        | ok response => exact absurd halone (hnot response)
      have hrequests : 1 < (batch.map Prod.snd).length := by simpa using hmany
      obtain ⟨j, request, first, hj, halone, hbatch⟩ :=
        batchSearch_error call.searchOnly (call.run batch.length) hrequests
          (by rw [List.length_map]; exact call.perm _)
          ⟨k, entry.2, rejection, by rw [List.getElem?_map, hk]; rfl, hrejection⟩
      rw [List.getElem?_map] at hj
      obtain ⟨entry', hj', rfl⟩ := Option.map_eq_some_iff.mp hj
      refine ⟨.rejected first, hanswer ?_, j, entry', hj', halone⟩
      rw [rpc, htime, List.length_map, hbatch]
      rfl

end WorkerCall

namespace WorkerSearchBatcher

variable {state : WorkerSearchBatcher LeasedSearch (ShardSearchResult S) WorkerRpcError (WorkerCall S)}

/-- The call was sent to the worker at a place of the batch of a group that is closed. -/
def SentAt
    (state : WorkerSearchBatcher LeasedSearch (ShardSearchResult S) WorkerRpcError (WorkerCall S))
    (caller : BatchedCall LeasedSearch (ShardSearchResult S) WorkerRpcError)
    (batch : List (Nat × LeasedSearch)) (deadline : Option Int) (call : WorkerCall S) (k : Nat) :
    Prop :=
  ∃ (g p : Nat) (group : WorkerSearchGroup LeasedSearch (WorkerCall S)),
    caller.place = some (g, p) ∧ state.groups[g]? = some group ∧
      group.flush = .closed batch deadline (some call) ∧ batch[k]? = some (p, caller.request)

/-- Each request that was sent to the worker has what it would have had on its own. -/
def Transparent
    (state : WorkerSearchBatcher LeasedSearch (ShardSearchResult S) WorkerRpcError (WorkerCall S)) :
    Prop :=
  ∀ caller ∈ state.calls, ∀ batch deadline call k, state.SentAt caller batch deadline call k →
    ∀ outcome ∈ caller.sent, outcome = call.aloneOutcome k caller.request caller.deadline

/-- The requests of a batch have the earliest of their deadlines. They all have the responses that
they would have on their own, or one and the same error. -/
structure SharesFate
    (state : WorkerSearchBatcher LeasedSearch (ShardSearchResult S) WorkerRpcError (WorkerCall S)) :
    Prop where
  deadline : ∀ caller ∈ state.calls, ∀ batch deadline call k,
    state.SentAt caller batch deadline call k → NotAfter deadline caller.deadline
  served : ∀ caller ∈ state.calls, ∀ batch deadline call k,
    state.SentAt caller batch deadline call k → call.Succeeds batch deadline →
      ∃ response, call.alone k caller.request = .ok response ∧ caller.sent = [.ok response]
  failed : ∀ batch deadline (call : WorkerCall S), 1 < batch.length →
    ¬call.Succeeds batch deadline → ∃ err, call.FailsWith batch deadline err ∧
      ∀ caller ∈ state.calls, ∀ k, state.SentAt caller batch deadline call k →
        caller.sent = [.error (.rpc err)] ∨ caller.sent = [] ∧ caller.ctx.isSome = true

/-- What a call has that was sent to the worker. -/
theorem WellServed.sentAt {limit : Nat} (hserved : state.WellServed WorkerCall.rpc limit)
    {caller : BatchedCall LeasedSearch (ShardSearchResult S) WorkerRpcError}
    (hmem : caller ∈ state.calls) {batch : List (Nat × LeasedSearch)} {deadline : Option Int}
    {call : WorkerCall S} {k : Nat} (hsent : state.SentAt caller batch deadline call k) :
    NotAfter deadline caller.deadline ∧
      caller.Replied (answer WorkerCall.rpc batch deadline call) k := by
  obtain ⟨g, p, group, hplace, hgroup, hclosed, hk⟩ := hsent
  obtain ⟨i, hi⟩ := List.mem_iff_getElem?.mp hmem
  have hfound := hserved.found i caller hi
  rw [hplace] at hfound
  obtain ⟨group', hgroup', hrequest⟩ := hfound
  rw [hgroup] at hgroup'
  obtain rfl := Option.some.inj hgroup'
  obtain ⟨caller', hcaller', -, hstatus⟩ := hserved.placed g group p i hgroup hrequest
  rw [hi] at hcaller'
  obtain rfl := Option.some.inj hcaller'
  have hformed := hserved.formed group (List.mem_of_getElem? hgroup)
  rw [hclosed] at hstatus hformed
  obtain ⟨hdeadline, ⟨k', hk', hreplied⟩ | ⟨hnot, -⟩⟩ := hstatus
  · obtain rfl := place_unique hformed.1 hk hk'
    exact ⟨hdeadline, hreplied⟩
  · exact absurd (List.mem_map_of_mem (List.mem_of_getElem? hk)) hnot

/-- Whatever the worker finds, in whatever order things happen. -/
theorem serve_sharesFate (maxBatch : Int) (ops : List (BatchOp LeasedSearch (WorkerCall S))) :
    (serve WorkerCall.rpc maxBatch ops).SharesFate := by
  have hserved := serve_wellServed WorkerCall.rpc maxBatch ops
  refine ⟨?_, ?_, ?_⟩
  · intro caller hmem batch deadline call k hsent
    exact (hserved.sentAt hmem hsent).1
  · intro caller hmem batch deadline call k hsent hsucceeds
    have hreplied := (hserved.sentAt hmem hsent).2
    obtain ⟨g, p, group, -, -, -, hk⟩ := hsent
    have hne : batch ≠ [] := List.ne_nil_of_mem (List.mem_of_getElem? hk)
    obtain ⟨responses, hanswer, hresponses⟩ := WorkerCall.answer_of_succeeds hne hsucceeds
    obtain ⟨response, hresponse, halone⟩ := hresponses k _ hk
    rw [hanswer] at hreplied
    obtain ⟨response', hresponse', houtcome⟩ := hreplied
    rw [hresponse] at hresponse'
    obtain rfl := Option.some.inj hresponse'
    exact ⟨response, halone, houtcome⟩
  · intro batch deadline call hmany hfails
    obtain ⟨err, hanswer, hwith⟩ := WorkerCall.answer_of_fails hmany hfails
    refine ⟨err, hwith, ?_⟩
    intro caller hmem k hsent
    have hreplied := (hserved.sentAt hmem hsent).2
    rw [hanswer] at hreplied
    exact hreplied

/-- The worker holds shard 1 by epoch 2, and finds nothing for any request. -/
def idleWorker : WorkerCall Nat where
  searchOnly := false
  readings := fun _ => ⟨fun _ => 2, 0⟩
  found := fun _ => .ok ⟨[], [], []⟩
  order := List.range
  perm n := List.Perm.refl (List.range n)
  arrival := 1

/-- A search by the epoch of the worker, and with it in a group a search by an older one. -/
def currentAndStale : List (BatchOp LeasedSearch (WorkerCall Nat)) :=
  [.search [] ⟨1, 2, 0, [0], false, false⟩ none none, .search [] ⟨1, 1, 0, [0], false, false⟩ none none,
    .timer 0, .flush 0, .flush 0, .flush 0, .reply 0 idleWorker, .flush 0, .flush 0, .flush 0]

theorem stale_fails_current :
    ¬(serve WorkerCall.rpc 16 currentAndStale).Transparent := by
  intro htransparent
  have hsent : (BatchedCall.mk (R := ShardSearchResult Nat) (E := WorkerRpcError)
      ⟨1, 2, 0, [0], false, false⟩ none none none (some (.rpc (.rejected (.staleShardEpoch 1 2))))
      none [.error (.rpc (.rejected (.staleShardEpoch 1 2)))] (some (0, 0))) ∈
        (serve WorkerCall.rpc 16 currentAndStale).calls := List.mem_cons_self
  have houtcome := htransparent _ hsent _ none idleWorker 0 ⟨0, 0, _, rfl, rfl, rfl, rfl⟩ _
    (List.mem_singleton.mpr rfl)
  cases houtcome

end WorkerSearchBatcher

end Vectron.Gateway
