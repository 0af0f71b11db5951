import Vectron.Foundation.GoMap
import Vectron.Foundation.Reader
import Vectron.Foundation.Run

/-! # Batches of searches for one worker

`WorkerSearchBatcher` in `apigateway/cmd/apigateway/main.go`. Calls of `Search` for one worker are
put into groups. Each group has a goroutine that waits for a timer, asks the worker once for all
requests, and replies to each over a channel with room for one value. The callers, the goroutines
of the groups, the contexts and the answers of the worker follow each other in any interleaving.
-/

namespace Vectron.Gateway

open Foundation

/-- `ctx.Err()` -/
inductive ContextError where
  | canceled
  | deadlineExceeded
deriving DecidableEq

inductive BatchError (E : Type) where
  /-- the error of the request's own context -/
  | ctx (err : ContextError)
  | rpc (err : E)
  /-- "batch search response size mismatch: got %d want %d" -/
  | sizeMismatch (got want : Nat)
deriving DecidableEq

/-- What a call of `Search` returns. -/
abbrev BatchOutcome (R E : Type) := Except (BatchError E) R

/-- A call of `Search` with its `workerSearchRequest`. The code keeps neither what was sent to the
two channels nor the group and the position at which the request was appended. -/
structure BatchedCall (Q R E : Type) where
  request : Q
  deadline : Option Int
  ctx : Option ContextError
  resp : Option R
  err : Option (BatchError E)
  returned : Option (BatchOutcome R E)
  sent : List (BatchOutcome R E)
  place : Option (Nat × Nat)

/-- Where `processBatch` is. A batch has `indexMap` and `reqs` in pairs. -/
inductive Flush (Q C : Type) where
  /-- for the timer -/
  | waiting
  /-- in the loop that fills `reqs` -/
  | scanning (next : Nat) (batch : List (Nat × Q))
  /-- in `BatchSearch` -/
  | calling (batch : List (Nat × Q)) (deadline : Option Int)
  /-- in one of the loops that reply -/
  | replying (batch : List (Nat × Q)) (deadline : Option Int) (call : C) (next : Nat)
  | closed (batch : List (Nat × Q)) (deadline : Option Int) (call : Option C)

structure WorkerSearchGroup (Q C : Type) where
  addr : Bytes
  requests : List Nat
  flush : Flush Q C

structure WorkerSearchBatcher (Q R E C : Type) where
  calls : List (BatchedCall Q R E)
  groups : List (WorkerSearchGroup Q C)
  pending : GoMap Bytes Nat

/-- What a `select` of `Search` takes. -/
inductive SelectCase where
  | ctx
  | resp
  | err

inductive BatchOp (Q C : Type) where
  | search (addr : Bytes) (request : Q) (deadline : Option Int) (ctx : Option ContextError)
  /-- the timer of a group -/
  | timer (group : Nat)
  /-- the next step of the goroutine of a group in one of its loops -/
  | flush (group : Nat)
  /-- the RPC of a group returns -/
  | reply (group : Nat) (call : C)
  /-- the context of a call is done -/
  | done (call : Nat) (err : ContextError)
  /-- a call of `Search` takes a case of its `select` and returns -/
  | select (call : Nat) (taken : SelectCase)

/-- `maxBatch`, as `NewWorkerSearchBatcher` sets it. -/
def batchLimit (maxBatch : Int) : Nat := if maxBatch ≤ 0 then 16 else maxBatch.toNat

theorem batchLimit_pos (maxBatch : Int) : 0 < batchLimit maxBatch := by
  unfold batchLimit
  split <;> omega

/-- The body of the loop for `earliest`. -/
def sooner (earliest deadline : Option Int) : Option Int :=
  match deadline, earliest with
  | none, _ => earliest
  | some deadline, none => some deadline
  | some deadline, some before => if deadline < before then some deadline else some before

def earliest (deadlines : List (Option Int)) : Option Int := deadlines.foldl sooner none

/-- Where there is the one deadline, the other is no later. -/
def NotAfter (shared own : Option Int) : Prop :=
  ∀ limit, own = some limit → ∃ before, shared = some before ∧ before ≤ limit

theorem NotAfter.refl (deadline : Option Int) : NotAfter deadline deadline :=
  fun limit hlimit => ⟨limit, hlimit, le_refl limit⟩

theorem NotAfter.trans {first second third : Option Int} (hfirst : NotAfter first second)
    (hsecond : NotAfter second third) : NotAfter first third := by
  intro limit hlimit
  obtain ⟨middle, hmiddle, hle⟩ := hsecond limit hlimit
  obtain ⟨before, hbefore, hle'⟩ := hfirst middle hmiddle
  exact ⟨before, hbefore, hle'.trans hle⟩

theorem sooner_notAfter (earliest deadline : Option Int) :
    NotAfter (sooner earliest deadline) earliest ∧ NotAfter (sooner earliest deadline) deadline := by
  unfold NotAfter sooner
  cases deadline <;> cases earliest <;> grind

theorem earliest_notAfter {deadlines : List (Option Int)} {own : Option Int}
    (hown : own ∈ deadlines) : NotAfter (earliest deadlines) own := by
  have hfold : ∀ (deadlines : List (Option Int)) (start : Option Int),
      NotAfter (deadlines.foldl sooner start) start ∧
        ∀ own ∈ deadlines, NotAfter (deadlines.foldl sooner start) own := by
    intro deadlines
    induction deadlines with
    | nil =>
        intro start
        exact ⟨NotAfter.refl start, fun own hmem => absurd hmem List.not_mem_nil⟩
    | cons deadline deadlines ih =>
        intro start
        obtain ⟨hstart, hrest⟩ := ih (sooner start deadline)
        obtain ⟨hleft, hright⟩ := sooner_notAfter start deadline
        refine ⟨hstart.trans hleft, ?_⟩
        intro own hmem
        obtain rfl | hmem := List.mem_cons.mp hmem
        · exact hstart.trans hright
        · exact hrest own hmem
  exact (hfold deadlines none).2 own hown

variable {Q R E C : Type}

namespace BatchedCall

/-- Send to the channel of the responses or to that of the errors, if it is empty. -/
def send (call : BatchedCall Q R E) (outcome : BatchOutcome R E) : Option (BatchedCall Q R E) :=
  match outcome with
  | .ok resp =>
      if call.resp.isSome then none
      else some { call with resp := some resp, sent := call.sent ++ [outcome] }
  | .error err =>
      if call.err.isSome then none
      else some { call with err := some err, sent := call.sent ++ [outcome] }

/-- The `select` of `Search`. -/
def select (call : BatchedCall Q R E) (taken : SelectCase) : BatchedCall Q R E :=
  if call.returned.isSome then call
  else
    match taken with
    | .ctx => { call with returned := call.ctx.map fun err => .error (.ctx err) }
    | .resp => { call with returned := call.resp.map .ok, resp := none }
    | .err => { call with returned := call.err.map .error, err := none }

/-- A context is done once. -/
def done (call : BatchedCall Q R E) (err : ContextError) : BatchedCall Q R E :=
  { call with ctx := call.ctx.or (some err) }

end BatchedCall

namespace WorkerSearchBatcher

variable (rpc : C → Option Int → List Q → Except E (List R))

/-- The outcome of the RPC for the group: an error for all, or as many responses as requests. -/
def answer (batch : List (Nat × Q)) (deadline : Option Int) (call : C) :
    Except (BatchError E) (List R) :=
  match rpc call deadline (batch.map Prod.snd) with
  | .error err => .error (.rpc err)
  | .ok responses =>
      if responses.length ≠ batch.length then
        .error (.sizeMismatch responses.length batch.length)
      else .ok responses

def new : WorkerSearchBatcher Q R E C := ⟨[], [], ∅⟩

/-- The group that a request for a worker goes to, if it has room. -/
def openGroup (limit : Nat) (state : WorkerSearchBatcher Q R E C) (addr : Bytes) :
    Option (Nat × WorkerSearchGroup Q C) :=
  match state.pending.lookup addr with
  | none => none
  | some g =>
      match state.groups[g]? with
      | none => none
      | some group => if group.requests.length < limit then some (g, group) else none

/-- `Search` up to its `select`. -/
def search (limit : Nat) (state : WorkerSearchBatcher Q R E C) (addr : Bytes) (request : Q)
    (deadline : Option Int) (ctx : Option ContextError) : WorkerSearchBatcher Q R E C :=
  match ctx with
  | some err =>
      { state with
        calls := state.calls ++
          [⟨request, deadline, ctx, none, none, some (.error (.ctx err)), [], none⟩] }
  | none =>
      match state.openGroup limit addr with
      | some (g, group) =>
          { state with
            calls := state.calls ++
              [⟨request, deadline, none, none, none, none, [], some (g, group.requests.length)⟩]
            groups := state.groups.set g
              { group with requests := group.requests ++ [state.calls.length] } }
      | none =>
          { calls := state.calls ++
              [⟨request, deadline, none, none, none, none, [], some (state.groups.length, 0)⟩]
            groups := state.groups ++ [⟨addr, [state.calls.length], .waiting⟩]
            pending := state.pending.insert addr state.groups.length }

def setFlush (state : WorkerSearchBatcher Q R E C) (g : Nat) (group : WorkerSearchGroup Q C)
    (flush : Flush Q C) : WorkerSearchBatcher Q R E C :=
  { state with groups := state.groups.set g { group with flush := flush } }

def timer (state : WorkerSearchBatcher Q R E C) (g : Nat) (group : WorkerSearchGroup Q C) :
    WorkerSearchBatcher Q R E C :=
  match group.flush with
  | .waiting =>
      { state.setFlush g group (.scanning 0 []) with pending := state.pending.erase group.addr }
  | _ => state

/-- The call of the request at a position of a group. -/
def callAt (state : WorkerSearchBatcher Q R E C) (group : WorkerSearchGroup Q C) (p : Nat) :
    Option (BatchedCall Q R E) :=
  (group.requests[p]?).bind fun i => state.calls[i]?

/-- The position that the goroutine of a group sends to next, and what it sends. -/
def nextSend (state : WorkerSearchBatcher Q R E C) (group : WorkerSearchGroup Q C) :
    Option (Nat × BatchOutcome R E) :=
  match group.flush with
  | .scanning next _ =>
      match (state.callAt group next).bind BatchedCall.ctx with
      | some err => some (next, .error (.ctx err))
      | none => none
  | .replying batch deadline call next =>
      match answer rpc batch deadline call with
      | .error err =>
          match (state.callAt group next).map BatchedCall.ctx with
          | some none => some (next, .error err)
          | _ => none
      | .ok responses =>
          match batch[next]?, responses[next]? with
          | some entry, some resp => some (entry.1, .ok resp)
          | _, _ => none
  | _ => none

/-- The steps of the loop that replies. -/
def replySteps (group : WorkerSearchGroup Q C) : Except (BatchError E) (List R) → Nat
  | .error _ => group.requests.length
  | .ok responses => responses.length

/-- What the goroutine of a group goes on with. -/
def advance (state : WorkerSearchBatcher Q R E C) (group : WorkerSearchGroup Q C) : Flush Q C :=
  match group.flush with
  | .scanning next batch =>
      match state.callAt group next with
      | none =>
          if batch = [] then .closed [] none none
          else
            .calling batch (earliest (group.requests.map fun i =>
              (state.calls[i]?).bind BatchedCall.deadline))
      | some call =>
          if call.ctx.isSome then .scanning (next + 1) batch
          else .scanning (next + 1) (batch ++ [(next, call.request)])
  | .replying batch deadline call next =>
      if next < replySteps group (answer rpc batch deadline call) then
        .replying batch deadline call (next + 1)
      else .closed batch deadline (some call)
  | flush => flush

/-- One step of a loop of `processBatch`. It waits where a channel is full. -/
def flush (state : WorkerSearchBatcher Q R E C) (g : Nat) (group : WorkerSearchGroup Q C) :
    WorkerSearchBatcher Q R E C :=
  match state.nextSend rpc group with
  | none => state.setFlush g group (state.advance rpc group)
  | some (p, outcome) =>
      match group.requests[p]?, (state.callAt group p).bind fun call => call.send outcome with
      | some i, some call =>
          { state.setFlush g group (state.advance rpc group) with
            calls := state.calls.set i call }
      | _, _ => state

def reply (state : WorkerSearchBatcher Q R E C) (g : Nat) (call : C)
    (group : WorkerSearchGroup Q C) : WorkerSearchBatcher Q R E C :=
  match group.flush with
  | .calling batch deadline => state.setFlush g group (.replying batch deadline call 0)
  | _ => state

def withGroup (state : WorkerSearchBatcher Q R E C) (g : Nat)
    (next : WorkerSearchGroup Q C → WorkerSearchBatcher Q R E C) : WorkerSearchBatcher Q R E C :=
  match state.groups[g]? with
  | none => state
  | some group => next group

def modifyCall (state : WorkerSearchBatcher Q R E C) (i : Nat)
    (change : BatchedCall Q R E → BatchedCall Q R E) : WorkerSearchBatcher Q R E C :=
  { state with calls := state.calls.modify i change }

def step (limit : Nat) (state : WorkerSearchBatcher Q R E C) :
    BatchOp Q C → WorkerSearchBatcher Q R E C
  | .search addr request deadline ctx => state.search limit addr request deadline ctx
  | .timer g => state.withGroup g (state.timer g)
  | .flush g => state.withGroup g (state.flush rpc g)
  | .reply g call => state.withGroup g (state.reply g call)
  | .done i err => state.modifyCall i fun call => call.done err
  | .select i taken => state.modifyCall i fun call => call.select taken

/-- Searches through a batcher of the given size. -/
def serve (maxBatch : Int) (ops : List (BatchOp Q C)) : WorkerSearchBatcher Q R E C :=
  Run.run (step rpc (batchLimit maxBatch)) new ops

/-- The goroutine of a group waits for room in a channel. -/
def Blocked (state : WorkerSearchBatcher Q R E C) (group : WorkerSearchGroup Q C) : Prop :=
  ∃ p outcome, state.nextSend rpc group = some (p, outcome) ∧
    (state.callAt group p).bind (fun call => call.send outcome) = none

end WorkerSearchBatcher

end Vectron.Gateway
