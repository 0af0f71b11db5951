import Vectron.Gateway.SearchBatcher

/-! # What the requests of a group have been sent

The invariant of `WorkerSearchBatcher`: each request is at one position of one group, and where
the goroutine of the group is says what the request has been sent. Here it is kept by what changes
one call and by what the goroutines do without sending.
-/

namespace Vectron.Gateway

open Foundation

variable {Q R E C : Type}

namespace BatchedCall

/-- The context is done, and its error was sent. -/
def Refused (call : BatchedCall Q R E) : Prop :=
  ∃ err, call.ctx = some err ∧ call.sent = [.error (.ctx err)]

/-- The request is in the batch, at a place with a property, or was refused. -/
def Scanned (call : BatchedCall Q R E) (batch : List (Nat × Q)) (p : Nat) (property : Nat → Prop) :
    Prop :=
  (∃ k, batch[k]? = some (p, call.request) ∧ property k) ∨
    p ∉ batch.map Prod.fst ∧ call.Refused

/-- The request has its reply. Nothing more is sent to one whose context is done when the others
get the error of the group. -/
def Replied (call : BatchedCall Q R E) (answer : Except (BatchError E) (List R)) (k : Nat) : Prop :=
  match answer with
  | .error err => call.sent = [.error err] ∨ call.sent = [] ∧ call.ctx.isSome = true
  | .ok responses => ∃ resp, responses[k]? = some resp ∧ call.sent = [.ok resp]

/-- The loop that replies goes over the requests of the group with an error, and over the
responses otherwise. -/
def Reached (answer : Except (BatchError E) (List R)) (next p k : Nat) : Prop :=
  match answer with
  | .error _ => p < next
  | .ok _ => k < next

/-- The outcome is the error of the request's own context, which is done. -/
def OwnError (call : BatchedCall Q R E) (outcome : BatchOutcome R E) : Prop :=
  ∃ err, call.ctx = some err ∧ outcome = .error (.ctx err)

/-- The channels hold no more than what was sent, and the caller has taken no more. -/
structure Channelled (call : BatchedCall Q R E) : Prop where
  resp : ∀ resp, call.resp = some resp → call.sent = [.ok resp]
  err : ∀ err, call.err = some err → call.sent = [.error err]
  returned : ∀ outcome, call.returned = some outcome →
    outcome ∈ call.sent ∨ call.OwnError outcome

end BatchedCall

namespace Flush

/-- A batch has each position once, and only those scanned of a group of some length. -/
def WellFormed (length : Nat) : Flush Q C → Prop
  | .waiting => True
  | .scanning next batch =>
      (batch.map Prod.fst).Nodup ∧ (∀ p ∈ batch.map Prod.fst, p < next) ∧ next ≤ length
  | .calling batch _ | .replying batch _ _ _ | .closed batch _ _ =>
      (batch.map Prod.fst).Nodup ∧ ∀ p ∈ batch.map Prod.fst, p < length

variable (rpc : C → Option Int → List Q → Except E (List R))

/-- What the request at a position of the group has been sent. -/
def Status (flush : Flush Q C) (p : Nat) (call : BatchedCall Q R E) : Prop :=
  match flush with
  | .waiting => call.sent = []
  | .scanning next batch =>
      (p < next → call.Scanned batch p fun _ => call.sent = []) ∧ (next ≤ p → call.sent = [])
  | .calling batch deadline =>
      NotAfter deadline call.deadline ∧ call.Scanned batch p fun _ => call.sent = []
  | .replying batch deadline rpcCall next =>
      NotAfter deadline call.deadline ∧ call.Scanned batch p fun k =>
        let answer := WorkerSearchBatcher.answer rpc batch deadline rpcCall
        (BatchedCall.Reached answer next p k → call.Replied answer k) ∧
          (¬BatchedCall.Reached answer next p k → call.sent = [])
  | .closed batch deadline (some rpcCall) =>
      NotAfter deadline call.deadline ∧
        call.Scanned batch p (call.Replied (WorkerSearchBatcher.answer rpc batch deadline rpcCall))
  | .closed _ _ none => call.Refused

end Flush

namespace WorkerSearchBatcher

variable (rpc : C → Option Int → List Q → Except E (List R))

/-- Every request is in its group, and its group has sent it what it has. -/
structure WellServed (limit : Nat) (state : WorkerSearchBatcher Q R E C) : Prop where
  bounded : ∀ group ∈ state.groups, group.requests.length ≤ limit
  pending : ∀ addr g, state.pending.lookup addr = some g →
    ∃ group, state.groups[g]? = some group ∧ group.addr = addr ∧ group.flush = .waiting
  formed : ∀ group ∈ state.groups, group.flush.WellFormed group.requests.length
  placed : ∀ (g : Nat) (group : WorkerSearchGroup Q C) (p i : Nat), state.groups[g]? = some group →
    group.requests[p]? = some i →
      ∃ call, state.calls[i]? = some call ∧ call.place = some (g, p) ∧ group.flush.Status rpc p call
  found : ∀ (i : Nat) call, state.calls[i]? = some call →
    match call.place with
    | none => call.sent = []
    | some (g, p) => ∃ group, state.groups[g]? = some group ∧ group.requests[p]? = some i
  channelled : ∀ call ∈ state.calls, call.Channelled

variable {rpc} {limit : Nat} {state : WorkerSearchBatcher Q R E C}

theorem WellServed.new : (new : WorkerSearchBatcher Q R E C).WellServed rpc limit := by
  constructor <;> simp [WorkerSearchBatcher.new]

end WorkerSearchBatcher

/-! ## One call changes -/

namespace BatchedCall

variable {call : BatchedCall Q R E}

/-- The same request with the same messages sent, whose context can be done since. -/
structure Later (call after : BatchedCall Q R E) : Prop where
  request : after.request = call.request
  deadline : after.deadline = call.deadline
  sent : after.sent = call.sent
  place : after.place = call.place
  ctx : ∀ err, call.ctx = some err → after.ctx = some err
  channelled : call.Channelled → after.Channelled

section

variable {after : BatchedCall Q R E} (hlater : call.Later after)

include hlater

theorem Later.refused (hrefused : call.Refused) : after.Refused := by
  obtain ⟨err, hctx, hsent⟩ := hrefused
  exact ⟨err, hlater.ctx err hctx, hlater.sent.trans hsent⟩

theorem Later.notAfter {deadline : Option Int} (hbefore : NotAfter deadline call.deadline) :
    NotAfter deadline after.deadline := by
  rw [hlater.deadline]
  exact hbefore

theorem Later.replied {answer : Except (BatchError E) (List R)} {k : Nat}
    (hreplied : call.Replied answer k) :
    after.Replied answer k := by
  cases answer with
  | error err =>
      obtain hsent | ⟨hsent, hctx⟩ := hreplied
      · exact .inl (hlater.sent.trans hsent)
      · obtain ⟨err, hctx⟩ := Option.isSome_iff_exists.mp hctx
        exact .inr ⟨hlater.sent.trans hsent, by rw [hlater.ctx err hctx]; rfl⟩
  | ok responses =>
      obtain ⟨resp, hresp, hsent⟩ := hreplied
      exact ⟨resp, hresp, hlater.sent.trans hsent⟩

end

theorem Scanned.imp {after : BatchedCall Q R E} {batch : List (Nat × Q)} {p : Nat}
    {property property' : Nat → Prop} (hscanned : call.Scanned batch p property)
    (hrequest : after.request = call.request)
    (himp : ∀ k, batch[k]? = some (p, call.request) → property k → property' k)
    (hrefused : p ∉ batch.map Prod.fst → call.Refused → after.Refused) :
    after.Scanned batch p property' := by
  obtain ⟨k, hk, hproperty⟩ | ⟨hnot, hcall⟩ := hscanned
  · exact .inl ⟨k, by rw [hrequest]; exact hk, himp k hk hproperty⟩
  · exact .inr ⟨hnot, hrefused hnot hcall⟩

theorem Later.status {after : BatchedCall Q R E} (hlater : call.Later after)
    (rpc : C → Option Int → List Q → Except E (List R)) {flush : Flush Q C} {p : Nat}
    (hstatus : flush.Status rpc p call) : flush.Status rpc p after := by
  have hempty : call.sent = [] → after.sent = [] := fun hsent => hlater.sent.trans hsent
  cases flush with
  | waiting => exact hempty hstatus
  | scanning next batch =>
      exact ⟨fun hlt => (hstatus.1 hlt).imp hlater.request (fun _ _ => hempty)
        fun _ => hlater.refused, fun hle => hempty (hstatus.2 hle)⟩
  | calling batch deadline =>
      exact ⟨hlater.notAfter hstatus.1, hstatus.2.imp hlater.request (fun _ _ => hempty)
        fun _ => hlater.refused⟩
  | replying batch deadline rpcCall next =>
      refine ⟨hlater.notAfter hstatus.1, hstatus.2.imp hlater.request ?_ fun _ => hlater.refused⟩
      intro k _ hk
      exact ⟨fun hreached => hlater.replied (hk.1 hreached), fun hnot => hempty (hk.2 hnot)⟩
  | closed batch deadline rpcCall =>
      cases rpcCall with
      | none => exact hlater.refused hstatus
      | some rpcCall =>
          exact ⟨hlater.notAfter hstatus.1, hstatus.2.imp hlater.request
            (fun _ _ => hlater.replied) fun _ => hlater.refused⟩

theorem later_done (call : BatchedCall Q R E) (err : ContextError) : call.Later (call.done err) where
  request := rfl
  deadline := rfl
  sent := rfl
  place := rfl
  ctx before hctx := by simp [done, hctx]
  channelled hchannelled := by
    refine ⟨hchannelled.resp, hchannelled.err, ?_⟩
    intro outcome hreturned
    obtain hsent | ⟨before, hctx, rfl⟩ := hchannelled.returned outcome hreturned
    · exact .inl hsent
    · exact .inr ⟨before, by simp [done, hctx], rfl⟩

theorem later_select (call : BatchedCall Q R E) (taken : SelectCase) :
    call.Later (call.select taken) := by
  unfold select
  split
  · exact ⟨rfl, rfl, rfl, rfl, fun _ => id, id⟩
  next hwaits =>
    cases taken with
    | ctx =>
        refine ⟨rfl, rfl, rfl, rfl, fun _ => id, ?_⟩
        intro hchannelled
        refine ⟨hchannelled.resp, hchannelled.err, ?_⟩
        intro outcome hreturned
        obtain ⟨err, hctx, rfl⟩ := Option.map_eq_some_iff.mp hreturned
        exact .inr ⟨err, hctx, rfl⟩
    | resp =>
        refine ⟨rfl, rfl, rfl, rfl, fun _ => id, ?_⟩
        intro hchannelled
        refine ⟨?_, hchannelled.err, ?_⟩
        · intro resp hresp
          cases hresp
        intro outcome hreturned
        obtain ⟨resp, hresp, rfl⟩ := Option.map_eq_some_iff.mp hreturned
        exact .inl (by simp [hchannelled.resp resp hresp])
    | err =>
        refine ⟨rfl, rfl, rfl, rfl, fun _ => id, ?_⟩
        intro hchannelled
        refine ⟨hchannelled.resp, ?_, ?_⟩
        · intro err herr
          cases herr
        intro outcome hreturned
        obtain ⟨err, herr, rfl⟩ := Option.map_eq_some_iff.mp hreturned
        exact .inl (by simp [hchannelled.err err herr])

/-- A channel that nothing was sent to has room. -/
theorem Channelled.send (hchannelled : call.Channelled) (hsent : call.sent = [])
    (outcome : BatchOutcome R E) :
    ∃ after, call.send outcome = some after ∧ after.request = call.request ∧
      after.deadline = call.deadline ∧ after.place = call.place ∧ after.ctx = call.ctx ∧
      after.sent = [outcome] ∧ after.Channelled := by
  have hresp : call.resp = none := by
    cases hresp : call.resp with
    | none => rfl
    | some resp => simp [hchannelled.resp resp hresp] at hsent
  have herr : call.err = none := by
    cases herr : call.err with
    | none => rfl
    | some err => simp [hchannelled.err err herr] at hsent
  have hreturned : ∀ outcome, call.returned = some outcome → call.OwnError outcome := by
    intro outcome hreturned
    simpa [hsent] using hchannelled.returned outcome hreturned
  cases outcome with
  | ok resp =>
      refine ⟨{ call with resp := some resp, sent := call.sent ++ [.ok resp] },
        by simp [BatchedCall.send, hresp], rfl, rfl, rfl, rfl, by simp [hsent], ?_, ?_, ?_⟩
      · intro other hother
        obtain rfl := Option.some.inj hother
        simp [hsent]
      · intro err hnone
        exact absurd (herr.symm.trans hnone) (by simp)
      · exact fun outcome houtcome => .inr (hreturned outcome houtcome)
  | error err =>
      refine ⟨{ call with err := some err, sent := call.sent ++ [.error err] },
        by simp [BatchedCall.send, herr], rfl, rfl, rfl, rfl, by simp [hsent], ?_, ?_, ?_⟩
      · intro resp hnone
        exact absurd (hresp.symm.trans hnone) (by simp)
      · intro other hother
        obtain rfl := Option.some.inj hother
        simp [hsent]
      · exact fun outcome houtcome => .inr (hreturned outcome houtcome)

end BatchedCall

/-! ## One group goes on -/

namespace WorkerSearchBatcher

variable {rpc : C → Option Int → List Q → Except E (List R)} {limit : Nat}
  {state : WorkerSearchBatcher Q R E C} {g : Nat} {group : WorkerSearchGroup Q C}

theorem callAt_eq {p i : Nat} (hrequest : group.requests[p]? = some i) :
    state.callAt group p = state.calls[i]? := by
  rw [callAt, hrequest]
  rfl

/-- The call of a request, with what it has been sent. -/
theorem WellServed.callAt (hserved : state.WellServed rpc limit)
    (hgroup : state.groups[g]? = some group) {p i : Nat} (hrequest : group.requests[p]? = some i) :
    ∃ call, state.callAt group p = some call ∧ call.place = some (g, p) ∧ call.Channelled ∧
      group.flush.Status rpc p call := by
  obtain ⟨call, hcall, hplace, hstatus⟩ := hserved.placed g group p i hgroup hrequest
  exact ⟨call, (callAt_eq hrequest).trans hcall, hplace,
    hserved.channelled call (List.mem_of_getElem? hcall), hstatus⟩

theorem request_of_callAt {p : Nat} {call : BatchedCall Q R E}
    (hcall : state.callAt group p = some call) :
    ∃ i, group.requests[p]? = some i ∧ state.calls[i]? = some call :=
  Option.bind_eq_some_iff.mp hcall

section

variable (hserved : state.WellServed rpc limit) (hgroup : state.groups[g]? = some group)

include hserved hgroup

/-- No calls but those of a group change, as the group goes on. -/
theorem WellServed.update {flush : Flush Q C} {calls : List (BatchedCall Q R E)}
    {pending : GoMap Bytes Nat}
    (hpending : ∀ addr g', pending.lookup addr = some g' → state.pending.lookup addr = some g' ∧ g' ≠ g)
    (hformed : flush.WellFormed group.requests.length) (hlength : calls.length = state.calls.length)
    (hcalls : ∀ (i : Nat) after, calls[i]? = some after → ∃ call, state.calls[i]? = some call ∧
      after.place = call.place ∧ after.Channelled ∧ (after = call ∨ ∃ p, call.place = some (g, p)))
    (hstatus : ∀ (p i : Nat) after, group.requests[p]? = some i → calls[i]? = some after →
      flush.Status rpc p after) :
    WellServed rpc limit ⟨calls, state.groups.set g { group with flush := flush }, pending⟩ := by
  have hg : g < state.groups.length := (List.getElem?_eq_some_iff.mp hgroup).1
  have hmem := List.mem_of_getElem? hgroup
  constructor
  · intro group' hgroup'
    obtain hold | rfl := List.mem_or_eq_of_mem_set hgroup'
    · exact hserved.bounded group' hold
    · exact hserved.bounded group hmem
  · intro addr g' hlookup
    obtain ⟨hbefore, hne⟩ := hpending addr g' hlookup
    obtain ⟨group', hgroup', haddr, hwaiting⟩ := hserved.pending addr g' hbefore
    exact ⟨group', by rw [List.getElem?_set_ne hne.symm]; exact hgroup', haddr, hwaiting⟩
  · intro group' hgroup'
    obtain hold | rfl := List.mem_or_eq_of_mem_set hgroup'
    · exact hserved.formed group' hold
    · exact hformed
  · intro g' group' p i hgroup' hrequest
    by_cases hsame : g' = g
    · subst hsame
      rw [List.getElem?_set_self hg] at hgroup'
      obtain rfl := Option.some.inj hgroup'
      obtain ⟨call, hcall, hplace, -⟩ := hserved.placed g' group p i hgroup hrequest
      have hi : i < calls.length := by
        rw [hlength]
        exact (List.getElem?_eq_some_iff.mp hcall).1
      obtain ⟨call', hcall', hplace', -⟩ := hcalls i _ (List.getElem?_eq_getElem hi)
      rw [hcall] at hcall'
      obtain rfl := Option.some.inj hcall'
      exact ⟨calls[i], List.getElem?_eq_getElem hi, hplace'.trans hplace,
        hstatus p i _ hrequest (List.getElem?_eq_getElem hi)⟩
    · rw [List.getElem?_set_ne (Ne.symm hsame)] at hgroup'
      obtain ⟨call, hcall, hplace, hstatus'⟩ := hserved.placed g' group' p i hgroup' hrequest
      have hi : i < calls.length := by
        rw [hlength]
        exact (List.getElem?_eq_some_iff.mp hcall).1
      obtain ⟨call', hcall', -, -, hunchanged⟩ := hcalls i _ (List.getElem?_eq_getElem hi)
      rw [hcall] at hcall'
      obtain rfl := Option.some.inj hcall'
      obtain heq | ⟨p', hplace'⟩ := hunchanged
      · exact ⟨call, by rw [List.getElem?_eq_getElem hi, heq], hplace, hstatus'⟩
      · rw [hplace] at hplace'
        injection hplace' with hpair
        exact absurd (Prod.mk.inj hpair).1 hsame
  · intro i after hafter
    obtain ⟨call, hcall, hplace, -, hunchanged⟩ := hcalls i after hafter
    have hfound := hserved.found i call hcall
    rw [hplace]
    cases hcase : call.place with
    | none =>
        rw [hcase] at hfound hunchanged
        obtain rfl | ⟨p, hp⟩ := hunchanged
        · exact hfound
        · cases hp
    | some place =>
        obtain ⟨g', p⟩ := place
        rw [hcase] at hfound
        obtain ⟨group', hgroup', hrequest⟩ := hfound
        by_cases hsame : g' = g
        · subst hsame
          rw [hgroup] at hgroup'
          obtain rfl := Option.some.inj hgroup'
          exact ⟨_, List.getElem?_set_self hg, hrequest⟩
        · exact ⟨group', by rw [List.getElem?_set_ne (Ne.symm hsame)]; exact hgroup', hrequest⟩
  · intro after hafter
    obtain ⟨i, hi⟩ := List.mem_iff_getElem?.mp hafter
    obtain ⟨call, -, -, hchannelled, -⟩ := hcalls i after hi
    exact hchannelled

/-- The same with all calls as they were. -/
theorem WellServed.setFlush {flush : Flush Q C} {pending : GoMap Bytes Nat}
    (hpending : ∀ addr g', pending.lookup addr = some g' → state.pending.lookup addr = some g' ∧ g' ≠ g)
    (hformed : flush.WellFormed group.requests.length)
    (hstatus : ∀ (p : Nat) call, state.callAt group p = some call → group.flush.Status rpc p call →
      flush.Status rpc p call) :
    WellServed rpc limit
      ⟨state.calls, state.groups.set g { group with flush := flush }, pending⟩ := by
  refine hserved.update hgroup hpending hformed rfl ?_ ?_
  · intro i call hcall
    exact ⟨call, hcall, rfl, hserved.channelled call (List.mem_of_getElem? hcall), .inl rfl⟩
  · intro p i call hrequest hcall
    obtain ⟨call', hcall', -, -, hbefore⟩ := hserved.callAt hgroup hrequest
    have hcall'' : state.callAt group p = some call := (callAt_eq hrequest).trans hcall
    rw [hcall'] at hcall''
    obtain rfl := Option.some.inj hcall''
    exact hstatus p call' hcall' hbefore

/-- A group that does not wait is not pending. -/
theorem WellServed.not_pending (hwaiting : group.flush ≠ .waiting) {addr : Bytes} {g' : Nat}
    (hlookup : state.pending.lookup addr = some g') : g' ≠ g := by
  rintro rfl
  obtain ⟨group', hgroup', -, hflush⟩ := hserved.pending addr g' hlookup
  rw [hgroup] at hgroup'
  obtain rfl := Option.some.inj hgroup'
  exact hwaiting hflush

theorem WellServed.timer : (state.timer g group).WellServed rpc limit := by
  unfold WorkerSearchBatcher.timer
  split
  next hwaiting =>
    refine hserved.setFlush hgroup ?_ ?_ ?_
    · intro addr g' hlookup
      rw [GoMap.lookup_erase_if] at hlookup
      split at hlookup
      · cases hlookup
      next haddr =>
        refine ⟨hlookup, ?_⟩
        rintro rfl
        obtain ⟨group', hgroup', haddr', -⟩ := hserved.pending addr g' hlookup
        rw [hgroup] at hgroup'
        obtain rfl := Option.some.inj hgroup'
        exact haddr haddr'.symm
    · simp [Flush.WellFormed]
    · intro p call _ hstatus
      rw [hwaiting] at hstatus
      exact ⟨fun hlt => absurd hlt (Nat.not_lt_zero p), fun _ => hstatus⟩
  · exact hserved

theorem WellServed.reply (call : C) :
    (state.reply g call group).WellServed rpc limit := by
  unfold WorkerSearchBatcher.reply
  split
  next batch deadline hcalling =>
    have hformed := hserved.formed group (List.mem_of_getElem? hgroup)
    rw [hcalling] at hformed
    refine hserved.setFlush hgroup ?_ hformed ?_
    · intro addr g' hlookup
      exact ⟨hlookup, hserved.not_pending hgroup (by rw [hcalling]; simp) hlookup⟩
    · intro p caller _ hstatus
      rw [hcalling] at hstatus
      refine ⟨hstatus.1, hstatus.2.imp rfl ?_ fun _ => id⟩
      intro k _ hsent
      refine ⟨?_, fun _ => hsent⟩
      intro hreached
      cases hanswer : answer rpc batch deadline call <;> rw [hanswer] at hreached <;>
        exact absurd hreached (Nat.not_lt_zero _)
  · exact hserved

end

theorem WellServed.modifyCall (hserved : state.WellServed rpc limit) (i : Nat)
    {change : BatchedCall Q R E → BatchedCall Q R E}
    (hlater : ∀ call : BatchedCall Q R E, call.Later (change call)) :
    (state.modifyCall i change).WellServed rpc limit := by
  have hcall : ∀ (j : Nat) after, (state.modifyCall i change).calls[j]? = some after →
      ∃ call, state.calls[j]? = some call ∧ (after = call ∨ call.Later after) := by
    intro j after hafter
    simp only [WorkerSearchBatcher.modifyCall, List.getElem?_modify] at hafter
    obtain ⟨call, hcall, heq⟩ := Option.map_eq_some_iff.mp hafter
    refine ⟨call, hcall, ?_⟩
    split at heq
    · exact .inr (heq ▸ hlater call)
    · exact .inl heq.symm
  refine ⟨hserved.bounded, hserved.pending, hserved.formed, ?_, ?_, ?_⟩
  · intro g group p j hgroup hrequest
    obtain ⟨call, hj, hplace, hstatus⟩ := hserved.placed g group p j hgroup hrequest
    have hafter : (state.modifyCall i change).calls[j]? =
        some (if i = j then change call else call) := by
      simp [WorkerSearchBatcher.modifyCall, List.getElem?_modify, hj]
    refine ⟨_, hafter, ?_⟩
    split
    · exact ⟨(hlater call).place.trans hplace, (hlater call).status rpc hstatus⟩
    · exact ⟨hplace, hstatus⟩
  · intro j after hafter
    obtain ⟨call, hj, rfl | hafter⟩ := hcall j after hafter
    · exact hserved.found j after hj
    · have hfound := hserved.found j call hj
      rw [hafter.place, hafter.sent]
      exact hfound
  · intro after hafter
    obtain ⟨j, hj⟩ := List.mem_iff_getElem?.mp hafter
    obtain ⟨call, hcall, rfl | hlater⟩ := hcall j after hj
    · exact hserved.channelled after (List.mem_of_getElem? hcall)
    · exact hlater.channelled (hserved.channelled call (List.mem_of_getElem? hcall))

end WorkerSearchBatcher

end Vectron.Gateway
