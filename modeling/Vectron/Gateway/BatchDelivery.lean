import Vectron.Gateway.BatchStatus

/-! # What a batcher delivers

Every step keeps what `BatchStatus` says of the requests, and so does every run: each request gets
at most one outcome, its own.
-/

namespace Vectron.Gateway

open Foundation

variable {Q R E C : Type}

namespace WorkerSearchBatcher

variable {rpc : C → Option Int → List Q → Except E (List R)} {limit : Nat}
  {state : WorkerSearchBatcher Q R E C} {g : Nat} {group : WorkerSearchGroup Q C}

/-! ## A step of a loop -/

theorem answer_length {batch : List (Nat × Q)} {deadline : Option Int} {call : C}
    {responses : List R} (hanswer : answer rpc batch deadline call = .ok responses) :
    responses.length = batch.length := by
  unfold answer at hanswer
  split at hanswer
  · cases hanswer
  · split at hanswer
    · cases hanswer
    next hlength =>
      obtain rfl := Except.ok.inj hanswer
      exact not_not.mp hlength

/-- An entry of a batch with each position once is at one place. -/
theorem place_unique {batch : List (Nat × Q)} (hnodup : (batch.map Prod.fst).Nodup) {p k k' : Nat}
    {request request' : Q} (hk : batch[k]? = some (p, request))
    (hk' : batch[k']? = some (p, request')) : k = k' := by
  have hfst : ∀ {k : Nat} {request : Q}, batch[k]? = some (p, request) →
      (batch.map Prod.fst)[k]? = some p := by
    intro k request hk
    rw [List.getElem?_map, hk]
    rfl
  have hlt : k < (batch.map Prod.fst).length := (List.getElem?_eq_some_iff.mp (hfst hk)).1
  exact (List.getElem?_inj hlt hnodup).mp ((hfst hk).trans (hfst hk').symm)

section

variable (hserved : state.WellServed rpc limit) (hgroup : state.groups[g]? = some group)

include hserved hgroup

/-- The goroutine sends only to requests of its group that nothing was sent to. -/
theorem WellServed.nextSend {p : Nat} {outcome : BatchOutcome R E}
    (hsend : state.nextSend rpc group = some (p, outcome)) :
    ∃ call, state.callAt group p = some call ∧ call.sent = [] := by
  have hformed := hserved.formed group (List.mem_of_getElem? hgroup)
  unfold WorkerSearchBatcher.nextSend at hsend
  cases hflush : group.flush with
  | waiting | calling _ _ | closed _ _ _ => simp [hflush] at hsend
  | scanning next batch =>
      simp only [hflush] at hsend
      split at hsend
      next err hctx =>
        obtain ⟨rfl, -⟩ := Prod.mk.inj (Option.some.inj hsend)
        obtain ⟨call, hcall, -⟩ := Option.bind_eq_some_iff.mp hctx
        obtain ⟨i, hrequest, -⟩ := request_of_callAt hcall
        obtain ⟨call', hcall', -, -, hstatus⟩ := hserved.callAt hgroup hrequest
        rw [hflush] at hstatus
        exact ⟨call', hcall', hstatus.2 (le_refl _)⟩
      next => cases hsend
  | replying batch deadline rpcCall next =>
      simp only [hflush] at hsend hformed
      split at hsend
      next err hanswer =>
        split at hsend
        next hctx =>
          obtain ⟨rfl, -⟩ := Prod.mk.inj (Option.some.inj hsend)
          obtain ⟨call, hcall, hnone⟩ := Option.map_eq_some_iff.mp hctx
          obtain ⟨i, hrequest, -⟩ := request_of_callAt hcall
          obtain ⟨call', hcall', -, -, hstatus⟩ := hserved.callAt hgroup hrequest
          rw [hcall] at hcall'
          obtain rfl := Option.some.inj hcall'
          rw [hflush] at hstatus
          obtain ⟨-, ⟨k, hk, -, hsent⟩ | ⟨-, err', hctx', -⟩⟩ := hstatus
          · refine ⟨call, hcall, hsent ?_⟩
            rw [hanswer]
            exact Nat.lt_irrefl _
          · rw [hnone] at hctx'
            cases hctx'
        next => cases hsend
      next responses hanswer =>
        split at hsend
        next entry resp hentry hresp =>
          obtain ⟨rfl, -⟩ := Prod.mk.inj (Option.some.inj hsend)
          have hp : entry.1 ∈ batch.map Prod.fst :=
            List.mem_map_of_mem (List.mem_of_getElem? hentry)
          have hlt := hformed.2 entry.1 hp
          obtain ⟨call, hcall, -, -, hstatus⟩ :=
            hserved.callAt hgroup (List.getElem?_eq_getElem hlt)
          rw [hflush] at hstatus
          obtain ⟨-, ⟨k, hk, -, hsent⟩ | ⟨hnot, -⟩⟩ := hstatus
          · refine ⟨call, hcall, hsent ?_⟩
            obtain rfl := place_unique hformed.1 hk hentry
            rw [hanswer]
            exact Nat.lt_irrefl _
          · exact absurd hp hnot
        next => cases hsend

theorem WellServed.advance_formed :
    (state.advance rpc group).WellFormed group.requests.length := by
  have hformed := hserved.formed group (List.mem_of_getElem? hgroup)
  unfold WorkerSearchBatcher.advance
  cases hflush : group.flush with
  | waiting | calling _ _ | closed _ _ _ => rw [hflush] at hformed; exact hformed
  | scanning next batch =>
      rw [hflush] at hformed
      obtain ⟨hnodup, hbelow, hle⟩ := hformed
      dsimp only
      split
      · split
        · simp [Flush.WellFormed]
        · exact ⟨hnodup, fun p hp => (hbelow p hp).trans_le hle⟩
      next call hcall =>
        obtain ⟨i, hrequest, -⟩ := request_of_callAt hcall
        have hlt : next < group.requests.length := (List.getElem?_eq_some_iff.mp hrequest).1
        split
        · exact ⟨hnodup, fun p hp => (hbelow p hp).trans (Nat.lt_succ_self _), hlt⟩
        · refine ⟨?_, ?_, hlt⟩
          · rw [List.map_append, List.nodup_append]
            refine ⟨hnodup, by simp, ?_⟩
            intro p hp q hq
            obtain rfl := List.mem_singleton.mp hq
            exact (hbelow p hp).ne
          · intro p hp
            rw [List.map_append, List.mem_append] at hp
            obtain hp | hp := hp
            · exact (hbelow p hp).trans (Nat.lt_succ_self _)
            · obtain rfl := List.mem_singleton.mp hp
              exact Nat.lt_succ_self _
  | replying batch deadline rpcCall next =>
      rw [hflush] at hformed
      dsimp only
      split <;> exact hformed

/-- What the goroutine has sent to the request it comes to next. -/
theorem WellServed.advance_sent {p : Nat} {outcome : BatchOutcome R E}
    (hsend : state.nextSend rpc group = some (p, outcome)) {call after : BatchedCall Q R E}
    (hcall : state.callAt group p = some call) (hstatus : group.flush.Status rpc p call)
    (hrequest : after.request = call.request) (hdeadline : after.deadline = call.deadline)
    (hctx : after.ctx = call.ctx) (hsent : after.sent = [outcome]) :
    (state.advance rpc group).Status rpc p after := by
  have hformed := hserved.formed group (List.mem_of_getElem? hgroup)
  unfold WorkerSearchBatcher.nextSend at hsend
  unfold WorkerSearchBatcher.advance
  cases hflush : group.flush with
  | waiting | calling _ _ | closed _ _ _ => simp [hflush] at hsend
  | scanning next batch =>
      rw [hflush] at hformed
      simp only [hflush] at hsend
      split at hsend
      next err herr =>
        obtain ⟨rfl, rfl⟩ := Prod.mk.inj (Option.some.inj hsend)
        rw [hcall] at herr
        have hdone : call.ctx = some err := herr
        have hnot : next ∉ batch.map Prod.fst := fun hmem =>
          Nat.lt_irrefl _ (hformed.2.1 next hmem)
        simp only [hcall, hdone, Option.isSome_some, if_true]
        refine ⟨fun _ => .inr ⟨hnot, err, hctx.trans hdone, hsent⟩, fun hle => ?_⟩
        omega
      next => cases hsend
  | replying batch deadline rpcCall next =>
      rw [hflush] at hstatus hformed
      simp only [hflush] at hsend
      have hbefore : NotAfter deadline after.deadline := by
        rw [hdeadline]
        exact hstatus.1
      cases hanswer : answer rpc batch deadline rpcCall with
      | error err =>
          simp only [hanswer] at hsend
          split at hsend
          next hnone =>
            obtain ⟨rfl, rfl⟩ := Prod.mk.inj (Option.some.inj hsend)
            obtain ⟨i, hi, -⟩ := request_of_callAt hcall
            have hlt : next < group.requests.length := (List.getElem?_eq_some_iff.mp hi).1
            dsimp only
            rw [hanswer, replySteps, if_pos hlt]
            refine ⟨hbefore, hstatus.2.imp hrequest ?_ ?_⟩
            · intro k _ _
              simp [hanswer, BatchedCall.Reached, BatchedCall.Replied, hsent]
            · rintro - ⟨err', hctx', -⟩
              rw [hcall, Option.map_some] at hnone
              rw [Option.some.inj hnone] at hctx'
              cases hctx'
          next => cases hsend
      | ok responses =>
          simp only [hanswer] at hsend
          split at hsend
          next entry resp hentry hresp =>
            obtain ⟨rfl, rfl⟩ := Prod.mk.inj (Option.some.inj hsend)
            have hlt : next < responses.length := (List.getElem?_eq_some_iff.mp hresp).1
            dsimp only
            rw [hanswer, replySteps, if_pos hlt]
            refine ⟨hbefore, hstatus.2.imp hrequest ?_ ?_⟩
            · intro k hk _
              obtain rfl := place_unique hformed.1 hk hentry
              simp [hanswer, BatchedCall.Reached, BatchedCall.Replied, hsent, hresp]
            · intro hnot _
              exact absurd (List.mem_map_of_mem (List.mem_of_getElem? hentry)) hnot
          next => cases hsend

/-- What the step says of the requests that nothing is sent to. -/
theorem WellServed.advance_others {p : Nat} {call : BatchedCall Q R E}
    (hcall : state.callAt group p = some call)
    (hother : ∀ outcome, state.nextSend rpc group ≠ some (p, outcome))
    (hstatus : group.flush.Status rpc p call) : (state.advance rpc group).Status rpc p call := by
  have hformed := hserved.formed group (List.mem_of_getElem? hgroup)
  obtain ⟨i, hi, hcalls⟩ := request_of_callAt hcall
  have hp : p < group.requests.length := (List.getElem?_eq_some_iff.mp hi).1
  unfold WorkerSearchBatcher.nextSend at hother
  unfold WorkerSearchBatcher.advance
  cases hflush : group.flush with
  | waiting | calling _ _ | closed _ _ _ => rw [hflush] at hstatus; exact hstatus
  | scanning next batch =>
      rw [hflush] at hstatus hformed
      simp only [hflush] at hother
      dsimp only
      cases hnext : state.callAt group next with
      | none =>
          -- the loop is at its end
          have hpast : p < next := by
            by_contra hle
            have hlt : next < group.requests.length := by omega
            obtain ⟨call', hcall', -⟩ := hserved.callAt hgroup (List.getElem?_eq_getElem hlt)
            rw [hnext] at hcall'
            cases hcall'
          have hscanned := hstatus.1 hpast
          dsimp only
          split
          next hempty =>
            subst hempty
            obtain ⟨k, hk, -⟩ | ⟨-, hrefused⟩ := hscanned
            · simp at hk
            · exact hrefused
          next =>
            refine ⟨earliest_notAfter ?_, hscanned⟩
            rw [List.mem_map]
            refine ⟨i, List.mem_of_getElem? hi, ?_⟩
            rw [hcalls]
            rfl
      | some found =>
          simp only [hnext, Option.bind_some] at hother
          dsimp only
          by_cases hsame : p = next
          · subst hsame
            rw [hcall] at hnext
            obtain rfl := Option.some.inj hnext
            have hlive : call.ctx = none := by
              cases hctx : call.ctx with
              | none => rfl
              | some err =>
                  rw [hctx] at hother
                  exact absurd rfl (hother (.error (.ctx err)))
            rw [hlive]
            refine ⟨fun _ => .inl ⟨batch.length, by simp, hstatus.2 (le_refl _)⟩, fun hle => ?_⟩
            omega
          · split
            · refine ⟨fun hlt => hstatus.1 (by omega), fun hle => hstatus.2 (by omega)⟩
            · refine ⟨fun hlt => ?_, fun hle => hstatus.2 (by omega)⟩
              obtain ⟨k, hk, hsent⟩ | ⟨hnot, hrefused⟩ := hstatus.1 (by omega)
              · refine .inl ⟨k, ?_, hsent⟩
                rw [List.getElem?_append_left (List.getElem?_eq_some_iff.mp hk).1]
                exact hk
              · refine .inr ⟨?_, hrefused⟩
                simp only [List.map_append, List.mem_append, not_or]
                exact ⟨hnot, by simpa using hsame⟩
  | replying batch deadline rpcCall next =>
      rw [hflush] at hstatus hformed
      simp only [hflush] at hother
      obtain ⟨hbefore, hscanned⟩ := hstatus
      cases hanswer : answer rpc batch deadline rpcCall with
      | error err =>
          simp only [hanswer, replySteps] at hother hscanned ⊢
          have hreplied : ∀ k, batch[k]? = some (p, call.request) →
              (BatchedCall.Reached (.error err : Except (BatchError E) (List R)) next p k →
                call.Replied (.error err) k) ∧
              (¬BatchedCall.Reached (.error err : Except (BatchError E) (List R)) next p k →
                call.sent = []) →
              (p ≤ next → call.Replied (.error err) k) ∧ (next < p → call.sent = []) := by
            intro k _ hreplied
            refine ⟨fun hle => ?_, fun hlt => hreplied.2 (by simp only [BatchedCall.Reached]; omega)⟩
            obtain rfl | hlt := Nat.eq_or_lt_of_le hle
            · refine .inr ⟨hreplied.2 (Nat.lt_irrefl _), ?_⟩
              rw [hcall, Option.map_some] at hother
              cases hctx : call.ctx with
              | some err => rfl
              | none =>
                  rw [hctx] at hother
                  exact absurd rfl (hother (.error err))
            · exact hreplied.1 hlt
          split
          · refine ⟨hbefore, hscanned.imp rfl ?_ fun _ => id⟩
            intro k hk hold
            obtain ⟨hdone, hleft⟩ := hreplied k hk hold
            rw [hanswer]
            exact ⟨fun hreached => hdone (Nat.lt_succ_iff.mp hreached), fun hnot =>
              hleft (by simp only [BatchedCall.Reached] at hnot; omega)⟩
          next hend =>
            refine ⟨hbefore, hscanned.imp rfl ?_ fun _ => id⟩
            intro k hk hold
            rw [hanswer]
            exact (hreplied k hk hold).1 (by omega)
      | ok responses =>
          simp only [hanswer, replySteps] at hother hscanned ⊢
          have hlength := answer_length hanswer
          split
          next hmore =>
            refine ⟨hbefore, hscanned.imp rfl ?_ fun _ => id⟩
            intro k hk hold
            rw [hanswer]
            have hne : k ≠ next := by
              rintro rfl
              rw [hk, List.getElem?_eq_getElem hmore] at hother
              exact absurd rfl (hother (.ok responses[k]))
            refine ⟨fun hreached => hold.1 ?_, fun hnot => hold.2 ?_⟩
            · simp only [BatchedCall.Reached] at hreached ⊢
              omega
            · simp only [BatchedCall.Reached] at hnot ⊢
              omega
          next hend =>
            refine ⟨hbefore, hscanned.imp rfl ?_ fun _ => id⟩
            intro k hk hold
            rw [hanswer]
            have hlt : k < batch.length := (List.getElem?_eq_some_iff.mp hk).1
            exact hold.1 (by simp only [BatchedCall.Reached]; omega)

theorem WellServed.flush : (state.flush rpc g group).WellServed rpc limit := by
  have hpending : ∀ (hmoves : group.flush ≠ .waiting) addr g',
      state.pending.lookup addr = some g' → state.pending.lookup addr = some g' ∧ g' ≠ g :=
    fun hmoves addr g' hlookup => ⟨hlookup, hserved.not_pending hgroup hmoves hlookup⟩
  have hformed := hserved.advance_formed hgroup
  unfold WorkerSearchBatcher.flush
  split
  next hsend =>
    by_cases hwaiting : group.flush = .waiting
    · -- the timer has not gone off
      have hsame : state.setFlush g group (state.advance rpc group) = state := by
        have hset : ({ group with flush := .waiting } : WorkerSearchGroup Q C) = group := by
          rw [← hwaiting]
        rw [WorkerSearchBatcher.setFlush, advance, hwaiting]
        dsimp only
        obtain ⟨hlt, heq⟩ := List.getElem?_eq_some_iff.mp hgroup
        rw [hset, ← heq, List.set_getElem_self]
      rw [hsame]
      exact hserved
    · refine hserved.setFlush hgroup (hpending hwaiting) hformed ?_
      intro p call hcall hstatus
      exact hserved.advance_others hgroup hcall (by simp [hsend]) hstatus
  next p outcome hsend =>
    have hmoves : group.flush ≠ .waiting := by
      intro hwaiting
      simp [WorkerSearchBatcher.nextSend, hwaiting] at hsend
    obtain ⟨call, hcall, hempty⟩ := hserved.nextSend hgroup hsend
    obtain ⟨i, hrequest, hi⟩ := request_of_callAt hcall
    obtain ⟨call', hcall', hplace, hchannelled, hstatus⟩ := hserved.callAt hgroup hrequest
    rw [hcall] at hcall'
    obtain rfl := Option.some.inj hcall'
    obtain ⟨after, hafter, hrequest', hdeadline, hplace', hctx, hsent, hchannelled'⟩ :=
      hchannelled.send hempty outcome
    rw [hrequest, hcall, Option.bind_some, hafter]
    have hlt : i < state.calls.length := (List.getElem?_eq_some_iff.mp hi).1
    refine hserved.update hgroup (hpending hmoves) hformed List.length_set ?_ ?_
    · intro j found hfound
      by_cases hij : i = j
      · subst hij
        rw [List.getElem?_set_self hlt] at hfound
        obtain rfl := Option.some.inj hfound
        exact ⟨call, hi, hplace', hchannelled', .inr ⟨p, hplace⟩⟩
      · rw [List.getElem?_set_ne hij] at hfound
        exact ⟨found, hfound, rfl, hserved.channelled found (List.mem_of_getElem? hfound), .inl rfl⟩
    · intro p' j found hrequest'' hfound
      by_cases hij : i = j
      · subst hij
        rw [List.getElem?_set_self hlt] at hfound
        obtain rfl := Option.some.inj hfound
        -- the call has one place only
        obtain ⟨call', hcall', hplace'', -⟩ := hserved.placed g group p' i hgroup hrequest''
        rw [hi] at hcall'
        obtain rfl := Option.some.inj hcall'
        rw [hplace] at hplace''
        obtain rfl : p = p' := (Prod.mk.inj (Option.some.inj hplace'')).2
        exact hserved.advance_sent hgroup hsend hcall hstatus hrequest' hdeadline hctx hsent
      · rw [List.getElem?_set_ne hij] at hfound
        obtain ⟨call', hcall', hplace'', -, hstatus'⟩ := hserved.callAt hgroup hrequest''
        have hsame := hcall'.symm.trans ((callAt_eq hrequest'').trans hfound)
        obtain rfl := Option.some.inj hsame
        refine hserved.advance_others hgroup hcall' ?_ hstatus'
        intro other hother
        rw [hsend] at hother
        obtain rfl : p = p' := (Prod.mk.inj (Option.some.inj hother)).1
        rw [hrequest] at hrequest''
        exact hij (Option.some.inj hrequest'')

end

/-! ## Whole runs -/

theorem openGroup_eq_some {addr : Bytes} (hopen : state.openGroup limit addr = some (g, group)) :
    state.pending.lookup addr = some g ∧ state.groups[g]? = some group ∧
      group.requests.length < limit := by
  unfold openGroup at hopen
  split at hopen
  · cases hopen
  next g' hpending =>
    split at hopen
    · cases hopen
    next group' hgroup =>
      split at hopen
      next hroom =>
        obtain ⟨rfl, rfl⟩ := Prod.mk.inj (Option.some.inj hopen)
        exact ⟨hpending, hgroup, hroom⟩
      next => cases hopen

/-- What a list with one more entry has. -/
theorem getElem?_concat {α : Type} {xs : List α} {x y : α} {i : Nat} :
    (xs ++ [x])[i]? = some y ↔ xs[i]? = some y ∨ i = xs.length ∧ x = y := by
  obtain hlt | rfl | hgt := Nat.lt_trichotomy i xs.length
  · rw [List.getElem?_append_left hlt]
    simp [hlt.ne]
  · simp
  · rw [List.getElem?_eq_none (by simpa using hgt), List.getElem?_eq_none hgt.le]
    simp [hgt.ne']

/-- A call that nothing was sent to is added. -/
theorem channelled_append {calls : List (BatchedCall Q R E)} {call : BatchedCall Q R E}
    (hcalls : ∀ call ∈ calls, call.Channelled) (hcall : call.Channelled) :
    ∀ call' ∈ calls ++ [call], call'.Channelled := by
  intro call' hmem
  obtain hmem | hmem := List.mem_append.mp hmem
  · exact hcalls call' hmem
  · obtain rfl := List.mem_singleton.mp hmem
    exact hcall

theorem WellServed.search_refused (hserved : state.WellServed rpc limit) (addr : Bytes)
    (request : Q) (deadline : Option Int) (err : ContextError) :
    (state.search limit addr request deadline (some err)).WellServed rpc limit := by
  refine ⟨hserved.bounded, hserved.pending, hserved.formed, ?_, ?_,
    channelled_append hserved.channelled ?_⟩
  · intro g group p i hgroup hrequest
    obtain ⟨call, hcall, hrest⟩ := hserved.placed g group p i hgroup hrequest
    exact ⟨call, getElem?_concat.mpr (.inl hcall), hrest⟩
  · intro i call hcall
    obtain hcall | ⟨-, rfl⟩ := getElem?_concat.mp hcall
    · exact hserved.found i call hcall
    · rfl
  · refine ⟨by simp, by simp, ?_⟩
    intro outcome houtcome
    exact .inr ⟨err, rfl, (Option.some.inj houtcome).symm⟩

/-- A new call that waits for its reply. -/
theorem channelled_fresh (request : Q) (deadline : Option Int) (place : Option (Nat × Nat)) :
    (⟨request, deadline, none, none, none, none, [], place⟩ : BatchedCall Q R E).Channelled := by
  constructor <;> simp

theorem WellServed.search_appended (hserved : state.WellServed rpc limit) {addr : Bytes}
    (request : Q) (deadline : Option Int) (hopen : state.openGroup limit addr = some (g, group)) :
    (state.search limit addr request deadline none).WellServed rpc limit := by
  obtain ⟨hpending, hgroup, hroom⟩ := openGroup_eq_some hopen
  have hg : g < state.groups.length := (List.getElem?_eq_some_iff.mp hgroup).1
  obtain ⟨group', hgroup', haddr, hwaiting⟩ := hserved.pending addr g hpending
  rw [hgroup] at hgroup'
  obtain rfl := Option.some.inj hgroup'
  rw [WorkerSearchBatcher.search, hopen]
  refine ⟨?_, ?_, ?_, ?_, ?_, channelled_append hserved.channelled (channelled_fresh _ _ _)⟩
  · intro group' hmem
    obtain hold | rfl := List.mem_or_eq_of_mem_set hmem
    · exact hserved.bounded group' hold
    · simpa using hroom
  · intro addr' g' hlookup
    obtain ⟨group', hgroup', hrest⟩ := hserved.pending addr' g' hlookup
    by_cases hsame : g' = g
    · subst hsame
      rw [hgroup] at hgroup'
      obtain rfl := Option.some.inj hgroup'
      exact ⟨_, List.getElem?_set_self hg, hrest⟩
    · exact ⟨group', by rw [List.getElem?_set_ne (Ne.symm hsame)]; exact hgroup', hrest⟩
  · intro group' hmem
    obtain hold | rfl := List.mem_or_eq_of_mem_set hmem
    · exact hserved.formed group' hold
    · rw [hwaiting]
      trivial
  · intro g' group' p i hgroup' hrequest
    by_cases hsame : g' = g
    · subst hsame
      rw [List.getElem?_set_self hg] at hgroup'
      obtain rfl := Option.some.inj hgroup'
      obtain hrequest | ⟨rfl, rfl⟩ := getElem?_concat.mp hrequest
      · obtain ⟨call, hcall, hrest⟩ := hserved.placed g' group p i hgroup hrequest
        exact ⟨call, getElem?_concat.mpr (.inl hcall), hrest⟩
      · refine ⟨_, getElem?_concat.mpr (.inr ⟨rfl, rfl⟩), rfl, ?_⟩
        rw [hwaiting]
        rfl
    · rw [List.getElem?_set_ne (Ne.symm hsame)] at hgroup'
      obtain ⟨call, hcall, hrest⟩ := hserved.placed g' group' p i hgroup' hrequest
      exact ⟨call, getElem?_concat.mpr (.inl hcall), hrest⟩
  · intro i call hcall
    obtain hcall | ⟨rfl, rfl⟩ := getElem?_concat.mp hcall
    · have hfound := hserved.found i call hcall
      cases hplace : call.place with
      | none =>
          rw [hplace] at hfound
          exact hfound
      | some place =>
          obtain ⟨g', p⟩ := place
          rw [hplace] at hfound
          obtain ⟨group', hgroup', hrequest⟩ := hfound
          by_cases hsame : g' = g
          · subst hsame
            rw [hgroup] at hgroup'
            obtain rfl := Option.some.inj hgroup'
            exact ⟨_, List.getElem?_set_self hg, getElem?_concat.mpr (.inl hrequest)⟩
          · exact ⟨group', by rw [List.getElem?_set_ne (Ne.symm hsame)]; exact hgroup', hrequest⟩
    · exact ⟨_, List.getElem?_set_self hg, getElem?_concat.mpr (.inr ⟨rfl, rfl⟩)⟩

theorem WellServed.search_started (hpos : 0 < limit) (hserved : state.WellServed rpc limit)
    {addr : Bytes} (request : Q) (deadline : Option Int)
    (hopen : state.openGroup limit addr = none) :
    (state.search limit addr request deadline none).WellServed rpc limit := by
  rw [WorkerSearchBatcher.search, hopen]
  refine ⟨?_, ?_, ?_, ?_, ?_, channelled_append hserved.channelled (channelled_fresh _ _ _)⟩
  · intro group' hmem
    obtain hmem | hmem := List.mem_append.mp hmem
    · exact hserved.bounded group' hmem
    · obtain rfl := List.mem_singleton.mp hmem
      exact hpos
  · intro addr' g' hlookup
    rw [GoMap.lookup_insert_if] at hlookup
    split at hlookup
    next haddr =>
      obtain rfl := Option.some.inj hlookup
      exact ⟨_, getElem?_concat.mpr (.inr ⟨rfl, rfl⟩), haddr.symm, rfl⟩
    next =>
      obtain ⟨group', hgroup', hrest⟩ := hserved.pending addr' g' hlookup
      exact ⟨group', getElem?_concat.mpr (.inl hgroup'), hrest⟩
  · intro group' hmem
    obtain hmem | hmem := List.mem_append.mp hmem
    · exact hserved.formed group' hmem
    · obtain rfl := List.mem_singleton.mp hmem
      trivial
  · intro g' group' p i hgroup' hrequest
    obtain hgroup' | ⟨rfl, rfl⟩ := getElem?_concat.mp hgroup'
    · obtain ⟨call, hcall, hrest⟩ := hserved.placed g' group' p i hgroup' hrequest
      exact ⟨call, getElem?_concat.mpr (.inl hcall), hrest⟩
    · obtain ⟨rfl, rfl⟩ : p = 0 ∧ i = state.calls.length := by
        cases p with
        | zero => exact ⟨rfl, (Option.some.inj hrequest).symm⟩
        | succ p => simp at hrequest
      exact ⟨_, getElem?_concat.mpr (.inr ⟨rfl, rfl⟩), rfl, rfl⟩
  · intro i call hcall
    obtain hcall | ⟨rfl, rfl⟩ := getElem?_concat.mp hcall
    · have hfound := hserved.found i call hcall
      cases hplace : call.place with
      | none =>
          rw [hplace] at hfound
          exact hfound
      | some place =>
          obtain ⟨g', p⟩ := place
          rw [hplace] at hfound
          obtain ⟨group', hgroup', hrequest⟩ := hfound
          exact ⟨group', getElem?_concat.mpr (.inl hgroup'), hrequest⟩
    · exact ⟨_, getElem?_concat.mpr (.inr ⟨rfl, rfl⟩), rfl⟩

theorem WellServed.step (hpos : 0 < limit) (hserved : state.WellServed rpc limit)
    (op : BatchOp Q C) : (state.step rpc limit op).WellServed rpc limit := by
  have hgroups : ∀ (g : Nat) (next : WorkerSearchGroup Q C → WorkerSearchBatcher Q R E C),
      (∀ group, state.groups[g]? = some group → (next group).WellServed rpc limit) →
        (state.withGroup g next).WellServed rpc limit := by
    intro g next hnext
    unfold withGroup
    split
    · exact hserved
    next group hgroup => exact hnext group hgroup
  cases op with
  | search addr request deadline ctx =>
      cases ctx with
      | some err => exact hserved.search_refused addr request deadline err
      | none =>
          cases hopen : state.openGroup limit addr with
          | none => exact hserved.search_started hpos request deadline hopen
          | some found => exact hserved.search_appended request deadline hopen
  | timer g => exact hgroups g _ fun _ hgroup => hserved.timer hgroup
  | flush g => exact hgroups g _ fun _ hgroup => hserved.flush hgroup
  | reply g call => exact hgroups g _ fun _ hgroup => hserved.reply hgroup call
  | done i err => exact hserved.modifyCall i fun call => call.later_done err
  | select i taken => exact hserved.modifyCall i fun call => call.later_select taken

theorem serve_wellServed (rpc : C → Option Int → List Q → Except E (List R)) (maxBatch : Int)
    (ops : List (BatchOp Q C)) : (serve rpc maxBatch ops).WellServed rpc (batchLimit maxBatch) :=
  Run.run_preserves (WellServed rpc (batchLimit maxBatch))
    (fun _ op hserved => hserved.step (batchLimit_pos maxBatch) op) ops WellServed.new

/-! ## What every run delivers -/

/-- The outcome is the worker's response at the request's own place in the batch of its group, or
the error of the group. -/
def FromGroup (rpc : C → Option Int → List Q → Except E (List R))
    (state : WorkerSearchBatcher Q R E C) (call : BatchedCall Q R E) (outcome : BatchOutcome R E) :
    Prop :=
  ∃ (g p k : Nat) (group : WorkerSearchGroup Q C) (batch : List (Nat × Q)) (deadline : Option Int)
    (rpcCall : C),
    call.place = some (g, p) ∧ state.groups[g]? = some group ∧
      ((∃ next, group.flush = .replying batch deadline rpcCall next) ∨
        group.flush = .closed batch deadline (some rpcCall)) ∧
      batch[k]? = some (p, call.request) ∧
      match answer rpc batch deadline rpcCall with
      | .error err => outcome = .error err
      | .ok responses => ∃ resp, responses[k]? = some resp ∧ outcome = .ok resp

/-- Each request gets at most one outcome and no goroutine waits to hand it over. -/
structure Delivers (rpc : C → Option Int → List Q → Except E (List R)) (limit : Nat)
    (state : WorkerSearchBatcher Q R E C) : Prop where
  bounded : ∀ group ∈ state.groups, group.requests.length ≤ limit
  unblocked : ∀ group ∈ state.groups, ¬state.Blocked rpc group
  once : ∀ call ∈ state.calls, call.sent.length ≤ 1
  sent : ∀ call ∈ state.calls, ∀ outcome ∈ call.sent,
    call.OwnError outcome ∨ state.FromGroup rpc call outcome
  returned : ∀ call ∈ state.calls, ∀ outcome, call.returned = some outcome →
    call.OwnError outcome ∨ outcome ∈ call.sent

theorem WellServed.unblocked (hserved : state.WellServed rpc limit) :
    ∀ group ∈ state.groups, ¬state.Blocked rpc group := by
  rintro group hmem ⟨p, outcome, hsend, hfull⟩
  obtain ⟨g, hgroup⟩ := List.mem_iff_getElem?.mp hmem
  obtain ⟨call, hcall, hempty⟩ := hserved.nextSend hgroup hsend
  obtain ⟨i, -, hi⟩ := request_of_callAt hcall
  obtain ⟨after, hafter, -⟩ :=
    (hserved.channelled call (List.mem_of_getElem? hi)).send hempty outcome
  rw [hcall, Option.bind_some, hafter] at hfull
  cases hfull

/-- What a request of a group was sent. -/
theorem WellServed.sent_cases (hserved : state.WellServed rpc limit) {call : BatchedCall Q R E}
    (hmem : call ∈ state.calls) :
    call.sent = [] ∨ call.Refused ∨
      ∃ outcome, call.sent = [outcome] ∧ state.FromGroup rpc call outcome := by
  obtain ⟨i, hi⟩ := List.mem_iff_getElem?.mp hmem
  have hfound := hserved.found i call hi
  cases hplace : call.place with
  | none =>
      rw [hplace] at hfound
      exact .inl hfound
  | some place =>
      obtain ⟨g, p⟩ := place
      rw [hplace] at hfound
      obtain ⟨group, hgroup, hrequest⟩ := hfound
      obtain ⟨call', hcall', -, hstatus⟩ := hserved.placed g group p i hgroup hrequest
      rw [hi] at hcall'
      obtain rfl := Option.some.inj hcall'
      have hreplied : ∀ {batch : List (Nat × Q)} {deadline : Option Int} {rpcCall : C} {k : Nat},
          ((∃ next, group.flush = .replying batch deadline rpcCall next) ∨
            group.flush = .closed batch deadline (some rpcCall)) →
          batch[k]? = some (p, call.request) → call.Replied (answer rpc batch deadline rpcCall) k →
          call.sent = [] ∨ ∃ outcome, call.sent = [outcome] ∧ state.FromGroup rpc call outcome := by
        intro batch deadline rpcCall k hflush hk hreplied
        cases hanswer : answer rpc batch deadline rpcCall with
        | error err =>
            rw [hanswer] at hreplied
            obtain hsent | ⟨hsent, -⟩ := hreplied
            · refine .inr ⟨_, hsent, g, p, k, group, batch, deadline, rpcCall, hplace, hgroup,
                hflush, hk, ?_⟩
              rw [hanswer]
            · exact .inl hsent
        | ok responses =>
            rw [hanswer] at hreplied
            obtain ⟨resp, hresp, hsent⟩ := hreplied
            refine .inr ⟨_, hsent, g, p, k, group, batch, deadline, rpcCall, hplace, hgroup, hflush,
              hk, ?_⟩
            rw [hanswer]
            exact ⟨resp, hresp, rfl⟩
      cases hflush : group.flush with
      | waiting =>
          rw [hflush] at hstatus
          exact .inl hstatus
      | scanning next batch =>
          rw [hflush] at hstatus
          obtain hlt | hle := Nat.lt_or_ge p next
          · obtain ⟨-, -, hsent⟩ | ⟨-, hrefused⟩ := hstatus.1 hlt
            · exact .inl hsent
            · exact .inr (.inl hrefused)
          · exact .inl (hstatus.2 hle)
      | calling batch deadline =>
          rw [hflush] at hstatus
          obtain ⟨-, ⟨-, -, hsent⟩ | ⟨-, hrefused⟩⟩ := hstatus
          · exact .inl hsent
          · exact .inr (.inl hrefused)
      | replying batch deadline rpcCall next =>
          rw [hflush] at hstatus
          obtain ⟨-, ⟨k, hk, hdone, hleft⟩ | ⟨-, hrefused⟩⟩ := hstatus
          · by_cases hreached : BatchedCall.Reached (answer rpc batch deadline rpcCall) next p k
            · obtain hsent | hsent := hreplied (.inl ⟨next, hflush⟩) hk (hdone hreached)
              · exact .inl hsent
              · exact .inr (.inr hsent)
            · exact .inl (hleft hreached)
          · exact .inr (.inl hrefused)
      | closed batch deadline rpcCall =>
          rw [hflush] at hstatus
          cases rpcCall with
          | none => exact .inr (.inl hstatus)
          | some rpcCall =>
              obtain ⟨-, ⟨k, hk, hdone⟩ | ⟨-, hrefused⟩⟩ := hstatus
              · obtain hsent | hsent := hreplied (.inr hflush) hk hdone
                · exact .inl hsent
                · exact .inr (.inr hsent)
              · exact .inr (.inl hrefused)

/-- Whatever the worker answers, in whatever order things happen. -/
theorem serve_delivers (rpc : C → Option Int → List Q → Except E (List R)) (maxBatch : Int)
    (ops : List (BatchOp Q C)) : (serve rpc maxBatch ops).Delivers rpc (batchLimit maxBatch) := by
  have hserved := serve_wellServed rpc maxBatch ops
  refine ⟨hserved.bounded, hserved.unblocked, ?_, ?_, ?_⟩
  · intro call hmem
    obtain hsent | ⟨err, -, hsent⟩ | ⟨outcome, hsent, -⟩ := hserved.sent_cases hmem <;> simp [hsent]
  · intro call hmem outcome houtcome
    obtain hsent | ⟨err, hctx, hsent⟩ | ⟨outcome', hsent, hgroup⟩ := hserved.sent_cases hmem
    · rw [hsent] at houtcome
      cases houtcome
    · rw [hsent, List.mem_singleton] at houtcome
      exact .inl ⟨err, hctx, houtcome⟩
    · rw [hsent, List.mem_singleton] at houtcome
      rw [houtcome]
      exact .inr hgroup
  · intro call hmem outcome hreturned
    exact ((hserved.channelled call hmem).returned outcome hreturned).symm

/-- A search whose context is done when the timer goes off. -/
def abandoned : List (BatchOp Nat Unit) :=
  [.search [] 7 none none, .done 0 .canceled, .timer 0, .flush 0, .flush 0]

/-- It gets an error that is not that of its group. -/
theorem abandoned_gets_own_error :
    ¬∀ call ∈ (serve (R := Nat) (E := Unit) (fun _ _ reqs => .ok reqs) 16 abandoned).calls,
      ∀ outcome ∈ call.sent,
        (serve (fun _ _ reqs => .ok reqs) 16 abandoned).FromGroup (fun _ _ reqs => .ok reqs) call
          outcome := by
  intro hclaim
  obtain ⟨g, p, k, group, batch, deadline, rpcCall, hplace, hgroup, hflush, hk, -⟩ :=
    hclaim ⟨7, none, some .canceled, none, some (.ctx .canceled), none,
      [.error (.ctx .canceled)], some (0, 0)⟩ (List.mem_singleton.mpr rfl) _
      (List.mem_singleton.mpr rfl)
  obtain ⟨rfl, rfl⟩ := Prod.mk.inj (Option.some.inj hplace)
  obtain rfl := Option.some.inj hgroup
  obtain ⟨next, hnext⟩ | hclosed := hflush
  · cases hnext
  · cases hclosed

end WorkerSearchBatcher

end Vectron.Gateway
