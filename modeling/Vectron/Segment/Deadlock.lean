import Vectron.Segment.Threads

/-! # Seals and the index worker

A seal takes the lock of the manager, sends a barrier through the channel of the index worker
and waits for the answer. The worker answers when it has applied what came before the barrier,
and for that it needs the lock. So a seal ends only if nothing comes before its barrier; with
anything there, the manager is stuck for good.
-/

namespace Vectron.Segment

open Foundation
open Worker (Vector idOf)

/-! ## Who has the lock -/

/-- The stages between `Lock` and `Unlock`. -/
def Stage.hasLock : Stage → Bool
  | .sending => true
  | .awaiting => true
  | .sealing => true
  | .compacting => true
  | _ => false

/-- The caller the worker answers after the flush it is in. -/
def Task.answer : Task → Option Nat
  | .selecting => none
  | .flushing answer => answer
  | .working answer _ => answer

def QueueItem.caller? : QueueItem → Option Nat
  | .operation _ => none
  | .barrier caller => some caller

@[simp] theorem hasLock_enter (request : Request) : request.enter.hasLock = false := by
  cases request <;> rfl

@[simp] theorem hasLock_read (segID : SegmentID) (request : Request) :
    (request.read segID).hasLock = false := by
  cases request <;> rfl

@[simp] theorem hasLock_after (op : IndexOp) : op.after.hasLock = false := by
  unfold IndexOp.after
  cases op.opType <;> rfl

namespace Threads

/-- The callers whose barrier is not answered. -/
def outstanding (s : Threads) : List Nat :=
  s.worker.answer.toList ++ s.channel.filterMap QueueItem.caller?

/-- The lock is held by the caller that is past it, and a barrier is that of a caller who waits
for it. -/
structure Guarded (s : Threads) : Prop where
  holder : ∀ caller, s.lock = some caller ↔ (s.stage caller).hasLock = true
  waits : ∀ caller ∈ s.outstanding, s.stage caller = .awaiting
  single : s.outstanding.length ≤ 1

theorem guarded_start (c : Config) (now : Nat) : (start c now).Guarded where
  holder caller := by simp [start, stage, Stage.hasLock]
  waits caller hmem := by cases hmem
  single := Nat.zero_le _

variable {ix : Indexer} {s s' : Threads} {caller : Nat}

namespace Guarded

section

variable (hguarded : s.Guarded)

include hguarded

theorem lock_of_awaiting (hstage : s.stage caller = .awaiting) :
    s.lock = some caller := by
  rw [hguarded.holder, hstage]
  rfl

/-- Nobody waits for an answer unless the holder of the lock does. -/
theorem outstanding_eq_nil (hlock : ∀ holder, s.lock = some holder → s.stage holder ≠ .awaiting) :
    s.outstanding = [] := by
  rw [List.eq_nil_iff_forall_not_mem]
  intro caller hmem
  have hstage := hguarded.waits caller hmem
  exact hlock caller (hguarded.lock_of_awaiting hstage) hstage

/-- A caller goes from one stage to another, without the lock. -/
theorem shift {next : Stage} (hbefore : (s.stage caller).hasLock = false)
    (hafter : next.hasLock = false)
    (hstage : ∀ other, s'.stage other = if other = caller then next else s.stage other)
    (hlock : s'.lock = s.lock) (houtstanding : s'.outstanding = s.outstanding) : s'.Guarded := by
  refine ⟨fun other => ?_, fun other hmem => ?_, by rw [houtstanding]; exact hguarded.single⟩
  · rw [hlock, hguarded.holder, hstage]
    split
    next heq =>
      subst heq
      rw [hbefore, hafter]
    next => rfl
  · rw [houtstanding] at hmem
    have hother := hguarded.waits other hmem
    rw [hstage, if_neg, hother]
    intro heq
    subst heq
    rw [hother] at hbefore
    cases hbefore

/-- A caller that waited for the lock gets it. -/
theorem lock {next : Stage} (hafter : next.hasLock = true) (hfree : s.lock = none) :
    Guarded { s.setStage caller next with lock := some caller } := by
  have hnil : s.outstanding = [] := by
    apply hguarded.outstanding_eq_nil
    intro holder hholder
    rw [hfree] at hholder
    cases hholder
  have hstage : ∀ other, ({ s.setStage caller next with lock := some caller } : Threads).stage
      other = if other = caller then next else s.stage other := stage_setStage s caller next
  have houtstanding : ({ s.setStage caller next with lock := some caller } : Threads).outstanding =
      [] := hnil
  refine ⟨fun other => ?_, fun other hmem => ?_, by rw [houtstanding]; exact Nat.zero_le _⟩
  · rw [hstage]
    by_cases hother : other = caller
    · simp [hother, hafter]
    · have hothers := hguarded.holder other
      rw [hfree] at hothers
      simp only [hother, if_false, Option.some.injEq, ← hothers]
      simpa using Ne.symm hother
  · rw [houtstanding] at hmem
    cases hmem

/-- The holder of the lock gives it back. -/
theorem unlock {next : Stage} (hlock : s.lock = some caller) (hbefore : s.stage caller ≠ .awaiting)
    (hafter : next.hasLock = false)
    (hstage : ∀ other, s'.stage other = if other = caller then next else s.stage other)
    (hfree : s'.lock = none) (houtstanding : s'.outstanding = s.outstanding) : s'.Guarded := by
  have hnil : s'.outstanding = [] := by
    rw [houtstanding]
    apply hguarded.outstanding_eq_nil
    intro holder hholder
    obtain rfl := Option.some.inj (hlock.symm.trans hholder)
    exact hbefore
  refine ⟨fun other => ?_, fun other hmem => ?_, by rw [hnil]; exact Nat.zero_le _⟩
  · rw [hfree, hstage]
    by_cases hother : other = caller
    · simp [hother, hafter]
    · have hothers := hguarded.holder other
      rw [hlock] at hothers
      have hne : ¬ (some caller = some other) := fun heq => hother (Option.some.inj heq).symm
      simp only [hother, if_false, ← hothers, hne]
      exact iff_of_false nofun nofun
  · rw [hnil] at hmem
    cases hmem

theorem send (hstage : s.stage caller = .sending) :
    Guarded { s.setStage caller .awaiting with
      channel := s.channel ++ [.barrier caller] } := by
  have hlock : s.lock = some caller := (hguarded.holder caller).mpr (by rw [hstage]; rfl)
  have hnil : s.outstanding = [] := by
    apply hguarded.outstanding_eq_nil
    intro holder hholder
    obtain rfl := Option.some.inj (hlock.symm.trans hholder)
    rw [hstage]
    exact nofun
  have hnext : ∀ other, ({ s.setStage caller .awaiting with
      channel := s.channel ++ [.barrier caller] } : Threads).stage other =
        if other = caller then .awaiting else s.stage other := stage_setStage s caller .awaiting
  have houtstanding : ({ s.setStage caller .awaiting with
      channel := s.channel ++ [.barrier caller] } : Threads).outstanding = [caller] := by
    have hsplit : ({ s.setStage caller .awaiting with
        channel := s.channel ++ [.barrier caller] } : Threads).outstanding =
          s.outstanding ++ [caller] := by
      simp [outstanding, setStage, QueueItem.caller?]
    rw [hsplit, hnil, List.nil_append]
  refine ⟨fun other => ?_, fun other hmem => ?_, by rw [houtstanding]; exact Nat.le_refl _⟩
  · rw [hnext]
    split
    next heq =>
      subst heq
      exact iff_of_true hlock rfl
    next => exact hguarded.holder other
  · rw [houtstanding, List.mem_singleton] at hmem
    rw [hnext, if_pos hmem]

/-- The worker goes on without an answer. -/
theorem shiftWorker (hcalls : s'.calls = s.calls) (hlock : s'.lock = s.lock)
    (houtstanding : s'.outstanding = s.outstanding) : s'.Guarded := by
  have hstage : ∀ other, s'.stage other = s.stage other := by
    intro other
    unfold Threads.stage
    rw [hcalls]
  refine ⟨fun other => ?_, fun other hmem => ?_, by rw [houtstanding]; exact hguarded.single⟩
  · rw [hlock, hstage]
    exact hguarded.holder other
  · rw [houtstanding] at hmem
    rw [hstage]
    exact hguarded.waits other hmem

/-- The worker answers, and the caller goes on with the seal. -/
theorem close {answer : Option Nat} (hworker : s.worker = .flushing answer) :
    (s.close answer).Guarded := by
  cases answer with
  | none =>
      refine hguarded.shiftWorker rfl rfl ?_
      unfold outstanding
      rw [hworker]
      rfl
  | some caller =>
      have hlist : s.outstanding = caller :: s.channel.filterMap QueueItem.caller? := by
        unfold outstanding
        rw [hworker]
        rfl
      have hnil : (s.close (some caller)).outstanding = [] := by
        have hsingle := hguarded.single
        rw [hlist, List.length_cons] at hsingle
        exact List.length_eq_zero_iff.mp (Nat.le_zero.mp (Nat.le_of_succ_le_succ hsingle))
      have hcaller : s.stage caller = .awaiting :=
        hguarded.waits caller (by rw [hlist]; exact List.mem_cons_self)
      have hlock := hguarded.lock_of_awaiting hcaller
      have hstage : ∀ other, (s.close (some caller)).stage other =
          if other = caller then .sealing else s.stage other := stage_setStage s caller .sealing
      refine ⟨fun other => ?_, fun other hmem => ?_, by rw [hnil]; exact Nat.zero_le _⟩
      · rw [hstage]
        split
        next heq =>
          subst heq
          exact iff_of_true hlock rfl
        next => exact hguarded.holder other
      · rw [hnil] at hmem
        cases hmem

/-- Every change keeps it. -/
theorem change {move : Move} (hchange : Change ix s move s') :
    s'.Guarded := by
  cases hchange with
  | store docs hidle
  | delete id hidle =>
      exact hguarded.shift (by rw [hidle]; rfl) rfl (stage_setStage s _ _) rfl rfl
  | enter hidle =>
      exact hguarded.shift (by rw [hidle]; rfl) (hasLock_enter _) (stage_setStage s _ _) rfl rfl
  | read request hstage =>
      exact hguarded.shift (by rw [hstage]; rfl) (hasLock_read _ _) (stage_setStage s _ _) rfl rfl
  | reserve op hstage
  | refuse op hstage
  | full op hstage
  | startCall op hstage
  | loadCall work id rest hstage
  | pass errand hstage =>
      exact hguarded.shift (by rw [hstage]; rfl) rfl (stage_setStage s _ _) rfl rfl
  | enqueue op hstage =>
      refine hguarded.shift (by rw [hstage]; rfl) (hasLock_after op) (stage_setStage s _ _) rfl ?_
      simp [outstanding, setStage, QueueItem.caller?]
  | dropCall op hstage =>
      exact hguarded.shift (by rw [hstage]; rfl) (hasLock_after op) (stage_setStage s _ _) rfl rfl
  | finishCall work hstage =>
      exact hguarded.shift (by rw [hstage]; rfl) (hasLock_after _) (stage_setStage s _ _) rfl rfl
  | check segID hstage next hnext =>
      refine hguarded.shift (by rw [hstage]; rfl) ?_ (stage_setStage s _ _) rfl rfl
      rcases hnext with rfl | rfl
      · rfl
      · rfl
  | lockSeal hstage hlock
  | lockCompact hstage hlock => exact hguarded.lock rfl hlock
  | send hstage => exact hguarded.send hstage
  | replace hstage
  | release hstage =>
      refine hguarded.unlock ((hguarded.holder _).mpr (by rw [hstage]; rfl)) ?_ rfl
        (stage_setStage s _ _) rfl rfl
      rw [hstage]
      exact nofun
  | receive op rest hworker hchannel task htask =>
      refine hguarded.shiftWorker rfl rfl ?_
      unfold outstanding
      rw [hworker, hchannel]
      rcases htask with rfl | rfl
      · rfl
      · rfl
  | receiveBarrier caller rest hworker hchannel =>
      refine hguarded.shiftWorker rfl rfl ?_
      unfold outstanding
      rw [hworker, hchannel]
      rfl
  | timer hworker
  | startWork answer op rest hworker
  | loadWork answer work id rest hworker
  | finishWork answer work hworker =>
      refine hguarded.shiftWorker rfl rfl ?_
      unfold outstanding
      rw [hworker]
      rfl
  | close answer hworker => exact hguarded.close hworker
  | dropWork answer op rest hworker => exact hguarded.shiftWorker rfl rfl rfl

end

end Guarded

end Threads

/-! ## Seals that find the queue empty -/

/-- A caller that goes on starts a seal only if nothing is queued, and puts nothing into the
channel before the barrier of one. -/
def Stage.Unqueued (ix : Indexer) (s : Threads) (now : Nat) : Stage → Prop
  | .locking .triggerSeal =>
      s.lock = none → s.mutable.shouldSeal ix.toConfig now = true → s.queue = []
  | .enqueueing _ => ∀ holder ∈ s.lock, s.stage holder ≠ .sending
  | _ => True

instance (ix : Indexer) (s : Threads) (now : Nat) :
    ∀ stage : Stage, Decidable (stage.Unqueued ix s now)
  | .idle => isTrue trivial
  | .reading _ => isTrue trivial
  | .reserving _ => isTrue trivial
  | .enqueueing _ => inferInstanceAs (Decidable (∀ holder ∈ s.lock, _))
  | .applying _ => isTrue trivial
  | .working _ => isTrue trivial
  | .checking _ => isTrue trivial
  | .locking .triggerSeal => inferInstanceAs (Decidable (_ → _ → _))
  | .locking (.bury _) => isTrue trivial
  | .locking .compact => isTrue trivial
  | .sending => isTrue trivial
  | .awaiting => isTrue trivial
  | .sealing => isTrue trivial
  | .compacting => isTrue trivial

/-- Seals find the queue empty. -/
def Unqueued (ix : Indexer) (s : Threads) : Move → Prop
  | .proceed caller now => (s.stage caller).Unqueued ix s now
  | _ => True

instance (ix : Indexer) (s : Threads) : ∀ move, Decidable (Unqueued ix s move)
  | .begin_ _ _ => isTrue trivial
  | .proceed caller now => inferInstanceAs (Decidable ((s.stage caller).Unqueued ix s now))
  | .receive => isTrue trivial
  | .timer => isTrue trivial
  | .work => isTrue trivial

theorem Unqueued.of_stage {ix : Indexer} {s : Threads} {caller now : Nat} {stage : Stage}
    (hunqueued : Unqueued ix s (.proceed caller now)) (hstage : s.stage caller = stage) :
    stage.Unqueued ix s now := by
  have hcaller : (s.stage caller).Unqueued ix s now := hunqueued
  rw [hstage] at hcaller
  exact hcaller

namespace Threads

/-- With a seal underway, nothing comes before its barrier. -/
structure Clear (s : Threads) : Prop extends Guarded s where
  sending : ∀ caller, s.stage caller = .sending → s.buffer = [] ∧ s.channel = []
  awaiting : ∀ caller, s.stage caller = .awaiting → s.buffer = [] ∧
    (s.worker.answer = some caller ∨ ∃ rest, s.channel = .barrier caller :: rest)

theorem clear_start (c : Config) (now : Nat) : (start c now).Clear where
  toGuarded := guarded_start c now
  sending caller hstage := by cases hstage
  awaiting caller hstage := by cases hstage

variable {ix : Indexer} {s s' : Threads} {caller : Nat}

namespace Clear

/-- Nobody waits for the worker while the lock is free or has another holder. -/
theorem of_lock (hguarded : s'.Guarded)
    (hlock : ∀ holder, s'.lock = some holder →
      s'.stage holder ≠ .sending ∧ s'.stage holder ≠ .awaiting) : s'.Clear := by
  refine ⟨hguarded, fun caller hstage => ?_, fun caller hstage => ?_⟩
  · have hholder : s'.lock = some caller := (hguarded.holder caller).mpr (by rw [hstage]; rfl)
    exact absurd hstage (hlock caller hholder).1
  · exact absurd hstage (hlock caller (hguarded.lock_of_awaiting hstage)).2

/-- A change that leaves alone what a seal waits for. -/
theorem of_same (hclear : s.Clear) (hguarded : s'.Guarded)
    (hstage : ∀ other, s'.stage other = .sending ∨ s'.stage other = .awaiting →
      s'.stage other = s.stage other)
    (hbuffer : s'.buffer = s.buffer) (hchannel : s'.channel = s.channel)
    (hanswer : s'.worker.answer = s.worker.answer) : s'.Clear := by
  refine ⟨hguarded, fun other hother => ?_, fun other hother => ?_⟩
  · rw [hbuffer, hchannel]
    exact hclear.sending other ((hstage other (Or.inl hother)).symm.trans hother)
  · rw [hbuffer, hchannel, hanswer]
    exact hclear.awaiting other ((hstage other (Or.inr hother)).symm.trans hother)

/-- A caller goes on, without the lock. -/
theorem shift (hclear : s.Clear) (hguarded : s'.Guarded) {next : Stage}
    (hafter : next.hasLock = false)
    (hstage : ∀ other, s'.stage other = if other = caller then next else s.stage other)
    (hbuffer : s'.buffer = s.buffer) (hchannel : s'.channel = s.channel)
    (hworker : s'.worker = s.worker) : s'.Clear := by
  refine hclear.of_same hguarded (fun other hother => ?_) hbuffer hchannel (by rw [hworker])
  rw [hstage] at hother ⊢
  split at hother
  next =>
    rcases hother with rfl | rfl
    · cases hafter
    · cases hafter
  next hne => rw [if_neg hne]

theorem enqueue (hclear : s.Clear) {op : IndexOp}
    (hbehind : ∀ holder ∈ s.lock, s.stage holder ≠ .sending)
    (hguarded : Guarded { s.setStage caller op.after with
      channel := s.channel ++ [.operation op] }) :
    Clear { s.setStage caller op.after with channel := s.channel ++ [.operation op] } := by
  have hnext : ∀ other, ({ s.setStage caller op.after with
      channel := s.channel ++ [.operation op] } : Threads).stage other =
        if other = caller then op.after else s.stage other := stage_setStage s caller op.after
  have hsame : ∀ other stage, stage.hasLock = true → ({ s.setStage caller op.after with
      channel := s.channel ++ [.operation op] } : Threads).stage other = stage →
        s.stage other = stage := by
    intro other stage hlock hother
    rw [hnext] at hother
    split at hother
    next =>
      rw [← hother, hasLock_after] at hlock
      cases hlock
    next => exact hother
  refine ⟨hguarded, fun other hother => ?_, fun other hother => ?_⟩
  · have hsending := hsame other _ rfl hother
    have hholder : s.lock = some other := (hclear.holder other).mpr (by rw [hsending]; rfl)
    exact absurd hsending (hbehind other hholder)
  · obtain ⟨hbuffer, hbarrier⟩ := hclear.awaiting other (hsame other _ rfl hother)
    refine ⟨hbuffer, ?_⟩
    rcases hbarrier with hanswer | ⟨rest, hchannel⟩
    · exact Or.inl hanswer
    · refine Or.inr ⟨rest ++ [.operation op], ?_⟩
      simp only
      rw [hchannel, List.cons_append]

/-- The lock is free and nothing is queued: the channel is empty. -/
theorem channel_eq_nil (hguarded : s.Guarded) (hfree : s.lock = none) (hqueue : s.queue = []) :
    s.channel = [] := by
  have hops := (List.append_eq_nil_iff.mp hqueue).2
  cases hchannel : s.channel with
  | nil => rfl
  | cons item rest =>
      cases item with
      | operation op =>
          rw [hchannel] at hops
          cases hops
      | barrier caller =>
          have hmem : caller ∈ s.outstanding := by
            unfold outstanding
            rw [hchannel]
            simp [QueueItem.caller?]
          have hlock := hguarded.lock_of_awaiting (hguarded.waits caller hmem)
          rw [hfree] at hlock
          cases hlock

section

variable (hclear : s.Clear)

include hclear

/-- A seal starts. -/
theorem lockSeal (hfree : s.lock = none) (hqueue : s.queue = [])
    (hguarded : Guarded { s.setStage caller .sending with lock := some caller }) :
    Clear { s.setStage caller .sending with lock := some caller } := by
  have hnext : ∀ other, ({ s.setStage caller .sending with lock := some caller } : Threads).stage
      other = if other = caller then .sending else s.stage other := stage_setStage s caller .sending
  refine ⟨hguarded, fun other hother => ?_, fun other hother => ?_⟩
  · have hchannel : s.channel = [] := channel_eq_nil hclear.toGuarded hfree hqueue
    exact ⟨(List.append_eq_nil_iff.mp hqueue).1, hchannel⟩
  · have hholder := hguarded.lock_of_awaiting hother
    obtain rfl := Option.some.inj hholder
    rw [hnext, if_pos rfl] at hother
    cases hother

theorem send (hstage : s.stage caller = .sending)
    (hguarded : Guarded { s.setStage caller .awaiting with channel := s.channel ++ [.barrier caller] }) :
    Clear { s.setStage caller .awaiting with channel := s.channel ++ [.barrier caller] } := by
  have hlock : s.lock = some caller := (hclear.holder caller).mpr (by rw [hstage]; rfl)
  have hnext : ∀ other, ({ s.setStage caller .awaiting with
      channel := s.channel ++ [.barrier caller] } : Threads).stage other =
        if other = caller then .awaiting else s.stage other := stage_setStage s caller .awaiting
  obtain ⟨hbuffer, hchannel⟩ := hclear.sending caller hstage
  refine ⟨hguarded, fun other hother => ?_, fun other hother => ?_⟩
  · have hholder := (hguarded.holder other).mpr (by rw [hother]; rfl)
    obtain rfl := Option.some.inj (hlock.symm.trans hholder)
    rw [hnext, if_pos rfl] at hother
    cases hother
  · have hholder := hguarded.lock_of_awaiting hother
    obtain rfl := Option.some.inj (hlock.symm.trans hholder)
    refine ⟨hbuffer, Or.inr ⟨[], ?_⟩⟩
    simp only
    rw [hchannel, List.nil_append]

/-- The worker reaches the barrier. -/
theorem receiveBarrier {rest : List QueueItem} (hchannel : s.channel = .barrier caller :: rest)
    (hguarded : Guarded { s with channel := rest, worker := .flushing (some caller) }) :
    Clear { s with channel := rest, worker := .flushing (some caller) } := by
  have hwaits : s.stage caller = .awaiting := by
    refine hclear.waits caller ?_
    unfold outstanding
    rw [hchannel]
    simp [QueueItem.caller?]
  have hlock := hclear.lock_of_awaiting hwaits
  refine ⟨hguarded, fun other hother => ?_, fun other hother => ?_⟩
  · have hholder := (hguarded.holder other).mpr (by rw [hother]; rfl)
    obtain rfl := Option.some.inj (hlock.symm.trans hholder)
    exact absurd (hwaits.symm.trans hother) nofun
  · have hholder := hguarded.lock_of_awaiting hother
    obtain rfl := Option.some.inj (hlock.symm.trans hholder)
    exact ⟨(hclear.awaiting _ hwaits).1, Or.inl rfl⟩

theorem close {answer : Option Nat} (hworker : s.worker = .flushing answer)
    (hguarded : (s.close answer).Guarded) : (s.close answer).Clear := by
  cases answer with
  | none =>
      refine hclear.of_same hguarded (fun _ _ => rfl) rfl rfl ?_
      rw [hworker]
      rfl
  | some caller =>
      have hwaits : s.stage caller = .awaiting := by
        refine hclear.waits caller ?_
        unfold outstanding
        rw [hworker]
        exact List.mem_append_left _ (List.mem_singleton_self _)
      have hlock : (s.close (some caller)).lock = some caller := hclear.lock_of_awaiting hwaits
      refine of_lock hguarded fun holder hholder => ?_
      obtain rfl := Option.some.inj (hlock.symm.trans hholder)
      have hsealing : (s.close (some caller)).stage caller = .sealing := by
        refine (stage_setStage s caller .sealing caller).trans ?_
        rw [if_pos rfl]
      rw [hsealing]
      exact ⟨nofun, nofun⟩

/-- An operation is received only while nobody waits. -/
theorem receive {op : IndexOp} {rest : List QueueItem} {task : Task}
    (hworker : s.worker = .selecting) (hchannel : s.channel = .operation op :: rest)
    (hguarded : Guarded { s with channel := rest, buffer := s.buffer ++ [op], worker := task }) :
    Clear { s with channel := rest, buffer := s.buffer ++ [op], worker := task } := by
  refine of_lock hguarded fun holder hholder => ⟨fun hstage => ?_, fun hstage => ?_⟩
  · have hnil := (hclear.sending holder hstage).2
    rw [hchannel] at hnil
    cases hnil
  · rcases (hclear.awaiting holder hstage).2 with hanswer | ⟨others, hhead⟩
    · rw [hworker] at hanswer
      cases hanswer
    · rw [hchannel] at hhead
      cases hhead

end

/-- What a flush does while the lock is free. -/
theorem of_free (hguarded : s'.Guarded) (hfree : s'.lock = none) : s'.Clear := by
  refine of_lock hguarded fun holder hholder => ?_
  rw [hfree] at hholder
  cases hholder

theorem change (hclear : s.Clear) {move : Move} (hunqueued : Unqueued ix s move)
    (hchange : Change ix s move s') : s'.Clear := by
  have hguarded := hclear.toGuarded.change hchange
  cases hchange with
  | store docs hidle
  | delete id hidle
  | reserve op hstage
  | refuse op hstage
  | full op hstage
  | startCall op hstage
  | pass errand hstage => exact hclear.shift hguarded rfl (stage_setStage s _ _) rfl rfl rfl
  | enter hidle =>
      exact hclear.shift hguarded (hasLock_enter _) (stage_setStage s _ _) rfl rfl rfl
  | read request hstage =>
      exact hclear.shift hguarded (hasLock_read _ _) (stage_setStage s _ _) rfl rfl rfl
  | enqueue op hstage =>
      exact hclear.enqueue (hunqueued.of_stage hstage) hguarded
  | dropCall op hstage =>
      exact hclear.shift hguarded (hasLock_after op) (stage_setStage s _ _) rfl rfl rfl
  | loadCall work id rest hstage =>
      exact hclear.shift hguarded rfl (stage_setStage s _ _) rfl rfl rfl
  | finishCall work hstage =>
      exact hclear.shift hguarded (hasLock_after _) (stage_setStage s _ _) rfl rfl rfl
  | check segID hstage next hnext =>
      refine hclear.shift hguarded ?_ (stage_setStage s _ _) rfl rfl rfl
      rcases hnext with rfl | rfl
      · rfl
      · rfl
  | lockSeal hstage hfree hfull =>
      exact hclear.lockSeal hfree (hunqueued.of_stage hstage hfree hfull) hguarded
  | @lockCompact caller _ hstage hfree =>
      refine of_lock hguarded fun holder hholder => ?_
      obtain rfl := Option.some.inj hholder
      have hcompacting : ({ s.setStage caller .compacting with lock := some caller } :
          Threads).stage caller = .compacting := by
        refine (stage_setStage s caller .compacting caller).trans ?_
        rw [if_pos rfl]
      rw [hcompacting]
      exact ⟨nofun, nofun⟩
  | send hstage => exact hclear.send hstage hguarded
  | replace hstage
  | release hstage => exact of_free hguarded rfl
  | receive op rest hworker hchannel => exact hclear.receive hworker hchannel hguarded
  | receiveBarrier caller rest hworker hchannel => exact hclear.receiveBarrier hchannel hguarded
  | timer hworker hbuffer =>
      refine of_lock hguarded fun holder hholder => ⟨fun hstage => ?_, fun hstage => ?_⟩
      · exact hbuffer (hclear.sending holder hstage).1
      · exact hbuffer (hclear.awaiting holder hstage).1
  | close answer hworker => exact hclear.close hworker hguarded
  | startWork answer op rest hworker hbuffer hfree
  | dropWork answer op rest hworker hbuffer hfree => exact of_free hguarded hfree
  | loadWork answer work id rest hworker
  | finishWork answer work hworker =>
      refine hclear.of_same hguarded (fun _ _ => rfl) rfl rfl ?_
      rw [hworker]
      rfl

end Clear

/-! ## No deadlock -/

/-- A seal waits for the worker with the lock in hand, and the worker waits for the lock. -/
def Stuck (s : Threads) : Prop :=
  ∃ caller, s.lock = some caller ∧ (s.stage caller = .sending ∨ s.stage caller = .awaiting) ∧
    (∃ answer, s.worker = .flushing answer) ∧ s.buffer ≠ []

/-- A call is not over, or something is left to index. -/
def Busy (s : Threads) : Prop :=
  (∃ caller, s.stage caller ≠ .idle) ∨ s.channel ≠ [] ∨ s.buffer ≠ [] ∨ s.worker ≠ .selecting

/-- A move of a call that has begun, or of the worker. -/
def Move.isInner : Move → Bool
  | .begin_ _ _ => false
  | _ => true

/-- The move takes the lock for reading. -/
def reads (s : Threads) : Move → Bool
  | .proceed caller _ =>
      match s.stage caller with
      | .reading _ => true
      | .applying _ => true
      | _ => false
  | .work => decide (s.buffer ≠ [])
  | _ => false

/-- Some call or the worker can go on; it does not need to get past a writer that waits for
the lock. -/
def Goes (ix : Indexer) (s : Threads) : Prop :=
  ∃ move, Move.isInner move = true ∧ (s.attempt ix move).isSome = true ∧
    (s.reads move = true → ∀ caller errand, s.stage caller ≠ .locking errand)

/-- The worker can go on if it does not need the lock or the lock is free. -/
theorem worker_goes (hbusy : s.channel ≠ [] ∨ s.buffer ≠ [] ∨ s.worker ≠ .selecting)
    (hlock : s.buffer = [] ∨ s.lock = none ∧ ∀ caller errand, s.stage caller ≠ .locking errand) :
    s.Goes ix := by
  cases hworker : s.worker with
  | selecting =>
      cases hchannel : s.channel with
      | nil =>
          have hbuffer : s.buffer ≠ [] := by simpa [hchannel, hworker] using hbusy
          obtain ⟨op, rest, hcons⟩ := List.exists_cons_of_ne_nil hbuffer
          refine ⟨.timer, rfl, ?_, nofun⟩
          simp [attempt, timer, hworker, hcons]
      | cons item rest =>
          refine ⟨.receive, rfl, ?_, nofun⟩
          cases item <;> simp [attempt, receive, hworker, hchannel]
  | flushing answer =>
      cases hbuffer : s.buffer with
      | nil =>
          refine ⟨.work, rfl, ?_, fun hreads => ?_⟩
          · simp [attempt, work, hworker, hbuffer]
          · simp [reads, hbuffer] at hreads
      | cons op rest =>
          obtain ⟨hfree, hnobody⟩ := hlock.resolve_left (by rw [hbuffer]; exact nofun)
          refine ⟨.work, rfl, ?_, fun _ => hnobody⟩
          by_cases hseg : s.mutable.id = op.segID
          · simp [attempt, work, hworker, hbuffer, hfree, hseg]
          · simp [attempt, work, hworker, hbuffer, hfree, hseg]
  | working answer task =>
      refine ⟨.work, rfl, ?_, fun hreads => ?_⟩
      · cases hrest : task.rest <;> simp [attempt, work, hworker, hrest]
      · rcases hlock with hnil | ⟨_, hnobody⟩
        · simp [reads, hnil] at hreads
        · exact hnobody

/-- A call can go on while the lock is free. -/
theorem call_goes (hguarded : s.Guarded) (hfree : s.lock = none)
    (hnobody : ∀ caller errand, s.stage caller ≠ .locking errand)
    (hstage : s.stage caller ≠ .idle) : s.Goes ix := by
  have hnone : (s.stage caller).hasLock = false := by
    have hholder := hguarded.holder caller
    rw [hfree] at hholder
    simpa using hholder
  refine ⟨.proceed caller 0, rfl, ?_, fun _ => hnobody⟩
  cases hcase : s.stage caller with
  | idle => exact absurd hcase hstage
  | reading request => simp [attempt, proceed, hcase, hfree]
  | reserving op =>
      by_cases hseg : s.mutable.id = op.segID
      · simp [attempt, proceed, hcase, hseg]
      · simp [attempt, proceed, hcase, hseg]
  | enqueueing op =>
      by_cases hroom : s.channel.length < ix.queueSize
      · simp [attempt, proceed, hcase, hroom]
      · simp [attempt, proceed, hcase, hroom]
  | applying op =>
      by_cases hseg : s.mutable.id = op.segID
      · simp [attempt, proceed, hcase, hfree, hseg]
      · simp [attempt, proceed, hcase, hfree, hseg]
  | working task =>
      cases hrest : task.rest with
      | nil
      | cons id rest => simp [attempt, proceed, hcase, hrest]
  | checking segID =>
      by_cases hfull : s.mutable.id ≠ segID ∨ s.mutable.shouldSeal ix.toConfig 0 = true
      · simp [attempt, proceed, hcase, hfull]
      · simp [attempt, proceed, hcase, hfull]
  | locking errand => exact absurd hcase (hnobody caller errand)
  | _ =>
      rw [hcase] at hnone
      cases hnone

namespace Clear

theorem not_stuck (hclear : s.Clear) : ¬ s.Stuck := by
  rintro ⟨caller, _, hstage, _, hbuffer⟩
  rcases hstage with hsending | hawaiting
  · exact hbuffer (hclear.sending caller hsending).1
  · exact hbuffer (hclear.awaiting caller hawaiting).1

/-- The holder of the lock can go on, or the worker it waits for can. -/
theorem holder_goes (hclear : s.Clear) (hlock : s.lock = some caller) : s.Goes ix := by
  have hhas := (hclear.holder caller).mp hlock
  cases hstage : s.stage caller with
  | sending =>
      refine ⟨.proceed caller 0, rfl, ?_, fun hreads => ?_⟩
      · have hroom : s.channel.length < ix.queueSize := by
          rw [(hclear.sending caller hstage).2]
          exact ix.queue_pos
        simp [attempt, proceed, hstage, hroom]
      · simp [reads, hstage] at hreads
  | awaiting =>
      obtain ⟨hbuffer, hbarrier⟩ := hclear.awaiting caller hstage
      refine worker_goes ?_ (Or.inl hbuffer)
      rcases hbarrier with hanswer | ⟨rest, hchannel⟩
      · refine Or.inr (Or.inr fun hworker => ?_)
        rw [hworker] at hanswer
        cases hanswer
      · exact Or.inl (by rw [hchannel]; exact nofun)
  | sealing
  | compacting =>
      refine ⟨.proceed caller 0, rfl, ?_, fun hreads => ?_⟩
      · simp [attempt, proceed, hstage]
      · simp [reads, hstage] at hreads
  | _ =>
      rw [hstage] at hhas
      cases hhas

theorem goes (hclear : s.Clear) (hbusy : s.Busy) : s.Goes ix := by
  cases hlock : s.lock with
  | some caller => exact hclear.holder_goes hlock
  | none =>
      by_cases hwriter : ∃ caller errand, s.stage caller = .locking errand
      · -- a writer that waits for the lock comes first
        obtain ⟨caller, errand, hstage⟩ := hwriter
        refine ⟨.proceed caller 0, rfl, ?_, fun hreads => ?_⟩
        · simp [attempt, proceed, hstage, hlock]
        · simp [reads, hstage] at hreads
      · have hnobody : ∀ caller errand, s.stage caller ≠ .locking errand := by simpa using hwriter
        rcases hbusy with ⟨caller, hstage⟩ | hworker
        · exact call_goes hclear.toGuarded hlock hnobody hstage
        · exact worker_goes hworker (Or.inr ⟨hlock, hnobody⟩)

end Clear

/-- If every seal finds the queue empty, no seal and the worker ever wait for each other, and
as long as there is anything to do somebody can go on. -/
theorem seal_never_stuck (ix : Indexer) (now : Nat) {moves : List Move}
    (hmeets : Run.Meets (step ix) (Unqueued ix) (start ix.toConfig now) moves) :
    ¬ (Run.run (step ix) (start ix.toConfig now) moves).Stuck ∧
      ((Run.run (step ix) (start ix.toConfig now) moves).Busy →
        (Run.run (step ix) (start ix.toConfig now) moves).Goes ix) := by
  have hclear : (Run.run (step ix) (start ix.toConfig now) moves).Clear := by
    refine Run.run_invariant (fun s move hunqueued hclear => ?_) hmeets (clear_start _ _)
    exact step_invariant hclear fun s' hchange => hclear.change hunqueued hchange
  exact ⟨hclear.not_stuck, hclear.goes⟩

/-! ## Deadlock -/

namespace Stuck

/-- The seal and the worker wait on while another caller goes on. -/
theorem shift (hstuck : s.Stuck) {next : Stage}
    (hbefore : s.stage caller ≠ .sending ∧ s.stage caller ≠ .awaiting)
    (hstage : ∀ other, s'.stage other = if other = caller then next else s.stage other)
    (hlock : s'.lock = s.lock) (hworker : s'.worker = s.worker) (hbuffer : s'.buffer = s.buffer) :
    s'.Stuck := by
  obtain ⟨holder, hholder, hwaits, hflushing, hleft⟩ := hstuck
  have hne : holder ≠ caller := by
    intro heq
    subst heq
    rcases hwaits with hsending | hawaiting
    · exact hbefore.1 hsending
    · exact hbefore.2 hawaiting
  refine ⟨holder, by rw [hlock]; exact hholder, ?_, by rw [hworker]; exact hflushing,
    by rw [hbuffer]; exact hleft⟩
  rw [hstage, if_neg hne]
  exact hwaits

/-- Whatever happens next, they wait. -/
theorem change (hguarded : s.Guarded) (hstuck : s.Stuck) {move : Move}
    (hchange : Change ix s move s') : s'.Stuck := by
  obtain ⟨holder, hholder, hwaits, ⟨answer, hflushing⟩, hleft⟩ := hstuck
  have hstuck : s.Stuck := ⟨holder, hholder, hwaits, ⟨answer, hflushing⟩, hleft⟩
  have hheld : s.lock ≠ none := by
    rw [hholder]
    exact nofun
  have hcaller : ∀ other, (s.stage other).hasLock = true → other = holder := by
    intro other hother
    exact Option.some.inj (((hguarded.holder other).mpr hother).symm.trans hholder)
  cases hchange with
  | store docs hidle
  | delete id hidle
  | enter hidle => exact hstuck.shift (by simp [hidle]) (stage_setStage s _ _) rfl rfl rfl
  | read request hstage hlock
  | startCall op hstage hlock
  | dropCall op hstage hlock
  | lockSeal hstage hlock
  | pass errand hstage hlock
  | lockCompact hstage hlock
  | startWork answer op rest hworker hbuffer hlock
  | dropWork answer op rest hworker hbuffer hlock => exact absurd hlock hheld
  | reserve op hstage
  | refuse op hstage
  | enqueue op hstage
  | full op hstage
  | check segID hstage => exact hstuck.shift (by simp [hstage]) (stage_setStage s _ _) rfl rfl rfl
  | loadCall work id rest hstage
  | finishCall work hstage =>
      exact hstuck.shift (by simp [hstage]) (stage_setStage s _ _) rfl rfl rfl
  | @send caller _ hstage =>
      obtain rfl := hcaller caller (by rw [hstage]; rfl)
      refine ⟨caller, hholder, Or.inr ?_, ⟨answer, hflushing⟩, hleft⟩
      refine (stage_setStage s caller .awaiting caller).trans ?_
      rw [if_pos rfl]
  | @replace caller _ hstage
  | @release caller _ hstage =>
      obtain rfl := hcaller caller (by rw [hstage]; rfl)
      simp [hstage] at hwaits
  | receive op rest hworker
  | receiveBarrier caller rest hworker
  | timer hworker
  | loadWork answer work id rest hworker
  | finishWork answer work hworker =>
      rw [hflushing] at hworker
      cases hworker
  | close answer hworker hbuffer => exact absurd hbuffer hleft

end Stuck

theorem guarded_of_run (ix : Indexer) (now : Nat) (moves : List Move) :
    (Run.run (step ix) (start ix.toConfig now) moves).Guarded := by
  have hany : Run.Meets (step ix) (fun _ _ => True) (start ix.toConfig now) moves :=
    Run.Meets.of_forall (fun _ _ => trivial) _ _
  refine Run.run_invariant (fun s move _ hguarded => ?_) hany (guarded_start _ _)
  exact step_invariant hguarded fun s' hchange => hguarded.change hchange

/-- Once a seal and the worker wait for each other, they do so for good. -/
theorem stuck_forever (hguarded : s.Guarded) (hstuck : s.Stuck) (moves : List Move) :
    (Run.run (step ix) s moves).Stuck := by
  induction moves generalizing s with
  | nil => exact hstuck
  | cons move rest ih =>
      have hguarded' : (s.step ix move).Guarded :=
        step_invariant hguarded fun s' hchange => hguarded.change hchange
      have hstuck' : (s.step ix move).Stuck :=
        step_invariant hstuck fun s' hchange => hstuck.change hguarded hchange
      exact ih hguarded' hstuck'

/-! ### Segments of one document -/

/-- A queue with the default sizes, over segments of one document. -/
def lineIndexer : Indexer where
  toConfig := { lineConfig 4 with asyncIndex := true }
  batchSize := 2048
  queue_pos := by decide
  batch_pos := by decide

/-- A call is handed over. -/
def handOver (caller : Nat) (request : Request) : List Move :=
  [.begin_ caller request, .proceed caller 2, .proceed caller 2, .proceed caller 2]

/-- The worker takes an operation and flushes. -/
def flushOne : List Move := [.receive, .timer, .work, .work, .work, .work]

/-- One document is added and indexed, and the segment is sealed. -/
def calmRun : List Move :=
  handOver 1 (.add (idOf 'a') [1]) ++ flushOne ++
    [.proceed 1 3, .proceed 1 3, .proceed 1 3, .receive, .work, .proceed 1 4]

theorem seal_never_stuck_calmRun :
    Run.Meets (step lineIndexer) (Unqueued lineIndexer) (start lineIndexer.toConfig 1) calmRun ∧
      (Run.run (step lineIndexer) (start lineIndexer.toConfig 1) calmRun).sealed = [idOf 'a'] ∧
      ¬ (Run.run (step lineIndexer) (start lineIndexer.toConfig 1) calmRun).Stuck := by
  have hmeets : Run.Meets (step lineIndexer) (Unqueued lineIndexer) (start lineIndexer.toConfig 1)
      calmRun := by decide +kernel
  exact ⟨hmeets, by decide +kernel, (seal_never_stuck lineIndexer 1 hmeets).1⟩

/-- A second document is handed over after the first was indexed, and its caller finds the
segment full. -/
def jammedRun : List Move :=
  handOver 1 (.add (idOf 'a') [1]) ++ flushOne ++ handOver 2 (.add (idOf 'b') [2]) ++
    [.proceed 2 3, .proceed 2 3, .proceed 2 3, .receive, .receive]

/-- The caller waits for the answer to its barrier with the lock in hand, and the worker needs
the lock for the operation of that very caller. -/
theorem seal_stuck :
    (Run.run (step lineIndexer) (start lineIndexer.toConfig 1) jammedRun).Stuck ∧
      ∀ moves, (Run.run (step lineIndexer)
        (Run.run (step lineIndexer) (start lineIndexer.toConfig 1) jammedRun) moves).Stuck := by
  have hstuck : (Run.run (step lineIndexer) (start lineIndexer.toConfig 1) jammedRun).Stuck := by
    refine ⟨2, by decide +kernel, Or.inr (by decide +kernel), ⟨some 2, by decide +kernel⟩, ?_⟩
    decide +kernel
  exact ⟨hstuck, stuck_forever (guarded_of_run _ _ _) hstuck⟩

end Threads

end Vectron.Segment
