import Vectron.Worker.Effects

/-! # Writes through Raft

A write RPC hands its command to `syncProposeWithRetry`, which proposes it and proposes it
again when the proposal timed out or was refused because the node is busy. The proposals
are made under a no-op session, so Raft takes each of them for a write of its own. A
proposal that has timed out may still be on its way: it may commit later, have committed
already, or be lost.

The model follows the RPCs of one shard and the proposals they have in flight, in any
interleaving. A committed proposal is applied to the state machine of the shard.
-/

namespace Vectron.Worker

open Foundation

/-- The errors of `SyncPropose`. -/
inductive ProposeError where
  | systemBusy
  | timeout
  | canceled
  | other
  deriving Repr, DecidableEq

def isRetryableProposeErr : ProposeError → Bool
  | .systemBusy => true
  | .timeout => true
  | .canceled => false
  | .other => false

/-- Where an RPC stands in `syncProposeWithRetry`. -/
inductive ProposePhase where
  /-- at the head of the loop -/
  | proposing
  /-- in `SyncPropose` with a proposal in flight -/
  | waiting
  /-- between two attempts -/
  | sleeping
  /-- it has returned at this time -/
  | returned (time : Nat) (err : Option ProposeError)
  deriving Repr, DecidableEq

/-- A write RPC. -/
structure Rpc where
  cmd : Command
  attempt : Nat
  phase : ProposePhase
  /-- when it was called -/
  began : Nat
  deriving Repr, DecidableEq

/-- An attempt of an RPC on its way through Raft. -/
structure Proposal where
  rpc : Nat
  attempt : Nat
  cmd : Bytes
  deriving Repr, DecidableEq

/-- The RPCs of a shard in the order of their calls, and its Raft group. -/
structure Group where
  rpcs : List Rpc
  pending : List Proposal
  /-- the committed proposals, which the state machine has been given -/
  log : List Proposal
  machine : Machine
  clock : Nat

/-- What `SyncPropose` does with a proposal at first. -/
inductive Submission where
  /-- the context of the RPC is done before the attempt -/
  | contextDone
  /-- the node host does not take the proposal -/
  | refused (err : ProposeError)
  | accepted
  deriving Repr, DecidableEq

inductive ProposeStep where
  | call (cmd : Command)
  | attempt (rpc : Nat) (submission : Submission)
  /-- `SyncPropose` gives up on a proposal in flight -/
  | giveUp (rpc : Nat) (err : ProposeError)
  /-- `SyncPropose` reports that the proposal is applied -/
  | acknowledge (rpc : Nat)
  | wake (rpc : Nat)
  | commit (place now segmentNow : Nat)
  | lose (place : Nat)
  deriving Repr, DecidableEq

/-! ## Steps -/

variable (m : ShardSettings) (retries : Int)

/-- `attempts`. -/
def proposeAttempts : Nat := retries.toNat + 1

namespace Rpc

def isReturned (rpc : Rpc) : Bool :=
  match rpc.phase with
  | .returned _ _ => true
  | _ => false

def isAcknowledged (rpc : Rpc) : Bool :=
  match rpc.phase with
  | .returned _ none => true
  | _ => false

/-- The end of a round of the loop: the error is returned, or the loop goes on. -/
def afterError (clock : Nat) (rpc : Rpc) (err : ProposeError) : Rpc :=
  if !isRetryableProposeErr err || decide (rpc.attempt = proposeAttempts retries) then
    { rpc with phase := .returned clock (some err) }
  else { rpc with phase := .sleeping }

end Rpc

namespace Group

def setRpc (group : Group) (i : Nat) (rpc : Rpc) : Group :=
  { group with rpcs := group.rpcs.set i rpc }

/-- An RPC that stands in the phase takes its next step. -/
def advance (group : Group) (i : Nat) (phase : ProposePhase) (next : Rpc → Group) : Group :=
  match group.rpcs[i]? with
  | none => group
  | some rpc => if rpc.phase = phase then next rpc else group

def tick (group : Group) : Group := { group with clock := group.clock + 1 }

def act (group : Group) : ProposeStep → Group
  | .call cmd =>
      { group with rpcs := group.rpcs ++ [⟨cmd, 1, .proposing, group.clock⟩] }
  | .attempt i submission =>
      group.advance i .proposing fun rpc =>
        match submission with
        | .contextDone =>
            group.setRpc i { rpc with phase := .returned group.clock (some .canceled) }
        | .refused err => group.setRpc i (rpc.afterError retries group.clock err)
        | .accepted =>
            { group.setRpc i { rpc with phase := .waiting } with
              pending := group.pending ++ [⟨i, rpc.attempt, encodeCommand rpc.cmd⟩] }
  | .giveUp i err =>
      group.advance i .waiting fun rpc =>
        group.setRpc i (rpc.afterError retries group.clock err)
  | .acknowledge i =>
      group.advance i .waiting fun rpc =>
        if group.log.any fun p => decide (p.rpc = i ∧ p.attempt = rpc.attempt) then
          group.setRpc i { rpc with phase := .returned group.clock none }
        else group
  | .wake i =>
      group.advance i .sleeping fun rpc =>
        group.setRpc i { rpc with attempt := rpc.attempt + 1, phase := .proposing }
  | .commit place now segmentNow =>
      match group.pending[place]? with
      | none => group
      | some p =>
          { group with
            pending := group.pending.eraseIdx place
            log := group.log ++ [p]
            machine := group.machine.step m
              (.update [⟨⟨group.log.length + 1, p.cmd⟩, now, segmentNow⟩]) }
  | .lose place => { group with pending := group.pending.eraseIdx place }

def step (group : Group) (step : ProposeStep) : Group := (group.act m retries step).tick

/-- A group without RPCs. -/
def start (machine : Machine) : Group := ⟨[], [], [], machine, 0⟩

end Group

/-! ## What is asked of the log -/

/-- The ids a command writes. -/
def Command.writtenIds (cmd : Command) : List Bytes :=
  if cmd.type = CommandType.storeVector then [cmd.id]
  else if cmd.type = CommandType.storeVectorBatch then cmd.vectors.map VectorEntry.id
  else if cmd.type = CommandType.deleteVector then [cmd.id]
  else []

/-- The state machine is given every write once at most. -/
def AtMostOnce (group : Group) : Prop :=
  ∀ i < group.rpcs.length, group.log.countP (fun p => decide (p.rpc = i)) ≤ 1

/-- An RPC had returned before the other one was called. -/
def Rpc.Precedes (rpc other : Rpc) : Prop :=
  match rpc.phase with
  | .returned time _ => time < other.began
  | _ => False

instance (rpc other : Rpc) : Decidable (rpc.Precedes other) := by
  delta Rpc.Precedes
  cases rpc.phase <;> infer_instance

/-- The retried write was over before the other, which was acknowledged, was called; both
write an id. -/
structure Outdates (rpc other : Rpc) : Prop where
  retried : 1 < other.attempt
  earlier : other.Precedes rpc
  acknowledged : rpc.isAcknowledged = true
  sharedId : ∃ id ∈ rpc.cmd.writtenIds, id ∈ other.cmd.writtenIds

instance (rpc other : Rpc) : Decidable (Outdates rpc other) :=
  decidable_of_iff (1 < other.attempt ∧ other.Precedes rpc ∧ rpc.isAcknowledged = true ∧
      ∃ id ∈ rpc.cmd.writtenIds, id ∈ other.cmd.writtenIds)
    ⟨fun h => ⟨h.1, h.2.1, h.2.2.1, h.2.2.2⟩, fun h => ⟨h.1, h.2, h.3, h.4⟩⟩

/-- No retried write is applied after a later write of the id that was acknowledged. -/
def NoStaleWrite (group : Group) : Prop :=
  group.log.Pairwise fun first later =>
    ∀ rpc ∈ group.rpcs[first.rpc]?, ∀ other ∈ group.rpcs[later.rpc]?, ¬ Outdates rpc other

instance (group : Group) : Decidable (AtMostOnce group) := by
  delta AtMostOnce
  infer_instance

instance (group : Group) : Decidable (NoStaleWrite group) := by
  delta NoStaleWrite
  infer_instance

/-- The step proposes a command again only when no attempt before is in flight or has been
committed, and commits a proposal only while its RPC has not returned. -/
def InTime (group : Group) : ProposeStep → Prop
  | .attempt i .accepted => ∀ p ∈ group.log ++ group.pending, p.rpc ≠ i
  | .commit place _ _ =>
      ∀ p ∈ group.pending[place]?, ∀ rpc ∈ group.rpcs[p.rpc]?, rpc.isReturned = false
  | _ => True

instance (group : Group) : ∀ step : ProposeStep, Decidable (InTime group step)
  | .attempt i .accepted =>
      inferInstanceAs (Decidable (∀ p ∈ group.log ++ group.pending, p.rpc ≠ i))
  | .commit place _ _ =>
      inferInstanceAs (Decidable (∀ p ∈ group.pending[place]?, ∀ rpc ∈ group.rpcs[p.rpc]?,
        rpc.isReturned = false))
  | .attempt _ .contextDone => isTrue trivial
  | .attempt _ (.refused _) => isTrue trivial
  | .call _ => isTrue trivial
  | .giveUp _ _ => isTrue trivial
  | .acknowledge _ => isTrue trivial
  | .wake _ => isTrue trivial
  | .lose _ => isTrue trivial

/-! ## The invariant -/

/-- The proposals of an RPC among some. -/
def attemptsOf (i : Nat) (proposals : List Proposal) : Nat :=
  proposals.countP fun p => decide (p.rpc = i)

/-- The RPCs of two proposals, if the second had returned before the first was called. -/
def OutOfOrder (rpcs : List Rpc) (first later : Proposal) : Prop :=
  ∃ rpc ∈ rpcs[first.rpc]?, ∃ other ∈ rpcs[later.rpc]?, other.Precedes rpc

/-- What holds of a group in which every step is in time. -/
structure Orderly (group : Group) : Prop where
  known : ∀ p ∈ group.log ++ group.pending, p.rpc < group.rpcs.length
  once : ∀ i, attemptsOf i (group.log ++ group.pending) ≤ 1
  began : ∀ rpc ∈ group.rpcs, rpc.began < group.clock
  returned : ∀ rpc ∈ group.rpcs, ∀ time err, rpc.phase = .returned time err → time < group.clock
  ordered : group.log.Pairwise fun first later => ¬ OutOfOrder group.rpcs first later

theorem Orderly.atMostOnce {group : Group} (horderly : Orderly group) : AtMostOnce group := by
  intro i _
  have honce := horderly.once i
  rw [attemptsOf, List.countP_append] at honce
  omega

theorem Orderly.noStaleWrite {group : Group} (horderly : Orderly group) : NoStaleWrite group := by
  apply horderly.ordered.imp
  intro first later hordered rpc hrpc other hother houtdates
  exact hordered ⟨rpc, hrpc, other, hother, houtdates.earlier⟩

theorem orderly_start (machine : Machine) : Orderly (Group.start machine) where
  known := by simp [Group.start]
  once := by simp [Group.start, attemptsOf]
  began := by simp [Group.start]
  returned := by simp [Group.start]
  ordered := List.Pairwise.nil

namespace Orderly

variable {m : ShardSettings} {retries : Int} {group : Group}

theorem tick (horderly : Orderly group) : Orderly group.tick where
  known := horderly.known
  once := horderly.once
  began rpc hrpc := Nat.lt_succ_of_lt (horderly.began rpc hrpc)
  returned rpc hrpc time err hphase :=
    Nat.lt_succ_of_lt (horderly.returned rpc hrpc time err hphase)
  ordered := horderly.ordered

/-- What an RPC that takes a step is afterwards. -/
structure Moves (clock : Nat) (rpc next : Rpc) : Prop where
  began : next.began = rpc.began
  returned : ∀ time err, next.phase = .returned time err → time = clock

section

variable (horderly : Orderly group) {i : Nat} {rpc next : Rpc} (hrpc : group.rpcs[i]? = some rpc)
  (hmoves : Moves group.clock rpc next)

include horderly hrpc hmoves

/-- A step of an RPC does not put proposals out of order. -/
theorem outOfOrder_of_set {first later : Proposal}
    (hout : OutOfOrder (group.rpcs.set i next) first later) :
    OutOfOrder group.rpcs first later := by
  obtain ⟨after', hafter, other, hother, hprecedes⟩ := hout
  -- the later call began when it did before
  obtain ⟨before, hbefore, hbegan⟩ : ∃ before ∈ group.rpcs[first.rpc]?,
      before.began = after'.began := by
    rw [List.getElem?_set] at hafter
    split at hafter
    next heq =>
      subst heq
      split at hafter
      next _ =>
        cases hafter
        exact ⟨rpc, hrpc, hmoves.began.symm⟩
      next _ => cases hafter
    next _ => exact ⟨after', hafter, rfl⟩
  have hstarted := horderly.began before (List.mem_of_getElem? hbefore)
  rw [List.getElem?_set] at hother
  split at hother
  next heq =>
    subst heq
    split at hother
    next _ =>
      cases hother
      -- the RPC returns now, after every call
      rw [Rpc.Precedes] at hprecedes
      split at hprecedes
      next time err hphase =>
        have htime := hmoves.returned time err hphase
        omega
      next _ => exact hprecedes.elim
    next _ => cases hother
  next _ =>
    refine ⟨before, hbefore, other, hother, ?_⟩
    rw [Rpc.Precedes] at hprecedes ⊢
    rw [hbegan]
    exact hprecedes

theorem setRpc {pending : List Proposal} (hpending : ∀ p ∈ pending, p ∈ group.pending ∨ p.rpc = i)
    (honce : ∀ j, attemptsOf j (group.log ++ pending) ≤ 1) :
    Orderly { group.setRpc i next with pending := pending }.tick := by
  have hi : i < group.rpcs.length := (List.getElem?_eq_some_iff.mp hrpc).1
  have hmem : ∀ {one : Rpc}, one ∈ group.rpcs.set i next → one = next ∨ one ∈ group.rpcs := by
    intro one hone
    exact (List.mem_or_eq_of_mem_set hone).symm
  have hold := List.mem_of_getElem? hrpc
  constructor
  · intro p hp
    simp only [Group.tick, Group.setRpc, List.length_set]
    rcases List.mem_append.mp hp with hp | hp
    · exact horderly.known p (List.mem_append_left _ hp)
    · rcases hpending p hp with hp | rfl
      · exact horderly.known p (List.mem_append_right _ hp)
      · exact hi
  · exact honce
  · intro one hone
    rcases hmem hone with rfl | hone
    · rw [hmoves.began]
      exact Nat.lt_succ_of_lt (horderly.began rpc hold)
    · exact Nat.lt_succ_of_lt (horderly.began one hone)
  · intro one hone time err hphase
    rcases hmem hone with rfl | hone
    · rw [hmoves.returned time err hphase]
      exact Nat.lt_succ_self _
    · exact Nat.lt_succ_of_lt (horderly.returned one hone time err hphase)
  · exact horderly.ordered.imp fun hordered hout =>
      hordered (horderly.outOfOrder_of_set hrpc hmoves hout)

/-- A step of an RPC that proposes nothing. -/
theorem setRpc_only :
    Orderly (group.setRpc i next).tick :=
  horderly.setRpc hrpc hmoves (fun _ hp => Or.inl hp) horderly.once

end

theorem advance (horderly : Orderly group) {i : Nat} {phase : ProposePhase} {next : Rpc → Group}
    (hnext : ∀ rpc, group.rpcs[i]? = some rpc → rpc.phase = phase → Orderly (next rpc).tick) :
    Orderly (group.advance i phase next).tick := by
  rw [Group.advance]
  cases hrpc : group.rpcs[i]? with
  | none => exact horderly.tick
  | some rpc =>
      dsimp only
      split
      next hphase => exact hnext rpc hrpc hphase
      next _ => exact horderly.tick

theorem moves_afterError (clock : Nat) (rpc : Rpc) (err : ProposeError) :
    Moves clock rpc (rpc.afterError retries clock err) := by
  rw [Rpc.afterError]
  split
  next _ =>
    refine ⟨rfl, fun time err' hphase => ?_⟩
    cases hphase
    rfl
  next _ => exact ⟨rfl, fun _ _ hphase => by cases hphase⟩

section

variable (horderly : Orderly group)

include horderly

theorem call (cmd : Command) :
    Orderly (group.step m retries (.call cmd)) := by
  have hlength : ∀ p ∈ group.log ++ group.pending,
      p.rpc < (group.rpcs ++ [(⟨cmd, 1, .proposing, group.clock⟩ : Rpc)]).length := by
    intro p hp
    rw [List.length_append]
    exact Nat.lt_of_lt_of_le (horderly.known p hp) (Nat.le_add_right _ _)
  constructor
  · exact hlength
  · exact horderly.once
  · intro rpc hrpc
    rcases List.mem_append.mp hrpc with hrpc | hrpc
    · exact Nat.lt_succ_of_lt (horderly.began rpc hrpc)
    · rw [List.mem_singleton.mp hrpc]
      exact Nat.lt_succ_self _
  · intro rpc hrpc time err hphase
    rcases List.mem_append.mp hrpc with hrpc | hrpc
    · exact Nat.lt_succ_of_lt (horderly.returned rpc hrpc time err hphase)
    · rw [List.mem_singleton.mp hrpc] at hphase
      cases hphase
  · -- the new RPC has no proposal in the log
    apply List.Pairwise.imp_of_mem _ horderly.ordered
    intro first later hfirst hlater hordered hout
    obtain ⟨rpc, hrpc, other, hother, hprecedes⟩ := hout
    have hfirst' := horderly.known first (List.mem_append_left _ hfirst)
    have hlater' := horderly.known later (List.mem_append_left _ hlater)
    change _ ∈ (group.rpcs ++ [_])[_]? at hrpc hother
    rw [List.getElem?_append_left hfirst'] at hrpc
    rw [List.getElem?_append_left hlater'] at hother
    exact hordered ⟨rpc, hrpc, other, hother, hprecedes⟩

theorem attempt {i : Nat} {submission : Submission} (hintime : InTime group (.attempt i submission)) :
    Orderly (group.step m retries (.attempt i submission)) := by
  apply horderly.advance
  intro rpc hrpc hphase
  cases submission with
  | contextDone =>
      apply horderly.setRpc_only hrpc
      refine ⟨rfl, fun time err hreturned => ?_⟩
      cases hreturned
      rfl
  | refused err => exact horderly.setRpc_only hrpc (moves_afterError _ _ _)
  | accepted =>
      have hmoves : Moves group.clock rpc { rpc with phase := .waiting } :=
        ⟨rfl, fun _ _ hreturned => by cases hreturned⟩
      refine horderly.setRpc hrpc hmoves ?_ ?_
      · intro p hp
        rcases List.mem_append.mp hp with hp | hp
        · exact Or.inl hp
        · rw [List.mem_singleton.mp hp]
          exact Or.inr rfl
      · intro j
        rw [← List.append_assoc, attemptsOf, List.countP_append, List.countP_singleton]
        split
        next heq =>
          have hnone : attemptsOf j (group.log ++ group.pending) = 0 := by
            apply List.countP_eq_zero.mpr
            intro p hp hrpc'
            exact hintime p hp ((of_decide_eq_true hrpc').trans (of_decide_eq_true heq).symm)
          rw [attemptsOf] at hnone
          omega
        next _ => exact horderly.once j

theorem commit {place now segmentNow : Nat} (hintime : InTime group (.commit place now segmentNow)) :
    Orderly (group.step m retries (.commit place now segmentNow)) := by
  rw [Group.step, Group.act]
  cases hplace : group.pending[place]? with
  | none => exact horderly.tick
  | some p =>
      have hp : p ∈ group.pending := List.mem_of_getElem? hplace
      have hperm : (group.log ++ [p] ++ group.pending.eraseIdx place).Perm
          (group.log ++ group.pending) := by
        rw [List.append_assoc]
        apply List.Perm.append_left
        obtain ⟨hlt, rfl⟩ := List.getElem?_eq_some_iff.mp hplace
        exact List.getElem_cons_eraseIdx_perm hlt
      constructor
      · intro q hq
        exact horderly.known q (hperm.mem_iff.mp hq)
      · intro i
        exact le_of_eq_of_le (hperm.countP_eq _) (horderly.once i)
      · exact fun rpc hrpc => Nat.lt_succ_of_lt (horderly.began rpc hrpc)
      · exact fun rpc hrpc time err hphase =>
          Nat.lt_succ_of_lt (horderly.returned rpc hrpc time err hphase)
      · -- the RPC of the proposal has not returned, so it precedes no other
        apply List.pairwise_append.mpr
        refine ⟨horderly.ordered, List.pairwise_singleton _ _, ?_⟩
        intro first hfirst later hlater hout
        rw [List.mem_singleton.mp hlater] at hout
        obtain ⟨rpc, hrpc, other, hother, hprecedes⟩ := hout
        have hreturned := hintime p hplace other hother
        rw [Rpc.isReturned] at hreturned
        rw [Rpc.Precedes] at hprecedes
        split at hprecedes
        next time err hphase =>
          rw [hphase] at hreturned
          cases hreturned
        next _ => exact hprecedes

theorem lose (place : Nat) :
    Orderly (group.step m retries (.lose place)) := by
  have hsub : (group.log ++ group.pending.eraseIdx place).Sublist (group.log ++ group.pending) :=
    (List.Sublist.refl _).append (List.eraseIdx_sublist _ _)
  exact {
    known := fun p hp => horderly.known p (hsub.subset hp)
    once := fun i => le_trans (hsub.countP_le) (horderly.once i)
    began := fun rpc hrpc => Nat.lt_succ_of_lt (horderly.began rpc hrpc)
    returned := fun rpc hrpc time err hphase =>
      Nat.lt_succ_of_lt (horderly.returned rpc hrpc time err hphase)
    ordered := horderly.ordered }

theorem step {step : ProposeStep} (hintime : InTime group step) :
    Orderly (group.step m retries step) := by
  cases step with
  | call cmd => exact horderly.call cmd
  | attempt i submission => exact horderly.attempt hintime
  | giveUp i err =>
      exact horderly.advance fun rpc hrpc _ => horderly.setRpc_only hrpc (moves_afterError _ _ _)
  | acknowledge i =>
      apply horderly.advance
      intro rpc hrpc _
      split
      next _ =>
        apply horderly.setRpc_only hrpc
        refine ⟨rfl, fun time err hreturned => ?_⟩
        cases hreturned
        rfl
      next _ => exact horderly.tick
  | wake i =>
      apply horderly.advance
      intro rpc hrpc _
      apply horderly.setRpc_only hrpc
      exact ⟨rfl, fun _ _ hreturned => by cases hreturned⟩
  | commit place now segmentNow => exact horderly.commit hintime
  | lose place => exact horderly.lose place

end

end Orderly

/-- In a run in which a command is proposed again only after every attempt before is lost,
and no proposal commits after its RPC has returned, every write is applied once at most,
and no retried write is applied after a later one of the id that was acknowledged. -/
theorem writes_at_most_once (m : ShardSettings) (retries : Int) (machine : Machine)
    (steps : List ProposeStep)
    (hintime : Run.Meets (Group.step m retries) InTime (Group.start machine) steps) :
    AtMostOnce (Run.run (Group.step m retries) (Group.start machine) steps) ∧
      NoStaleWrite (Run.run (Group.step m retries) (Group.start machine) steps) := by
  have horderly : Orderly (Run.run (Group.step m retries) (Group.start machine) steps) :=
    Run.run_invariant (fun _ _ hstep horderly => horderly.step hstep) hintime
      (orderly_start machine)
  exact ⟨horderly.atMostOnce, horderly.noStaleWrite⟩

/-- An empty shard for vectors with one component. -/
def emptyGroup : Group :=
  Group.start (newStateMachine lineShard RangeOrder.stored OrderedStore.empty none)

/-- A store of an id and a later deletion. The first attempt of the store is lost. -/
def lostAttempt : List ProposeStep :=
  [.call ⟨CommandType.storeVector, idOf 'a', [1], [7], []⟩,
    .attempt 0 .accepted, .lose 0, .giveUp 0 .timeout, .wake 0,
    .attempt 0 .accepted, .commit 0 20 20, .acknowledge 0,
    .call ⟨CommandType.deleteVector, idOf 'a', [], [], []⟩,
    .attempt 1 .accepted, .commit 0 30 30, .acknowledge 1]

theorem writes_at_most_once_lostAttempt :
    let group := Run.run (Group.step lineShard 3) emptyGroup lostAttempt
    Run.Meets (Group.step lineShard 3) InTime emptyGroup lostAttempt ∧
      group.rpcs.map Rpc.attempt = [2, 1] ∧ group.rpcs.all Rpc.isAcknowledged = true ∧
      getVector lineShard (idOf 'a') group.machine.store = .ok none ∧
      AtMostOnce group ∧ NoStaleWrite group := by
  have hintime : Run.Meets (Group.step lineShard 3) InTime emptyGroup lostAttempt := by
    decide +kernel
  exact ⟨hintime, by decide +kernel, by decide +kernel, by decide +kernel,
    writes_at_most_once lineShard 3 _ lostAttempt hintime⟩

/-- The same, but the first attempt commits at the end. -/
def lateAttempt : List ProposeStep :=
  [.call ⟨CommandType.storeVector, idOf 'a', [1], [7], []⟩,
    .attempt 0 .accepted, .giveUp 0 .timeout, .wake 0,
    .attempt 0 .accepted, .commit 1 20 20, .acknowledge 0,
    .call ⟨CommandType.deleteVector, idOf 'a', [], [], []⟩,
    .attempt 1 .accepted, .commit 1 30 30, .acknowledge 1,
    .commit 0 40 40]

/-- The store is applied twice, the second time after the deletion, and the vector is back. -/
theorem lateAttempt_undoes_delete :
    let group := Run.run (Group.step lineShard 3) emptyGroup lateAttempt
    group.rpcs.all Rpc.isAcknowledged = true ∧ ¬ AtMostOnce group ∧ ¬ NoStaleWrite group ∧
      getVector lineShard (idOf 'a') group.machine.store = .ok (some ([1], [7])) := by
  decide +kernel

end Vectron.Worker
