import Vectron.Segment.Applying

/-! # The order of the index queue

With seals the invariant of the queue goes through every change of the threads. If the order is
kept, a drained queue leaves in the segment what the last operations ask for. If a caller that
finds the channel full passes a deletion in it, the document it adds is lost.
-/

namespace Vectron.Segment

open Foundation
open Worker (Vector idOf)

namespace Threads

namespace Coherent

variable {ix : Indexer} {c : Config} {s s' : Threads} {caller : Nat}

/-! ## Seals -/

theorem workOf_of_quiet (hquiet : s.Quiet) (agent : Option Nat) : s.workOf agent = none := by
  cases hwork : s.workOf agent with
  | none => rfl
  | some work =>
      have hmem := mem_works_of_workOf hwork
      rw [hquiet.2.1] at hmem
      cases hmem

theorem told_of_quiet (hquiet : s.Quiet) (caller : Nat) : (s.stage caller).told = none := by
  by_cases hidle : s.stage caller = .idle
  · rw [hidle]
    rfl
  · exact hquiet.2.2 caller (mem_keys_of_stage hidle)

/-- The segment is replaced while nothing is on its way to it. -/
theorem replace (hcoherent : s.Coherent c) (hstage : s.stage caller = .sealing)
    (hquiet : s.Quiet) (now : Nat) :
    Coherent c { s.setStage caller .idle with
      mutable := newMutableSegment c ⟨now, s.seq + 1⟩ now
      sealed := s.sealed ++ s.mutable.activeIDs
      seq := s.seq + 1
      lock := none } := by
  suffices hafter : ∀ s' : Threads, s' = { s.setStage caller .idle with
      mutable := newMutableSegment c ⟨now, s.seq + 1⟩ now
      sealed := s.sealed ++ s.mutable.activeIDs
      seq := s.seq + 1
      lock := none } → s'.Coherent c from hafter _ rfl
  intro s' hs'
  have hnext : ∀ other, s'.stage other = if other = caller then .idle else s.stage other :=
    hs' ▸ stage_setStage s caller .idle
  have hworks : ∀ agent, s'.workOf agent = none := by
    intro agent
    cases agent with
    | none =>
        rw [hs']
        exact workOf_of_quiet hquiet none
    | some other =>
        show Stage.work? _ = none
        rw [hnext]
        split
        next => rfl
        next => exact workOf_of_quiet hquiet (some other)
  have hqueue : s'.queue = [] := hs' ▸ hquiet.1
  subst hs'
  constructor
  case dims => exact hcoherent.dims
  case issued => exact hcoherent.issued
  case indexed => exact MutableSegment.indexed_new _ _
  case told =>
    intro other op hop
    rw [hnext] at hop
    split at hop
    next => cases hop
    next =>
      rw [told_of_quiet hquiet] at hop
      cases hop
  case queued =>
    rw [hqueue]
    exact nofun
  case working =>
    intro agent work hwork
    rw [hworks] at hwork
    cases hwork
  case apart =>
    intro agent other work work' hwork
    rw [hworks] at hwork
    cases hwork
  case present =>
    intro id vec hid hlookup
    obtain ⟨hunsealed, hactive⟩ := not_or.mp fun hmem => hid (List.mem_append.mpr hmem)
    refine Or.inl (heads_of_aim hnext (by rw [hstage]; rfl) ?_)
    rcases hcoherent.present id vec hunsealed hlookup with hheads | hclosing | ⟨_, harrives⟩
    · exact hheads
    · rw [hquiet.1] at hclosing
      cases hclosing
    · rcases harrives with ⟨agent, work, hwork, _⟩ | ⟨_, hitem⟩
      · rw [workOf_of_quiet hquiet] at hwork
        cases hwork
      · refine absurd ((MutableSegment.mem_activeIDs hcoherent.indexed id).mpr ?_) hactive
        exact Option.isSome_of_eq_some hitem
  case absent =>
    intro id hid hlookup
    refine Or.inr (Or.inr (Or.inr ⟨MutableSegment.item_new _ _ id, fun agent work hwork => ?_⟩))
    rw [hworks] at hwork
    cases hwork

/-! ## Every change -/

theorem aims_read (segID : SegmentID) (request : Request) (type : IndexOpType) (id : Bytes) :
    (request.read segID).aims type id = (Stage.reading request).aims type id := by
  cases request <;> rfl

theorem work?_read (segID : SegmentID) (request : Request) :
    (request.read segID).work? = none := by
  cases request <;> rfl

theorem told_read {segID : SegmentID} {request : Request} {op : IndexOp}
    (htold : (request.read segID).told = some op) : op.segID = segID := by
  cases request with
  | add id vec
  | addBatch docs
  | delete id =>
      obtain rfl := Option.some.inj htold
      rfl
  | search => cases htold
  | compact => cases htold

theorem work?_enter (request : Request) : request.enter.work? = none := by
  cases request <;> rfl

theorem told_enter (request : Request) : request.enter.told = none := by
  cases request <;> rfl

/-- A caller goes on that neither is on its way nor applies anything, before and after. -/
theorem pass (hcoherent : s.Coherent c) {next : Stage}
    (hstage : ∀ other, s'.stage other = if other = caller then next else s.stage other)
    (hbefore : (s.stage caller).aim = none ∧ (s.stage caller).work? = none)
    (hafter : next.work? = none ∧ next.told = none)
    (hprimary : s'.primary = s.primary) (hmutable : s'.mutable = s.mutable)
    (hsealed : s'.sealed = s.sealed) (hissued : s'.issued = s.issued)
    (hqueue : s'.queue = s.queue) (hworker : s'.worker.work? = s.worker.work?) :
    s'.Coherent c := by
  refine hcoherent.shift hstage (fun type id haims => ?_) (hafter.1.trans hbefore.2.symm)
    (fun op hop => ?_) hprimary hmutable hsealed hissued hqueue hworker
  · unfold Stage.aims at haims
    rw [hbefore.1] at haims
    cases haims
  · rw [hafter.2] at hop
    cases hop

theorem close (hguarded : s.Guarded) (hcoherent : s.Coherent c) {answer : Option Nat}
    (hworker : s.worker = .flushing answer) : (s.close answer).Coherent c := by
  have hidle : s.worker.work? = none := by
    rw [hworker]
    rfl
  cases answer with
  | none =>
      refine hcoherent.of_same rfl rfl rfl rfl rfl (fun agent => ?_) (fun _ _ hheads => hheads)
        hcoherent.told
      cases agent with
      | none => exact hidle.symm
      | some other => rfl
  | some caller =>
      have hwaits : s.stage caller = .awaiting := by
        refine hguarded.waits caller ?_
        unfold outstanding
        rw [hworker]
        exact List.mem_append_left _ (List.mem_singleton_self _)
      exact hcoherent.pass (stage_setStage s caller .sealing) (by rw [hwaits]; exact ⟨rfl, rfl⟩)
        ⟨rfl, rfl⟩ rfl rfl rfl rfl rfl hidle.symm

theorem change (hguarded : s.Guarded) (hcoherent : s.Coherent ix.toConfig) {move : Move}
    (hinOrder : InOrder s move) (hchange : Change ix s move s') : s'.Coherent ix.toConfig := by
  cases hchange with
  | store docs hidle hdims hop => exact hcoherent.store hidle hdims hop
  | delete id hidle => exact hcoherent.delete id hidle
  | enter hidle =>
      exact hcoherent.pass (stage_setStage s _ _) (by rw [hidle]; exact ⟨rfl, rfl⟩)
        ⟨work?_enter _, told_enter _⟩ rfl rfl rfl rfl rfl rfl
  | read request hstage =>
      refine hcoherent.shift (stage_setStage s _ _) (fun type id haims => ?_)
        (by rw [hstage, work?_read]; rfl) (fun op => told_read) rfl rfl rfl rfl rfl rfl
      rw [hstage] at haims
      rw [aims_read]
      exact haims
  | reserve op hstage hseg =>
      refine hcoherent.shift (stage_setStage s _ _) (fun type id haims => ?_)
        (by rw [hstage]; rfl) (fun op' hop => ?_) rfl rfl rfl rfl rfl rfl
      · rw [hstage] at haims
        exact haims
      · obtain rfl := Option.some.inj hop
        exact hseg.symm
  | refuse op hstage hseg
  | dropCall op hstage hfree hseg =>
      exact absurd (hcoherent.told _ op (by rw [hstage]; rfl)).symm hseg
  | enqueue op hstage hroom => exact hcoherent.enqueue hstage (hinOrder.of_stage hstage)
  | @full caller _ op hstage hroom =>
      refine hcoherent.shift (stage_setStage s _ _) (fun type id haims => ?_)
        (by rw [hstage]; rfl) (fun op' hop => ?_) rfl rfl rfl rfl rfl rfl
      · rw [hstage] at haims
        exact haims
      · refine hcoherent.told caller op' ?_
        rw [hstage]
        exact hop
  | startCall op hstage hfree hseg => exact hcoherent.startCall hstage (hinOrder.of_stage hstage)
  | loadCall work id rest hstage hrest => exact hcoherent.loadCall hstage hrest
  | finishCall work hstage hrest => exact hcoherent.finishCall hstage hrest
  | check segID hstage next hnext =>
      refine hcoherent.pass (stage_setStage s _ _) (by rw [hstage]; exact ⟨rfl, rfl⟩) ?_ rfl rfl rfl
        rfl rfl rfl
      rcases hnext with rfl | rfl
      · exact ⟨rfl, rfl⟩
      · exact ⟨rfl, rfl⟩
  | lockSeal hstage
  | pass errand hstage
  | lockCompact hstage
  | release hstage =>
      exact hcoherent.pass (stage_setStage s _ _) (by rw [hstage]; exact ⟨rfl, rfl⟩) ⟨rfl, rfl⟩ rfl
        rfl rfl rfl rfl rfl
  | send hstage =>
      refine hcoherent.pass (stage_setStage s _ _) (by rw [hstage]; exact ⟨rfl, rfl⟩) ⟨rfl, rfl⟩ rfl
        rfl rfl rfl ?_ rfl
      simp [queue, setStage, QueueItem.op?]
  | replace hstage => exact hcoherent.replace hstage (hinOrder.of_stage hstage) _
  | receive op rest hworker hchannel task htask =>
      refine hcoherent.of_same rfl rfl rfl rfl ?_ (fun agent => ?_) (fun _ _ hheads => hheads)
        hcoherent.told
      · simp [queue, hchannel, QueueItem.op?]
      · cases agent with
        | none =>
            show task.work? = s.worker.work?
            rw [hworker]
            rcases htask with rfl | rfl
            · rfl
            · rfl
        | some other => rfl
  | receiveBarrier caller rest hworker hchannel =>
      refine hcoherent.of_same rfl rfl rfl rfl ?_ (fun agent => ?_) (fun _ _ hheads => hheads)
        hcoherent.told
      · unfold queue
        rw [hchannel]
        rfl
      · cases agent with
        | none =>
            show (Task.flushing (some caller)).work? = s.worker.work?
            rw [hworker]
            rfl
        | some other => rfl
  | timer hworker =>
      refine hcoherent.of_same rfl rfl rfl rfl rfl (fun agent => ?_) (fun _ _ hheads => hheads)
        hcoherent.told
      cases agent with
      | none =>
          show (Task.flushing none).work? = s.worker.work?
          rw [hworker]
          rfl
      | some other => rfl
  | close answer hworker => exact hcoherent.close hguarded hworker
  | startWork answer op rest hworker hbuffer =>
      have huntouched : s.Untouched op :=
        hinOrder (by rw [hworker]; rfl) op (by rw [hbuffer]; rfl)
      exact hcoherent.startWork hworker hbuffer huntouched
  | dropWork answer op rest hworker hbuffer hfree hseg =>
      refine absurd (hcoherent.queued op ?_).symm hseg
      unfold queue
      rw [hbuffer]
      exact List.mem_cons_self
  | loadWork answer work id rest hworker hrest =>
      refine @loads ix.toConfig s _ hcoherent none work id rest ?_ hrest
        (fun agent => ?_) rfl rfl rfl rfl rfl
        (fun _ _ hheads => hheads) hcoherent.told
      · show s.worker.work? = some work
        rw [hworker]
        rfl
      · cases agent with
        | none => rfl
        | some other => rfl
  | finishWork answer work hworker hrest =>
      refine @finishes ix.toConfig s _ hcoherent none work ?_ hrest (fun agent => ?_) rfl rfl rfl rfl rfl
        (fun _ _ hheads => hheads) hcoherent.told
      · show s.worker.work? = some work
        rw [hworker]
        rfl
      · cases agent with
        | none => rfl
        | some other => rfl

end Coherent

/-! ## Whole runs -/

/-- The queue is drained: nothing waits or is being applied, and every call was handed over. -/
def Settled (s : Threads) : Prop :=
  s.queue = [] ∧ s.works = [] ∧ ∀ caller ∈ s.calls.keys, (s.stage caller).aim = none

instance (s : Threads) : Decidable s.Settled := inferInstanceAs (Decidable (_ ∧ _ ∧ _))

variable {c : Config} {s : Threads}

theorem heads_of_settled (hsettled : s.Settled) (type : IndexOpType) (id : Bytes) :
    s.heads type id = false := by
  unfold heads
  rw [List.any_eq_false]
  intro caller hcaller
  unfold Stage.aims
  rw [hsettled.2.2 caller hcaller]
  exact Bool.false_ne_true

theorem workOf_of_settled (hsettled : s.Settled) (agent : Option Nat) : s.workOf agent = none := by
  cases hwork : s.workOf agent with
  | none => rfl
  | some work =>
      have hmem := mem_works_of_workOf hwork
      rw [hsettled.2.1] at hmem
      cases hmem

/-- The segment of a drained queue has the stored documents that were not sealed. -/
theorem Coherent.item_of_settled (hcoherent : s.Coherent c) (hsettled : s.Settled) {id : Bytes}
    (hid : id ∉ s.sealed) : s.mutable.item c id = (s.primary.lookup id).map c.kept := by
  cases hlookup : s.primary.lookup id with
  | none =>
      rcases hcoherent.absent id hid hlookup with hheads | ⟨op, hop, _⟩ | ⟨agent, work, hwork, _⟩ |
        ⟨hitem, _⟩
      · rw [heads_of_settled hsettled] at hheads
        cases hheads
      · rw [hsettled.1] at hop
        cases hop
      · rw [workOf_of_settled hsettled] at hwork
        cases hwork
      · exact hitem
  | some vec =>
      rcases hcoherent.present id vec hid hlookup with hheads | hclosing | ⟨_, harrives⟩
      · rw [heads_of_settled hsettled] at hheads
        cases hheads
      · rw [hsettled.1] at hclosing
        cases hclosing
      · rcases harrives with ⟨agent, work, hwork, _⟩ | ⟨_, hitem⟩
        · rw [workOf_of_settled hsettled] at hwork
          cases hwork
        · exact hitem

/-- If the order of operations is kept, the segment of a drained queue has exactly the documents
that were not sealed and whose last operation was an addition, each with the vector added
last. -/
theorem queue_in_order (ix : Indexer) (now : Nat) {moves : List Move}
    (hmeets : Run.Meets (step ix) InOrder (start ix.toConfig now) moves)
    (hsettled : (Run.run (step ix) (start ix.toConfig now) moves).Settled) {id : Bytes}
    (hid : id ∉ (Run.run (step ix) (start ix.toConfig now) moves).sealed) :
    (((Run.run (step ix) (start ix.toConfig now) moves).mutable.docSet.lookup id).isSome ↔
      ∃ vec, lastOp (Run.run (step ix) (start ix.toConfig now) moves).issued id =
        some (some vec)) ∧
    ∀ vec, lastOp (Run.run (step ix) (start ix.toConfig now) moves).issued id = some (some vec) →
      (Run.run (step ix) (start ix.toConfig now) moves).mutable.item ix.toConfig id =
        some (ix.kept (ix.stored vec)) := by
  have hboth : (Run.run (step ix) (start ix.toConfig now) moves).Guarded ∧
      (Run.run (step ix) (start ix.toConfig now) moves).Coherent ix.toConfig := by
    refine @Run.run_invariant _ _ (step ix) InOrder (fun s => s.Guarded ∧ s.Coherent ix.toConfig)
      (fun s move hinOrder hboth => ?_) _ _ hmeets ⟨guarded_start _ _, coherent_start _ _⟩
    exact ⟨step_invariant hboth.1 fun s' hchange => hboth.1.change hchange,
      step_invariant hboth.2 fun s' hchange => hboth.2.change hboth.1 hinOrder hchange⟩
  obtain ⟨_, hcoherent⟩ := hboth
  have hitem := hcoherent.item_of_settled hsettled hid
  rw [hcoherent.issued] at hitem
  refine ⟨?_, fun vec hlast => ?_⟩
  · rw [hcoherent.indexed.docs, hitem]
    cases hlast : lastOp (Run.run (step ix) (start ix.toConfig now) moves).issued id with
    | none => simp
    | some last => cases last <;> simp
  · rw [hitem, hlast]
    rfl

/-! ### A short queue -/

/-- A channel with room for one operation. -/
def shortIndexer : Indexer where
  toConfig := { lineConfig 4 with asyncIndex := true, maxVectors := 100, queueSize := 1 }
  batchSize := 2048
  queue_pos := Nat.one_pos
  batch_pos := lineIndexer.batch_pos

/-- A document is added twice at once, the second time by its caller, and another one is added
and deleted. -/
def orderlyRun : List Move :=
  handOver 1 (.add (idOf 'a') [1]) ++ handOver 2 (.addBatch [(idOf 'a', [2]), (idOf 'b', [3])]) ++
    [.proceed 2 2, .proceed 2 2, .proceed 2 2, .proceed 2 2] ++ flushOne ++
    handOver 3 (.delete (idOf 'b')) ++ flushOne

theorem queue_in_order_orderlyRun :
    Run.Meets (step shortIndexer) InOrder (start shortIndexer.toConfig 1) orderlyRun ∧
      (Run.run (step shortIndexer) (start shortIndexer.toConfig 1) orderlyRun).Settled ∧
      (Run.run (step shortIndexer) (start shortIndexer.toConfig 1) orderlyRun).mutable.item
        shortIndexer.toConfig (idOf 'a') = some (shortIndexer.kept [2]) := by
  have hmeets : Run.Meets (step shortIndexer) InOrder (start shortIndexer.toConfig 1)
      orderlyRun := by decide +kernel
  have hsettled : (Run.run (step shortIndexer) (start shortIndexer.toConfig 1)
      orderlyRun).Settled := by decide +kernel
  refine ⟨hmeets, hsettled, ?_⟩
  exact (queue_in_order shortIndexer 1 hmeets hsettled (by decide +kernel)).2 [2]
    (by decide +kernel)

/-- A document is added, deleted and added again while its deletion fills the channel. -/
def overtakenRun : List Move :=
  handOver 1 (.add (idOf 'a') [1]) ++ flushOne ++ handOver 2 (.delete (idOf 'a')) ++
    handOver 3 (.add (idOf 'a') [2]) ++ [.proceed 3 2, .proceed 3 2, .proceed 3 2] ++ flushOne

/-- The last caller has applied its addition before the deletion that was queued. -/
theorem addition_overtakes :
    (Run.run (step shortIndexer) (start shortIndexer.toConfig 1) overtakenRun).Settled ∧
      lastOp (Run.run (step shortIndexer) (start shortIndexer.toConfig 1) overtakenRun).issued
        (idOf 'a') = some (some [2]) ∧
      idOf 'a' ∉ (Run.run (step shortIndexer) (start shortIndexer.toConfig 1) overtakenRun).sealed ∧
      (Run.run (step shortIndexer) (start shortIndexer.toConfig 1)
        overtakenRun).mutable.docSet.lookup (idOf 'a') = none := by
  decide +kernel

end Threads

end Vectron.Segment
