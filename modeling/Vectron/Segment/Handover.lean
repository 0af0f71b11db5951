import Vectron.Segment.Deadlock
import Vectron.Segment.Search

/-! # Handing operations to the index worker

Operations name documents, and the vector of one that is added is read from the storage when
the operation is applied. So additions may change places, and a deletion must not be applied
after an addition that was issued later. The channel keeps the order in which operations are
handed over. A caller that finds it full applies its operation at once, before what is queued,
and next to the worker.

This module says when the order is kept, states the invariant that then holds for every
document, and follows it from the start of a call to the channel.
-/

namespace Vectron.Segment

open Foundation
open Worker (Vector idOf)

/-! ## Operations under way -/

/-- What an operation is about. -/
def IndexOp.aim (op : IndexOp) : IndexOpType × List Bytes := (op.opType, op.targets)

def Request.aim (request : Request) : Option (IndexOpType × List Bytes) :=
  (request.op? ⟨0, 0⟩).map IndexOp.aim

/-- What a call is about that is not handed over. -/
def Stage.aim : Stage → Option (IndexOpType × List Bytes)
  | .reading request => request.aim
  | .reserving op => some op.aim
  | .enqueueing op => some op.aim
  | .applying op => some op.aim
  | _ => none

/-- A call on its way, about a document. -/
def Stage.aims (type : IndexOpType) (id : Bytes) (stage : Stage) : Bool :=
  stage.aim.any fun aim => decide (aim.1 = type) && decide (id ∈ aim.2)

/-- The operation of a call that was told the mutable segment. -/
def Stage.told : Stage → Option IndexOp
  | .reserving op => some op
  | .enqueueing op => some op
  | .applying op => some op
  | _ => none

def Stage.work? : Stage → Option Work
  | .working work => some work
  | _ => none

def Task.work? : Task → Option Work
  | .working _ work => some work
  | _ => none

/-- The last queued operation about a document. -/
def closing (ops : List IndexOp) (id : Bytes) : Option IndexOpType :=
  ((ops.filter fun op => decide (id ∈ op.targets)).getLast?).map IndexOp.opType

@[simp] theorem closing_nil (id : Bytes) : closing [] id = none := rfl

theorem closing_concat (ops : List IndexOp) (op : IndexOp) (id : Bytes) :
    closing (ops ++ [op]) id = if id ∈ op.targets then some op.opType else closing ops id := by
  unfold closing
  by_cases hid : id ∈ op.targets
  · simp [List.filter_append, hid]
  · simp [List.filter_append, hid]

theorem closing_cons (op : IndexOp) (ops : List IndexOp) (id : Bytes) :
    closing (op :: ops) id =
      (closing ops id).or (if id ∈ op.targets then some op.opType else none) := by
  induction ops using List.reverseRecOn with
  | nil => simpa using closing_concat [] op id
  | append_singleton ops last ih =>
      rw [← List.cons_append, closing_concat, closing_concat, ih]
      split
      next => rfl
      next => rfl

namespace Threads

/-- What the worker, or a caller, is applying. -/
def workOf (s : Threads) : Option Nat → Option Work
  | none => s.worker.work?
  | some caller => (s.stage caller).work?

/-- Everything that is being applied. -/
def works (s : Threads) : List Work :=
  s.worker.work?.toList ++ s.calls.keys.filterMap fun caller => (s.stage caller).work?

/-- Some call about a document is on its way. -/
def heads (s : Threads) (type : IndexOpType) (id : Bytes) : Bool :=
  s.calls.keys.any fun caller => (s.stage caller).aims type id

variable {s : Threads} {caller : Nat}

theorem mem_keys_of_stage (hstage : s.stage caller ≠ .idle) : caller ∈ s.calls.keys := by
  have hsome : (s.calls.lookup caller).isSome = true := by
    cases hlookup : s.calls.lookup caller with
    | some stage => rfl
    | none =>
        refine absurd ?_ hstage
        unfold stage
        rw [hlookup]
        rfl
  exact AList.lookup_isSome.mp hsome

theorem heads_iff {type : IndexOpType} {id : Bytes} :
    s.heads type id = true ↔ ∃ caller, (s.stage caller).aims type id = true := by
  unfold heads
  rw [List.any_eq_true]
  constructor
  · intro hany
    obtain ⟨caller, _, haims⟩ := hany
    exact ⟨caller, haims⟩
  · intro hany
    obtain ⟨caller, haims⟩ := hany
    refine ⟨caller, mem_keys_of_stage fun hidle => ?_, haims⟩
    rw [hidle] at haims
    cases haims

theorem mem_works_of_workOf {agent : Option Nat} {work : Work} (hwork : s.workOf agent = some work) :
    work ∈ s.works := by
  unfold works
  cases agent with
  | none =>
      have hworker : s.worker.work? = some work := hwork
      rw [hworker]
      exact List.mem_append_left _ (List.mem_singleton_self _)
  | some caller =>
      have hcaller : (s.stage caller).work? = some work := hwork
      refine List.mem_append_right _ (List.mem_filterMap.mpr ⟨caller, mem_keys_of_stage ?_, hcaller⟩)
      intro hidle
      rw [hidle] at hcaller
      cases hcaller

/-- No addition of the document has come after its deletion, or the addition is on its way and
will be handed over later. -/
def Unstored (s : Threads) (id : Bytes) : Prop :=
  s.primary.lookup id = none ∨ s.heads .add id = true

instance (s : Threads) (id : Bytes) : Decidable (s.Unstored id) := inferInstanceAs (Decidable (_ ∨ _))

/-- Nobody is applying an operation about one of the documents. -/
def Untouched (s : Threads) (op : IndexOp) : Prop :=
  ∀ work ∈ s.works, ∀ id ∈ op.targets, id ∉ work.op.targets

instance (s : Threads) (op : IndexOp) : Decidable (s.Untouched op) :=
  inferInstanceAs (Decidable (∀ work ∈ s.works, _))

/-- Nothing waits, is being applied or is on its way to the segment. -/
def Quiet (s : Threads) : Prop :=
  s.queue = [] ∧ s.works = [] ∧ ∀ caller ∈ s.calls.keys, (s.stage caller).told = none

instance (s : Threads) : Decidable s.Quiet := inferInstanceAs (Decidable (_ ∧ _ ∧ _))

end Threads

/-- A caller that goes on keeps the order. -/
def Stage.InOrder (s : Threads) : Stage → Prop
  | .enqueueing op => op.opType = .delete → s.Unstored op.id
  | .applying op => (op.opType = .delete → s.Unstored op.id) ∧
      (op.opType = .add → ∀ id ∈ op.targets, closing s.queue id ≠ some .delete) ∧ s.Untouched op
  | .sealing => s.Quiet
  | _ => True

instance (s : Threads) : ∀ stage : Stage, Decidable (stage.InOrder s)
  | .idle => isTrue trivial
  | .reading _ => isTrue trivial
  | .reserving _ => isTrue trivial
  | .enqueueing _ => inferInstanceAs (Decidable (_ → _))
  | .applying _ => inferInstanceAs (Decidable ((_ → _) ∧ (_ → ∀ id ∈ _, _) ∧ _))
  | .working _ => isTrue trivial
  | .checking _ => isTrue trivial
  | .locking _ => isTrue trivial
  | .sending => isTrue trivial
  | .awaiting => isTrue trivial
  | .sealing => inferInstanceAs (Decidable (s.Quiet))
  | .compacting => isTrue trivial

/-- The order of operations is kept: a deletion is handed over before a later addition of its
document, a caller that applies an addition itself passes no deletion of one of its documents
in the queue, no two operations about one document are applied at once, and a seal finds
nothing on its way to the segment. -/
def InOrder (s : Threads) : Move → Prop
  | .proceed caller _ => (s.stage caller).InOrder s
  | .work => s.worker.work? = none → ∀ op ∈ s.buffer.head?, s.Untouched op
  | _ => True

instance (s : Threads) : ∀ move, Decidable (InOrder s move)
  | .begin_ _ _ => isTrue trivial
  | .proceed caller _ => inferInstanceAs (Decidable ((s.stage caller).InOrder s))
  | .receive => isTrue trivial
  | .timer => isTrue trivial
  | .work => inferInstanceAs (Decidable (_ → ∀ op ∈ s.buffer.head?, _))

theorem InOrder.of_stage {s : Threads} {caller now : Nat} {stage : Stage}
    (hinOrder : InOrder s (.proceed caller now)) (hstage : s.stage caller = stage) :
    stage.InOrder s := by
  have hcaller : (s.stage caller).InOrder s := hinOrder
  rw [hstage] at hcaller
  exact hcaller

/-! ## The invariant -/

/-- The parts of an operation that is being applied. -/
structure Work.Sensible (c : Config) (work : Work) : Prop where
  dims : ∀ doc ∈ work.docs, doc.2.length = c.index.dim
  docs : ∀ doc ∈ work.docs, doc.1 ∈ work.op.targets
  rest : ∀ id ∈ work.rest, id ∈ work.op.targets

theorem Work.Sensible.docOf_eq_none {c : Config} {work : Work} (hsensible : work.Sensible c)
    {id : Bytes} (hid : id ∉ work.op.targets) : docOf work.docs id = none := by
  rw [Segment.docOf_eq_none]
  intro hmem
  obtain ⟨doc, hdoc, rfl⟩ := List.mem_map.mp hmem
  exact hid (hsensible.docs doc hdoc)

namespace Threads

/-- The vector is in the segment, or somebody is about to put it there. -/
def Arrives (c : Config) (s : Threads) (id : Bytes) (vec : Vector) : Prop :=
  (∃ agent work, s.workOf agent = some work ∧ work.op.opType = .add ∧ id ∈ work.op.targets ∧
      (id ∈ work.rest ∨ docOf work.docs id = some vec)) ∨
    (∀ agent work, s.workOf agent = some work → id ∉ work.op.targets) ∧
      s.mutable.item c id = some (c.kept vec)

/-- A stored document: its addition is on its way or waits behind every deletion, or its vector
arrives. -/
def Present (c : Config) (s : Threads) (id : Bytes) (vec : Vector) : Prop :=
  s.heads .add id = true ∨ closing s.queue id = some .add ∨
    closing s.queue id ≠ some .delete ∧ s.Arrives c id vec

/-- A document that is not stored: its deletion is under way, or it is not in the segment. -/
def Absent (c : Config) (s : Threads) (id : Bytes) : Prop :=
  s.heads .delete id = true ∨ (∃ op ∈ s.queue, op.opType = .delete ∧ id ∈ op.targets) ∨
    (∃ agent work, s.workOf agent = some work ∧ work.op.opType = .delete ∧ id ∈ work.op.targets) ∨
    s.mutable.item c id = none ∧
      ∀ agent work, s.workOf agent = some work → docOf work.docs id = none

structure Coherent (c : Config) (s : Threads) : Prop where
  dims : ∀ id vec, s.primary.lookup id = some vec → vec.length = c.index.dim
  issued : ∀ id, s.primary.lookup id = (lastOp s.issued id).join.map c.stored
  indexed : s.mutable.Indexed c
  told : ∀ caller op, (s.stage caller).told = some op → op.segID = s.mutable.id
  queued : ∀ op ∈ s.queue, op.segID = s.mutable.id
  working : ∀ agent work, s.workOf agent = some work →
    work.op.segID = s.mutable.id ∧ work.Sensible c
  apart : ∀ agent other work work', s.workOf agent = some work → s.workOf other = some work' →
    agent ≠ other → ∀ id ∈ work.op.targets, id ∉ work'.op.targets
  present : ∀ id vec, id ∉ s.sealed → s.primary.lookup id = some vec → s.Present c id vec
  absent : ∀ id, id ∉ s.sealed → s.primary.lookup id = none → s.Absent c id

theorem coherent_start (c : Config) (now : Nat) : (start c now).Coherent c where
  dims id vec hlookup := by simp [start] at hlookup
  issued id := by simp [start, lastOp, latest]
  indexed := MutableSegment.indexed_new _ _
  told caller op htold := by cases htold
  queued op hop := by cases hop
  working agent work hwork := by cases agent <;> cases hwork
  apart agent other work work' hwork := by cases agent <;> cases hwork
  present id vec hid hlookup := by simp [start] at hlookup
  absent id hid hlookup := by
    refine Or.inr (Or.inr (Or.inr ⟨rfl, fun agent work hwork => ?_⟩))
    cases agent <;> cases hwork

namespace Coherent

variable {ix : Indexer} {c : Config} {s s' : Threads} {caller : Nat}

/-- A change that leaves alone the storage, the segment, the queue and what is being applied. -/
theorem of_same (hcoherent : s.Coherent c) (hprimary : s'.primary = s.primary)
    (hmutable : s'.mutable = s.mutable) (hsealed : s'.sealed = s.sealed)
    (hissued : s'.issued = s.issued) (hqueue : s'.queue = s.queue)
    (hworks : ∀ agent, s'.workOf agent = s.workOf agent)
    (hheads : ∀ type id, s.heads type id = true → s'.heads type id = true)
    (htold : ∀ caller op, (s'.stage caller).told = some op → op.segID = s.mutable.id) :
    s'.Coherent c where
  dims := by rw [hprimary]; exact hcoherent.dims
  issued := by rw [hprimary, hissued]; exact hcoherent.issued
  indexed := by rw [hmutable]; exact hcoherent.indexed
  told := by rw [hmutable]; exact htold
  queued := by rw [hqueue, hmutable]; exact hcoherent.queued
  working := by simp only [hworks, hmutable]; exact hcoherent.working
  apart := by simp only [hworks]; exact hcoherent.apart
  present id vec hid hlookup := by
    rw [hsealed] at hid
    rw [hprimary] at hlookup
    have hpresent := hcoherent.present id vec hid hlookup
    unfold Present Arrives at hpresent ⊢
    simp only [hqueue, hworks, hmutable]
    exact hpresent.imp_left (hheads _ _)
  absent id hid hlookup := by
    rw [hsealed] at hid
    rw [hprimary] at hlookup
    have habsent := hcoherent.absent id hid hlookup
    unfold Absent at habsent ⊢
    simp only [hqueue, hworks, hmutable]
    exact habsent.imp_left (hheads _ _)

/-- A caller goes on, with what it is about and what it applies unchanged. -/
theorem shift (hcoherent : s.Coherent c) {next : Stage}
    (hstage : ∀ other, s'.stage other = if other = caller then next else s.stage other)
    (haims : ∀ type id, (s.stage caller).aims type id = true → next.aims type id = true)
    (hwork : next.work? = (s.stage caller).work?)
    (htold : ∀ op, next.told = some op → op.segID = s.mutable.id)
    (hprimary : s'.primary = s.primary) (hmutable : s'.mutable = s.mutable)
    (hsealed : s'.sealed = s.sealed) (hissued : s'.issued = s.issued)
    (hqueue : s'.queue = s.queue) (hworker : s'.worker.work? = s.worker.work?) :
    s'.Coherent c := by
  refine hcoherent.of_same hprimary hmutable hsealed hissued hqueue (fun agent => ?_)
    (fun type id hheads => ?_) fun other op hop => ?_
  · cases agent with
    | none => exact hworker
    | some other =>
        show (s'.stage other).work? = (s.stage other).work?
        rw [hstage]
        split
        next heq =>
          subst heq
          exact hwork
        next => rfl
  · rw [heads_iff] at hheads ⊢
    obtain ⟨other, hother⟩ := hheads
    refine ⟨other, ?_⟩
    rw [hstage]
    split
    next heq =>
      subst heq
      exact haims type id hother
    next => exact hother
  · rw [hstage] at hop
    split at hop
    next => exact htold op hop
    next => exact hcoherent.told other op hop

/-! ### Calls begin -/

/-- A caller that is not on its way goes on, and those that are stay so. -/
theorem heads_of_aim {next : Stage}
    (hstage : ∀ other, s'.stage other = if other = caller then next else s.stage other)
    (haim : (s.stage caller).aim = none) {type : IndexOpType} {id : Bytes}
    (hheads : s.heads type id = true) : s'.heads type id = true := by
  rw [heads_iff] at hheads ⊢
  obtain ⟨other, hother⟩ := hheads
  refine ⟨other, ?_⟩
  rw [hstage, if_neg]
  · exact hother
  · intro heq
    subst heq
    unfold Stage.aims at hother
    rw [haim] at hother
    cases hother

/-- A call begins: the documents it is about are on their way. -/
theorem begins (hcoherent : s.Coherent c) {request : Request} (hidle : s.stage caller = .idle)
    (hstage : ∀ other, s'.stage other = if other = caller then .reading request else s.stage other)
    (hdims : ∀ id vec, s'.primary.lookup id = some vec → vec.length = c.index.dim)
    (hissued : ∀ id, s'.primary.lookup id = (lastOp s'.issued id).join.map c.stored)
    (hmutable : s'.mutable = s.mutable) (hsealed : s'.sealed = s.sealed)
    (hqueue : s'.queue = s.queue) (hworker : s'.worker = s.worker)
    (hprimary : ∀ id, s'.primary.lookup id = s.primary.lookup id ∨
      (s'.primary.lookup id).isSome ∧ s'.heads .add id = true ∨
      s'.primary.lookup id = none ∧ s'.heads .delete id = true) : s'.Coherent c := by
  have hworks : ∀ agent, s'.workOf agent = s.workOf agent := by
    intro agent
    cases agent with
    | none =>
        show s'.worker.work? = s.worker.work?
        rw [hworker]
    | some other =>
        show (s'.stage other).work? = (s.stage other).work?
        rw [hstage]
        split
        next heq =>
          subst heq
          rw [hidle]
          rfl
        next => rfl
  constructor
  case dims => exact hdims
  case issued => exact hissued
  case indexed =>
    rw [hmutable]
    exact hcoherent.indexed
  case told =>
    intro other op hop
    rw [hmutable]
    rw [hstage] at hop
    split at hop
    next => cases hop
    next => exact hcoherent.told other op hop
  case queued =>
    rw [hqueue, hmutable]
    exact hcoherent.queued
  case working =>
    simp only [hworks, hmutable]
    exact hcoherent.working
  case apart =>
    simp only [hworks]
    exact hcoherent.apart
  case present =>
    intro id vec hid hlookup
    rw [hsealed] at hid
    rcases hprimary id with hsame | ⟨_, hheads⟩ | ⟨hnone, _⟩
    · have hpresent := hcoherent.present id vec hid (hsame.symm.trans hlookup)
      unfold Present Arrives at hpresent ⊢
      simp only [hqueue, hworks, hmutable]
      exact hpresent.imp_left (heads_of_aim hstage (by rw [hidle]; rfl))
    · exact Or.inl hheads
    · rw [hnone] at hlookup
      cases hlookup
  case absent =>
    intro id hid hlookup
    rw [hsealed] at hid
    rcases hprimary id with hsame | ⟨hsome, _⟩ | ⟨_, hheads⟩
    · have habsent := hcoherent.absent id hid (hsame.symm.trans hlookup)
      unfold Absent at habsent ⊢
      simp only [hqueue, hworks, hmutable]
      exact habsent.imp_left (heads_of_aim hstage (by rw [hidle]; rfl))
    · rw [hlookup] at hsome
      cases hsome
    · exact Or.inl hheads

theorem aims_of_op? {request : Request} {segID : SegmentID} {op : IndexOp}
    (hop : request.op? segID = some op) {id : Bytes} (hid : id ∈ op.targets) :
    (Stage.reading request).aims op.opType id = true := by
  cases request with
  | add other vec
  | addBatch docs
  | delete other =>
      obtain rfl := Option.some.inj hop
      simpa [Stage.aims, Stage.aim, Request.aim, Request.op?, IndexOp.aim, IndexOp.targets] using hid
  | search => cases hop
  | compact => cases hop

theorem store (hcoherent : s.Coherent c) {request : Request} {docs : List (Bytes × Vector)}
    (hidle : s.stage caller = .idle) (hdocs : ∀ doc ∈ docs, doc.2.length = c.index.dim)
    (hop : ∃ op, request.op? s.mutable.id = some op ∧ op.opType = .add ∧
      ∀ id ∈ docs.map Prod.fst, id ∈ op.targets) :
    Coherent c { s.setStage caller (.reading request) with
      primary := Shard.storeAll c s.primary docs
      issued := s.issued ++ docs.map fun doc => (doc.1, some doc.2) } := by
  refine hcoherent.begins hidle (stage_setStage s caller _)
    (Shard.dims_storeAll hcoherent.dims hdocs) (lookup_storeAll_issued hcoherent.issued docs) rfl rfl
    rfl rfl fun id => ?_
  simp only
  by_cases hid : id ∈ docs.map Prod.fst
  · obtain ⟨op, hsome, htype, htargets⟩ := hop
    refine Or.inr (Or.inl ⟨Shard.isSome_storeAll.mpr (Or.inl hid), heads_iff.mpr ⟨caller, ?_⟩⟩)
    have haims := aims_of_op? hsome (htargets id hid)
    rw [htype] at haims
    have hread := stage_setStage s caller (.reading request) caller
    rw [if_pos rfl] at hread
    exact (congrArg (Stage.aims .add id) hread).trans haims
  · refine Or.inl ?_
    rw [Shard.lookup_storeAll, docOf_eq_none.mpr hid]
    rfl

theorem delete (hcoherent : s.Coherent c) (id : Bytes) (hidle : s.stage caller = .idle) :
    Coherent c { s.setStage caller (.reading (.delete id)) with
      primary := s.primary.erase id
      issued := s.issued ++ [(id, none)] } := by
  refine hcoherent.begins hidle (stage_setStage s caller _)
    (Shard.dims_erase hcoherent.dims id) (lookup_erase_issued hcoherent.issued id) rfl rfl rfl rfl
    fun other => ?_
  simp only
  rw [GoMap.lookup_erase_if]
  split
  next heq =>
    subst heq
    refine Or.inr (Or.inr ⟨rfl, heads_iff.mpr ⟨caller, ?_⟩⟩)
    have haims := @aims_of_op? (.delete other) s.mutable.id _ rfl other
      (by simp [IndexOp.targets])
    have hread := stage_setStage s caller (.reading (.delete other)) caller
    rw [if_pos rfl] at hread
    exact (congrArg (Stage.aims .delete other) hread).trans haims
  next => exact Or.inl rfl

/-! ### Operations are handed over -/

theorem aims_iff {stage : Stage} {op : IndexOp} (haim : stage.aim = some op.aim)
    {type : IndexOpType} {id : Bytes} :
    stage.aims type id = true ↔ op.opType = type ∧ id ∈ op.targets := by
  unfold Stage.aims
  rw [haim]
  simp [IndexOp.aim]

section

variable {next : Stage} {op : IndexOp}
  (hstage : ∀ other, s'.stage other = if other = caller then next else s.stage other)
  (haim : (s.stage caller).aim = some op.aim)

include hstage haim

/-- A call on its way is the one that is handed over now, or another. -/
theorem heads_cases {type : IndexOpType} {id : Bytes} (hheads : s.heads type id = true) :
    s'.heads type id = true ∨ op.opType = type ∧ id ∈ op.targets := by
  obtain ⟨other, hother⟩ := heads_iff.mp hheads
  by_cases heq : other = caller
  · subst heq
    exact Or.inr ((aims_iff haim).mp hother)
  · refine Or.inl (heads_iff.mpr ⟨other, ?_⟩)
    rw [hstage, if_neg heq]
    exact hother

/-- A deletion that is handed over keeps the additions that come later on their way. -/
theorem heads_of_unstored (htype : op.opType = .delete) (hunstored : s.Unstored op.id) {id : Bytes}
    (hid : id ∈ op.targets) {vec : Vector} (hlookup : s.primary.lookup id = some vec) :
    s'.heads .add id = true := by
  have hsame : id = op.id := by
    unfold IndexOp.targets at hid
    rw [htype] at hid
    exact List.mem_singleton.mp hid
  subst hsame
  rcases hunstored with hnone | hheads
  · rw [hnone] at hlookup
    cases hlookup
  · rcases heads_cases hstage haim hheads with hafter | ⟨hadd, _⟩
    · exact hafter
    · rw [htype] at hadd
      cases hadd

end

theorem work?_after (op : IndexOp) : op.after.work? = none := by
  unfold IndexOp.after
  cases op.opType <;> rfl

theorem told_after (op : IndexOp) : op.after.told = none := by
  unfold IndexOp.after
  cases op.opType <;> rfl

/-- An operation is put into the channel. -/
theorem enqueue (hcoherent : s.Coherent c) {op : IndexOp}
    (hstage : s.stage caller = .enqueueing op)
    (hunstored : op.opType = .delete → s.Unstored op.id) :
    Coherent c { s.setStage caller op.after with channel := s.channel ++ [.operation op] } := by
  have hnext : ∀ other, ({ s.setStage caller op.after with
      channel := s.channel ++ [.operation op] } : Threads).stage other =
        if other = caller then op.after else s.stage other := stage_setStage s caller op.after
  have haim : (s.stage caller).aim = some op.aim := by
    rw [hstage]
    rfl
  have hqueue : ({ s.setStage caller op.after with
      channel := s.channel ++ [.operation op] } : Threads).queue = s.queue ++ [op] := by
    simp [queue, setStage, QueueItem.op?]
  have hworks : ∀ agent, ({ s.setStage caller op.after with
      channel := s.channel ++ [.operation op] } : Threads).workOf agent = s.workOf agent := by
    intro agent
    cases agent with
    | none => rfl
    | some other =>
        show Stage.work? _ = (s.stage other).work?
        rw [hnext]
        split
        next heq =>
          subst heq
          rw [hstage, work?_after]
          rfl
        next => rfl
  constructor
  case dims => exact hcoherent.dims
  case issued => exact hcoherent.issued
  case indexed => exact hcoherent.indexed
  case told =>
    intro other op' hop
    rw [hnext] at hop
    split at hop
    next =>
      rw [told_after] at hop
      cases hop
    next => exact hcoherent.told other op' hop
  case queued =>
    intro op' hop
    rw [hqueue, List.mem_append, List.mem_singleton] at hop
    rcases hop with hold | rfl
    · exact hcoherent.queued op' hold
    · exact hcoherent.told caller op' (by rw [hstage]; rfl)
  case working =>
    simp only [hworks]
    exact hcoherent.working
  case apart =>
    simp only [hworks]
    exact hcoherent.apart
  case present =>
    intro id vec hid hlookup
    unfold Present Arrives
    simp only [hworks]
    rw [hqueue, closing_concat]
    by_cases htarget : id ∈ op.targets
    · cases htype : op.opType with
      | add => exact Or.inr (Or.inl (by rw [if_pos htarget]))
      | delete =>
          exact Or.inl (heads_of_unstored hnext haim htype (hunstored htype) htarget hlookup)
    · rw [if_neg htarget]
      rcases hcoherent.present id vec hid hlookup with hheads | hrest
      · rcases heads_cases hnext haim hheads with hafter | ⟨_, hin⟩
        · exact Or.inl hafter
        · exact absurd hin htarget
      · exact Or.inr hrest
  case absent =>
    intro id hid hlookup
    unfold Absent
    simp only [hworks]
    rw [hqueue]
    rcases hcoherent.absent id hid hlookup with hheads | ⟨op', hop, hrest⟩ | hrest
    · rcases heads_cases hnext haim hheads with hafter | ⟨htype, hin⟩
      · exact Or.inl hafter
      · exact Or.inr (Or.inl ⟨op, List.mem_append_right _ (List.mem_singleton_self _), htype, hin⟩)
    · exact Or.inr (Or.inl ⟨op', List.mem_append_left _ hop, hrest⟩)
    · exact Or.inr (Or.inr hrest)

end Coherent

end Threads

end Vectron.Segment
