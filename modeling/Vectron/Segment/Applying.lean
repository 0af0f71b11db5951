import Vectron.Segment.Handover

/-! # Applying operations of the index queue

The worker and the callers that find the channel full apply operations in the same way: they
look at the mutable segment, read the documents from the storage one by one and change the
segment. The invariant of the queue goes through each of these steps, whoever makes them.
-/

namespace Vectron.Segment

open Foundation
open Worker (Vector idOf)

namespace Threads

namespace Coherent

variable {ix : Indexer} {c : Config} {s s' : Threads} {caller : Nat}

/-! ## Start -/

theorem sensible_start (op : IndexOp) : (Work.start op).Sensible c := by
  refine ⟨nofun, nofun, fun id hid => ?_⟩
  unfold Work.start at hid ⊢
  cases htype : op.opType with
  | add =>
      rw [htype] at hid
      exact hid
  | delete =>
      rw [htype] at hid
      cases hid

/-- Somebody starts to apply an operation. -/
theorem starts (hcoherent : s.Coherent c) {op : IndexOp} {agent : Option Nat}
    (hseg : op.segID = s.mutable.id) (huntouched : s.Untouched op) (hfree : s.workOf agent = none)
    (hworks : ∀ other, s'.workOf other =
      if other = agent then some (.start op) else s.workOf other)
    (hprimary : s'.primary = s.primary) (hmutable : s'.mutable = s.mutable)
    (hsealed : s'.sealed = s.sealed) (hissued : s'.issued = s.issued)
    (htold : ∀ caller op, (s'.stage caller).told = some op → op.segID = s.mutable.id)
    (hqueued : ∀ op ∈ s'.queue, op.segID = s.mutable.id)
    (hpresent : ∀ id vec, s.primary.lookup id = some vec → s.Present c id vec →
      s'.heads .add id = true ∨ closing s'.queue id = some .add ∨
        closing s'.queue id ≠ some .delete ∧
          (op.opType = .add ∧ id ∈ op.targets ∨ id ∉ op.targets ∧ s.Arrives c id vec))
    (habsent : ∀ id, s.Absent c id → s'.heads .delete id = true ∨
      (∃ op ∈ s'.queue, op.opType = .delete ∧ id ∈ op.targets) ∨
      (op.opType = .delete ∧ id ∈ op.targets) ∨
      (∃ agent work, s.workOf agent = some work ∧ work.op.opType = .delete ∧
        id ∈ work.op.targets) ∨
      s.mutable.item c id = none ∧
        ∀ agent work, s.workOf agent = some work → docOf work.docs id = none) :
    s'.Coherent c := by
  have hnew : s'.workOf agent = some (.start op) := by rw [hworks, if_pos rfl]
  have hold : ∀ other work, s.workOf other = some work → s'.workOf other = some work := by
    intro other work hwork
    rw [hworks, if_neg, hwork]
    intro heq
    rw [heq, hfree] at hwork
    cases hwork
  have hcases : ∀ other work, s'.workOf other = some work →
      other = agent ∧ work = .start op ∨ other ≠ agent ∧ s.workOf other = some work := by
    intro other work hwork
    rw [hworks] at hwork
    split at hwork
    next heq => exact Or.inl ⟨heq, (Option.some.inj hwork).symm⟩
    next hne => exact Or.inr ⟨hne, hwork⟩
  constructor
  case dims =>
    rw [hprimary]
    exact hcoherent.dims
  case issued =>
    rw [hprimary, hissued]
    exact hcoherent.issued
  case indexed =>
    rw [hmutable]
    exact hcoherent.indexed
  case told =>
    rw [hmutable]
    exact htold
  case queued =>
    rw [hmutable]
    exact hqueued
  case working =>
    intro other work hwork
    rw [hmutable]
    rcases hcases other work hwork with ⟨_, rfl⟩ | ⟨_, hbefore⟩
    · exact ⟨hseg, sensible_start op⟩
    · exact hcoherent.working other work hbefore
  case apart =>
    intro first second work work' hwork hwork' hne id hid hid'
    rcases hcases first work hwork with ⟨rfl, rfl⟩ | ⟨_, hbefore⟩
    · rcases hcases second work' hwork' with ⟨rfl, rfl⟩ | ⟨_, hbefore'⟩
      · exact hne rfl
      · exact huntouched work' (mem_works_of_workOf hbefore') id hid hid'
    · rcases hcases second work' hwork' with ⟨rfl, rfl⟩ | ⟨_, hbefore'⟩
      · exact huntouched work (mem_works_of_workOf hbefore) id hid' hid
      · exact hcoherent.apart first second work work' hbefore hbefore' hne id hid hid'
  case present =>
    intro id vec hid hlookup
    rw [hsealed] at hid
    rw [hprimary] at hlookup
    rcases hpresent id vec hlookup (hcoherent.present id vec hid hlookup) with
      hheads | hclosing | ⟨hopen, hadds | ⟨hout, harrives⟩⟩
    · exact Or.inl hheads
    · exact Or.inr (Or.inl hclosing)
    · obtain ⟨htype, hin⟩ := hadds
      refine Or.inr (Or.inr ⟨hopen, Or.inl ⟨agent, _, hnew, htype, hin, Or.inl ?_⟩⟩)
      unfold Work.start
      rw [htype]
      exact hin
    · refine Or.inr (Or.inr ⟨hopen, ?_⟩)
      rcases harrives with ⟨other, work, hwork, hrest⟩ | ⟨hnone, hitem⟩
      · exact Or.inl ⟨other, work, hold other work hwork, hrest⟩
      · refine Or.inr ⟨fun other work hwork => ?_, by rw [hmutable]; exact hitem⟩
        rcases hcases other work hwork with ⟨_, rfl⟩ | ⟨_, hbefore⟩
        · exact hout
        · exact hnone other work hbefore
  case absent =>
    intro id hid hlookup
    rw [hsealed] at hid
    rw [hprimary] at hlookup
    rcases habsent id (hcoherent.absent id hid hlookup) with
      hheads | hqueue | ⟨htype, hin⟩ | ⟨other, work, hwork, hrest⟩ | ⟨hitem, hdocs⟩
    · exact Or.inl hheads
    · exact Or.inr (Or.inl hqueue)
    · exact Or.inr (Or.inr (Or.inl ⟨agent, _, hnew, htype, hin⟩))
    · exact Or.inr (Or.inr (Or.inl ⟨other, work, hold other work hwork, hrest⟩))
    · refine Or.inr (Or.inr (Or.inr ⟨by rw [hmutable]; exact hitem, fun other work hwork => ?_⟩))
      rcases hcases other work hwork with ⟨_, rfl⟩ | ⟨_, hbefore⟩
      · rfl
      · exact hdocs other work hbefore

/-- What is applied after a caller has gone on. -/
theorem workOf_stage {stage : Stage}
    (hnext : ∀ other, s'.stage other = if other = caller then stage else s.stage other)
    (hworker : s'.worker = s.worker) (agent : Option Nat) :
    s'.workOf agent = if agent = some caller then stage.work? else s.workOf agent := by
  cases agent with
  | none => simp [workOf, hworker]
  | some other =>
      simp only [workOf, hnext, Option.some.injEq]
      split
      next => rfl
      next => rfl

/-- A caller starts to apply its operation. -/
theorem startCall (hcoherent : s.Coherent c) {op : IndexOp} (hstage : s.stage caller = .applying op)
    (hinOrder : Stage.InOrder s (.applying op)) :
    Coherent c (s.setStage caller (.working (.start op))) := by
  obtain ⟨hunstored, hopen, huntouched⟩ := hinOrder
  have hnext := stage_setStage s caller (.working (.start op))
  have haim : (s.stage caller).aim = some op.aim := by
    rw [hstage]
    rfl
  refine @starts c s _ hcoherent op (some caller)
    (hcoherent.told caller op (by rw [hstage]; rfl)) huntouched ?_ (fun agent => ?_) rfl rfl rfl rfl
    (fun other op' hop => ?_) hcoherent.queued (fun id vec hlookup hpresent => ?_)
    fun id habsent => ?_
  · show (s.stage caller).work? = none
    rw [hstage]
    rfl
  · rw [workOf_stage hnext rfl]
    rfl
  · rw [hnext] at hop
    split at hop
    next => cases hop
    next => exact hcoherent.told other op' hop
  · have hqueue : (s.setStage caller (.working (.start op))).queue = s.queue := rfl
    rw [hqueue]
    by_cases htarget : id ∈ op.targets
    · cases htype : op.opType with
      | add => exact Or.inr (Or.inr ⟨hopen htype id htarget, Or.inl ⟨rfl, htarget⟩⟩)
      | delete =>
          exact Or.inl (heads_of_unstored hnext haim htype (hunstored htype) htarget hlookup)
    · rcases hpresent with hheads | hclosing | ⟨hnot, harrives⟩
      · rcases heads_cases hnext haim hheads with hafter | ⟨_, hin⟩
        · exact Or.inl hafter
        · exact absurd hin htarget
      · exact Or.inr (Or.inl hclosing)
      · exact Or.inr (Or.inr ⟨hnot, Or.inr ⟨htarget, harrives⟩⟩)
  · rcases habsent with hheads | hqueue | hwork | hitem
    · rcases heads_cases hnext haim hheads with hafter | hthis
      · exact Or.inl hafter
      · exact Or.inr (Or.inr (Or.inl hthis))
    · exact Or.inr (Or.inl hqueue)
    · exact Or.inr (Or.inr (Or.inr (Or.inl hwork)))
    · exact Or.inr (Or.inr (Or.inr (Or.inr hitem)))

/-- The worker starts to apply the next operation. -/
theorem startWork (hcoherent : s.Coherent c) {answer : Option Nat} {op : IndexOp}
    {rest : List IndexOp} (hworker : s.worker = .flushing answer) (hbuffer : s.buffer = op :: rest)
    (huntouched : s.Untouched op) :
    Coherent c { s with buffer := rest, worker := .working answer (.start op) } := by
  have hqueue : s.queue = op ::
      ({ s with buffer := rest, worker := .working answer (.start op) } : Threads).queue := by
    unfold queue
    rw [hbuffer]
    rfl
  have hheads : ∀ type id, ({ s with buffer := rest, worker := .working answer (.start op) } :
      Threads).heads type id = s.heads type id := fun _ _ => rfl
  refine @starts c s _ hcoherent op none (hcoherent.queued op (by rw [hqueue]; exact List.mem_cons_self))
    huntouched ?_ (fun agent => ?_) rfl rfl rfl rfl hcoherent.told (fun op' hop => ?_)
    (fun id vec hlookup hpresent => ?_) fun id habsent => ?_
  · show s.worker.work? = none
    rw [hworker]
    rfl
  · cases agent with
    | none => rfl
    | some other => rfl
  · exact hcoherent.queued op' (by rw [hqueue]; exact List.mem_cons_of_mem _ hop)
  · rw [hheads]
    unfold Present at hpresent
    rw [hqueue, closing_cons] at hpresent
    generalize closing ({ s with buffer := rest, worker := .working answer (.start op) } :
      Threads).queue id = last at hpresent ⊢
    rcases hpresent with hon | hclosing | ⟨hnot, harrives⟩
    · exact Or.inl hon
    · cases last with
      | some type => exact Or.inr (Or.inl hclosing)
      | none =>
          rw [Option.none_or] at hclosing
          split at hclosing
          next hin => exact Or.inr (Or.inr ⟨nofun, Or.inl ⟨Option.some.inj hclosing, hin⟩⟩)
          next => cases hclosing
    · cases last with
      | some type =>
          cases type with
          | add => exact Or.inr (Or.inl rfl)
          | delete => exact absurd rfl hnot
      | none =>
          rw [Option.none_or] at hnot
          refine Or.inr (Or.inr ⟨nofun, ?_⟩)
          split at hnot
          next hin =>
            cases htype : op.opType with
            | add => exact Or.inl ⟨rfl, hin⟩
            | delete => exact absurd (by rw [htype]) hnot
          next hout => exact Or.inr ⟨hout, harrives⟩
  · rw [hheads]
    unfold Absent at habsent
    rw [hqueue] at habsent
    rcases habsent with hon | ⟨op', hop, hdelete⟩ | hwork | hitem
    · exact Or.inl hon
    · rcases List.mem_cons.mp hop with rfl | hrest
      · exact Or.inr (Or.inr (Or.inl hdelete))
      · exact Or.inr (Or.inl ⟨op', hrest, hdelete⟩)
    · exact Or.inr (Or.inr (Or.inr (Or.inl hwork)))
    · exact Or.inr (Or.inr (Or.inr (Or.inr hitem)))

/-! ## Documents -/

theorem docOf_load (primary : GoMap Bytes Vector) (work : Work) (id : Bytes) (rest : List Bytes)
    (other : Bytes) : docOf (work.load primary id rest).docs other =
      if other = id then (primary.lookup id).or (docOf work.docs id) else docOf work.docs other := by
  unfold Work.load loadVectors
  cases hvec : primary.lookup id with
  | none =>
      have hnothing : [id].filterMap (fun id => (primary.lookup id).map fun vec => (id, vec)) =
          [] := by simp [hvec]
      rw [hnothing, List.append_nil]
      split
      next heq =>
        subst heq
        rfl
      next => rfl
  | some vec =>
      have hone : [id].filterMap (fun id => (primary.lookup id).map fun vec => (id, vec)) =
          [(id, vec)] := by simp [hvec]
      rw [hone, docOf_concat]
      rfl

theorem sensible_load (hcoherent : s.Coherent c) {work : Work} (hsensible : work.Sensible c)
    {id : Bytes} {rest : List Bytes} (hrest : work.rest = id :: rest) :
    (work.load s.primary id rest).Sensible c := by
  have hcases : ∀ doc ∈ (work.load s.primary id rest).docs,
      doc ∈ work.docs ∨ s.primary.lookup doc.1 = some doc.2 ∧ doc.1 = id := by
    intro doc hdoc
    rcases List.mem_append.mp hdoc with hbefore | hnew
    · exact Or.inl hbefore
    · have hlookup := mem_loadVectors hnew
      obtain ⟨other, hother, hvec⟩ := List.mem_filterMap.mp hnew
      obtain ⟨vec, _, rfl⟩ := Option.map_eq_some_iff.mp hvec
      exact Or.inr ⟨hlookup, List.mem_singleton.mp hother⟩
  refine ⟨fun doc hdoc => ?_, fun doc hdoc => ?_, fun other hother => ?_⟩
  · rcases hcases doc hdoc with hbefore | ⟨hlookup, _⟩
    · exact hsensible.dims doc hbefore
    · exact hcoherent.dims doc.1 doc.2 hlookup
  · rcases hcases doc hdoc with hbefore | ⟨_, rfl⟩
    · exact hsensible.docs doc hbefore
    · exact hsensible.rest doc.1 (by rw [hrest]; exact List.mem_cons_self)
  · exact hsensible.rest other (by rw [hrest]; exact List.mem_cons_of_mem _ hother)

/-- One document of an operation is read from the storage. -/
theorem loads (hcoherent : s.Coherent c) {agent : Option Nat} {work : Work} {id : Bytes}
    {rest : List Bytes} (hwork : s.workOf agent = some work) (hrest : work.rest = id :: rest)
    (hworks : ∀ other, s'.workOf other =
      if other = agent then some (work.load s.primary id rest) else s.workOf other)
    (hprimary : s'.primary = s.primary) (hmutable : s'.mutable = s.mutable)
    (hsealed : s'.sealed = s.sealed) (hissued : s'.issued = s.issued)
    (hqueue : s'.queue = s.queue)
    (hheads : ∀ type id, s.heads type id = true → s'.heads type id = true)
    (htold : ∀ caller op, (s'.stage caller).told = some op → op.segID = s.mutable.id) :
    s'.Coherent c := by
  have hnew : s'.workOf agent = some (work.load s.primary id rest) := by rw [hworks, if_pos rfl]
  have hcases : ∀ other work', s'.workOf other = some work' →
      other = agent ∧ work' = work.load s.primary id rest ∨
        other ≠ agent ∧ s.workOf other = some work' := by
    intro other work' hother
    rw [hworks] at hother
    split at hother
    next heq => exact Or.inl ⟨heq, (Option.some.inj hother).symm⟩
    next hne => exact Or.inr ⟨hne, hother⟩
  -- whoever applied something applies the same operation now
  have hbefore : ∀ other work', s'.workOf other = some work' →
      ∃ before, s.workOf other = some before ∧ before.op = work'.op := by
    intro other work' hother
    rcases hcases other work' hother with ⟨rfl, rfl⟩ | ⟨_, hsame⟩
    · exact ⟨work, hwork, rfl⟩
    · exact ⟨work', hsame, rfl⟩
  have hafter : ∀ other before, s.workOf other = some before →
      ∃ work', s'.workOf other = some work' ∧ work'.op = before.op ∧
        (other ≠ agent → work' = before) := by
    intro other before hother
    by_cases heq : other = agent
    · subst heq
      obtain rfl := Option.some.inj (hwork.symm.trans hother)
      exact ⟨_, hnew, rfl, fun hne => absurd rfl hne⟩
    · exact ⟨before, by rw [hworks, if_neg heq]; exact hother, rfl, fun _ => rfl⟩
  constructor
  case dims =>
    rw [hprimary]
    exact hcoherent.dims
  case issued =>
    rw [hprimary, hissued]
    exact hcoherent.issued
  case indexed =>
    rw [hmutable]
    exact hcoherent.indexed
  case told =>
    rw [hmutable]
    exact htold
  case queued =>
    rw [hqueue, hmutable]
    exact hcoherent.queued
  case working =>
    intro other work' hother
    rw [hmutable]
    obtain ⟨hseg, hsensible⟩ := hcoherent.working agent work hwork
    rcases hcases other work' hother with ⟨_, rfl⟩ | ⟨_, hsame⟩
    · exact ⟨hseg, hcoherent.sensible_load hsensible hrest⟩
    · exact hcoherent.working other work' hsame
  case apart =>
    intro first second work₁ work₂ hfirst hsecond hne
    obtain ⟨before₁, hbefore₁, hop₁⟩ := hbefore first work₁ hfirst
    obtain ⟨before₂, hbefore₂, hop₂⟩ := hbefore second work₂ hsecond
    rw [← hop₁, ← hop₂]
    exact hcoherent.apart first second before₁ before₂ hbefore₁ hbefore₂ hne
  case present =>
    intro other vec hother hlookup
    rw [hsealed] at hother
    rw [hprimary] at hlookup
    unfold Present
    rw [hqueue]
    rcases hcoherent.present other vec hother hlookup with hon | hclosing | ⟨hopen, harrives⟩
    · exact Or.inl (hheads _ _ hon)
    · exact Or.inr (Or.inl hclosing)
    · refine Or.inr (Or.inr ⟨hopen, ?_⟩)
      rcases harrives with ⟨first, before, hfirst, htype, hin, hcoming⟩ | ⟨hnone, hitem⟩
      · by_cases heq : first = agent
        · subst heq
          obtain rfl := Option.some.inj (hwork.symm.trans hfirst)
          refine Or.inl ⟨first, _, hnew, htype, hin, ?_⟩
          rw [docOf_load]
          by_cases hid : other = id
          · subst hid
            rw [if_pos rfl, hlookup]
            exact Or.inr rfl
          · rw [if_neg hid]
            rw [hrest, List.mem_cons] at hcoming
            rcases hcoming with hnow | hdoc
            · exact Or.inl (hnow.resolve_left hid)
            · exact Or.inr hdoc
        · obtain ⟨work', hwork', _, hsame⟩ := hafter first before hfirst
          obtain rfl := hsame heq
          exact Or.inl ⟨first, work', hwork', htype, hin, hcoming⟩
      · refine Or.inr ⟨fun first work' hfirst => ?_, by rw [hmutable]; exact hitem⟩
        obtain ⟨before, hsome, hop⟩ := hbefore first work' hfirst
        rw [← hop]
        exact hnone first before hsome
  case absent =>
    intro other hother hlookup
    rw [hsealed] at hother
    rw [hprimary] at hlookup
    unfold Absent
    rw [hqueue, hmutable]
    rcases hcoherent.absent other hother hlookup with hon | hqueued |
      ⟨first, before, hfirst, htype, hin⟩ | ⟨hitem, hdocs⟩
    · exact Or.inl (hheads _ _ hon)
    · exact Or.inr (Or.inl hqueued)
    · obtain ⟨work', hwork', hop, _⟩ := hafter first before hfirst
      rw [← hop] at htype hin
      exact Or.inr (Or.inr (Or.inl ⟨first, work', hwork', htype, hin⟩))
    · refine Or.inr (Or.inr (Or.inr ⟨hitem, fun first work' hfirst => ?_⟩))
      rcases hcases first work' hfirst with ⟨rfl, rfl⟩ | ⟨_, hsame⟩
      · have hnone := hdocs first work hwork
        rw [docOf_load]
        split
        next heq =>
          subst heq
          rw [hlookup, hnone]
          rfl
        next => exact hnone
      · exact hdocs first work' hsame

/-! ## End -/

theorem mem_targets_of_delete {op : IndexOp} (htype : op.opType = .delete) {id : Bytes} :
    id ∈ op.targets ↔ id = op.id := by
  unfold IndexOp.targets
  rw [htype]
  exact List.mem_singleton

/-- The segment after an operation is applied. -/
theorem finish_spec {work : Work} {m : MutableSegment} (hindexed : m.Indexed c)
    (hseg : work.op.segID = m.id) (hsensible : work.Sensible c) :
    (work.finish c m).Indexed c ∧ (work.finish c m).id = m.id ∧
      ∀ id, (work.finish c m).item c id =
        match work.op.opType with
        | .add => ((docOf work.docs id).map c.kept).or (m.item c id)
        | .delete => if id ∈ work.op.targets then none else m.item c id := by
  unfold Work.finish
  rw [if_neg fun hne => hne hseg.symm]
  cases htype : work.op.opType with
  | add =>
      obtain ⟨_, hafter, hid, hitem⟩ := MutableSegment.applyAddBatch_spec hindexed hsensible.dims
      exact ⟨hafter, hid, hitem⟩
  | delete =>
      obtain ⟨hafter, hid, hitem⟩ := MutableSegment.delete_spec hindexed work.op.id
      refine ⟨hafter, hid, fun id => ?_⟩
      simp only [hitem, mem_targets_of_delete htype]

/-- An operation is applied. -/
theorem finishes (hcoherent : s.Coherent c) {agent : Option Nat} {work : Work}
    (hwork : s.workOf agent = some work) (hrest : work.rest = [])
    (hworks : ∀ other, s'.workOf other = if other = agent then none else s.workOf other)
    (hprimary : s'.primary = s.primary) (hmutable : s'.mutable = work.finish c s.mutable)
    (hsealed : s'.sealed = s.sealed) (hissued : s'.issued = s.issued)
    (hqueue : s'.queue = s.queue)
    (hheads : ∀ type id, s.heads type id = true → s'.heads type id = true)
    (htold : ∀ caller op, (s'.stage caller).told = some op → op.segID = s.mutable.id) :
    s'.Coherent c := by
  obtain ⟨hseg, hsensible⟩ := hcoherent.working agent work hwork
  obtain ⟨hindexed, hid, hitems⟩ := finish_spec hcoherent.indexed hseg hsensible
  have hbefore : ∀ other work', s'.workOf other = some work' →
      other ≠ agent ∧ s.workOf other = some work' := by
    intro other work' hother
    rw [hworks] at hother
    split at hother
    next => cases hother
    next hne => exact ⟨hne, hother⟩
  have hafter : ∀ other work', other ≠ agent → s.workOf other = some work' →
      s'.workOf other = some work' := by
    intro other work' hne hother
    rw [hworks, if_neg hne]
    exact hother
  -- an operation about a document is the only one that is applied
  have halone : ∀ other ∈ work.op.targets, ∀ first work', s'.workOf first = some work' →
      other ∉ work'.op.targets := by
    intro other hother first work' hfirst
    obtain ⟨hne, hsame⟩ := hbefore first work' hfirst
    exact hcoherent.apart agent first work work' hwork hsame hne.symm other hother
  constructor
  case dims =>
    rw [hprimary]
    exact hcoherent.dims
  case issued =>
    rw [hprimary, hissued]
    exact hcoherent.issued
  case indexed =>
    rw [hmutable]
    exact hindexed
  case told =>
    rw [hmutable, hid]
    exact htold
  case queued =>
    rw [hqueue, hmutable, hid]
    exact hcoherent.queued
  case working =>
    intro other work' hother
    rw [hmutable, hid]
    exact hcoherent.working other work' (hbefore other work' hother).2
  case apart =>
    intro first second work₁ work₂ hfirst hsecond hne
    exact hcoherent.apart first second work₁ work₂ (hbefore first work₁ hfirst).2
      (hbefore second work₂ hsecond).2 hne
  case present =>
    intro other vec hother hlookup
    rw [hsealed] at hother
    rw [hprimary] at hlookup
    unfold Present Arrives
    rw [hqueue, hmutable]
    rcases hcoherent.present other vec hother hlookup with hon | hclosing | ⟨hopen, harrives⟩
    · exact Or.inl (hheads _ _ hon)
    · exact Or.inr (Or.inl hclosing)
    · refine Or.inr (Or.inr ⟨hopen, ?_⟩)
      rcases harrives with ⟨first, work', hfirst, htype, hin, hcoming⟩ | ⟨hnone, hitem⟩
      · by_cases heq : first = agent
        · subst heq
          obtain rfl := Option.some.inj (hwork.symm.trans hfirst)
          refine Or.inr ⟨halone other hin, ?_⟩
          rw [hrest] at hcoming
          rw [hitems, htype, hcoming.resolve_left nofun]
          rfl
        · exact Or.inl ⟨first, work', hafter first work' heq hfirst, htype, hin, hcoming⟩
      · have hout := hnone agent work hwork
        refine Or.inr ⟨fun first work' hfirst => hnone first work' (hbefore first work' hfirst).2, ?_⟩
        rw [hitems]
        cases htype : work.op.opType with
        | add =>
            simp only
            rw [hsensible.docOf_eq_none hout, hitem]
            rfl
        | delete =>
            simp only
            rw [if_neg hout]
            exact hitem
  case absent =>
    intro other hother hlookup
    rw [hsealed] at hother
    rw [hprimary] at hlookup
    unfold Absent
    rw [hqueue, hmutable]
    rcases hcoherent.absent other hother hlookup with hon | hqueued |
      ⟨first, work', hfirst, htype, hin⟩ | ⟨hitem, hdocs⟩
    · exact Or.inl (hheads _ _ hon)
    · exact Or.inr (Or.inl hqueued)
    · by_cases heq : first = agent
      · subst heq
        obtain rfl := Option.some.inj (hwork.symm.trans hfirst)
        refine Or.inr (Or.inr (Or.inr ⟨?_, fun second work₂ hsecond => ?_⟩))
        · rw [hitems, htype]
          simp only
          rw [if_pos hin]
        · have hboth := (hcoherent.working second work₂ (hbefore second work₂ hsecond).2).2
          exact hboth.docOf_eq_none (halone other hin second work₂ hsecond)
      · exact Or.inr (Or.inr (Or.inl ⟨first, work', hafter first work' heq hfirst, htype, hin⟩))
    · refine Or.inr (Or.inr (Or.inr ⟨?_, fun first work' hfirst =>
        hdocs first work' (hbefore first work' hfirst).2⟩))
      rw [hitems]
      cases htype : work.op.opType with
      | add =>
          simp only
          rw [hdocs agent work hwork, hitem]
          rfl
      | delete =>
          simp only
          split
          next => rfl
          next => exact hitem

/-- A caller reads a document of its operation. -/
theorem loadCall (hcoherent : s.Coherent c) {work : Work} {id : Bytes} {rest : List Bytes}
    (hstage : s.stage caller = .working work) (hrest : work.rest = id :: rest) :
    Coherent c (s.setStage caller (.working (work.load s.primary id rest))) := by
  have hnext := stage_setStage s caller (.working (work.load s.primary id rest))
  refine @loads c s _ hcoherent (some caller) work id rest ?_ hrest (fun agent => ?_) rfl rfl rfl rfl
    rfl (fun type other => heads_of_aim hnext (by rw [hstage]; rfl)) fun other op hop => ?_
  · show (s.stage caller).work? = some work
    rw [hstage]
    rfl
  · rw [workOf_stage hnext rfl]
    rfl
  · rw [hnext] at hop
    split at hop
    next => cases hop
    next => exact hcoherent.told other op hop

/-- A caller is through with its operation. -/
theorem finishCall (hcoherent : s.Coherent c) {work : Work}
    (hstage : s.stage caller = .working work) (hrest : work.rest = []) :
    Coherent c { s.setStage caller work.op.after with mutable := work.finish c s.mutable } := by
  have hnext : ∀ other, ({ s.setStage caller work.op.after with
      mutable := work.finish c s.mutable } : Threads).stage other =
        if other = caller then work.op.after else s.stage other :=
    stage_setStage s caller work.op.after
  refine @finishes c s _ hcoherent (some caller) work ?_ hrest (fun agent => ?_) rfl rfl rfl rfl rfl
    (fun type other => heads_of_aim hnext (by rw [hstage]; rfl)) fun other op hop => ?_
  · show (s.stage caller).work? = some work
    rw [hstage]
    rfl
  · rw [workOf_stage hnext rfl, work?_after]
  · rw [hnext] at hop
    split at hop
    next =>
      rw [told_after] at hop
      cases hop
    next => exact hcoherent.told other op hop

end Coherent

end Threads

end Vectron.Segment
