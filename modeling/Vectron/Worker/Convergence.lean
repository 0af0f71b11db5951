import Vectron.Worker.Midst

/-! # Convergence of the index

Once the queue of the indexer has drained, the index has the vectors the database has.
Every step keeps the index on its way there: what one call does to an id is seen by no
other call that is in the midst of it.
-/

namespace Vectron.Worker

open Foundation OrderedStore

section Invariant

variable {s : PipelineSettings} {config : IndexConfig}

/-! ## Steps -/

/-- The ids of a call that may not be in flight. -/
def SameMidst (old new : Option InFlight) : Prop :=
  old.elim [] InFlight.writing = new.elim [] InFlight.writing ∧
    old.elim [] InFlight.removing = new.elim [] InFlight.removing

section

variable {old new : Option InFlight} (hsame : SameMidst old new)

include hsame

theorem SameMidst.writing {state : InFlight} (hstate : state ∈ old) {id : Bytes}
    (hid : id ∈ state.writing) :
    ∃ state' ∈ new, id ∈ state'.writing := by
  cases hstate
  have hnew : id ∈ new.elim [] InFlight.writing := by
    rw [← hsame.1]
    exact hid
  cases new with
  | none => cases hnew
  | some state' => exact ⟨state', rfl, hnew⟩

theorem SameMidst.midst {state : InFlight} (hstate : state ∈ old) {id : Bytes}
    (hid : state.Midst id) :
    ∃ state' ∈ new, state'.Midst id := by
  rcases hid with hid | hid
  · obtain ⟨state', hstate', hid'⟩ := hsame.writing hstate hid
    exact ⟨state', hstate', Or.inl hid'⟩
  · cases hstate
    have hnew : id ∈ new.elim [] InFlight.removing := by
      rw [← hsame.2]
      exact hid
    cases new with
    | none => cases hnew
    | some state' => exact ⟨state', rfl, Or.inr hnew⟩

theorem SameMidst.symm :
    SameMidst new old := ⟨hsame.1.symm, hsame.2.symm⟩

end

namespace Convergent

variable {sys : System}

section

variable (hinv : Convergent s config sys) {sys' : System} {call : Nat}

include hinv

/-- A call goes on and touches nothing. -/
theorem quiet {new : Option InFlight} (hown : sys'.calls.lookup call = new)
    (hothers : ∀ other, other ≠ call → sys'.calls.lookup other = sys.calls.lookup other)
    (hnext : sys.nextCall ≤ sys'.nextCall ∧ (new.isSome = true → call < sys'.nextCall))
    (hconfig : sys'.index.config = sys.index.config) (hpending : sys'.pending = sys.pending)
    (hview : ∀ id, sys'.view s config id = sys.view s config id)
    (hsame : SameMidst (sys.calls.lookup call) new)
    (hok : ∀ state ∈ new, InFlightOrdered s config (sys.view s config) state) :
    Convergent s config sys' := by
  have hmoves : Moves s config sys sys' call new fun _ => False := by
    refine ⟨hown, hothers, hconfig, ?_, hnext, ?_, nofun, ?_, ?_, ?_⟩
    · rw [hpending]
      exact hinv.encoded
    · intro id _
      rw [hview]
      exact View.Steady.refl _
    · intro state hstate other hother state' hstate'
      constructor
      · intro id hid
        obtain ⟨old, hold, hid'⟩ := hsame.symm.writing hstate hid
        exact hinv.apart call other (Ne.symm hother) old hold state' hstate' id hid'
      · intro id hid hmidst
        obtain ⟨old, hold, hid'⟩ := hsame.symm.midst hstate hmidst
        exact hinv.apart other call hother state' hstate' old hold id hid hid'
    · have hviews : sys'.view s config = sys.view s config := funext hview
      rw [hviews]
      exact hok
    · intro id hold hnew
      obtain ⟨state, hstate, hid⟩ := hold.resolve_left not_false
      obtain ⟨state', hstate', hid'⟩ := hsame.midst hstate hid
      exact absurd hid' (hnew state' hstate')
  exact hmoves.convergent hinv

theorem advance {old new : InFlight} (hlookup : sys.calls.lookup call = some old)
    (hcalls : sys'.calls = sys.calls) (hnext : sys'.nextCall = sys.nextCall)
    (hconfig : sys'.index.config = sys.index.config) (hpending : sys'.pending = sys.pending)
    (hview : ∀ id, sys'.view s config id = sys.view s config id)
    (hsame : SameMidst (some old) (some new))
    (hok : InFlightOrdered s config (sys.view s config) new) :
    Convergent s config (sys'.enter call new) := by
  refine hinv.quiet (lookup_enter_self sys' call new) ?_ ?_ hconfig hpending hview ?_ ?_
  · intro other hother
    rw [lookup_enter_of_ne sys' hother, hcalls]
  · have hstarted := hinv.started call old hlookup
    exact ⟨hnext.ge, fun _ => hnext.symm ▸ hstarted⟩
  · rw [hlookup]
    exact hsame
  · intro state hstate
    cases hstate
    exact hok

end

end Convergent

/-! ## Requests -/

theorem encoded_of_encodeVector {vector : Vector} {metadata value : Bytes}
    (hencode : encodeVector s.toSettings vector metadata = .ok value) (call place : Nat)
    (id : Bytes) : Put.Encoded s ⟨call, place, id, vector, value⟩ := by
  have hdim := encodeVector_dim hencode
  refine ⟨hdim, metadata, ?_⟩
  rw [encodeVector, if_neg (not_not.mpr hdim)] at hencode
  exact hencode

theorem encoded_of_mem_putsOf {call : Nat} {vectors : List VectorEntry}
    {pairs : List (Bytes × Bytes)} (hencode : vectors.mapM (encodeEntry s.toSettings) = .ok pairs)
    {put : Put} (hput : put ∈ putsOf call vectors pairs) : put.Encoded s := by
  obtain ⟨⟨⟨entry, pair⟩, i⟩, hitem, rfl⟩ := List.mem_map.mp hput
  have hzip : (entry, pair) ∈ vectors.zip pairs :=
    List.mem_of_getElem? (List.mem_zipIdx_iff_getElem?.mp hitem)
  have hentry := List.forall₂_zip (encodeEntries_eq_ok hencode) hzip
  exact encoded_of_encodeVector (encodeEntry_eq_ok hentry).2.2 call i entry.id

namespace Convergent

variable {sys : System}

section

variable (hinv : Convergent s config sys)

include hinv

theorem lookup_nextCall : sys.calls.lookup sys.nextCall = none := by
  cases hlookup : sys.calls.lookup sys.nextCall with
  | none => rfl
  | some state => exact absurd (hinv.started _ state hlookup) (lt_irrefl _)

/-- A call that starts without a write. -/
theorem start {state : InFlight} (hsame : SameMidst none (some state))
    (hok : InFlightOrdered s config (sys.view s config) state) :
    Convergent s config { sys.enter sys.nextCall state with nextCall := sys.nextCall + 1 } := by
  refine hinv.quiet (lookup_enter_self sys sys.nextCall state) ?_ ?_ rfl rfl (fun _ => rfl) ?_ ?_
  · exact fun other hother => lookup_enter_of_ne sys hother state
  · exact ⟨Nat.le_succ _, fun _ => Nat.lt_succ_self _⟩
  · rw [hinv.lookup_nextCall]
    exact hsame
  · intro state' hstate'
    cases hstate'
    exact hok

theorem beginDelete {id : Bytes} (hclear : ∀ other ∈ sys.calls.entries, id ∉ other.2.writing)
    (hunqueued : sys.Unqueued id) :
    Convergent s config (sys.begin s (.deleteVector id)) := by
  have hne : ∀ call, ∀ state ∈ sys.calls.lookup call, call ≠ sys.nextCall := by
    intro call state hstate
    exact (hinv.started call state hstate).ne
  have hsettled : ((sys.begin s (.deleteVector id)).view s config id).settled = none :=
    settled_apply hinv.config_eq (.delete sys.nextCall id) hunqueued
  have hmoves : Moves s config sys (sys.begin s (.deleteVector id)) sys.nextCall
      (some (.deleting id)) fun other => other = id := by
    refine ⟨?_, ?_, ?_, hinv.encoded, ?_, ?_, ?_, ?_, ?_, ?_⟩
    · exact lookup_enter_self (sys.apply s.arith (.delete sys.nextCall id)) _ _
    · exact fun other hother =>
        lookup_enter_of_ne (sys.apply s.arith (.delete sys.nextCall id)) hother _
    · exact config_apply s.arith (.delete sys.nextCall id)
    · exact ⟨Nat.le_succ _, fun _ => Nat.lt_succ_self _⟩
    · exact fun other hother => steady_apply (.delete sys.nextCall id) hother
    · intro other hother call _ state hstate
      rw [hother]
      exact ⟨hclear ⟨call, state⟩ (AList.mem_lookup_iff.mp hstate), fun _ => hsettled⟩
    · intro state hstate other _ state' hstate'
      cases hstate
      refine ⟨fun _ hmem => absurd hmem List.not_mem_nil, ?_⟩
      intro other hother hmidst
      obtain rfl := List.mem_singleton.mp (hmidst.resolve_left List.not_mem_nil)
      exact hclear ⟨_, state'⟩ (AList.mem_lookup_iff.mp hstate') hother
    · intro state hstate
      cases hstate
      exact hsettled
    · intro other hother hnew
      have hmidst := hnew _ rfl
      rcases hother with rfl | ⟨state, hstate, _⟩
      · exact absurd (Or.inr (List.mem_singleton_self _)) hmidst
      · exact absurd rfl (hne sys.nextCall state hstate)
  exact hmoves.convergent hinv

theorem begin {request : Request} (hordered : StepOrdered s sys (.call request)) :
    Convergent s config (sys.begin s request) := by
  cases request with
  | storeVector id vector metadata throttled =>
      rw [System.begin]
      split
      next _ => exact hinv
      next value hencode =>
        refine hinv.start ⟨rfl, rfl⟩ ?_
        intro put hput
        rw [List.mem_singleton.mp hput]
        exact encoded_of_encodeVector hencode _ _ _
  | storeVectorBatch vectors throttled =>
      rw [System.begin]
      split
      next _ => exact hinv
      next _ =>
        split
        next _ =>
          have hnone : ∀ {property : Put → Prop}, ∀ put ∈ ([] : List Put), property put := by simp
          refine hinv.start ⟨rfl, rfl⟩ ⟨⟨hnone, ?_⟩, Or.inr hnone⟩
          intro id put hlatest
          cases hlatest
        next _ =>
          split
          next _ => exact hinv
          next pairs hencode =>
            exact hinv.start ⟨rfl, rfl⟩ fun put hput => encoded_of_mem_putsOf hencode hput
  | deleteVector id => exact hinv.beginDelete hordered.1 hordered.2
  | saveHNSW => exact hinv.start ⟨rfl, rfl⟩ trivial

end

end Convergent

/-! ## Goroutines -/

section Clear

variable {sys : System} {call : Nat}

theorem Convergent.clear (hinv : Convergent s config sys) {state : InFlight}
    (hlookup : sys.calls.lookup call = some state) {id : Bytes} (hid : id ∈ state.writing) :
    sys.Clear call id := by
  intro other hother hne
  exact hinv.apart call other.1 (Ne.symm hne) state hlookup other.2
    (AList.mem_lookup_iff.mpr hother) id hid

theorem System.Clear.exclusive {id : Bytes} (hclear : sys.Clear call id) {other : Nat}
    (hne : other ≠ call) {state : InFlight} (hstate : state ∈ sys.calls.lookup other) {p : Prop} :
    id ∉ state.writing ∧ (id ∈ state.removing → p) := by
  have hmidst := clear_of_lookup hclear hne hstate
  exact ⟨fun hid => hmidst (Or.inl hid), fun hid => absurd (Or.inr hid) hmidst⟩

/-- A call that is in the midst of clear ids is apart from the others. -/
theorem apart_of_clear {new : InFlight} (hremoving : new.removing = [])
    (hclear : ∀ id ∈ new.writing, sys.Clear call id) :
    ∀ state ∈ some new, ∀ other, other ≠ call → ∀ state' ∈ sys.calls.lookup other,
      Apart state state' ∧ Apart state' state := by
  intro state hstate other hother state' hstate'
  cases hstate
  constructor
  · exact fun id hid => clear_of_lookup (hclear id hid) hother hstate'
  · intro id hid hmidst
    have hwriting : id ∈ new.writing := by
      refine hmidst.resolve_right ?_
      rw [hremoving]
      exact List.not_mem_nil
    exact clear_of_lookup (hclear id hwriting) hother hstate' (Or.inl hid)

end Clear

theorem Put.Encoded.matches {put : Put} (hencoded : put.Encoded s) :
    Matches s config (some (kept s.arith config put.vector)) (some put.value) := by
  obtain ⟨hdim, metadata, hencode⟩ := hencoded
  exact ⟨put.vector, metadata, hdim, hencode, rfl⟩

namespace Convergent

variable {sys : System} {call : Nat}

section

variable (hinv : Convergent s config sys)

include hinv

/-- A commit of vectors that no other call is in the midst of. -/
theorem commitStore {batch : List (StoreOp Bytes Bytes)} {writes : List Issued} {puts : List Put}
    {async : Bool} (hlookup : sys.calls.lookup call = some (.stamped batch writes puts async))
    (hclear : ∀ put ∈ puts, sys.Clear call put.id) :
    Convergent s config ((sys.commit batch writes).enter call (.indexing writes puts async)) := by
  obtain ⟨hencoded, ts, rfl⟩ := hinv.calls call _ hlookup
  have hstored : ∀ id, (sys.commit _ writes).stored s id = _ :=
    stored_storeVectorBatchOps ts puts writes
  have hclear : ∀ id ∈ puts.map Put.id, sys.Clear call id := by
    intro id hid
    obtain ⟨put, hput, rfl⟩ := List.mem_map.mp hid
    exact hclear put hput
  have hmoves : Moves s config sys
      ((sys.commit (storeVectorBatchOps s.toSettings ts (pairsOf puts)) writes).enter call
        (.indexing writes puts async))
      call (some (.indexing writes puts async)) fun id => id ∈ puts.map Put.id := by
    refine ⟨lookup_enter_self _ _ _, ?_, rfl, hinv.encoded, ?_, ?_, ?_, ?_, ?_, ?_⟩
    · exact fun other hother => lookup_enter_of_ne (sys.commit _ _) hother _
    · exact ⟨le_rfl, fun _ => hinv.started call _ hlookup⟩
    · intro id hid
      apply steady_commit
      rw [hstored, latest_eq_none.mpr]
      · rfl
      · exact fun put hput heq => hid (List.mem_map.mpr ⟨put, hput, heq⟩)
    · exact fun id hid other hother state hstate => (hclear id hid).exclusive hother hstate
    · exact apart_of_clear rfl hclear
    · intro state hstate
      cases hstate
      refine ⟨hencoded, ?_⟩
      intro id put hlatest
      refine (hstored id).trans ?_
      rw [hlatest]
      rfl
    · intro id hid hnew
      have hmidst := hnew _ rfl
      rcases hid with hid | ⟨state, hstate, hid⟩
      · exact absurd (Or.inl hid) hmidst
      · rw [hlookup] at hstate
        cases hstate
        exact absurd hid (not_or.mpr ⟨List.not_mem_nil, List.not_mem_nil⟩)
  exact hmoves.convergent hinv

/-- The first vector of a call is in the queue or in the index. -/
theorem handOver {writes : List Issued} {put : Put} {rest : List Put} {async : Bool}
    (hlookup : sys.calls.lookup call = some (.indexing writes (put :: rest) async)) {mid : System}
    (hcalls : mid.calls = sys.calls) (hnext : mid.nextCall = sys.nextCall)
    (hconfig : mid.index.config = sys.index.config) (hencoded : ∀ put ∈ mid.pending, put.Encoded s)
    (hsteady : ∀ id, id ≠ put.id → (sys.view s config id).Steady (mid.view s config id))
    (hdb : mid.db = sys.db)
    (hsettled : (mid.view s config put.id).settled = some (kept s.arith config put.vector)) :
    Convergent s config (mid.enter call (.indexing writes rest async)) := by
  obtain ⟨hputs, hlatest⟩ := hinv.calls call _ hlookup
  have hstored : ∀ id, (mid.view s config id).stored = (sys.view s config id).stored := by
    intro id
    rw [System.view, System.view, System.stored, System.stored, hdb]
  have hclear : ∀ id ∈ (put :: rest).map Put.id, sys.Clear call id :=
    fun id hid => hinv.clear hlookup hid
  have hmoves : Moves s config sys (mid.enter call (.indexing writes rest async)) call
      (some (.indexing writes rest async)) fun id => id = put.id := by
    refine ⟨lookup_enter_self _ _ _, ?_, hconfig, hencoded, ?_, hsteady, ?_, ?_, ?_, ?_⟩
    · intro other hother
      rw [lookup_enter_of_ne mid hother, hcalls]
    · exact ⟨hnext.ge, fun _ => hnext.symm ▸ hinv.started call _ hlookup⟩
    · intro id hid other hother state hstate
      rw [hid]
      exact (hclear put.id List.mem_cons_self).exclusive hother hstate
    · exact apart_of_clear rfl fun id hid => hclear id (List.mem_cons_of_mem _ hid)
    · intro state hstate
      cases hstate
      refine ⟨fun next hnext => hputs next (List.mem_cons_of_mem _ hnext), ?_⟩
      intro id next hnext
      exact (hstored id).trans (hlatest id next (latest_cons_of_some hnext))
    · intro id hid hnew
      have hrest : id ∉ rest.map Put.id := fun hid => hnew _ rfl (Or.inl hid)
      have hput : id = put.id := by
        rcases hid with hid | ⟨state, hstate, hid⟩
        · exact hid
        · rw [hlookup] at hstate
          cases hstate
          rcases List.mem_cons.mp (hid.resolve_right List.not_mem_nil) with hid | hid
          · exact hid
          · exact absurd hid hrest
      subst hput
      have hlast : latest Put.id (put :: rest) put.id = some put := by
        rw [latest_cons, latest_eq_none.mpr, if_pos rfl]
        · rfl
        · exact fun next hnext heq => hrest (List.mem_map.mpr ⟨next, hnext, heq⟩)
      have hvalue := (hstored put.id).trans (hlatest put.id put hlast)
      dsimp only [view_enter]
      rw [hsettled, hvalue]
      exact (hputs put List.mem_cons_self).matches
  exact hmoves.convergent hinv

/-- `DeleteVector` takes the vector out of the database too. -/
theorem commitDelete {ts : Nat} {id : Bytes}
    (hlookup : sys.calls.lookup call = some (.deleteStamped ts id)) (writes : List Issued) :
    Convergent s config
      (((sys.commit (deleteVectorOps s.toSettings ts id) writes).ack writes).leave call) := by
  have hsettled : (sys.view s config id).settled = none := hinv.calls call _ hlookup
  have hstored : ∀ other, (sys.commit _ writes).stored s other = _ :=
    stored_deleteVectorOps ts id writes
  have hmoves : Moves s config sys
      (((sys.commit (deleteVectorOps s.toSettings ts id) writes).ack writes).leave call) call none
      fun other => other = id := by
    refine ⟨lookup_leave_self _ _, ?_, rfl, hinv.encoded, ⟨le_rfl, nofun⟩, ?_, ?_, nofun, nofun, ?_⟩
    · exact fun other hother => lookup_leave_of_ne _ hother
    · intro other hother
      apply steady_commit
      rw [hstored, if_neg hother]
    · intro other hid other' hother' state hstate
      rw [hid]
      refine ⟨fun hwriting => ?_, fun _ => hsettled⟩
      exact hinv.apart other' call hother' state hstate _ hlookup id hwriting
        (Or.inr (List.mem_singleton_self _))
    · intro other hid _
      have hother : other = id := by
        rcases hid with hid | ⟨state, hstate, hid⟩
        · exact hid
        · rw [hlookup] at hstate
          cases hstate
          exact List.mem_singleton.mp (hid.resolve_left List.not_mem_nil)
      subst hother
      have hnone : (sys.commit (deleteVectorOps s.toSettings ts other) writes).stored s other =
          none := (hstored other).trans (if_pos rfl)
      have hmatches : Matches s config (sys.view s config other).settled none := hsettled
      rw [← hnone] at hmatches
      exact hmatches
  exact hmoves.convergent hinv

/-- A bulk load stores its vectors, which the index has. -/
theorem commitBulk {ts : Nat} {image : Image} {done : List Put}
    (hlookup : sys.calls.lookup call = some (.bulkStamped ts image done)) (writes : List Issued) :
    Convergent s config
      ((((sys.commit (bulkLoadOps s.toSettings (pairsOf done)) writes).persist image ts).ack
        writes).leave call) := by
  obtain ⟨hencoded, hdone⟩ : BulkDone s config (sys.view s config) done := hinv.calls call _ hlookup
  have hstored : ∀ id, (sys.commit _ writes).stored s id = _ := stored_bulkLoadOps done writes
  have hmoves : Moves s config sys
      ((((sys.commit (bulkLoadOps s.toSettings (pairsOf done)) writes).persist image ts).ack
        writes).leave call) call none fun id => id ∈ done.map Put.id := by
    refine ⟨lookup_leave_self _ _, ?_, rfl, hinv.encoded, ⟨le_rfl, nofun⟩, ?_, ?_, nofun, nofun, ?_⟩
    · exact fun other hother => lookup_leave_of_ne _ hother
    · intro id hid
      refine ⟨(hstored id).trans ?_, rfl, fun hqueued => hqueued⟩
      rw [latest_eq_none.mpr]
      · rfl
      · exact fun put hput heq => hid (List.mem_map.mpr ⟨put, hput, heq⟩)
    · exact fun id hid other hother state hstate =>
        (hinv.clear hlookup hid).exclusive hother hstate
    · intro id hid _
      have hid : id ∈ done.map Put.id := by
        rcases hid with hid | ⟨state, hstate, hid⟩
        · exact hid
        · rw [hlookup] at hstate
          cases hstate
          exact hid.resolve_right List.not_mem_nil
      obtain ⟨put, hlatest⟩ := exists_latest hid
      have hput : (sys.commit (bulkLoadOps s.toSettings (pairsOf done)) writes).stored s id =
          some put.value := by
        rw [hstored, hlatest]
        rfl
      have hmatches : Matches s config (sys.view s config id).settled (some put.value) := by
        rw [(hdone id put hlatest).2]
        exact (hencoded put (mem_of_latest hlatest).1).matches
      rw [← hput] at hmatches
      exact hmatches
  exact hmoves.convergent hinv

/-- A bulk load that fails takes its vectors back one by one. -/
theorem rollBack {id : Bytes} {ids : List Bytes}
    (hlookup : sys.calls.lookup call = some (.rollingBack (id :: ids))) :
    Convergent s config ((sys.apply s.arith (.delete call id)).enter call (.rollingBack ids)) := by
  have hids : ∀ other ∈ id :: ids, (sys.view s config other).stored = none ∧
      (sys.view s config other).queued = false := hinv.calls call _ hlookup
  have hclear : ∀ other ∈ id :: ids, sys.Clear call other :=
    fun other hid => hinv.clear hlookup hid
  have hsettled : ((sys.apply s.arith (.delete call id)).view s config id).settled = none :=
    settled_apply hinv.config_eq (.delete call id)
      (unqueued_iff.mpr (hids id List.mem_cons_self).2)
  have hmoves : Moves s config sys
      ((sys.apply s.arith (.delete call id)).enter call (.rollingBack ids)) call
      (some (.rollingBack ids)) fun other => other = id := by
    refine ⟨lookup_enter_self _ _ _, ?_, config_apply s.arith (.delete call id), hinv.encoded, ?_, ?_,
      ?_, ?_, ?_, ?_⟩
    · exact fun other hother => lookup_enter_of_ne (sys.apply _ _) hother _
    · exact ⟨le_rfl, fun _ => hinv.started call _ hlookup⟩
    · exact fun other hother => steady_apply (.delete call id) hother
    · intro other hid other' hother' state hstate
      rw [hid]
      exact (hclear id List.mem_cons_self).exclusive hother' hstate
    · exact apart_of_clear rfl fun id hid => hclear id (List.mem_cons_of_mem _ hid)
    · intro state hstate
      cases hstate
      exact fun other hid => hids other (List.mem_cons_of_mem _ hid)
    · intro other hid hnew
      have hother : other = id := by
        rcases hid with hid | ⟨state, hstate, hid⟩
        · exact hid
        · rw [hlookup] at hstate
          cases hstate
          rcases List.mem_cons.mp (hid.resolve_right List.not_mem_nil) with hid | hid
          · exact hid
          · exact absurd (Or.inl hid) (hnew _ rfl)
      subst hother
      have hmatches : Matches s config none none := rfl
      rw [← hsettled, ← (hids other List.mem_cons_self).1] at hmatches
      exact hmatches
  exact hmoves.convergent hinv

section

variable {done : List Put} {entry : VectorEntry} {rest : List VectorEntry}
  (hlookup : sys.calls.lookup call = some (.bulkAdding done (entry :: rest)))

include hlookup

/-- A bulk load gives the index a vector that no other call is in the midst of. -/
theorem bulkApply {op : IndexOp} (hop : op.id = entry.id) (hclear : sys.Clear call entry.id)
    {new : InFlight} (hremoving : new.removing = [])
    (hkeeps : ∀ id ∈ done.map Put.id, id ∈ new.writing)
    (honly : ∀ id ∈ new.writing, id ∈ done.map Put.id ∨ id = entry.id)
    (hok : InFlightOrdered s config ((sys.apply s.arith op).view s config) new)
    (hclosed : entry.id ∉ new.writing →
      Matches s config ((sys.apply s.arith op).view s config entry.id).settled
      (sys.view s config entry.id).stored) :
    Convergent s config ((sys.apply s.arith op).enter call new) := by
  have hmoves : Moves s config sys ((sys.apply s.arith op).enter call new) call (some new)
      fun id => id = entry.id := by
    refine ⟨lookup_enter_self _ _ _, ?_, config_apply s.arith op, hinv.encoded, ?_, ?_, ?_, ?_, ?_, ?_⟩
    · exact fun other hother => lookup_enter_of_ne (sys.apply _ _) hother _
    · exact ⟨le_rfl, fun _ => hinv.started call _ hlookup⟩
    · exact fun id hid => steady_apply op (hop.symm ▸ hid)
    · intro id hid other hother state hstate
      rw [hid]
      exact hclear.exclusive hother hstate
    · apply apart_of_clear hremoving
      intro id hid
      rcases honly id hid with hid | hid
      · exact hinv.clear hlookup hid
      · rw [hid]
        exact hclear
    · intro state hstate
      cases hstate
      exact hok
    · intro id hid hnew
      have hwriting : id ∉ new.writing := fun hid => hnew _ rfl (Or.inl hid)
      have hentry : id = entry.id := by
        rcases hid with hid | ⟨state, hstate, hid⟩
        · exact hid
        · rw [hlookup] at hstate
          cases hstate
          exact absurd (hkeeps id (hid.resolve_right List.not_mem_nil)) hwriting
      subst hentry
      exact hclosed hwriting
  exact hmoves.convergent hinv

/-- A vector of a bulk load that the index has taken. -/
theorem bulkAdded {put : Put} (hput : put.id = entry.id) (hencoded : put.Encoded s)
    (hadd : (sys.index.add s.arith put.id put.vector).2 = true) (hclear : sys.Clear call put.id)
    (hunqueued : sys.Unqueued put.id)
    (hsafe : (∀ next ∈ entry :: rest, BulkValid s.toSettings next) ∨ sys.stored s put.id = none) :
    Convergent s config
      ((sys.apply s.arith (.add put)).enter call (.bulkAdding (done ++ [put]) rest)) := by
  obtain ⟨⟨hdoneEncoded, hdone⟩, hdoneSafe⟩ : BulkDone s config (sys.view s config) done ∧
      ((∀ next ∈ entry :: rest, BulkValid s.toSettings next) ∨
        ∀ put ∈ done, (sys.view s config put.id).stored = none) := hinv.calls call _ hlookup
  have hids : InFlight.writing (.bulkAdding (done ++ [put]) rest) = done.map Put.id ++ [entry.id] := by
    rw [InFlight.writing, List.map_append, List.map_singleton, hput]
  have hop : (IndexOp.add put).id = entry.id := hput
  refine hinv.bulkApply hlookup hop (hput ▸ hclear) rfl ?_ ?_ ⟨⟨?_, ?_⟩, ?_⟩ ?_
  · intro id hid
    rw [hids]
    exact List.mem_append_left _ hid
  · intro id hid
    rw [hids] at hid
    exact (List.mem_append.mp hid).imp_right List.mem_singleton.mp
  · intro next hnext
    rcases List.mem_append.mp hnext with hnext | hnext
    · exact hdoneEncoded next hnext
    · rw [List.mem_singleton.mp hnext]
      exact hencoded
  · intro id last hlast
    rw [latest_concat] at hlast
    split at hlast
    next hid =>
      cases hlast
      rw [← hid]
      exact ⟨unqueued_iff.mp hunqueued, settled_apply_add hinv.config_eq hadd hunqueued⟩
    next hid =>
      have hsteady : (sys.view s config id).Steady ((sys.apply s.arith (.add put)).view s config id) :=
        steady_apply (.add put) (Ne.symm hid)
      obtain ⟨hlastQueued, hlastSettled⟩ := hdone id last hlast
      exact ⟨hsteady.queued hlastQueued, hsteady.settled.trans hlastSettled⟩
  · rcases hdoneSafe with hvalid | hnone
    · exact Or.inl fun next hnext => hvalid next (List.mem_cons_of_mem _ hnext)
    · rcases hsafe with hvalid | hnoput
      · exact Or.inl fun next hnext => hvalid next (List.mem_cons_of_mem _ hnext)
      · exact Or.inr (List.forall_mem_append.mpr ⟨hnone, List.forall_mem_singleton.mpr hnoput⟩)
  · intro hnot
    rw [hids] at hnot
    exact absurd (List.mem_append_right _ (List.mem_singleton_self _)) hnot

end

end

section

variable (hdim : config.dim = s.config.index.dim) (hinv : Convergent s config sys)

include hdim hinv

theorem bulkNext {done : List Put} {entry : VectorEntry} {rest : List VectorEntry}
    (hlookup : sys.calls.lookup call = some (.bulkAdding done (entry :: rest)))
    (hordered : BulkOrdered s sys call entry rest) :
    Convergent s config (sys.bulkNext s call done entry rest) := by
  obtain ⟨⟨_, hdone⟩, hsafe⟩ : BulkDone s config (sys.view s config) done ∧
      ((∀ next ∈ entry :: rest, BulkValid s.toSettings next) ∨
        ∀ put ∈ done, (sys.view s config put.id).stored = none) := hinv.calls call _ hlookup
  have hqueued : ∀ id ∈ done.map Put.id, (sys.view s config id).queued = false := by
    intro id hid
    obtain ⟨put, hlatest⟩ := exists_latest hid
    exact (hdone id put hlatest).1
  -- a load that stops has stored nothing
  have hstored : ¬ BulkValid s.toSettings entry → ∀ id ∈ done.map Put.id,
      (sys.view s config id).stored = none := by
    intro hinvalid id hid
    obtain ⟨put, hput, rfl⟩ := List.mem_map.mp hid
    refine hsafe.resolve_left ?_ put hput
    exact fun hvalid => hinvalid (hvalid entry List.mem_cons_self)
  rw [System.bulkNext]
  split
  next hmissing =>
    have hinvalid : ¬ BulkValid s.toSettings entry := by
      have hpos := s.config.index.dim_pos
      rintro ⟨hid, hlength, _⟩
      rcases hmissing with hmissing | hmissing
      · exact hid hmissing
      · omega
    refine hinv.advance hlookup rfl rfl rfl rfl (fun _ => rfl) ⟨rfl, rfl⟩ ?_
    exact fun id hid => ⟨hstored hinvalid id hid, hqueued id hid⟩
  next hfull =>
    obtain ⟨hnoid, hnovector⟩ := not_or.mp hfull
    obtain ⟨hclear, hunqueued, hentry⟩ :=
      (hordered.resolve_left hnoid).resolve_left hnovector
    have habsent : ¬ BulkValid s.toSettings entry → (sys.view s config entry.id).stored = none := by
      intro hinvalid
      exact hentry.resolve_left fun hvalid => hinvalid (hvalid entry List.mem_cons_self)
    have hback : ∀ (op : IndexOp) (ids : List Bytes), ¬ BulkValid s.toSettings entry →
        (∀ id ∈ ids, id ∈ done.map Put.id ∨ id = entry.id) →
        InFlightOrdered s config ((sys.apply s.arith op).view s config) (.rollingBack ids) := by
      intro op ids hinvalid honly id hid
      rcases honly id hid with hid | rfl
      · exact ⟨hstored hinvalid id hid, hqueued id hid⟩
      · exact ⟨habsent hinvalid, unqueued_iff.mp hunqueued⟩
    split
    next hadd =>
      split
      next err hencode =>
        have hinvalid : ¬ BulkValid s.toSettings entry := by
          rintro ⟨_, _, hok⟩
          rw [hencode] at hok
          cases hok
        have honly : ∀ id ∈ done.map Put.id ++ [entry.id], id ∈ done.map Put.id ∨ id = entry.id :=
          fun id hid => (List.mem_append.mp hid).imp_right List.mem_singleton.mp
        refine hinv.bulkApply hlookup rfl hclear rfl (fun id hid => List.mem_append_left _ hid) honly
          (hback _ _ hinvalid honly) ?_
        exact fun hnot => absurd (List.mem_append_right _ (List.mem_singleton_self _)) hnot
      next value hencode =>
        have hlength : entry.vector.length = s.config.index.dim := by
          rw [← hdim, ← hinv.config_eq]
          exact (Hnsw.add_succeeds _ _).mp hadd
        exact hinv.bulkAdded hlookup rfl ⟨hlength, entry.metadata, hencode⟩ hadd hclear hunqueued
          hentry
    next hrefused =>
      have hinvalid : ¬ BulkValid s.toSettings entry := by
        rintro ⟨_, hlength, _⟩
        apply hrefused
        rw [Hnsw.add_succeeds, hinv.config_eq, hdim]
        exact hlength
      have honly : ∀ id ∈ done.map Put.id, id ∈ done.map Put.id ∨ id = entry.id :=
        fun id hid => Or.inl hid
      refine hinv.bulkApply hlookup rfl hclear rfl (fun id hid => hid) honly
        (hback _ _ hinvalid honly) ?_
      intro _
      rw [habsent hinvalid]
      exact settled_apply_refused hinv.config_eq hrefused hunqueued

theorem indexNext {writes : List Issued} {put : Put} {rest : List Put} {async : Bool}
    (hlookup : sys.calls.lookup call = some (.indexing writes (put :: rest) async))
    (hordered : (async = true ∧ sys.queue.length < queueCapacity s) ∨ sys.Unqueued put.id) :
    Convergent s config (sys.indexNext s call writes put rest async) := by
  have hencoded : put.Encoded s := (hinv.calls call _ hlookup).1 put List.mem_cons_self
  have hadd : (sys.index.add s.arith put.id put.vector).2 = true := by
    rw [Hnsw.add_succeeds, hinv.config_eq, hdim]
    exact hencoded.1
  rw [System.indexNext]
  split
  next _ =>
    have hpending : ∀ id, latest Put.id (sys.ops ++ (sys.queue ++ [put])) id =
        if put.id = id then some put else latest Put.id sys.pending id := by
      intro id
      rw [← List.append_assoc]
      exact latest_concat _ _ _
    refine hinv.handOver hlookup rfl rfl rfl ?_ ?_ rfl ?_
    · intro next hnext
      rw [System.pending, ← List.append_assoc] at hnext
      rcases List.mem_append.mp hnext with hnext | hnext
      · exact hinv.encoded next hnext
      · rw [List.mem_singleton.mp hnext]
        exact hencoded
    · intro id hid
      have hlatest := hpending id
      rw [if_neg (Ne.symm hid)] at hlatest
      dsimp only [System.view, System.pending]
      rw [hlatest]
      exact View.Steady.refl _
    · have hlatest := hpending put.id
      rw [if_pos rfl] at hlatest
      dsimp only [System.view, System.pending]
      rw [hlatest]
      rfl
  next hinline =>
    have hunqueued : sys.Unqueued put.id := by
      refine hordered.resolve_left ?_
      rintro ⟨hasync, hroom⟩
      exact hinline (by rw [hasync, Bool.true_and, decide_eq_true hroom])
    refine hinv.handOver hlookup rfl rfl (config_apply s.arith (.add put)) hinv.encoded ?_ rfl ?_
    · exact fun id hid => steady_apply (.add put) hid
    · exact settled_apply_add hinv.config_eq hadd hunqueued

/-- Every goroutine that may go on keeps the index on its way. -/
theorem proceed {state : InFlight} (hlookup : sys.calls.lookup call = some state)
    (hordered : AdvanceOrdered s sys call state) (now : Nat) :
    Convergent s config (sys.proceed s call now state) := by
  have hok := hinv.calls call state hlookup
  -- a call that has nothing left to write returns
  have hleave : ∀ {sys' : System}, sys'.calls = sys.calls → sys'.nextCall = sys.nextCall →
      sys'.index.config = sys.index.config → sys'.pending = sys.pending →
      (∀ id, sys'.view s config id = sys.view s config id) → SameMidst (some state) none →
      Convergent s config (sys'.leave call) := by
    intro sys' hcalls hnext hconfig hpending hview hsame
    refine hinv.quiet (lookup_leave_self sys' call) ?_ ⟨hnext.ge, nofun⟩ hconfig hpending hview ?_
      nofun
    · intro other hother
      rw [lookup_leave_of_ne sys' hother, hcalls]
    · rw [hlookup]
      exact hsame
  cases state with
  | checked puts async =>
      exact hinv.advance hlookup rfl rfl rfl rfl (fun _ => rfl) ⟨rfl, rfl⟩ ⟨hok, now, rfl⟩
  | stamped batch writes puts async => exact hinv.commitStore hlookup hordered
  | indexing writes puts async =>
      cases puts with
      | nil => exact hleave rfl rfl rfl rfl (fun _ => rfl) ⟨rfl, rfl⟩
      | cons put rest => exact hinv.indexNext hdim hlookup hordered
  | deleting id => exact hinv.advance hlookup rfl rfl rfl rfl (fun _ => rfl) ⟨rfl, rfl⟩ hok
  | deleteStamped ts id => exact hinv.commitDelete hlookup _
  | bulkAdding done rest =>
      cases rest with
      | nil => exact hinv.advance hlookup rfl rfl rfl rfl (fun _ => rfl) ⟨rfl, rfl⟩ hok.1
      | cons entry rest => exact hinv.bulkNext hdim hlookup hordered
  | rollingBack ids =>
      cases ids with
      | nil => exact hleave rfl rfl rfl rfl (fun _ => rfl) ⟨rfl, rfl⟩
      | cons id ids => exact hinv.rollBack hlookup
  | bulkSerialized image done =>
      exact hinv.advance hlookup rfl rfl rfl rfl (fun _ => rfl) ⟨rfl, rfl⟩ hok
  | bulkStamped ts image done => exact hinv.commitBulk hlookup _
  | saving
  | saveStamped ts => exact hinv.advance hlookup rfl rfl rfl rfl (fun _ => rfl) ⟨rfl, rfl⟩ trivial
  | saveSerialized ts image =>
      refine hinv.advance hlookup rfl rfl rfl rfl (fun _ => rfl) ⟨rfl, rfl⟩ ?_
      exact fun key hkey => coveredKeys_ne_vectorKey hkey
  | saveCollected ts image keys =>
      refine hleave rfl rfl rfl rfl ?_ ⟨rfl, rfl⟩
      intro id
      have hstored : (sys.commit (keys.map .delete) []).stored s id = sys.stored s id :=
        stored_deletes [] fun key hkey => hok key hkey id
      exact congrArg (fun stored => (⟨stored, _, _⟩ : View)) hstored

/-- The indexer applies the first vector that waits. -/
theorem flush :
    Convergent s config (sys.step s .flush) := by
  rw [System.step]
  split
  next _ => exact hinv
  next put rest hops =>
    have hpending : sys.pending = put :: (rest ++ sys.queue) := by
      rw [System.pending, hops]
      rfl
    have hmem : ∀ next ∈ rest ++ sys.queue, next ∈ sys.pending := by
      rw [hpending]
      exact fun next hnext => List.mem_cons_of_mem _ hnext
    have hadd : put.vector.length = sys.index.config.dim := by
      rw [hinv.config_eq, hdim]
      exact (hinv.encoded put (hpending ▸ List.mem_cons_self)).1
    have hitem : ∀ id, ((IndexOp.add put).run s.arith sys.index).item s.arith id =
        if id = put.id then some (kept s.arith config put.vector) else sys.index.item s.arith id := by
      intro id
      rw [IndexOp.run, Hnsw.item_add hadd, hinv.config_eq]
    have hsteady : ∀ id, (sys.view s config id).Steady
        (({ sys with ops := rest }.apply s.arith (.add put)).view s config id) := by
      intro id
      refine ⟨rfl, ?_, ?_⟩
      · dsimp only [System.view, System.apply]
        rw [hpending, latest_cons, hitem, System.pending]
        -- the vector takes the place in the index that it had in the queue
        cases latest Put.id (rest ++ sys.queue) id with
        | some last => rfl
        | none =>
            by_cases hid : id = put.id
            · rw [if_pos hid, if_pos hid.symm]
              rfl
            · rw [if_neg hid, if_neg (Ne.symm hid)]
              rfl
      · intro hqueued
        have hafter : ({ sys with ops := rest } : System).Unqueued id :=
          fun next hnext => unqueued_iff.mpr hqueued next (hmem next hnext)
        exact unqueued_iff.mp hafter
    refine ⟨(config_apply s.arith (.add put)).trans hinv.config_eq, ?_, hinv.started, hinv.apart, ?_,
      ?_⟩
    · exact fun next hnext => hinv.encoded next (hmem next hnext)
    · intro call state hstate
      exact (hinv.calls call state hstate).frame (fun id _ => hsteady id)
        fun id _ hnone => (hsteady id).settled.trans hnone
    · intro id hfree
      rw [(hsteady id).settled, (hsteady id).stored]
      exact hinv.settled id hfree

theorem step {step : Step} (hordered : StepOrdered s sys step) :
    Convergent s config (sys.step s step) := by
  cases step with
  | call request => exact hinv.begin hordered
  | advance call now =>
      rw [System.step]
      split
      next _ => exact hinv
      next state hlookup => exact hinv.proceed hdim hlookup (hordered state hlookup) now
  | receive =>
      rw [System.step]
      split
      next _ => exact hinv
      next put rest hqueue =>
        have hpending : ({ sys with
            queue := rest
            ops := sys.ops ++ [put] } : System).pending = sys.pending := by
          rw [System.pending, System.pending, hqueue, List.append_assoc]
          rfl
        have hview : ({ sys with
            queue := rest
            ops := sys.ops ++ [put] } : System).view s config = sys.view s config := by
          funext id
          rw [System.view, hpending]
          rfl
        refine ⟨hinv.config_eq, ?_, hinv.started, hinv.apart, ?_, ?_⟩
        · rw [hpending]
          exact hinv.encoded
        · rw [hview]
          exact hinv.calls
        · rw [hview]
          exact hinv.settled
  | flush => exact hinv.flush hdim

end

end Convergent

/-! ## Runs -/

/-- The vector that is read back for an id. -/
def System.storedVector (s : PipelineSettings) (sys : System) (id : Bytes) : Option Vector :=
  (sys.stored s id).bind fun value => (decodeVectorWithMeta s.arith value).toOption.map Prod.fst

/-- Without compression the index has what is read back. -/
theorem Matches.storedVector {sys : System} {id : Bytes} {item : Option Vector}
    (hmatches : Matches s config item (sys.stored s id))
    (hcompress : shouldCompressVectors s.toSettings = false)
    (hsmall : s.config.index.dim < 2 ^ 31) :
    item = (sys.storedVector s id).map (kept s.arith config) := by
  rw [System.storedVector]
  cases hstored : sys.stored s id with
  | none =>
      rw [hstored] at hmatches
      exact hmatches
  | some value =>
      rw [hstored] at hmatches
      obtain ⟨vector, metadata, hdim, hencode, rfl⟩ := hmatches
      have hvalue : value = putUint32 (UInt32.ofNat vector.length) ++
          (vector.flatMap putUint32 ++ metadata) := by
        rw [encodeValue, encodeVectorWithMeta, hcompress] at hencode
        cases hencode
        rfl
      rw [Option.bind_some, hvalue,
        decodeVectorWithMeta_uncompressed s.arith (hdim.trans_lt hsmall)]
      rfl

theorem convergent_opened {db : Pebble} {index : Hnsw} (loaded : Bool)
    (hstart : ∀ id, Matches s index.config (index.item s.arith id)
      (db.get (nsKey s.ns (vectorKey id)))) :
    Convergent s index.config (System.opened db index loaded) :=
  ⟨rfl, nofun, nofun, nofun, nofun, fun id _ => hstart id⟩

end Invariant

/-- The deletion of a vector up to its acknowledgement. -/
def deleteSteps (call now : Nat) (id : Bytes) : List Step :=
  [.call (.deleteVector id), .advance call now, .advance call 0]

/-- A vector is indexed before it is deleted; a batch stores it again beside another one
while a snapshot is taken. -/
def orderedCalls : List Step :=
  storeSteps 0 1700000000000000000 (idOf 'a') [1] ++ [.receive, .flush] ++
    deleteSteps 1 1700000000000000010 (idOf 'a') ++
    [.call (.storeVectorBatch [⟨idOf 'a', [2], []⟩, ⟨idOf 'b', [3], []⟩] false),
      .call .saveHNSW, .advance 2 1700000000000000020, .advance 3 1700000000000000030,
      .advance 2 0, .advance 3 0, .advance 2 0, .receive, .advance 2 0, .advance 3 0, .receive,
      .flush, .advance 2 0, .flush, .advance 3 0]

/-- A vector is deleted while it waits in the queue. -/
def overtakenStore : List Step :=
  storeSteps 0 1700000000000000000 (idOf 'a') [1] ++ deleteSteps 1 1700000000000000010 (idOf 'a') ++
    [.receive, .flush]

end Vectron.Worker
