import Vectron.Foundation.Latest
import Vectron.Worker.Truncation

/-! # Calls in the midst of an id

A store call commits a vector to the database and then hands it to the queue of the
indexer, or to the index if the queue is full. `DeleteVector` takes the vector out of the
index and then out of the database. Between its two writes a call is in the midst of an
id.

The index is on its way to what the database has as long as the calls in the midst of an
id exclude each other and nothing that goes around the queue overtakes a vector of the id
that waits in it.
-/

namespace Vectron.Worker

open Foundation OrderedStore

/-! ## Ids that calls are in the midst of -/

namespace InFlight

/-- The ids a call has given a vector to in one of the two places. -/
def writing : InFlight → List Bytes
  | .indexing _ puts _ => puts.map Put.id
  | .bulkAdding done _ => done.map Put.id
  | .rollingBack ids => ids
  | .bulkSerialized _ done => done.map Put.id
  | .bulkStamped _ _ done => done.map Put.id
  | _ => []

/-- The id `DeleteVector` has taken out of the index only. -/
def removing : InFlight → List Bytes
  | .deleting id => [id]
  | .deleteStamped _ id => [id]
  | _ => []

/-- The call is between its two writes of the id. -/
def Midst (state : InFlight) (id : Bytes) : Prop := id ∈ state.writing ∨ id ∈ state.removing

instance (state : InFlight) (id : Bytes) : Decidable (state.Midst id) :=
  inferInstanceAs (Decidable (_ ∨ _))

end InFlight

namespace System

/-- What Pebble has under the vector key of an id. -/
def stored (s : PipelineSettings) (sys : System) (id : Bytes) : Option Bytes :=
  sys.db.get (nsKey s.ns (vectorKey id))

/-- The vectors that have left their calls for the indexer. -/
def pending (sys : System) : List Put := sys.ops ++ sys.queue

/-- No vector of the id is on its way to the index. -/
def Unqueued (sys : System) (id : Bytes) : Prop := ∀ put ∈ sys.pending, put.id ≠ id

instance (sys : System) (id : Bytes) : Decidable (sys.Unqueued id) :=
  inferInstanceAs (Decidable (∀ put ∈ sys.pending, _))

/-- No other call is in the midst of the id. -/
def Clear (sys : System) (call : Nat) (id : Bytes) : Prop :=
  ∀ other ∈ sys.calls.entries, other.1 ≠ call → ¬ other.2.Midst id

instance (sys : System) (call : Nat) (id : Bytes) : Decidable (sys.Clear call id) :=
  inferInstanceAs (Decidable (∀ other ∈ sys.calls.entries, _))

end System

section Conditions

variable (s : PipelineSettings) (sys : System)

/-- A bulk load may give the index this vector. Taking it back would lose a vector that
the database has. -/
def BulkOrdered (call : Nat) (entry : VectorEntry) (rest : List VectorEntry) : Prop :=
  entry.id = [] ∨ entry.vector.length = 0 ∨
    (sys.Clear call entry.id ∧ sys.Unqueued entry.id ∧
      ((∀ next ∈ entry :: rest, BulkValid s.toSettings next) ∨ sys.stored s entry.id = none))

instance (call : Nat) (entry : VectorEntry) (rest : List VectorEntry) :
    Decidable (BulkOrdered s sys call entry rest) :=
  inferInstanceAs (Decidable (_ ∨ _ ∨ (_ ∧ _ ∧ _)))

/-- When a goroutine may go on. -/
def AdvanceOrdered (call : Nat) : InFlight → Prop
  | .stamped _ _ puts _ => ∀ put ∈ puts, sys.Clear call put.id
  | .indexing _ (put :: _) async =>
      (async = true ∧ sys.queue.length < queueCapacity s) ∨ sys.Unqueued put.id
  | .bulkAdding _ (entry :: rest) => BulkOrdered s sys call entry rest
  | _ => True

instance (call : Nat) : ∀ state, Decidable (AdvanceOrdered s sys call state)
  | .checked _ _ => inferInstanceAs (Decidable True)
  | .stamped _ _ puts _ => inferInstanceAs (Decidable (∀ put ∈ puts, _))
  | .indexing _ [] _ => inferInstanceAs (Decidable True)
  | .indexing _ (_ :: _) _ => inferInstanceAs (Decidable ((_ ∧ _) ∨ _))
  | .deleting _ => inferInstanceAs (Decidable True)
  | .deleteStamped _ _ => inferInstanceAs (Decidable True)
  | .bulkAdding _ [] => inferInstanceAs (Decidable True)
  | .bulkAdding _ (entry :: rest) => inferInstanceAs (Decidable (BulkOrdered s sys call entry rest))
  | .rollingBack _ => inferInstanceAs (Decidable True)
  | .bulkSerialized _ _ => inferInstanceAs (Decidable True)
  | .bulkStamped _ _ _ => inferInstanceAs (Decidable True)
  | .saving => inferInstanceAs (Decidable True)
  | .saveStamped _ => inferInstanceAs (Decidable True)
  | .saveSerialized _ _ => inferInstanceAs (Decidable True)
  | .saveCollected _ _ _ => inferInstanceAs (Decidable True)

/-- When a step keeps the order of the database in the index. -/
def StepOrdered : Step → Prop
  | .call (.deleteVector id) =>
      (∀ other ∈ sys.calls.entries, id ∉ other.2.writing) ∧ sys.Unqueued id
  | .advance call _ => ∀ state ∈ sys.calls.lookup call, AdvanceOrdered s sys call state
  | _ => True

instance : ∀ step, Decidable (StepOrdered s sys step)
  | .call (.deleteVector _) => inferInstanceAs (Decidable (_ ∧ _))
  | .call (.storeVector _ _ _ _) => inferInstanceAs (Decidable True)
  | .call (.storeVectorBatch _ _) => inferInstanceAs (Decidable True)
  | .call .saveHNSW => inferInstanceAs (Decidable True)
  | .advance call _ =>
      inferInstanceAs (Decidable (∀ state ∈ sys.calls.lookup call, AdvanceOrdered s sys call state))
  | .receive => inferInstanceAs (Decidable True)
  | .flush => inferInstanceAs (Decidable True)

end Conditions

/-! ## The invariant -/

section Invariant

variable (s : PipelineSettings) (config : IndexConfig)

/-- The index has the vector whose encoding is stored. -/
def Matches (item : Option Vector) : Option Bytes → Prop
  | none => item = none
  | some value => ∃ vector metadata, vector.length = s.config.index.dim ∧
      encodeValue s.toSettings vector metadata = .ok value ∧ item = some (kept s.arith config vector)

/-- The value of a vector is its encoding. -/
def Put.Encoded (put : Put) : Prop :=
  put.vector.length = s.config.index.dim ∧
    ∃ metadata, encodeValue s.toSettings put.vector metadata = .ok put.value

/-- What the store has of one id: the value in the database, the vector the index will
have when the queue has drained, and whether one waits in the queue. -/
structure View where
  stored : Option Bytes
  settled : Option Vector
  queued : Bool

def System.view (sys : System) (id : Bytes) : View where
  stored := sys.stored s id
  settled := ((latest Put.id sys.pending id).map fun put => kept s.arith config put.vector).or
    (sys.index.item s.arith id)
  queued := (latest Put.id sys.pending id).isSome

/-- The indexer may have taken vectors off the queue, but nothing else has happened to
the id. -/
structure View.Steady (before after : View) : Prop where
  stored : after.stored = before.stored
  settled : after.settled = before.settled
  queued : before.queued = false → after.queued = false

/-- The vectors of a bulk load are in the index. -/
def BulkDone (view : Bytes → View) (done : List Put) : Prop :=
  (∀ put ∈ done, put.Encoded s) ∧ ∀ id put, latest Put.id done id = some put →
    (view id).queued = false ∧ (view id).settled = some (kept s.arith config put.vector)

/-- What holds of a call in flight. -/
def InFlightOrdered (view : Bytes → View) : InFlight → Prop
  | .checked puts _ => ∀ put ∈ puts, put.Encoded s
  | .stamped batch _ puts _ => (∀ put ∈ puts, put.Encoded s) ∧
      ∃ ts, batch = storeVectorBatchOps s.toSettings ts (pairsOf puts)
  | .indexing _ puts _ => (∀ put ∈ puts, put.Encoded s) ∧
      ∀ id put, latest Put.id puts id = some put → (view id).stored = some put.value
  | .deleting id => (view id).settled = none
  | .deleteStamped _ id => (view id).settled = none
  | .bulkAdding done rest => BulkDone s config view done ∧
      ((∀ entry ∈ rest, BulkValid s.toSettings entry) ∨ ∀ put ∈ done, (view put.id).stored = none)
  | .rollingBack ids => ∀ id ∈ ids, (view id).stored = none ∧ (view id).queued = false
  | .bulkSerialized _ done => BulkDone s config view done
  | .bulkStamped _ _ done => BulkDone s config view done
  | .saveCollected _ _ keys => ∀ key ∈ keys, ∀ id, key ≠ nsKey s.ns (vectorKey id)
  | _ => True

/-- Calls in the midst of one id exclude each other, deletions apart. -/
def Apart (first second : InFlight) : Prop := ∀ id ∈ first.writing, ¬ second.Midst id

/-- The index is on its way to what the database has. -/
structure Convergent (sys : System) : Prop where
  config_eq : sys.index.config = config
  encoded : ∀ put ∈ sys.pending, put.Encoded s
  started : ∀ call state, sys.calls.lookup call = some state → call < sys.nextCall
  apart : ∀ call other, call ≠ other → ∀ state ∈ sys.calls.lookup call,
    ∀ state' ∈ sys.calls.lookup other, Apart state state'
  calls : ∀ call, ∀ state ∈ sys.calls.lookup call, InFlightOrdered s config (sys.view s config) state
  settled : ∀ id, (∀ call, ∀ state ∈ sys.calls.lookup call, ¬ state.Midst id) →
    Matches s config (sys.view s config id).settled (sys.view s config id).stored

variable {s config}

theorem View.Steady.refl (view : View) : view.Steady view := ⟨rfl, rfl, id⟩

/-- What happens to other ids does not matter to a call. -/
theorem InFlightOrdered.frame {view view' : Bytes → View} {state : InFlight}
    (hwriting : ∀ id ∈ state.writing, (view id).Steady (view' id))
    (hremoving : ∀ id ∈ state.removing, (view id).settled = none → (view' id).settled = none)
    (hok : InFlightOrdered s config view state) : InFlightOrdered s config view' state := by
  have hdone : ∀ done : List Put, (∀ id ∈ done.map Put.id, (view id).Steady (view' id)) →
      BulkDone s config view done → BulkDone s config view' done := by
    intro done hsteady hdone
    refine ⟨hdone.1, ?_⟩
    intro id put hlatest
    obtain ⟨hput, hid⟩ := mem_of_latest hlatest
    have hframe := hsteady id (List.mem_map.mpr ⟨put, hput, hid⟩)
    obtain ⟨hqueued, hsettled⟩ := hdone.2 id put hlatest
    exact ⟨hframe.queued hqueued, hframe.settled.trans hsettled⟩
  cases state with
  | checked puts async
  | stamped batch writes puts async
  | saving
  | saveStamped ts
  | saveSerialized ts image
  | saveCollected ts image keys => exact hok
  | indexing writes puts async =>
      refine ⟨hok.1, ?_⟩
      intro id put hlatest
      obtain ⟨hput, hid⟩ := mem_of_latest hlatest
      exact (hwriting id (List.mem_map.mpr ⟨put, hput, hid⟩)).stored.trans (hok.2 id put hlatest)
  | deleting id
  | deleteStamped ts id => exact hremoving id (List.mem_singleton_self _) hok
  | bulkAdding done rest =>
      refine ⟨hdone done hwriting hok.1, hok.2.imp_right ?_⟩
      intro hstored put hput
      exact (hwriting put.id (List.mem_map.mpr ⟨put, hput, rfl⟩)).stored.trans (hstored put hput)
  | rollingBack ids =>
      intro id hid
      obtain ⟨hstored, hqueued⟩ := hok id hid
      exact ⟨(hwriting id hid).stored.trans hstored, (hwriting id hid).queued hqueued⟩
  | bulkSerialized image done
  | bulkStamped ts image done => exact hdone done hwriting hok

/-! ## What one call may do -/

/-- A call goes from one state to another and touches ids that no other call is in the
midst of. -/
structure Moves (s : PipelineSettings) (config : IndexConfig) (sys sys' : System) (call : Nat)
    (new : Option InFlight) (touched : Bytes → Prop) : Prop where
  own : sys'.calls.lookup call = new
  others : ∀ other, other ≠ call → sys'.calls.lookup other = sys.calls.lookup other
  config_eq : sys'.index.config = sys.index.config
  encoded : ∀ put ∈ sys'.pending, put.Encoded s
  nextCall : sys.nextCall ≤ sys'.nextCall ∧ (new.isSome = true → call < sys'.nextCall)
  steady : ∀ id, ¬ touched id → (sys.view s config id).Steady (sys'.view s config id)
  exclusive : ∀ id, touched id → ∀ other, other ≠ call → ∀ state ∈ sys.calls.lookup other,
    id ∉ state.writing ∧ (id ∈ state.removing → (sys'.view s config id).settled = none)
  opened : ∀ state ∈ new, ∀ other, other ≠ call → ∀ state' ∈ sys.calls.lookup other,
    Apart state state' ∧ Apart state' state
  ok : ∀ state ∈ new, InFlightOrdered s config (sys'.view s config) state
  closed : ∀ id, (touched id ∨ ∃ state ∈ sys.calls.lookup call, state.Midst id) →
    (∀ state ∈ new, ¬ state.Midst id) →
    Matches s config (sys'.view s config id).settled (sys'.view s config id).stored

theorem Moves.convergent {sys sys' : System} {call : Nat} {new : Option InFlight}
    {touched : Bytes → Prop} (hinv : Convergent s config sys)
    (hmoves : Moves s config sys sys' call new touched) : Convergent s config sys' := by
  refine ⟨hmoves.config_eq.trans hinv.config_eq, hmoves.encoded, ?_, ?_, ?_, ?_⟩
  · intro other state hlookup
    by_cases hother : other = call
    · rw [hother] at hlookup ⊢
      apply hmoves.nextCall.2
      rw [← hmoves.own, hlookup]
      rfl
    · rw [hmoves.others other hother] at hlookup
      exact lt_of_lt_of_le (hinv.started other state hlookup) hmoves.nextCall.1
  · intro first second hne state hstate state' hstate'
    by_cases hfirst : first = call
    · rw [hfirst, hmoves.own] at hstate
      rw [hmoves.others second (hfirst ▸ hne.symm)] at hstate'
      exact (hmoves.opened state hstate second (hfirst ▸ hne.symm) state' hstate').1
    · rw [hmoves.others first hfirst] at hstate
      by_cases hsecond : second = call
      · rw [hsecond, hmoves.own] at hstate'
        exact (hmoves.opened state' hstate' first hfirst state hstate).2
      · rw [hmoves.others second hsecond] at hstate'
        exact hinv.apart first second hne state hstate state' hstate'
  · intro other state hstate
    by_cases hother : other = call
    · rw [hother, hmoves.own] at hstate
      exact hmoves.ok state hstate
    · rw [hmoves.others other hother] at hstate
      refine (hinv.calls other state hstate).frame ?_ ?_
      · intro id hid
        apply hmoves.steady
        intro htouched
        exact (hmoves.exclusive id htouched other hother state hstate).1 hid
      · intro id hid hnone
        by_cases htouched : touched id
        · exact (hmoves.exclusive id htouched other hother state hstate).2 hid
        · exact (hmoves.steady id htouched).settled.trans hnone
  · intro id huntouched
    have hnew : ∀ state ∈ new, ¬ state.Midst id := by
      intro state hstate
      apply huntouched call
      rw [hmoves.own]
      exact hstate
    by_cases hown : touched id ∨ ∃ state ∈ sys.calls.lookup call, state.Midst id
    · exact hmoves.closed id hown hnew
    · obtain ⟨htouched, hclosed⟩ := not_or.mp hown
      have hsteady := hmoves.steady id htouched
      rw [hsteady.settled, hsteady.stored]
      apply hinv.settled id
      intro other state hstate
      by_cases hother : other = call
      · rw [hother] at hstate
        exact fun hmidst => hclosed ⟨state, hstate, hmidst⟩
      · rw [← hmoves.others other hother] at hstate
        exact huntouched other state hstate

/-! ## Views of the parts of a step -/

section Parts

variable (sys : System)

theorem lookup_enter_self (call : Nat) (state : InFlight) :
    (sys.enter call state).calls.lookup call = some state := by
  rw [System.enter, AList.lookup_insert]

theorem lookup_enter_of_ne {call other : Nat} (hne : other ≠ call) (state : InFlight) :
    (sys.enter call state).calls.lookup other = sys.calls.lookup other := by
  rw [System.enter, AList.lookup_insert_ne hne]

theorem lookup_leave_self (call : Nat) : (sys.leave call).calls.lookup call = none := by
  rw [System.leave, AList.lookup_erase]

theorem lookup_leave_of_ne {call other : Nat} (hne : other ≠ call) :
    (sys.leave call).calls.lookup other = sys.calls.lookup other := by
  rw [System.leave, AList.lookup_erase_ne hne]

@[simp] theorem view_enter (call : Nat) (state : InFlight) :
    (sys.enter call state).view s config = sys.view s config := rfl

@[simp] theorem view_leave (call : Nat) : (sys.leave call).view s config = sys.view s config := rfl

@[simp] theorem view_issue (writes : List Issued) (last : Nat) :
    (sys.issue writes last).view s config = sys.view s config := rfl

variable {sys}

theorem unqueued_iff {id : Bytes} : sys.Unqueued id ↔ (sys.view s config id).queued = false := by
  rw [System.Unqueued, System.view, Option.isSome_eq_false_iff, Option.isNone_iff_eq_none,
    latest_eq_none]

theorem settled_of_unqueued {id : Bytes} (hunqueued : sys.Unqueued id) :
    (sys.view s config id).settled = sys.index.item s.arith id := by
  rw [System.view, latest_eq_none.mpr hunqueued]
  rfl

theorem clear_of_lookup {call : Nat} {id : Bytes} (hclear : sys.Clear call id) {other : Nat}
    (hne : other ≠ call) {state : InFlight} (hstate : state ∈ sys.calls.lookup other) :
    ¬ state.Midst id :=
  hclear ⟨other, state⟩ (AList.mem_lookup_iff.mp hstate) hne

theorem config_apply (arith : Arithmetic) (op : IndexOp) :
    (sys.apply arith op).index.config = sys.index.config :=
  config_run op

/-- An operation that goes around the queue touches its id only. -/
theorem steady_apply (op : IndexOp) {id : Bytes}
    (hne : id ≠ op.id) :
    (sys.view s config id).Steady ((sys.apply s.arith op).view s config id) := by
  have hitem : (op.run s.arith sys.index).item s.arith id = sys.index.item s.arith id := by
    rw [item_run, if_neg (Ne.symm hne)]
  refine ⟨rfl, ?_, fun hqueued => hqueued⟩
  dsimp only [System.view, System.apply]
  rw [hitem]
  rfl

section

variable (hconfig : sys.index.config = config)

include hconfig

theorem settled_apply (op : IndexOp) (hunqueued : sys.Unqueued op.id) :
    ((sys.apply s.arith op).view s config op.id).settled =
      match op.outcome s.arith sys.index with
      | .add put => some (kept s.arith config put.vector)
      | .delete _ _ => none := by
  have hafter : (sys.apply s.arith op).Unqueued op.id := hunqueued
  subst hconfig
  exact (settled_of_unqueued hafter).trans ((item_run op op.id).trans (if_pos rfl))

theorem settled_apply_add {put : Put} (hadd : (sys.index.add s.arith put.id put.vector).2 = true)
    (hunqueued : sys.Unqueued put.id) :
    ((sys.apply s.arith (.add put)).view s config put.id).settled =
      some (kept s.arith config put.vector) := by
  refine (settled_apply hconfig (.add put) hunqueued).trans ?_
  rw [IndexOp.outcome, if_pos hadd]

/-- The index takes away the vector of an id when it refuses another one. -/
theorem settled_apply_refused {put : Put}
    (hadd : ¬ (sys.index.add s.arith put.id put.vector).2 = true) (hunqueued : sys.Unqueued put.id) :
    ((sys.apply s.arith (.add put)).view s config put.id).settled = none := by
  refine (settled_apply hconfig (.add put) hunqueued).trans ?_
  rw [IndexOp.outcome, if_neg hadd]

end

theorem stored_commit (batch : List (StoreOp Bytes Bytes)) (writes : List Issued) (id : Bytes) :
    (sys.commit batch writes).stored s id =
      (sys.db.commit batch).get (nsKey s.ns (vectorKey id)) := rfl

/-- A commit changes what is stored only. -/
theorem steady_commit {batch : List (StoreOp Bytes Bytes)} (writes : List Issued) {id : Bytes}
    (hstored : (sys.commit batch writes).stored s id = sys.stored s id) :
    (sys.view s config id).Steady ((sys.commit batch writes).view s config id) :=
  ⟨hstored, rfl, fun hqueued => hqueued⟩

end Parts

theorem vectorKey_injective (ns : Bytes) :
    Function.Injective fun id : Bytes => nsKey ns (vectorKey id) := by
  intro first second heq
  exact (List.cons.inj (List.cons.inj (nsKey_inj.mp heq)).2).2

theorem latest_pairsOf (puts : List Put) (id : Bytes) :
    (latest Prod.fst (pairsOf puts) id).map Prod.snd = (latest Put.id puts id).map Put.value := by
  rw [pairsOf, latest_map, Option.map_map]
  rfl

/-- The vectors of a store call under their keys. -/
theorem stored_storeVectorBatchOps {sys : System} (ts : Nat) (puts : List Put)
    (writes : List Issued) (id : Bytes) :
    (sys.commit (storeVectorBatchOps s.toSettings ts (pairsOf puts)) writes).stored s id =
      ((latest Put.id puts id).map Put.value).or (sys.stored s id) := by
  rw [stored_commit, storeVectorBatchOps, commit_append, get_commit_of_forall_ne,
    get_commit_sets, ← latest_pairsOf]
  · have hfirst : latest Prod.fst (pairsOf puts) id =
        (latest (Prod.fst ∘ Prod.fst) (pairsOf puts).zipIdx id).map Prod.fst := by
      rw [← latest_map, List.zipIdx_map_fst]
    have hrename : latest ((fun id => nsKey s.ns (vectorKey id)) ∘ Prod.fst ∘ Prod.fst)
        (pairsOf puts).zipIdx (nsKey s.ns (vectorKey id)) =
          latest (Prod.fst ∘ Prod.fst) (pairsOf puts).zipIdx id :=
      latest_comp (vectorKey_injective s.ns) _ id
    rw [hfirst, Option.map_map, ← hrename, System.stored]
    congr!
  · intro item _ op hop
    split at hop
    next _ =>
      rw [List.mem_singleton.mp hop]
      intro hkey
      exact vectorKey_ne_walKey id (.add (ts + item.2) item.1.1 item.1.2) (nsKey_inj.mp hkey).symm
    next _ => cases hop
  · intro op hop
    split at hop
    next _ =>
      rw [List.mem_singleton.mp hop]
      intro hkey
      exact vectorKey_ne_walKey id (.batch ts (pairsOf puts)) (nsKey_inj.mp hkey).symm
    next _ => cases hop

/-- The vectors of a bulk load under their keys. -/
theorem stored_bulkLoadOps {sys : System} (done : List Put) (writes : List Issued) (id : Bytes) :
    (sys.commit (bulkLoadOps s.toSettings (pairsOf done)) writes).stored s id =
      ((latest Put.id done id).map Put.value).or (sys.stored s id) := by
  have hrename : latest ((fun id => nsKey s.ns (vectorKey id)) ∘ Prod.fst) (pairsOf done)
      (nsKey s.ns (vectorKey id)) = latest Prod.fst (pairsOf done) id :=
    latest_comp (vectorKey_injective s.ns) _ id
  rw [stored_commit, bulkLoadOps, List.map_eq_flatMap, get_commit_sets, ← latest_pairsOf,
    ← hrename, System.stored]
  · congr!
  · exact fun _ _ _ hop => absurd hop List.not_mem_nil

theorem stored_deleteVectorOps {sys : System} (ts : Nat) (deleted : Bytes) (writes : List Issued)
    (id : Bytes) :
    (sys.commit (deleteVectorOps s.toSettings ts deleted) writes).stored s id =
      if id = deleted then none else sys.stored s id := by
  rw [stored_commit, deleteVectorOps, commit_cons, get_commit_of_forall_ne, apply, get_delete]
  · by_cases hid : id = deleted
    · rw [if_pos hid, if_pos (congrArg _ (congrArg _ hid))]
    · rw [if_neg hid, if_neg fun heq => hid (vectorKey_injective s.ns heq)]
      rfl
  · intro op hop
    split at hop
    next _ =>
      rw [List.mem_singleton.mp hop]
      intro hkey
      exact vectorKey_ne_walKey id (.delete ts deleted) (nsKey_inj.mp hkey).symm
    next _ => cases hop

/-- A snapshot deletes no vector. -/
theorem stored_deletes {sys : System} {keys : List Bytes} (writes : List Issued) {id : Bytes}
    (hkeys : ∀ key ∈ keys, key ≠ nsKey s.ns (vectorKey id)) :
    (sys.commit (keys.map .delete) writes).stored s id = sys.stored s id := by
  rw [stored_commit, get_commit_deletes, if_neg]
  · rfl
  · exact fun hmem => hkeys _ hmem rfl

theorem coveredKeys_ne_vectorKey {ns : Bytes} {ts : Nat} {db : Pebble} {key : Bytes}
    (hkey : key ∈ coveredKeys ns ts db) (id : Bytes) : key ≠ nsKey ns (vectorKey id) := by
  obtain ⟨entry, hscan, rfl⟩ := List.mem_map.mp hkey
  have hlt := (within_iff.mp (mem_scan.mp hscan).2).2 _ rfl
  intro heq
  rw [heq] at hlt
  have hle : walCut ts ≤ vectorKey id := by
    apply le_of_lt
    rw [walCut, hnswWALPrefix, vectorKey]
    exact List.cons_lt_cons_iff.mpr (Or.inl (by decide))
  exact absurd ((nsKey_le_iff ns _ _).mpr hle) (not_le.mpr hlt)

end Invariant

end Vectron.Worker
