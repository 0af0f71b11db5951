import Vectron.Foundation.GoMap
import Vectron.Foundation.Moves
import Vectron.Foundation.Reader

/-! # Uploads in batches

`UpsertBatch` of the Go client cuts the points into batches and sends them through a channel of
bounded capacity to its workers. A worker returns at the first error it meets or reads of; what
the channel still holds then is taken by nobody.
-/

namespace Vectron.Client

open Foundation

/-! ## Batches -/

/-- A point of an upload. -/
structure Point where
  id : Bytes
  vector : List UInt32
  payload : GoMap Bytes Bytes

/-- `BatchOptions`. -/
structure BatchOptions where
  batchSize : Int
  maxBatchBytes : Int
  concurrency : Int

def defaultBatchSize : Nat := 256

/-- `estimatePointBytes`, also of a nil point. -/
def estimatePointBytes : Option Point → Nat
  | none => 0
  | some p =>
      p.id.length + p.vector.length * 4 +
        (p.payload.entries.map fun entry => entry.1.length + entry.2.length).sum + 16

section Options

variable (opts : Option BatchOptions)

/-- The number an option asks for, or the default. -/
def optionOr (field : BatchOptions → Int) (default : Nat) : Nat :=
  match opts with
  | none => default
  | some opts => if 0 < field opts then (field opts).toNat else default

def batchSize : Nat := optionOr opts BatchOptions.batchSize defaultBatchSize

def maxBatchBytes : Nat := optionOr opts BatchOptions.maxBatchBytes 0

def concurrency : Nat := optionOr opts BatchOptions.concurrency 1

/-- Whether a batch may be extended by one more point. Its first point is always taken. -/
def fits (batch : List (Option Point)) (p : Option Point) : Bool :=
  batch.length < batchSize opts &&
    (maxBatchBytes opts = 0 ||
      (batch.map estimatePointBytes).sum + estimatePointBytes p ≤ maxBatchBytes opts)

/-- The batches of the remaining points, the first of which is under way. -/
def cutFrom (batch : List (Option Point)) : List (Option Point) → List (List (Option Point))
  | [] => [batch]
  | p :: rest =>
      if fits opts batch p then cutFrom (batch ++ [p]) rest else batch :: cutFrom [p] rest

/-- The batches that the producer sends, in order. -/
def batches : List (Option Point) → List (List (Option Point))
  | [] => []
  | p :: rest => cutFrom opts [p] rest

end Options

variable {opts : Option BatchOptions}

theorem one_le_concurrency : 1 ≤ concurrency opts := by
  unfold concurrency optionOr
  split
  next => exact le_rfl
  next opts =>
    split
    next hpos => omega
    next => exact le_rfl

/-! ## Producer and workers -/

/-- What `UpsertBatch` can return, besides the error of an `Upsert`. -/
inductive UploadError (E : Type) where
  | invalidArgument (detail : String)
  | upsert (err : E)
deriving DecidableEq, Repr

/-- Where the goroutine of the caller stands: about to read `firstErr` before it sends a batch,
about to send it, waiting for the workers with the channel closed, or back. -/
inductive Producer (E : Type) where
  | checking (next : Nat)
  | sending (next : Nat)
  | waiting
  | returned (result : Except (UploadError E) (BitVec 32))

/-- Where a worker stands: about to receive, with a batch before it reads `firstErr`, with a batch
in `Upsert`, or back. -/
inductive Worker where
  | receiving
  | holding (batch : Nat)
  | upserting (batch : Nat)
  | done
deriving DecidableEq, Repr

/-- The variables of `UpsertBatch` while it runs. Batches go by their place. -/
structure Upload (E : Type) where
  producer : Producer E
  queue : List Nat
  workers : List Worker
  firstErr : Option E
  total : BitVec 32

/-- Which goroutine goes on. -/
inductive Move where
  | producer
  | worker (w : Nat)
deriving DecidableEq, Repr

section Places

variable {E : Type}

/-- How many steps a worker has before it can be back. -/
def Worker.weight : Worker → Nat
  | .done => 0
  | .receiving => 1
  | .upserting _ => 2
  | .holding _ => 3

/-- A batch that was not sent yet is good for five steps. -/
def Producer.weight (batches : Nat) : Producer E → Nat
  | .checking i => 5 * (batches - i) + 2
  | .sending i => 5 * (batches - (i + 1)) + 6
  | .waiting => 1
  | .returned _ => 0

/-- The batch a worker has taken and not answered. -/
def Worker.batch? : Worker → Option Nat
  | .holding batch | .upserting batch => some batch
  | .receiving | .done => none

/-- What the producer has sent of the batches. -/
def Producer.Sent (batches sent : Nat) : Producer E → Prop
  | .checking i => i = sent ∧ sent ≤ batches
  | .sending i => i = sent ∧ sent < batches
  | .waiting | .returned _ => sent ≤ batches

end Places

namespace Upload

variable {E : Type}

/-- Whether the channel is closed. -/
def closed (state : Upload E) : Bool :=
  match state.producer with
  | .waiting | .returned _ => true
  | .checking _ | .sending _ => false

/-- What is returned once all workers are back. -/
def result (state : Upload E) : Except (UploadError E) (BitVec 32) :=
  match state.firstErr with
  | some err => .error (.upsert err)
  | none => .ok state.total

section Move

variable (capacity batches : Nat) (answers : Nat → Except E (BitVec 32))

/-- The next step of the caller. A send waits for room in the channel, and `wg.Wait` for all
workers. -/
def produce (state : Upload E) : Option (Upload E) :=
  match state.producer with
  | .checking next =>
      if next < batches ∧ state.firstErr.isNone then some { state with producer := .sending next }
      else some { state with producer := .waiting }
  | .sending next =>
      if state.queue.length < capacity then
        some { state with producer := .checking (next + 1), queue := state.queue ++ [next] }
      else none
  | .waiting =>
      if state.workers.all (· = .done) then
        some { state with producer := .returned state.result }
      else none
  | .returned _ => none

/-- A worker goes on to another place. -/
def place (state : Upload E) (w : Nat) (worker : Worker) : Upload E :=
  { state with workers := state.workers.set w worker }

/-- The next step of a worker. The range loop ends where the channel is closed and empty. -/
def work (w : Nat) (state : Upload E) : Option (Upload E) :=
  match state.workers[w]? with
  | none | some .done => none
  | some .receiving =>
      match state.queue with
      | batch :: rest => some ({ state with queue := rest }.place w (.holding batch))
      | [] => if state.closed then some (state.place w .done) else none
  | some (.holding batch) =>
      if state.firstErr.isSome then some (state.place w .done)
      else some (state.place w (.upserting batch))
  | some (.upserting batch) =>
      match answers batch with
      | .ok upserted => some ({ state with total := state.total + upserted }.place w .receiving)
      | .error err => some ({ state with firstErr := state.firstErr.or (some err) }.place w .done)

/-- The next step of a goroutine, if it is not blocked. -/
def move (state : Upload E) : Move → Option (Upload E)
  | .producer => state.produce capacity batches
  | .worker w => state.work answers w

end Move

/-- All workers are started before the first batch is cut. -/
def start (concurrency : Nat) : Upload E :=
  ⟨.checking 0, [], List.replicate concurrency .receiving, none, 0⟩

/-- A call of `UpsertBatch` as it begins. -/
def upsertBatch (collection : Bytes) (points : List (Option Point)) (opts : Option BatchOptions) :
    Upload E :=
  if collection = [] then
    ⟨.returned (.error (.invalidArgument "collection name cannot be empty")), [], [], none, 0⟩
  else if points = [] then ⟨.returned (.ok 0), [], [], none, 0⟩
  else start (concurrency opts)

/-! ## What a step can be -/

section Moved

variable (capacity batches : Nat) (answers : Nat → Except E (BitVec 32))

/-- One step of one goroutine. -/
inductive Moved (state : Upload E) : Upload E → Prop
  | check (next : Nat) (hproducer : state.producer = .checking next) (hmore : next < batches)
      (hnone : state.firstErr = none) : Moved state { state with producer := .sending next }
  | close (next : Nat) (hproducer : state.producer = .checking next)
      (hstop : batches ≤ next ∨ state.firstErr ≠ none) :
      Moved state { state with producer := .waiting }
  | send (next : Nat) (hproducer : state.producer = .sending next)
      (hroom : state.queue.length < capacity) :
      Moved state { state with
        producer := .checking (next + 1), queue := state.queue ++ [next] }
  | finish (hproducer : state.producer = .waiting)
      (hdone : ∀ worker ∈ state.workers, worker = .done) :
      Moved state { state with producer := .returned state.result }
  | receive (before after : List Worker) (batch : Nat) (rest : List Nat)
      (hworkers : state.workers = before ++ .receiving :: after)
      (hqueue : state.queue = batch :: rest) :
      Moved state { state with queue := rest, workers := before ++ .holding batch :: after }
  | leave (before after : List Worker) (hworkers : state.workers = before ++ .receiving :: after)
      (hqueue : state.queue = []) (hclosed : state.closed = true) :
      Moved state { state with workers := before ++ .done :: after }
  | skip (before after : List Worker) (batch : Nat)
      (hworkers : state.workers = before ++ .holding batch :: after)
      (hsome : state.firstErr ≠ none) :
      Moved state { state with workers := before ++ .done :: after }
  | begin (before after : List Worker) (batch : Nat)
      (hworkers : state.workers = before ++ .holding batch :: after)
      (hnone : state.firstErr = none) :
      Moved state { state with workers := before ++ .upserting batch :: after }
  | answer (before after : List Worker) (batch : Nat) (upserted : BitVec 32)
      (hworkers : state.workers = before ++ .upserting batch :: after)
      (hanswer : answers batch = .ok upserted) :
      Moved state { state with
        total := state.total + upserted, workers := before ++ .receiving :: after }
  | fail (before after : List Worker) (batch : Nat) (err : E)
      (hworkers : state.workers = before ++ .upserting batch :: after)
      (hanswer : answers batch = .error err) :
      Moved state { state with
        firstErr := state.firstErr.or (some err), workers := before ++ .done :: after }

end Moved

variable {capacity batches : Nat} {answers : Nat → Except E (BitVec 32)} {state next : Upload E}

theorem exists_split {workers : List Worker} {w : Nat} {worker : Worker}
    (hworker : workers[w]? = some worker) :
    ∃ before after, workers = before ++ worker :: after ∧ w = before.length := by
  obtain ⟨hlt, heq⟩ := List.getElem?_eq_some_iff.mp hworker
  refine ⟨workers.take w, workers.drop (w + 1), ?_, by simp; omega⟩
  rw [← heq, List.getElem_cons_drop, List.take_append_drop]

theorem place_split {before after : List Worker} {old : Worker} (worker : Worker)
    (hworkers : state.workers = before ++ old :: after) :
    state.place before.length worker = { state with workers := before ++ worker :: after } := by
  rw [place, hworkers, List.set_append_right _ _ le_rfl, Nat.sub_self, List.set_cons_zero]

theorem moved_of_produce (hproduce : state.produce capacity batches = some next) :
    Moved capacity batches answers state next := by
  unfold produce at hproduce
  cases hproducer : state.producer with
  | checking i =>
      simp only [hproducer] at hproduce
      split at hproduce
      next hmore =>
        obtain rfl := Option.some.inj hproduce
        exact .check i hproducer hmore.1 (Option.isNone_iff_eq_none.mp hmore.2)
      next hstop =>
        obtain rfl := Option.some.inj hproduce
        refine .close i hproducer ?_
        by_cases hmore : i < batches
        · exact Or.inr fun hnone => hstop ⟨hmore, by rw [hnone]; rfl⟩
        · exact Or.inl (by omega)
  | sending i =>
      simp only [hproducer] at hproduce
      split at hproduce
      next hroom =>
        obtain rfl := Option.some.inj hproduce
        exact .send i hproducer hroom
      next => cases hproduce
  | waiting =>
      simp only [hproducer] at hproduce
      split at hproduce
      next hdone =>
        obtain rfl := Option.some.inj hproduce
        exact .finish hproducer (by simpa using hdone)
      next => cases hproduce
  | returned result => simp [hproducer] at hproduce

theorem moved_of_work {w : Nat} (hwork : state.work answers w = some next) :
    Moved capacity batches answers state next := by
  unfold work at hwork
  cases hworker : state.workers[w]? with
  | none => simp [hworker] at hwork
  | some worker =>
      obtain ⟨before, after, hworkers, rfl⟩ := exists_split hworker
      simp only [hworker] at hwork
      cases worker with
      | done => cases hwork
      | receiving =>
          simp only at hwork
          split at hwork
          next batch rest hqueue =>
            obtain rfl := Option.some.inj hwork
            rw [@place_split E { state with queue := rest } before after _ _ hworkers]
            exact .receive before after batch rest hworkers hqueue
          next hqueue =>
            split at hwork
            next hclosed =>
              obtain rfl := Option.some.inj hwork
              rw [place_split _ hworkers]
              exact .leave before after hworkers hqueue hclosed
            next => cases hwork
      | holding batch =>
          simp only at hwork
          split at hwork
          next hsome =>
            obtain rfl := Option.some.inj hwork
            rw [place_split _ hworkers]
            exact .skip before after batch hworkers (Option.isSome_iff_ne_none.mp hsome)
          next hnone =>
            obtain rfl := Option.some.inj hwork
            rw [place_split _ hworkers]
            exact .begin before after batch hworkers (by simpa using hnone)
      | upserting batch =>
          simp only at hwork
          split at hwork
          next upserted hanswer =>
            obtain rfl := Option.some.inj hwork
            rw [@place_split E { state with total := state.total + upserted } before after _ _
              hworkers]
            exact .answer before after batch upserted hworkers hanswer
          next err hanswer =>
            obtain rfl := Option.some.inj hwork
            rw [@place_split E { state with firstErr := state.firstErr.or (some err) } before after _ _
              hworkers]
            exact .fail before after batch err hworkers hanswer

/-- The steps are the moves of the goroutines. -/
theorem moved_iff : (∃ step, state.move capacity batches answers step = some next) ↔
    Moved capacity batches answers state next := by
  constructor
  · rintro ⟨step, hmove⟩
    cases step with
    | producer => exact moved_of_produce hmove
    | worker w => exact moved_of_work hmove
  · intro hmoved
    cases hmoved with
    | check i hproducer hmore hnone =>
        exact ⟨.producer, by simp [move, produce, hproducer, hmore, hnone]⟩
    | close i hproducer hstop =>
        refine ⟨.producer, ?_⟩
        simp only [move, produce, hproducer]
        rw [if_neg]
        rintro ⟨hmore, hnone⟩
        rcases hstop with hle | hsome
        · omega
        · exact hsome (Option.isNone_iff_eq_none.mp hnone)
    | send i hproducer hroom => exact ⟨.producer, by simp [move, produce, hproducer, hroom]⟩
    | finish hproducer hdone =>
        exact ⟨.producer, by
          simp only [move, produce, hproducer]
          rw [if_pos (by simpa using hdone)]⟩
    | receive before after batch rest hworkers hqueue =>
        exact ⟨.worker before.length, by simp [move, work, place, hworkers, hqueue]⟩
    | leave before after hworkers hqueue hclosed =>
        exact ⟨.worker before.length, by simp [move, work, place, hworkers, hqueue, hclosed]⟩
    | skip before after batch hworkers hsome =>
        have hsome := Option.isSome_iff_ne_none.mpr hsome
        exact ⟨.worker before.length, by simp [move, work, place, hworkers, hsome]⟩
    | begin before after batch hworkers hnone =>
        exact ⟨.worker before.length, by simp [move, work, place, hworkers, hnone]⟩
    | answer before after batch upserted hworkers hanswer
    | fail before after batch err hworkers hanswer =>
        exact ⟨.worker before.length, by simp [move, work, place, hworkers, hanswer]⟩

/-! ## Every run ends -/

section Weight

/-- A bound on the steps that remain. -/
def weight (batches : Nat) (state : Upload E) : Nat :=
  state.producer.weight batches + 3 * state.queue.length +
    (state.workers.map Worker.weight).sum

theorem Moved.weight_lt (hmoved : Moved capacity batches answers state next) :
    next.weight batches < state.weight batches := by
  unfold weight
  cases hmoved with
  | check i hproducer hmore _
  | close i hproducer _
  | finish hproducer _ =>
      simp only [hproducer, Producer.weight]
      omega
  | send i hproducer _ =>
      simp only [hproducer, Producer.weight, List.length_append, List.length_singleton]
      omega
  | receive before after batch rest hworkers hqueue =>
      simp [hworkers, hqueue, Worker.weight]
      omega
  | leave before after hworkers _ _
  | skip before after batch hworkers _
  | begin before after batch hworkers _
  | answer before after batch upserted hworkers _
  | fail before after batch err hworkers _ => simp [hworkers, Worker.weight]

/-- No schedule keeps the goroutines going for ever. -/
theorem length_le_of_run {c : Nat} {moves : List Move} {last : Upload E}
    (hrun : Moves.run (move capacity batches answers) (start c) moves = some last) :
    moves.length ≤ 5 * batches + c + 2 := by
  have hbound := Moves.length_le_of_decreases
    (fun _ step _ hmove => (moved_iff.mp ⟨step, hmove⟩).weight_lt) hrun
  simp [weight, start, Producer.weight, Worker.weight] at hbound
  omega

end Weight

/-! ## What is under way -/

/-- The points an answer reports. -/
def amount (answers : Nat → Except E (BitVec 32)) (batch : Nat) : BitVec 32 :=
  match answers batch with
  | .ok upserted => upserted
  | .error _ => 0

/-- The points of the batch a worker has taken. -/
def owed (answers : Nat → Except E (BitVec 32)) (worker : Worker) : BitVec 32 :=
  match worker.batch? with
  | some batch => amount answers batch
  | none => 0

/-- What holds after the workers have taken `taken` batches. Every worker that is not about to
receive has taken one of its own while the channel is open. As long as there is no error, every
batch taken is under way or counted, and no worker is back before the channel is empty. -/
structure Fed (capacity batches : Nat) (answers : Nat → Except E (BitVec 32)) (taken : Nat)
    (state : Upload E) : Prop where
  queue : state.queue = List.range' taken state.queue.length
  room : state.queue.length ≤ capacity
  sent : state.producer.Sent batches (taken + state.queue.length)
  held : ∀ worker ∈ state.workers, ∀ batch, worker.batch? = some batch → batch < taken
  failed : state.firstErr ≠ none → ∃ k < taken, ∃ err, answers k = .error err
  busy : state.closed = false → state.workers.countP (· ≠ .receiving) ≤ taken
  drained : state.firstErr = none → .done ∈ state.workers →
    state.closed = true ∧ state.queue = []
  whole : state.firstErr = none → state.closed = true → taken + state.queue.length = batches
  answered : state.firstErr = none → ∀ batch < taken,
    (∃ worker ∈ state.workers, worker.batch? = some batch) ∨
      ∃ upserted, answers batch = .ok upserted
  counted : state.firstErr = none →
    state.total + (state.workers.map (owed answers)).sum =
      ((List.range taken).map (amount answers)).sum
  back : ∀ result, state.producer = .returned result →
    result = state.result ∧ ∀ worker ∈ state.workers, worker = .done

theorem fed_start (c : Nat) : Fed capacity batches answers 0 (start c : Upload E) where
  queue := rfl
  room := Nat.zero_le _
  sent := ⟨rfl, Nat.zero_le _⟩
  held worker hworker batch hbatch := by
    rw [List.eq_of_mem_replicate hworker] at hbatch
    cases hbatch
  failed hsome := absurd rfl hsome
  busy _ := by simp [start]
  drained _ hdone := absurd (List.eq_of_mem_replicate hdone) (by decide)
  whole _ hclosed := by cases hclosed
  answered _ batch hlt := absurd hlt (Nat.not_lt_zero _)
  counted _ := by simp [start, owed, Worker.batch?]
  back result hresult := by cases hresult

variable {taken : Nat}

section

variable (hfed : Fed capacity batches answers taken state)

include hfed

/-- While the channel is open and there is no error, no worker is back. -/
theorem Fed.not_done (hopen : state.closed = false) (hnone : state.firstErr = none) :
    .done ∉ state.workers := by
  intro hdone
  rw [(hfed.drained hnone hdone).1] at hopen
  cases hopen

theorem Fed.checked {i : Nat} (hproducer : state.producer = .checking i) (hmore : i < batches) :
    Fed capacity batches answers taken { state with producer := .sending i } := by
  have hopen : state.closed = false := by simp [closed, hproducer]
  have hsent := hfed.sent
  rw [hproducer] at hsent
  exact
    { hfed with
      sent := ⟨hsent.1, hsent.1 ▸ hmore⟩
      busy := fun _ => hfed.busy hopen
      drained := fun hnone hdone => absurd hdone (hfed.not_done hopen hnone)
      whole := fun _ hclosed => absurd hclosed Bool.false_ne_true
      back := fun _ hresult => by cases hresult }

theorem Fed.closing {i : Nat} (hproducer : state.producer = .checking i)
    (hstop : batches ≤ i ∨ state.firstErr ≠ none) :
    Fed capacity batches answers taken { state with producer := .waiting } := by
  have hopen : state.closed = false := by simp [closed, hproducer]
  have hsent := hfed.sent
  rw [hproducer] at hsent
  obtain ⟨rfl, hle⟩ := hsent
  exact
    { hfed with
      sent := hle
      busy := fun hclosed => absurd hclosed.symm Bool.false_ne_true
      drained := fun hnone hdone => absurd hdone (hfed.not_done hopen hnone)
      whole := fun hnone _ => le_antisymm hle (hstop.resolve_right (not_not.mpr hnone))
      back := fun _ hresult => by cases hresult }

theorem Fed.sending {i : Nat} (hproducer : state.producer = .sending i)
    (hroom : state.queue.length < capacity) :
    Fed capacity batches answers taken
      { state with producer := .checking (i + 1), queue := state.queue ++ [i] } := by
  have hopen : state.closed = false := by simp [closed, hproducer]
  have hsent := hfed.sent
  rw [hproducer] at hsent
  obtain ⟨rfl, hmore⟩ := hsent
  refine
    { hfed with
      queue := ?_
      room := by simpa using hroom
      sent := ?_
      busy := fun _ => hfed.busy hopen
      drained := fun hnone hdone => absurd hdone (hfed.not_done hopen hnone)
      whole := fun _ hclosed => absurd hclosed Bool.false_ne_true
      back := fun _ hresult => by cases hresult }
  · simp only [List.length_append, List.length_singleton]
    rw [List.range'_concat, ← hfed.queue, Nat.one_mul]
  · simp only [List.length_append, List.length_singleton]
    exact ⟨by omega, by omega⟩

theorem Fed.returning (hproducer : state.producer = .waiting)
    (hdone : ∀ worker ∈ state.workers, worker = .done) :
    Fed capacity batches answers taken { state with producer := .returned state.result } := by
  have hclosed : state.closed = true := by simp [closed, hproducer]
  have hsent := hfed.sent
  rw [hproducer] at hsent
  exact
    { hfed with
      sent := hsent
      busy := fun hopen => absurd hopen.symm Bool.false_ne_true
      drained := fun hnone hmem => ⟨rfl, (hfed.drained hnone hmem).2⟩
      whole := fun hnone _ => hfed.whole hnone hclosed
      back := fun _ hresult => ⟨(Producer.returned.inj hresult).symm, hdone⟩ }

end

section Worker

variable {before after : List Worker}

theorem mem_split (old : Worker) {new worker : Worker} (hworker : worker ∈ before ++ new :: after) :
    worker = new ∨ worker ∈ before ++ old :: after := by
  simp only [List.mem_append, List.mem_cons] at hworker ⊢
  tauto

/-- One more batch is taken from the channel. -/
theorem Fed.receiving (hfed : Fed capacity batches answers taken state) {batch : Nat}
    {rest : List Nat} (hworkers : state.workers = before ++ .receiving :: after)
    (hqueue : state.queue = batch :: rest) :
    Fed capacity batches answers (taken + 1)
      { state with queue := rest, workers := before ++ .holding batch :: after } := by
  have hlength : state.queue.length = rest.length + 1 := by rw [hqueue, List.length_cons]
  have hrange : batch :: rest = taken :: List.range' (taken + 1) rest.length := by
    rw [← List.range'_succ, ← hlength, ← hfed.queue, hqueue]
  obtain ⟨rfl, hrest⟩ := List.cons.inj hrange
  have hcount : batch + 1 + rest.length = batch + state.queue.length := by omega
  constructor
  case queue => exact hrest
  case room =>
    have hroom := hfed.room
    change rest.length ≤ capacity
    omega
  case sent =>
    change state.producer.Sent batches (batch + 1 + rest.length)
    rw [hcount]
    exact hfed.sent
  case held =>
    intro worker hworker b hb
    rcases mem_split .receiving hworker with rfl | hmem
    · obtain rfl := Option.some.inj hb
      exact Nat.lt_succ_self _
    · rw [← hworkers] at hmem
      exact Nat.lt_succ_of_lt (hfed.held worker hmem b hb)
  case failed =>
    intro hsome
    obtain ⟨k, hk, err, herr⟩ := hfed.failed hsome
    exact ⟨k, Nat.lt_succ_of_lt hk, err, herr⟩
  case busy =>
    intro hopen
    have hbusy := hfed.busy hopen
    simp [hworkers, List.countP_append] at hbusy ⊢
    omega
  case drained =>
    intro hnone hdone
    rcases mem_split .receiving hdone with hsame | hmem
    · cases hsame
    · rw [← hworkers] at hmem
      have hempty := (hfed.drained hnone hmem).2
      rw [hqueue] at hempty
      cases hempty
  case whole =>
    intro hnone hclosed
    change batch + 1 + rest.length = batches
    rw [hcount]
    exact hfed.whole hnone hclosed
  case answered =>
    intro hnone b hb
    rcases Nat.lt_succ_iff_lt_or_eq.mp hb with hlt | rfl
    · refine (hfed.answered hnone b hlt).imp_left fun hworker => ?_
      obtain ⟨worker, hmem, hworker⟩ := hworker
      rw [hworkers] at hmem
      rcases mem_split (.holding batch) hmem with rfl | hmem
      · cases hworker
      · exact ⟨worker, hmem, hworker⟩
    · exact Or.inl ⟨.holding b, by simp, rfl⟩
  case counted =>
    intro hnone
    have hcounted := hfed.counted hnone
    rw [List.range_succ]
    simp [hworkers, owed, Worker.batch?] at hcounted ⊢
    rw [← hcounted]
    ring
  case back =>
    intro result hresult
    have hdone := (hfed.back result hresult).2 .receiving (by simp [hworkers])
    cases hdone

/-- A worker that is not back goes on with the batch it has, if any. -/
theorem Fed.placed (hfed : Fed capacity batches answers taken state) {old new : Worker}
    (hworkers : state.workers = before ++ old :: after) {firstErr : Option E} {total : BitVec 32}
    (hold : old ≠ .done) (hheld : ∀ b, new.batch? = some b → old.batch? = some b)
    (hbusy : state.closed = false → old = .receiving → new = .receiving)
    (hkept : firstErr = none → state.firstErr = none)
    (hfailed : firstErr ≠ none → ∃ k < taken, ∃ err, answers k = .error err)
    (hdrained : firstErr = none → new = .done → state.closed = true ∧ state.queue = [])
    (hanswered : firstErr = none → ∀ b, old.batch? = some b →
      new.batch? = some b ∨ ∃ upserted, answers b = .ok upserted)
    (hcounted : firstErr = none → total + owed answers new = state.total + owed answers old) :
    Fed capacity batches answers taken { state with
      workers := before ++ new :: after, firstErr := firstErr, total := total } := by
  constructor
  case queue => exact hfed.queue
  case room => exact hfed.room
  case sent => exact hfed.sent
  case held =>
    intro worker hworker b hb
    rcases mem_split old hworker with rfl | hmem
    · exact hfed.held old (by simp [hworkers]) b (hheld b hb)
    · rw [← hworkers] at hmem
      exact hfed.held worker hmem b hb
  case failed => exact hfailed
  case busy =>
    intro hopen
    have hcount := hfed.busy hopen
    have hstays := hbusy hopen
    simp only [hworkers, List.countP_append, List.countP_cons, decide_eq_true_eq] at hcount ⊢
    by_cases hreceiving : old = .receiving
    · rw [if_neg (not_not.mpr hreceiving)] at hcount
      rw [if_neg (not_not.mpr (hstays hreceiving))]
      exact hcount
    · rw [if_pos hreceiving] at hcount
      split
      next => exact hcount
      next => omega
  case drained =>
    intro hnone hdone
    rcases mem_split old hdone with hsame | hmem
    · exact hdrained hnone hsame.symm
    · rw [← hworkers] at hmem
      exact hfed.drained (hkept hnone) hmem
  case whole => exact fun hnone hclosed => hfed.whole (hkept hnone) hclosed
  case answered =>
    intro hnone b hb
    rcases hfed.answered (hkept hnone) b hb with ⟨worker, hmem, hworker⟩ | hok
    · rw [hworkers] at hmem
      rcases mem_split new hmem with rfl | hmem
      · exact (hanswered hnone b hworker).imp_left fun hnew => ⟨new, by simp, hnew⟩
      · exact Or.inl ⟨worker, hmem, hworker⟩
    · exact Or.inr hok
  case counted =>
    intro hnone
    have hsum := hfed.counted (hkept hnone)
    have hstep := hcounted hnone
    simp only [hworkers, List.map_append, List.map_cons, List.sum_append, List.sum_cons] at hsum ⊢
    calc total + ((before.map (owed answers)).sum + (owed answers new +
          (after.map (owed answers)).sum))
        = (total + owed answers new) + ((before.map (owed answers)).sum +
          (after.map (owed answers)).sum) := by ring
      _ = (state.total + owed answers old) + ((before.map (owed answers)).sum +
          (after.map (owed answers)).sum) := by rw [hstep]
      _ = _ := by rw [← hsum]; ring
  case back =>
    intro result hresult
    exact absurd ((hfed.back result hresult).2 old (by simp [hworkers])) hold

end Worker

/-- Every step keeps what is under way. -/
theorem Fed.moved (hfed : Fed capacity batches answers taken state)
    (hmoved : Moved capacity batches answers state next) :
    ∃ taken', Fed capacity batches answers taken' next := by
  cases hmoved with
  | check i hproducer hmore _ => exact ⟨taken, hfed.checked hproducer hmore⟩
  | close i hproducer hstop => exact ⟨taken, hfed.closing hproducer hstop⟩
  | send i hproducer hroom => exact ⟨taken, hfed.sending hproducer hroom⟩
  | finish hproducer hdone => exact ⟨taken, hfed.returning hproducer hdone⟩
  | receive before after batch rest hworkers hqueue =>
      exact ⟨taken + 1, hfed.receiving hworkers hqueue⟩
  | leave before after hworkers hqueue hclosed =>
      refine ⟨taken, hfed.placed hworkers (by simp) (by simp [Worker.batch?]) ?_ id hfed.failed
        (fun _ _ => ⟨hclosed, hqueue⟩) (by simp [Worker.batch?]) (by simp [owed, Worker.batch?])⟩
      intro hopen
      rw [hclosed] at hopen
      cases hopen
  | skip before after batch hworkers hsome =>
      exact ⟨taken, hfed.placed hworkers (by simp) (by simp [Worker.batch?]) (by simp) id
        hfed.failed (fun hnone => absurd hnone hsome) (fun hnone => absurd hnone hsome)
        (fun hnone => absurd hnone hsome)⟩
  | begin before after batch hworkers hnone =>
      exact ⟨taken, hfed.placed hworkers (by simp) (by simp [Worker.batch?]) (by simp) id
        hfed.failed (by simp) (fun _ b hb => Or.inl hb) (by simp [owed, Worker.batch?])⟩
  | answer before after batch upserted hworkers hanswer =>
      refine ⟨taken, hfed.placed hworkers (by simp) (by simp [Worker.batch?]) (by simp) id
        hfed.failed (by simp) (fun _ b hb => Or.inr ⟨upserted, ?_⟩) ?_⟩
      · obtain rfl := Option.some.inj hb
        exact hanswer
      · simp [owed, Worker.batch?, amount, hanswer]
  | fail before after batch err hworkers hanswer =>
      have hsome : state.firstErr.or (some err) ≠ none := by simp
      have hlt := hfed.held (.upserting batch) (by simp [hworkers]) batch rfl
      exact ⟨taken, hfed.placed hworkers (by simp) (by simp [Worker.batch?]) (by simp)
        (fun hnone => absurd hnone hsome) (fun _ => ⟨batch, hlt, err, hanswer⟩)
        (fun hnone => absurd hnone hsome) (fun hnone => absurd hnone hsome)
        (fun hnone => absurd hnone hsome)⟩

theorem Moved.workers_length (hmoved : Moved capacity batches answers state next) :
    next.workers.length = state.workers.length := by
  cases hmoved with
  | check | close | send | finish => rfl
  | receive before after batch rest hworkers hqueue
  | leave before after hworkers hqueue hclosed
  | skip before after batch hworkers hsome
  | begin before after batch hworkers hnone
  | answer before after batch upserted hworkers hanswer
  | fail before after batch err hworkers hanswer => simp [hworkers]

theorem fed_of_run {c : Nat} {moves : List Move} {last : Upload E}
    (hrun : Moves.run (move capacity batches answers) (start c) moves = some last) :
    (∃ taken, Fed capacity batches answers taken last) ∧ last.workers.length = c := by
  refine @Moves.run_keeps _ _ _ (fun state =>
    (∃ taken, Fed capacity batches answers taken state) ∧ state.workers.length = c) ?_ _ _ _ ?_ hrun
  · rintro state step next ⟨⟨taken, hfed⟩, hlength⟩ hmove
    have hmoved := moved_iff.mp ⟨step, hmove⟩
    exact ⟨hfed.moved hmoved, hmoved.workers_length.trans hlength⟩
  · exact ⟨⟨0, fed_start c⟩, by simp [start]⟩

/-! ## Where an upload can stall -/

theorem stalled_iff : Moves.Stalled (move capacity batches answers) state ↔
    ∀ next, ¬ Moved capacity batches answers state next := by
  constructor
  · intro hstalled next hmoved
    obtain ⟨step, hmove⟩ := moved_iff.mpr hmoved
    rw [hstalled step] at hmove
    cases hmove
  · intro hnone step
    cases hmove : state.move capacity batches answers step with
    | none => rfl
    | some next => exact absurd (moved_iff.mp ⟨step, hmove⟩) (hnone next)

/-- A worker that is not back can go on, unless it waits for a batch. -/
theorem done_of_stalled (hstalled : ∀ next, ¬ Moved capacity batches answers state next)
    (hfeeds : state.queue ≠ [] ∨ state.closed = true) :
    ∀ worker ∈ state.workers, worker = .done := by
  intro worker hworker
  obtain ⟨before, after, hworkers⟩ := List.append_of_mem hworker
  cases worker with
  | done => rfl
  | receiving =>
      cases hqueue : state.queue with
      | nil =>
          have hclosed := hfeeds.resolve_left (not_not.mpr hqueue)
          exact absurd (.leave before after hworkers hqueue hclosed) (hstalled _)
      | cons batch rest =>
          exact absurd (.receive before after batch rest hworkers hqueue) (hstalled _)
  | holding batch =>
      by_cases hnone : state.firstErr = none
      · exact absurd (.begin before after batch hworkers hnone) (hstalled _)
      · exact absurd (.skip before after batch hworkers hnone) (hstalled _)
  | upserting batch =>
      cases hanswer : answers batch with
      | ok upserted =>
          exact absurd (.answer before after batch upserted hworkers hanswer) (hstalled _)
      | error err => exact absurd (.fail before after batch err hworkers hanswer) (hstalled _)

/-- The only way to stall is to wait for room in the channel when all workers are back. -/
theorem blocked_of_stalled (hcapacity : 0 < capacity)
    (hstalled : ∀ next, ¬ Moved capacity batches answers state next)
    (hrunning : ∀ result, state.producer ≠ .returned result) :
    ∃ i, state.producer = .sending i ∧ capacity ≤ state.queue.length ∧
      ∀ worker ∈ state.workers, worker = .done := by
  cases hproducer : state.producer with
  | checking i =>
      by_cases hstop : batches ≤ i ∨ state.firstErr ≠ none
      · exact absurd (.close i hproducer hstop) (hstalled _)
      · obtain ⟨hmore, hnone⟩ := not_or.mp hstop
        exact absurd (.check i hproducer (not_le.mp hmore) (not_not.mp hnone)) (hstalled _)
  | sending i =>
      by_cases hroom : state.queue.length < capacity
      · exact absurd (.send i hproducer hroom) (hstalled _)
      · refine ⟨i, rfl, not_lt.mp hroom, done_of_stalled hstalled (Or.inl fun hempty => ?_)⟩
        rw [hempty] at hroom
        exact hroom hcapacity
  | waiting =>
      have hdone := done_of_stalled hstalled (Or.inr (by simp [closed, hproducer]))
      exact absurd (.finish hproducer hdone) (hstalled _)
  | returned result => exact absurd hproducer (hrunning result)

theorem stalled_of_blocked {i : Nat} (hproducer : state.producer = .sending i)
    (hfull : capacity ≤ state.queue.length) (hdone : ∀ worker ∈ state.workers, worker = .done) :
    Moves.Stalled (move capacity batches answers) state := by
  rw [stalled_iff]
  intro next hmoved
  cases hmoved with
  | check j hproducer' | close j hproducer'
  | finish hproducer' =>
      rw [hproducer] at hproducer'
      cases hproducer'
  | send j _ hroom => omega
  | receive before after _ _ hworkers | leave before after hworkers =>
      have hback := hdone .receiving (by simp [hworkers])
      cases hback
  | skip before after batch hworkers | begin before after batch hworkers =>
      have hback := hdone (.holding batch) (by simp [hworkers])
      cases hback
  | answer before after batch _ hworkers | fail before after batch _ hworkers =>
      have hback := hdone (.upserting batch) (by simp [hworkers])
      cases hback

/-- Each worker that is back took a batch, and so did the one with the error, before the channel
was filled once more. -/
theorem Fed.bound_of_blocked (hfed : Fed capacity batches answers taken state)
    (hcapacity : 0 < capacity) (hworkers : state.workers.length = capacity) {i : Nat}
    (hproducer : state.producer = .sending i) (hfull : capacity ≤ state.queue.length)
    (hdone : ∀ worker ∈ state.workers, worker = .done) :
    2 * capacity < batches ∧ ∃ k, k + capacity + 1 < batches ∧ ∃ err, answers k = .error err := by
  have hopen : state.closed = false := by simp [closed, hproducer]
  have hroom := hfed.room
  have hbusy := hfed.busy hopen
  have hsent := hfed.sent
  rw [hproducer] at hsent
  obtain ⟨rfl, hmore⟩ := hsent
  have hcount : state.workers.countP (· ≠ .receiving) = state.workers.length := by
    rw [List.countP_eq_length]
    intro worker hworker
    rw [hdone worker hworker]
    decide
  have hsome : state.firstErr ≠ none := by
    intro hnone
    obtain ⟨worker, hworker⟩ := List.exists_mem_of_length_pos (hworkers ▸ hcapacity)
    exact hfed.not_done hopen hnone (hdone worker hworker ▸ hworker)
  obtain ⟨k, hk, herr⟩ := hfed.failed hsome
  exact ⟨by omega, k, by omega, herr⟩

/-- An upload returns the error of some batch, or every batch was upserted and is counted. -/
theorem Fed.returned (hfed : Fed capacity batches answers taken state)
    (hworkers : 0 < state.workers.length) {result : Except (UploadError E) (BitVec 32)}
    (hresult : state.producer = .returned result) :
    (∃ err, result = .error (.upsert err)) ∨
      result = .ok ((List.range batches).map (amount answers)).sum ∧
        ∀ k < batches, ∃ upserted, answers k = .ok upserted := by
  obtain ⟨rfl, hdone⟩ := hfed.back result hresult
  have hclosed : state.closed = true := by simp [closed, hresult]
  unfold Upload.result
  cases hfirst : state.firstErr with
  | some err => exact Or.inl ⟨err, rfl⟩
  | none =>
      obtain ⟨worker, hworker⟩ := List.exists_mem_of_length_pos hworkers
      have hempty := (hfed.drained hfirst (hdone worker hworker ▸ hworker)).2
      have htaken := hfed.whole hfirst hclosed
      rw [hempty, List.length_nil, Nat.add_zero] at htaken
      subst htaken
      have howed : (state.workers.map (owed answers)).sum = 0 := by
        refine List.sum_eq_zero fun points hpoints => ?_
        obtain ⟨worker, hworker, rfl⟩ := List.mem_map.mp hpoints
        rw [hdone worker hworker]
        rfl
      have hcounted := hfed.counted hfirst
      rw [howed, add_zero] at hcounted
      refine Or.inr ⟨by rw [hcounted], fun k hk => ?_⟩
      refine (hfed.answered hfirst k hk).resolve_left ?_
      rintro ⟨worker, hworker, hbatch⟩
      rw [hdone worker hworker] at hbatch
      cases hbatch

/-! ## A schedule that stalls

The workers answer the batches before the failing one, take one batch each and wait before they
read `firstErr`, and the producer fills the channel and decides to send once more. Then the
failing batch is answered, and every worker leaves with the batch it has.
-/

section Schedule

variable {i : Nat} {queue : List Nat} {workers front : List Worker} {total : BitVec 32}
  {firstErr : Option E}

theorem reaches_of_moved (hmoved : Moved capacity batches answers state next) :
    Moves.Reaches (move capacity batches answers) state next := by
  obtain ⟨step, hmove⟩ := moved_iff.mpr hmoved
  exact Moves.Reaches.of_move hmove

/-- The producer sends its next batch. -/
theorem reaches_sent (hmore : i < batches) (hroom : queue.length < capacity) :
    Moves.Reaches (move capacity batches answers) ⟨.checking i, queue, workers, none, total⟩
      ⟨.checking (i + 1), queue ++ [i], workers, none, total⟩ :=
  (reaches_of_moved (.check i rfl hmore rfl)).trans (reaches_of_moved (.send i rfl hroom))

/-- A batch is sent to the first worker and answered. -/
theorem reaches_answered (hcapacity : 0 < capacity) (hmore : i < batches) {upserted : BitVec 32}
    (hanswer : answers i = .ok upserted) :
    Moves.Reaches (move capacity batches answers)
      ⟨.checking i, [], .receiving :: workers, none, total⟩
      ⟨.checking (i + 1), [], .receiving :: workers, none, total + upserted⟩ := by
  refine (@reaches_sent E capacity batches answers i [] _ total hmore hcapacity).trans ?_
  refine (reaches_of_moved (.receive [] workers i [] rfl rfl)).trans ?_
  refine (reaches_of_moved (.begin [] workers i rfl rfl)).trans ?_
  exact reaches_of_moved (.answer [] workers i upserted rfl hanswer)

theorem reaches_allAnswered (hcapacity : 0 < capacity) {m : Nat} (hm : m ≤ batches)
    (hanswers : ∀ k < m, ∃ upserted, answers k = .ok upserted) :
    ∃ total, Moves.Reaches (move capacity batches answers)
      ⟨.checking 0, [], .receiving :: workers, none, 0⟩
      ⟨.checking m, [], .receiving :: workers, none, total⟩ := by
  induction m with
  | zero => exact ⟨0, Moves.Reaches.refl _⟩
  | succ m ih =>
      obtain ⟨total, hbefore⟩ := ih (by omega) fun k hk => hanswers k (by omega)
      obtain ⟨upserted, hanswer⟩ := hanswers m (Nat.lt_succ_self m)
      exact ⟨total + upserted, hbefore.trans (reaches_answered hcapacity (by omega) hanswer)⟩

/-- Every worker takes a batch. -/
theorem reaches_held (hcapacity : 0 < capacity) {rest : Nat} (hmore : i + rest ≤ batches) :
    Moves.Reaches (move capacity batches answers)
      ⟨.checking i, [], front ++ List.replicate rest .receiving, none, total⟩
      ⟨.checking (i + rest), [], front ++ (List.range' i rest).map .holding, none, total⟩ := by
  induction rest generalizing i front with
  | zero => simpa using Moves.Reaches.refl _
  | succ rest ih =>
      rw [List.replicate_succ, List.range'_succ, List.map_cons]
      refine (reaches_sent (by omega) hcapacity).trans ?_
      refine (reaches_of_moved (.receive front _ i [] rfl rfl)).trans ?_
      have hrest := @ih (i + 1) (front ++ [.holding i]) (by omega)
      rw [List.append_assoc, List.append_assoc, Nat.add_right_comm] at hrest
      exact hrest

/-- The producer fills the channel. -/
theorem reaches_filled {room : Nat} (hroom : queue.length + room ≤ capacity)
    (hmore : i + room ≤ batches) :
    Moves.Reaches (move capacity batches answers) ⟨.checking i, queue, workers, none, total⟩
      ⟨.checking (i + room), queue ++ List.range' i room, workers, none, total⟩ := by
  induction room generalizing i queue with
  | zero => simpa using Moves.Reaches.refl _
  | succ room ih =>
      refine (reaches_sent (by omega) (by omega)).trans ?_
      have hrest := @ih (i + 1) (queue ++ [i]) (by simp; omega) (by omega)
      rw [List.append_assoc, Nat.add_right_comm] at hrest
      rw [List.range'_succ]
      exact hrest

/-- The workers leave with what they have. -/
theorem reaches_left {err : E}
    (hworkers : ∀ worker ∈ workers, worker = .done ∨ ∃ batch, worker = .holding batch) :
    Moves.Reaches (move capacity batches answers)
      ⟨.sending i, queue, front ++ workers, some err, total⟩
      ⟨.sending i, queue, front ++ List.replicate workers.length .done, some err, total⟩ := by
  induction workers generalizing front with
  | nil => exact Moves.Reaches.refl _
  | cons worker workers ih =>
      have hrest := @ih (front ++ [.done]) fun worker hworker =>
        hworkers worker (List.mem_cons_of_mem _ hworker)
      rw [List.append_assoc, List.append_assoc] at hrest
      rw [List.length_cons, List.replicate_succ]
      rcases hworkers worker List.mem_cons_self with rfl | ⟨batch, rfl⟩
      · exact hrest
      · exact (reaches_of_moved (.skip front workers batch rfl (by simp))).trans hrest

/-- With enough batches behind the first one that fails, some schedule stalls. -/
theorem reaches_stalled (hcapacity : 0 < capacity) (htwice : 2 * capacity < batches) {k : Nat}
    (hk : k + capacity + 1 < batches) {err : E} (herr : answers k = .error err)
    (hbefore : ∀ j < k, ∃ upserted, answers j = .ok upserted) :
    ∃ last : Upload E, Moves.Reaches (move capacity batches answers) (start capacity) last ∧
      Moves.Stalled (move capacity batches answers) last ∧
      ∃ i, last.producer = .sending i := by
  obtain ⟨others, rfl⟩ : ∃ others, capacity = others + 1 := ⟨capacity - 1, by omega⟩
  -- the batches `m` to `m + others` are held while the channel is filled
  obtain ⟨m, hm⟩ : ∃ m, m = k - others := ⟨_, rfl⟩
  obtain ⟨total, hanswered⟩ := @reaches_allAnswered E (others + 1) batches answers
    (List.replicate others .receiving) hcapacity m (by omega) fun j hj => hbefore j (by omega)
  have hheld := @reaches_held E (others + 1) batches answers m [] total hcapacity (others + 1)
    (by omega)
  have hfilled := @reaches_filled E (others + 1) batches answers (m + (others + 1)) []
    ((List.range' m (others + 1)).map .holding) total (others + 1) (by simp) (by omega)
  have hmem : Worker.holding k ∈ (List.range' m (others + 1)).map Worker.holding := by
    refine List.mem_map_of_mem ?_
    rw [List.mem_range'_1]
    omega
  obtain ⟨before, after, hsplit⟩ := List.append_of_mem hmem
  have hlength : before.length + (after.length + 1) = others + 1 := by
    have hsame := congrArg List.length hsplit
    simpa using hsame.symm
  have hholding : ∀ worker ∈ before ++ .done :: after,
      worker = .done ∨ ∃ batch, worker = .holding batch := by
    intro worker hworker
    refine (mem_split (.holding k) hworker).imp_right fun hworker => ?_
    rw [← hsplit] at hworker
    obtain ⟨batch, _, rfl⟩ := List.mem_map.mp hworker
    exact ⟨batch, rfl⟩
  have hleft := @reaches_left E (others + 1) batches answers (m + (others + 1) + (others + 1))
    (List.range' (m + (others + 1)) (others + 1)) (before ++ .done :: after) [] total err hholding
  have hfailed : Moves.Reaches (move (others + 1) batches answers)
      ⟨.checking (m + (others + 1) + (others + 1)), List.range' (m + (others + 1)) (others + 1),
        before ++ .holding k :: after, none, total⟩
      ⟨.sending (m + (others + 1) + (others + 1)), List.range' (m + (others + 1)) (others + 1),
        before ++ .done :: after, some err, total⟩ := by
    refine (reaches_of_moved (.check _ rfl (by omega) rfl)).trans ?_
    refine (reaches_of_moved (.begin before after k rfl rfl)).trans ?_
    exact reaches_of_moved (.fail before after k err rfl herr)
  rw [List.nil_append, hsplit] at hfilled
  rw [List.nil_append, List.nil_append, hsplit] at hheld
  refine ⟨_, hanswered.trans (hheld.trans (hfilled.trans (hfailed.trans hleft))), ?_, _, rfl⟩
  refine stalled_of_blocked rfl (by simp) fun worker hworker => ?_
  exact List.eq_of_mem_replicate hworker

end Schedule

/-! ## Every call of `UpsertBatch` -/

/-- What a caller may expect of a state it can come to: the call has returned where no goroutine
can go on, and what it returns is an error if some batch failed. -/
structure Settled (capacity batches : Nat) (answers : Nat → Except E (BitVec 32))
    (state : Upload E) : Prop where
  free : Moves.Stalled (move capacity batches answers) state →
    ∃ result, state.producer = .returned result
  reported : (∃ k < batches, ∃ err, answers k = .error err) →
    ∀ result, state.producer = .returned result → ∃ err, result = .error err

theorem settled_of_run (hcapacity : 0 < capacity)
    (hcondition : ¬ (2 * capacity < batches ∧
      ∃ k, k + capacity + 1 < batches ∧ ∃ err, answers k = .error err))
    {moves : List Move} {last : Upload E}
    (hrun : Moves.run (move capacity batches answers) (start capacity) moves = some last) :
    Settled capacity batches answers last := by
  obtain ⟨⟨taken, hfed⟩, hworkers⟩ := fed_of_run hrun
  constructor
  case free =>
    intro hstalled
    by_contra hrunning
    obtain ⟨i, hproducer, hfull, hdone⟩ := blocked_of_stalled hcapacity (stalled_iff.mp hstalled)
      (not_exists.mp hrunning)
    exact hcondition (hfed.bound_of_blocked hcapacity hworkers hproducer hfull hdone)
  case reported =>
    rintro ⟨k, hk, err, herr⟩ result hresult
    rcases hfed.returned (hworkers ▸ hcapacity) hresult with ⟨err', rfl⟩ | ⟨_, hall⟩
    · exact ⟨_, rfl⟩
    · obtain ⟨upserted, hok⟩ := hall k hk
      rw [herr] at hok
      cases hok

theorem stalled_of_returned {result : Except (UploadError E) (BitVec 32)} {moves : List Move}
    {last : Upload E} (hrun : Moves.run (move capacity batches answers)
      ⟨.returned result, [], [], none, 0⟩ moves = some last) :
    last = ⟨.returned result, [], [], none, 0⟩ ∧ moves = [] := by
  cases moves with
  | nil => exact ⟨(Option.some.inj hrun).symm, rfl⟩
  | cons step rest =>
      obtain ⟨next, hmove, _⟩ := Option.bind_eq_some_iff.mp hrun
      cases step with
      | producer => cases hmove
      | worker w => cases hmove

/-- Every schedule of an upload is finite. It always comes to a return that reports the batches
that failed if and only if no error can find the producer with a full channel behind it: few
batches, or none that fails early enough. -/
theorem upsertBatch_settles_iff (collection : Bytes) (points : List (Option Point))
    (opts : Option BatchOptions) (answers : Nat → Except E (BitVec 32)) :
    (∀ (moves : List Move) (last : Upload E),
      Moves.run (move (concurrency opts) (Client.batches opts points).length answers)
        (upsertBatch collection points opts) moves = some last →
      moves.length ≤ 5 * (Client.batches opts points).length + concurrency opts + 2 ∧
        Settled (concurrency opts) (Client.batches opts points).length answers last) ↔
      ¬ (collection ≠ [] ∧ 2 * concurrency opts < (Client.batches opts points).length ∧
        ∃ k, k + concurrency opts + 1 < (Client.batches opts points).length ∧
          ∃ err, answers k = .error err) := by
  have hcapacity : 0 < concurrency opts := one_le_concurrency
  constructor
  · rintro hall ⟨hcollection, htwice, k, hk, err, herr⟩
    have hpoints : points ≠ [] := by
      rintro rfl
      simp [Client.batches] at htwice
    have hstart : upsertBatch collection points opts = start (E := E) (concurrency opts) := by
      rw [upsertBatch, if_neg hcollection, if_neg hpoints]
    -- the first of the failing batches is early enough, too
    have hfails : ∃ k, ∃ err, answers k = .error err := ⟨k, err, herr⟩
    classical
    obtain ⟨err', hfirst⟩ := Nat.find_spec hfails
    have hle := Nat.find_min' hfails ⟨err, herr⟩
    have hbefore : ∀ j < Nat.find hfails, ∃ upserted, answers j = .ok upserted := by
      intro j hj
      cases hanswer : answers j with
      | ok upserted => exact ⟨upserted, rfl⟩
      | error err => exact absurd ⟨err, hanswer⟩ (Nat.find_min hfails hj)
    obtain ⟨last, ⟨moves, hrun⟩, hstalled, i, hsending⟩ :=
      reaches_stalled hcapacity htwice (by omega) hfirst hbefore
    obtain ⟨result, hreturned⟩ := (hall moves last (by rw [hstart]; exact hrun)).2.free hstalled
    rw [hsending] at hreturned
    cases hreturned
  · intro hcondition moves last hrun
    unfold upsertBatch at hrun
    split at hrun
    next =>
      obtain ⟨rfl, rfl⟩ := stalled_of_returned hrun
      exact ⟨by simp, ⟨fun _ => ⟨_, rfl⟩, fun _ result hresult =>
        ⟨_, (Producer.returned.inj hresult).symm⟩⟩⟩
    next hcollection =>
      split at hrun
      next hpoints =>
        obtain ⟨rfl, rfl⟩ := stalled_of_returned hrun
        refine ⟨by simp, ⟨fun _ => ⟨_, rfl⟩, ?_⟩⟩
        rintro ⟨k, hk, _⟩
        simp [hpoints, Client.batches] at hk
      next =>
        exact ⟨length_le_of_run hrun, settled_of_run hcapacity
          (fun hboth => hcondition ⟨hcollection, hboth⟩) hrun⟩

/-- Three batches and one worker: the first batch fails when the producer has decided to send the
third one. -/
theorem upsertBatch_stalls :
    ∃ (points : List (Option Point)) (opts : Option BatchOptions) (moves : List Move)
      (last : Upload Unit),
      Moves.run (move (concurrency opts) (Client.batches opts points).length
        fun k => if k = 0 then .error () else .ok 1) (upsertBatch [0] points opts) moves =
          some last ∧
      Moves.Stalled (move (concurrency opts) (Client.batches opts points).length
        fun k => if k = 0 then .error () else .ok 1) last ∧
      last.producer = .sending 2 ∧ last.workers = [.done] := by
  refine ⟨List.replicate 3 (some ⟨[0], [0], ∅⟩), some ⟨1, 0, 1⟩,
    [.producer, .producer, .worker 0, .worker 0, .producer, .producer, .producer, .worker 0],
    ⟨.sending 2, [1], [.done], some (), 0⟩, rfl, ?_, rfl, rfl⟩
  refine stalled_of_blocked rfl (by decide) fun worker hworker => ?_
  simpa using hworker

end Upload

end Vectron.Client
