import Mathlib
import Vectron.Foundation.Moves

/-! # Reads of the JavaScript client

`callRead` retries a call, and with hedged reads a round of it is a race of two calls of which the
second is started by a timer. The promise of a round with a positive delay is settled by a success
only.
-/

namespace Vectron.Client.JavaScript

open Foundation

/-! ## Errors and options -/

/-- `VectronError` and its subclasses. -/
inductive VectronError where
  | vectron (message : String)
  | authentication (message : String)
  | notFound (message : String)
  | invalidArgument (message : String)
  | alreadyExists (message : String)
  | internalServer (message : String)
deriving DecidableEq, Repr

/-- What a promise is rejected with: an error of this client, a `ServiceError`, or another one. -/
inductive CallError where
  | vectron (err : VectronError)
  | service (code : Nat) (details : String)
  | other (message : String)
deriving DecidableEq, Repr

namespace Status

def invalidArgument : Nat := 3
def deadlineExceeded : Nat := 4
def notFound : Nat := 5
def alreadyExists : Nat := 6
def resourceExhausted : Nat := 8
def internal : Nat := 13
def unavailable : Nat := 14
def unauthenticated : Nat := 16

end Status

structure ClientOptions where
  hedgedReads : Bool
  hedgeDelayMs : Option Rat
  retryMaxAttempts : Option Rat
  retryOnWrites : Bool
  retryableStatusCodes : Option (List Nat)

def defaultOptions : ClientOptions where
  hedgedReads := false
  hedgeDelayMs := some 75
  retryMaxAttempts := some 3
  retryOnWrites := false
  retryableStatusCodes := none

/-- `_handleError`. -/
def handleError (code : Nat) (details : String) : VectronError :=
  if code = Status.unauthenticated then .authentication details
  else if code = Status.notFound then .notFound details
  else if code = Status.invalidArgument then .invalidArgument details
  else if code = Status.alreadyExists then .alreadyExists details
  else if code = Status.internal then .internalServer details
  else .vectron ("An unexpected gRPC error occurred: " ++ details)

/-- The error that `callWithRetry` throws when it gives up. -/
def thrown : CallError → CallError
  | .service code details => .vectron (handleError code details)
  | err => err

section Options

variable (opts : ClientOptions)

def maxAttempts : Rat := opts.retryMaxAttempts.getD 1

def getRetryableCodes : List Nat :=
  match opts.retryableStatusCodes with
  | some (code :: codes) => code :: codes
  | _ => [Status.unavailable, Status.deadlineExceeded, Status.resourceExhausted]

def shouldRetry (err : CallError) (isWrite : Bool) (attempt : Nat) : Bool :=
  if maxAttempts opts ≤ 1 ∨ maxAttempts opts ≤ attempt then false
  else if isWrite && !opts.retryOnWrites then false
  else match err with
    | .service code _ => (getRetryableCodes opts).contains code
    | _ => false

end Options

/-! ## Rounds -/

variable {T : Type}

/-- What `callWithRetry` calls: the function of the read, or `hedged` with a delay. -/
inductive Attempt where
  | direct
  | hedged (delayMs : Rat)

def attemptOf (opts : ClientOptions) : Attempt :=
  if !opts.hedgedReads then .direct else .hedged (max (opts.hedgeDelayMs.getD 75) 0)

/-- One evaluation of what is retried, with the variables that its callbacks share. Calls are
numbered in the order in which they are made. -/
structure Round (T : Type) where
  started : List Nat
  pending : List Nat
  timer : Bool
  settled : Bool
  out : Option (Except CallError T)

namespace Round

/-- A round makes its first call at once and sets its timer. -/
def first (attempt : Attempt) (call : Nat) : Round T where
  started := [call]
  pending := [call]
  timer := match attempt with
    | .direct => false
    | .hedged delayMs => decide (0 < delayMs)
  settled := false
  out := none

/-- A call comes to its end. Where `out` is rejected it is with an error, so `lastError` is never
thrown in its place. -/
def answer (attempt : Attempt) (call : Nat) (result : Except CallError T) (round : Round T) :
    Round T :=
  let round := { round with pending := round.pending.erase call }
  match attempt, result with
  | .direct, result => { round with out := some result }
  | .hedged _, .ok res =>
      if round.settled then round else { round with settled := true, out := some (.ok res) }
  | .hedged delayMs, .error err =>
      if round.settled then round
      else if delayMs = 0 then { round with settled := true, out := some (.error err) }
      else round

/-- The timer of the hedge. -/
def fire (call : Nat) (round : Round T) : Round T :=
  if round.settled then { round with timer := false }
  else { round with
    timer := false, started := round.started ++ [call], pending := round.pending ++ [call] }

end Round

/-! ## Retries -/

/-- Where `callWithRetry` stands. -/
inductive Phase (T : Type) where
  | awaiting
  | sleeping (err : CallError)
  | settled (result : Except CallError T)

/-- A call of `callRead`, with the rounds before the last one that may still have something to do,
latest first. -/
structure Read (T : Type) where
  phase : Phase T
  attempt : Nat
  made : Nat
  round : Round T
  past : List (Round T)

/-- A call is answered, a timer fires, the await of a round goes on or a sleep ends. A round is
named by how many began after it. -/
inductive Event where
  | answer (call : Nat)
  | timer (age : Nat)
  | resume
  | wake

namespace Read

variable (opts : ClientOptions) (answers : Nat → Except CallError T)

def answer (read : Read T) (call : Nat) : Option (Read T) :=
  let answered (round : Round T) := round.answer (attemptOf opts) call (answers call)
  if call ∈ read.round.pending then some { read with round := answered read.round }
  else if ∃ round ∈ read.past, call ∈ round.pending then
    some { read with past := read.past.map fun round =>
      if call ∈ round.pending then answered round else round }
  else none

/-- The number of calls made when the timer of a round has fired. -/
def madeAfter (read : Read T) (round : Round T) : Nat :=
  if round.settled then read.made else read.made + 1

def timer (read : Read T) : Nat → Option (Read T)
  | 0 =>
      if read.round.timer then
        some { read with round := read.round.fire read.made, made := read.madeAfter read.round }
      else none
  | age + 1 => do
      let round ← read.past[age]?
      if round.timer then
        some { read with
          past := read.past.set age (round.fire read.made), made := read.madeAfter round }
      else none

/-- `await fn()` in `callWithRetry`. -/
def resume (read : Read T) : Option (Read T) :=
  match read.phase, read.round.out with
  | .awaiting, some (.ok res) => some { read with phase := .settled (.ok res) }
  | .awaiting, some (.error err) =>
      if shouldRetry opts err false read.attempt then some { read with phase := .sleeping err }
      else some { read with phase := .settled (.error (thrown err)) }
  | _, _ => none

/-- What comes after the backoff. -/
def wake (read : Read T) : Option (Read T) :=
  match read.phase with
  | .sleeping err =>
      if maxAttempts opts < (read.attempt + 1 : Nat) then
        some { read with phase := .settled (.error (thrown err)), attempt := read.attempt + 1 }
      else some {
        phase := .awaiting
        attempt := read.attempt + 1
        made := read.made + 1
        round := Round.first (attemptOf opts) read.made
        past := read.round :: read.past }
  | _ => none

def move (read : Read T) : Event → Option (Read T)
  | .answer call => read.answer opts answers call
  | .timer age => read.timer age
  | .resume => read.resume opts
  | .wake => read.wake opts

/-- A call of `callRead` as it begins. -/
def callRead : Read T where
  phase := .awaiting
  attempt := 1
  made := 1
  round := Round.first (attemptOf opts) 0
  past := []

end Read

/-! ## How far a read has come -/

def Phase.weight : Phase T → Nat
  | .awaiting => 0
  | .sleeping _ => 1
  | .settled _ => 2

/-- A count that every event raises. -/
def Read.weight (read : Read T) : Nat :=
  5 * read.past.length + (if read.round.timer then 0 else 1) +
    (read.round.started.length - read.round.pending.length) + read.phase.weight

/-- Hedging is on and its delay is positive. -/
def Waits (opts : ClientOptions) : Prop :=
  opts.hedgedReads = true ∧ 0 < opts.hedgeDelayMs.getD 75

variable {opts : ClientOptions} {answers : Nat → Except CallError T}

theorem attemptOf_waits (hwaits : Waits opts) :
    ∃ delayMs, 0 < delayMs ∧ attemptOf opts = .hedged delayMs := by
  refine ⟨max (opts.hedgeDelayMs.getD 75) 0, lt_max_of_lt_left hwaits.2, ?_⟩
  simp [attemptOf, hwaits.1]

theorem attemptOf_not_waits (hwaits : ¬ Waits opts) :
    attemptOf opts = .direct ∨ attemptOf opts = .hedged 0 := by
  unfold attemptOf
  by_cases hhedged : opts.hedgedReads = true
  · right
    have hdelay : opts.hedgeDelayMs.getD 75 ≤ 0 := not_lt.mp fun hlt => hwaits ⟨hhedged, hlt⟩
    simp [hhedged, max_eq_right hdelay]
  · left
    simp [hhedged]

/-! ## Rounds of one call -/

section Alone

/-- A round that makes one call and takes its answer. -/
structure Alone (answers : Nat → Except CallError T) (call : Nat) (round : Round T) : Prop where
  started : round.started = [call]
  timer : round.timer = false
  out : (round.pending = [call] ∧ round.settled = false ∧ round.out = none) ∨
    (round.pending = [] ∧ round.out = some (answers call))

theorem alone_first (hwaits : ¬ Waits opts) (call : Nat) :
    Alone answers call (Round.first (attemptOf opts) call) := by
  constructor
  · rfl
  · rcases attemptOf_not_waits hwaits with heq | heq <;> simp [Round.first, heq]
  · exact Or.inl ⟨rfl, rfl, rfl⟩

theorem Alone.answer {call : Nat} {round : Round T} (hwaits : ¬ Waits opts)
    (halone : Alone answers call round) {k : Nat} (hk : k ∈ round.pending) :
    k = call ∧ round.pending.length = 1 ∧
      Alone answers call (round.answer (attemptOf opts) k (answers k)) ∧
      (round.answer (attemptOf opts) k (answers k)).pending = [] := by
  rcases halone.out with ⟨hpending, hsettled, hout⟩ | ⟨hpending, _⟩
  · rw [hpending, List.mem_singleton] at hk
    subst hk
    obtain ⟨hstarted, htimer, _⟩ := halone
    refine ⟨rfl, by simp [hpending], ?_⟩
    rcases attemptOf_not_waits hwaits with heq | heq
    · rw [heq]
      exact ⟨⟨hstarted, htimer, Or.inr ⟨by simp [Round.answer, hpending], rfl⟩⟩,
        by simp [Round.answer, hpending]⟩
    · cases hanswer : answers k with
      | ok res =>
          simp only [heq, Round.answer, hsettled, Bool.false_eq_true, if_false]
          exact ⟨⟨hstarted, htimer, Or.inr ⟨by simp [hpending], by rw [hanswer]⟩⟩,
            by simp [hpending]⟩
      | error err =>
          simp only [heq, Round.answer, hsettled, Bool.false_eq_true, if_false, if_true]
          exact ⟨⟨hstarted, htimer, Or.inr ⟨by simp [hpending], by rw [hanswer]⟩⟩,
            by simp [hpending]⟩
  · rw [hpending] at hk
    cases hk

/-- What the phase of a read says about the call of its round. -/
def PhaseOf (result : Except CallError T) (round : Round T) : Phase T → Prop
  | .awaiting => True
  | .sleeping err => round.pending = [] ∧ result = .error err
  | .settled last =>
      round.pending = [] ∧ ((∃ res, last = .ok res) ↔ ∃ res, result = .ok res)

/-- A read whose rounds make one call each. -/
structure Retrying (opts : ClientOptions) (answers : Nat → Except CallError T) (read : Read T) :
    Prop where
  made_le : (read.made : Rat) ≤ max 1 (maxAttempts opts)
  made_le_attempt : read.made ≤ read.attempt
  made : read.made = read.past.length + 1
  past : ∀ round ∈ read.past, round.pending = [] ∧ round.timer = false
  round : Alone answers read.past.length read.round
  phase : PhaseOf (answers read.past.length) read.round read.phase

theorem retrying_callRead (hwaits : ¬ Waits opts) : Retrying opts answers (Read.callRead opts) where
  made_le := by simp [Read.callRead]
  made_le_attempt := le_rfl
  made := rfl
  past := by simp [Read.callRead]
  round := alone_first hwaits 0
  phase := trivial

theorem Retrying.answer (hwaits : ¬ Waits opts) {read next : Read T} {call : Nat}
    (hretrying : Retrying opts answers read) (hnext : read.answer opts answers call = some next) :
    Retrying opts answers next ∧ read.weight < next.weight := by
  unfold Read.answer at hnext
  split at hnext
  next hcall =>
    obtain rfl := Option.some.inj hnext
    obtain ⟨-, hlength, halone, hpending⟩ := hretrying.round.answer hwaits hcall
    constructor
    · refine ⟨hretrying.made_le, hretrying.made_le_attempt, hretrying.made, hretrying.past, halone,
        ?_⟩
      have hphase := hretrying.phase
      unfold PhaseOf at hphase ⊢
      split at hphase
      next heq => simp [heq]
      next err heq => simpa [heq, hpending] using hphase.2
      next last heq => simpa [heq, hpending] using hphase.2
    · simp [Read.weight, hretrying.round.timer, halone.timer, hretrying.round.started,
        halone.started, hpending, hlength]
  next =>
    split at hnext
    next hpast =>
      obtain ⟨round, hround, hcall⟩ := hpast
      rw [(hretrying.past round hround).1] at hcall
      cases hcall
    next => cases hnext

theorem Retrying.timer {read next : Read T} {age : Nat} (hretrying : Retrying opts answers read) :
    read.timer age ≠ some next := by
  intro hnext
  cases age with
  | zero => simp [Read.timer, hretrying.round.timer] at hnext
  | succ age =>
      obtain ⟨round, hround, hnext⟩ := Option.bind_eq_some_iff.mp hnext
      have hidle := (hretrying.past round (List.mem_of_getElem? hround)).2
      simp [hidle] at hnext

theorem Retrying.resume {read next : Read T} (hretrying : Retrying opts answers read)
    (hnext : read.resume opts = some next) :
    Retrying opts answers next ∧ read.weight < next.weight := by
  unfold Read.resume at hnext
  split at hnext
  next res hphase hout =>
    obtain rfl := Option.some.inj hnext
    rcases hretrying.round.out with ⟨_, _, hnone⟩ | ⟨hpending, hanswer⟩
    · rw [hnone] at hout
      cases hout
    · rw [hanswer] at hout
      have hok := Option.some.inj hout
      constructor
      · refine ⟨hretrying.made_le, hretrying.made_le_attempt, hretrying.made, hretrying.past,
          hretrying.round, hpending, ?_⟩
        simp [hok]
      · simp [Read.weight, hphase, Phase.weight]
  next err hphase hout =>
    rcases hretrying.round.out with ⟨_, _, hnone⟩ | ⟨hpending, hanswer⟩
    · rw [hnone] at hout
      cases hout
    · rw [hanswer] at hout
      have herror := Option.some.inj hout
      split at hnext
      next =>
        obtain rfl := Option.some.inj hnext
        constructor
        · exact ⟨hretrying.made_le, hretrying.made_le_attempt, hretrying.made, hretrying.past,
            hretrying.round, hpending, herror⟩
        · simp [Read.weight, hphase, Phase.weight]
      next =>
        obtain rfl := Option.some.inj hnext
        constructor
        · refine ⟨hretrying.made_le, hretrying.made_le_attempt, hretrying.made, hretrying.past,
            hretrying.round, hpending, ?_⟩
          simp [herror]
        · simp [Read.weight, hphase, Phase.weight]
  next => cases hnext

theorem Retrying.wake (hwaits : ¬ Waits opts) {read next : Read T}
    (hretrying : Retrying opts answers read) (hnext : read.wake opts = some next) :
    Retrying opts answers next ∧ read.weight < next.weight := by
  have hphaseOf := hretrying.phase
  unfold Read.wake at hnext
  split at hnext
  next err hphase =>
    rw [hphase] at hphaseOf
    obtain ⟨hpending, herror⟩ := hphaseOf
    split at hnext
    next =>
      obtain rfl := Option.some.inj hnext
      constructor
      · refine ⟨hretrying.made_le, hretrying.made_le_attempt.trans (Nat.le_succ _), hretrying.made,
          hretrying.past, hretrying.round, hpending, ?_⟩
        simp [herror]
      · simp [Read.weight, hphase, Phase.weight]
    next hmore =>
      obtain rfl := Option.some.inj hnext
      have hmade := hretrying.made
      have halone := @alone_first _ opts answers hwaits read.made
      constructor
      · constructor
        case made_le =>
          have hle : ((read.made + 1 : Nat) : Rat) ≤ (read.attempt + 1 : Nat) := by
            exact_mod_cast Nat.succ_le_succ hretrying.made_le_attempt
          exact le_max_of_le_right (hle.trans (not_lt.mp hmore))
        case made_le_attempt => exact Nat.succ_le_succ hretrying.made_le_attempt
        case made => simp [hmade]
        case past =>
          intro round hround
          rcases List.mem_cons.mp hround with rfl | hround
          · exact ⟨hpending, hretrying.round.timer⟩
          · exact hretrying.past round hround
        case round =>
          rw [List.length_cons, ← hmade]
          exact halone
        case phase => trivial
      · simp only [Read.weight, hphase, Phase.weight, hretrying.round.timer,
          hretrying.round.started, hpending, List.length_cons, List.length_nil]
        split <;> omega
  next => cases hnext

theorem Retrying.move (hwaits : ¬ Waits opts) {read next : Read T} {event : Event}
    (hretrying : Retrying opts answers read) (hnext : read.move opts answers event = some next) :
    Retrying opts answers next ∧ read.weight < next.weight := by
  cases event with
  | answer call => exact hretrying.answer hwaits hnext
  | timer age => exact absurd hnext hretrying.timer
  | resume => exact hretrying.resume hnext
  | wake => exact hretrying.wake hwaits hnext

end Alone

/-! ## The round of two calls -/

section Racing

/-- A read with a positive delay. Its only round is rejected by nothing. -/
structure Racing (answers : Nat → Except CallError T) (read : Read T) : Prop where
  past : read.past = []
  made : read.made = 1 ∨ read.made = 2
  started : read.round.started = List.range read.made
  pending : read.round.pending.Sublist read.round.started
  timer : read.round.timer = true → read.made = 1
  settled : read.round.settled = true ↔ read.round.out ≠ none
  won : ∀ result, read.round.out = some result →
    ∃ k ∈ read.round.started, ∃ res, answers k = .ok res ∧ result = .ok res
  lost : read.round.settled = false → ∀ k ∈ read.round.started,
    k ∈ read.round.pending ∨ ∃ err, answers k = .error err
  both : read.round.timer = false → read.round.settled = false → read.made = 2
  phase : match read.phase with
    | .awaiting => True
    | .sleeping _ => False
    | .settled result => read.round.out = some result

theorem racing_callRead (hwaits : Waits opts) : Racing answers (Read.callRead opts) := by
  obtain ⟨delayMs, hdelay, heq⟩ := attemptOf_waits hwaits
  constructor <;> simp [Read.callRead, Round.first, heq, hdelay]

/-- A call is done, and the promise stays as it is. -/
theorem Racing.erase {read : Read T} {call : Nat} (hracing : Racing answers read)
    (hcall : read.round.settled = true ∨ ∃ err, answers call = .error err) :
    Racing answers
      { read with round := { read.round with pending := read.round.pending.erase call } } where
  past := hracing.past
  made := hracing.made
  started := hracing.started
  pending := List.erase_sublist.trans hracing.pending
  timer := hracing.timer
  settled := hracing.settled
  won := hracing.won
  lost := by
    intro hopen k hk
    by_cases hsame : k = call
    · subst hsame
      rcases hcall with hsettled | herror
      · exact absurd hopen (by simp [hsettled])
      · exact Or.inr herror
    · exact (hracing.lost hopen k hk).imp_left (List.mem_erase_of_ne hsame).mpr
  both := hracing.both
  phase := hracing.phase

/-- The first success settles the promise. -/
theorem Racing.win {read : Read T} {call : Nat} {res : T} (hracing : Racing answers read)
    (hopen : read.round.settled = false) (hcall : call ∈ read.round.pending)
    (hanswer : answers call = .ok res) :
    Racing answers { read with round := { read.round with
      pending := read.round.pending.erase call, settled := true, out := some (.ok res) } } where
  past := hracing.past
  made := hracing.made
  started := hracing.started
  pending := List.erase_sublist.trans hracing.pending
  timer := hracing.timer
  settled := by simp
  won := by
    intro result hresult
    obtain rfl := Option.some.inj hresult
    exact ⟨call, hracing.pending.subset hcall, res, hanswer, rfl⟩
  lost := by simp
  both := by simp
  phase := by
    have hphase := hracing.phase
    have hnone : read.round.out = none := by
      by_contra hout
      exact absurd (hracing.settled.mpr hout) (by simp [hopen])
    cases hread : read.phase with
    | awaiting => simp
    | sleeping err => simp [hread] at hphase
    | settled result => simp [hread, hnone] at hphase

theorem Racing.answer (hwaits : Waits opts) {read next : Read T} {call : Nat}
    (hracing : Racing answers read) (hnext : read.answer opts answers call = some next) :
    Racing answers next ∧ read.weight < next.weight := by
  obtain ⟨delayMs, hdelay, heq⟩ := attemptOf_waits hwaits
  unfold Read.answer at hnext
  split at hnext
  next hcall =>
    obtain rfl := Option.some.inj hnext
    have hlength := List.length_erase_of_mem hcall
    have hpos := List.length_pos_of_mem hcall
    have hle := hracing.pending.length_le
    rw [heq]
    cases hanswer : answers call with
    | ok res =>
        by_cases hdone : read.round.settled = true
        · simp only [Round.answer, hdone, if_true]
          refine ⟨by simpa [hdone] using @Racing.erase _ _ _ call hracing (Or.inl hdone), ?_⟩
          simp only [Read.weight, hlength]
          omega
        · rw [Bool.not_eq_true] at hdone
          simp only [Round.answer, hdone, Bool.false_eq_true, if_false]
          refine ⟨hracing.win hdone hcall hanswer, ?_⟩
          simp only [Read.weight, hlength]
          omega
    | error err =>
        have hkept : read.round.answer (.hedged delayMs) call (.error err) =
            { read.round with pending := read.round.pending.erase call } := by
          simp [Round.answer, hdelay.ne']
        simp only [hkept]
        refine ⟨hracing.erase (Or.inr ⟨err, hanswer⟩), ?_⟩
        simp only [Read.weight, hlength]
        omega
  next => simp [hracing.past] at hnext

theorem Racing.timer_fired {read next : Read T} {age : Nat} (hracing : Racing answers read)
    (hnext : read.timer age = some next) : Racing answers next ∧ read.weight < next.weight := by
  cases age with
  | zero =>
      simp only [Read.timer] at hnext
      split at hnext
      next hset =>
        obtain rfl := Option.some.inj hnext
        by_cases hdone : read.round.settled = true
        · simp only [Round.fire, Read.madeAfter, hdone, if_true]
          constructor
          · exact { hracing with
              timer := by simp
              settled := by simpa [hdone] using hracing.settled
              lost := by simp
              both := by simp }
          · simp [Read.weight, hset]
        · rw [Bool.not_eq_true] at hdone
          have hone := hracing.timer hset
          have hstarted := hracing.started
          have hpending := hracing.pending
          simp only [Round.fire, Read.madeAfter, hdone, Bool.false_eq_true, if_false]
          constructor
          · constructor
            case past => exact hracing.past
            case made => simp [hone]
            case started => rw [hstarted, List.range_succ]
            case pending => exact hpending.append (List.Sublist.refl _)
            case timer => simp
            case settled => simpa [hdone] using hracing.settled
            case won =>
              intro result hresult
              have hout : read.round.out = some result := hresult
              have hset := hracing.settled.mpr (by simp [hout])
              simp [hdone] at hset
            case lost =>
              intro _ k hk
              rcases List.mem_append.mp hk with hk | hk
              · exact (hracing.lost hdone k hk).imp_left fun hp => List.mem_append_left _ hp
              · exact Or.inl (List.mem_append_right _ hk)
            case both =>
              intro _ _
              simp [hone]
            case phase => exact hracing.phase
          · simp [Read.weight, hset]
      next => cases hnext
  | succ age => simp [Read.timer, hracing.past] at hnext

theorem Racing.resume {read next : Read T} (hracing : Racing answers read)
    (hnext : read.resume opts = some next) : Racing answers next ∧ read.weight < next.weight := by
  unfold Read.resume at hnext
  split at hnext
  next res hphase hout =>
    obtain rfl := Option.some.inj hnext
    exact ⟨{ hracing with phase := hout }, by simp [Read.weight, hphase, Phase.weight]⟩
  next err hphase hout =>
    obtain ⟨_, _, _, _, herr⟩ := hracing.won _ hout
    cases herr
  next => cases hnext

theorem Racing.wake {read next : Read T} (hracing : Racing answers read) :
    read.wake opts ≠ some next := by
  intro hnext
  have hphase := hracing.phase
  unfold Read.wake at hnext
  split at hnext
  next err hsleeping =>
    rw [hsleeping] at hphase
    exact hphase
  next => cases hnext

theorem Racing.move (hwaits : Waits opts) {read next : Read T} {event : Event}
    (hracing : Racing answers read) (hnext : read.move opts answers event = some next) :
    Racing answers next ∧ read.weight < next.weight := by
  cases event with
  | answer call => exact hracing.answer hwaits hnext
  | timer age => exact hracing.timer_fired hnext
  | resume => exact hracing.resume hnext
  | wake => exact absurd hnext hracing.wake

end Racing

/-! ## What a read comes to -/

/-- No event can come any more. -/
def Final (opts : ClientOptions) (answers : Nat → Except CallError T) (read : Read T) : Prop :=
  Moves.Stalled (Read.move opts answers) read

section

variable {read : Read T} (hfinal : Final opts answers read)

include hfinal

theorem Final.pending :
    read.round.pending = [] := by
  cases hpending : read.round.pending with
  | nil => rfl
  | cons call rest =>
      have hanswer := hfinal (.answer call)
      simp [Read.move, Read.answer, hpending] at hanswer

theorem Final.timer :
    read.round.timer = false := by
  have htimer := hfinal (.timer 0)
  simpa [Read.move, Read.timer] using htimer

theorem Final.awaiting (hphase : read.phase = .awaiting) : read.round.out = none := by
  cases hout : read.round.out with
  | none => rfl
  | some result =>
      have hresume := hfinal .resume
      cases result with
      | ok res => simp [Read.move, Read.resume, hphase, hout] at hresume
      | error err =>
          simp only [Read.move, Read.resume, hphase, hout] at hresume
          split at hresume <;> cases hresume

theorem Final.sleeping (err : CallError) :
    read.phase ≠ .sleeping err := by
  intro hphase
  have hwake := hfinal .wake
  simp only [Read.move, Read.wake, hphase] at hwake
  split at hwake <;> cases hwake

end

/-- The promise of the read is settled as the calls of the last round were answered. -/
def Answered (answers : Nat → Except CallError T) (read : Read T) : Prop :=
  ∃ result, read.phase = .settled result ∧
    ((∃ res, result = .ok res) ↔ ∃ call ∈ read.round.started, ∃ res, answers call = .ok res)

theorem Retrying.answered {read : Read T} (hretrying : Retrying opts answers read)
    (hfinal : Final opts answers read) : Answered answers read := by
  have hphaseOf := hretrying.phase
  cases hphase : read.phase with
  | awaiting =>
      rcases hretrying.round.out with ⟨hpending, _⟩ | ⟨_, hout⟩
      · rw [hfinal.pending] at hpending
        cases hpending
      · rw [hfinal.awaiting hphase] at hout
        cases hout
  | sleeping err => exact absurd hphase (hfinal.sleeping err)
  | settled result =>
      rw [hphase] at hphaseOf
      refine ⟨result, hphase, hphaseOf.2.trans ?_⟩
      simp [hretrying.round.started]

theorem Racing.answered {read : Read T} (hracing : Racing answers read)
    (hfinal : Final opts answers read)
    (hsome : (∃ res, answers 0 = .ok res) ∨ ∃ res, answers 1 = .ok res) :
    Answered answers read := by
  have hphaseOf := hracing.phase
  cases hphase : read.phase with
  | awaiting =>
      -- an open promise has seen both calls fail
      have hnone := hfinal.awaiting hphase
      have hopen : read.round.settled = false := by
        by_contra hset
        rw [Bool.not_eq_false] at hset
        exact hracing.settled.mp hset hnone
      have hmade := hracing.both hfinal.timer hopen
      have hfails : ∀ call < 2, ∃ err, answers call = .error err := by
        intro call hcall
        have hlost := hracing.lost hopen call (by
          rw [hracing.started, hmade]
          exact List.mem_range.mpr hcall)
        rw [hfinal.pending] at hlost
        exact hlost.resolve_left List.not_mem_nil
      rcases hsome with ⟨res, hok⟩ | ⟨res, hok⟩
      · obtain ⟨err, herr⟩ := hfails 0 (by decide)
        rw [hok] at herr
        cases herr
      · obtain ⟨err, herr⟩ := hfails 1 (by decide)
        rw [hok] at herr
        cases herr
  | sleeping err => simp [hphase] at hphaseOf
  | settled result =>
      rw [hphase] at hphaseOf
      obtain ⟨call, hcall, res, hok, rfl⟩ := hracing.won result hphaseOf
      exact ⟨_, hphase, ⟨fun _ => ⟨call, hcall, res, hok⟩, fun _ => ⟨res, rfl⟩⟩⟩

/-- What every run of a read should give: it is finite, it makes few calls, and where nothing can
come any more the promise is settled. -/
structure Settles (opts : ClientOptions) (answers : Nat → Except CallError T) (events : List Event)
    (last : Read T) : Prop where
  length : (events.length : Rat) ≤ 5 * max 1 (maxAttempts opts)
  made : (last.made : Rat) ≤ 2 * max 1 (maxAttempts opts)
  answered : Final opts answers last → Answered answers last

theorem one_le_attempts : (1 : Rat) ≤ max 1 (maxAttempts opts) := le_max_left _ _

theorem settles_of_retrying (hwaits : ¬ Waits opts) {events : List Event} {last : Read T}
    (hrun : Moves.run (Read.move opts answers) (Read.callRead opts) events = some last) :
    Settles opts answers events last := by
  obtain ⟨hlast, hlength⟩ := Moves.length_le_of_raises
    (fun _ _ _ hretrying hmove => Retrying.move hwaits hretrying hmove)
    (retrying_callRead hwaits) hrun
  have hmade := hlast.made
  have hle := hlast.made_le
  have hweight : last.weight ≤ 5 * last.made := by
    have hstarted := congrArg List.length hlast.round.started
    simp only [List.length_singleton] at hstarted
    have hphase : last.phase.weight ≤ 2 := by
      cases last.phase <;> simp [Phase.weight]
    have htimer : (if last.round.timer = true then 0 else 1) ≤ 1 := by
      split <;> simp
    unfold Read.weight
    omega
  have hcast : (events.length : Rat) ≤ 5 * last.made := by
    exact_mod_cast (Nat.le_add_right _ _).trans (hlength.trans hweight)
  exact ⟨by linarith, by linarith [@one_le_attempts opts], hlast.answered⟩

theorem racing_of_run (hwaits : Waits opts) {events : List Event} {last : Read T}
    (hrun : Moves.run (Read.move opts answers) (Read.callRead opts) events = some last) :
    Racing answers last ∧ events.length ≤ 5 := by
  obtain ⟨hlast, hlength⟩ := Moves.length_le_of_raises
    (fun _ _ _ hracing hmove => Racing.move hwaits hracing hmove) (racing_callRead hwaits) hrun
  refine ⟨hlast, ?_⟩
  have hstarted := congrArg List.length hlast.started
  rw [List.length_range] at hstarted
  have hphase : last.phase.weight ≤ 2 := by
    cases last.phase <;> simp [Phase.weight]
  have htimer : (if last.round.timer = true then 0 else 1) ≤ 1 := by
    split <;> simp
  have hmade := hlast.made
  simp only [Read.weight, hlast.past, List.length_nil] at hlength
  omega

/-- Both calls fail, the second one after the timer. -/
theorem run_lost (hwaits : Waits opts) {first second : CallError}
    (hfirst : answers 0 = .error first) (hsecond : answers 1 = .error second) :
    Moves.run (Read.move opts answers) (Read.callRead opts) [.answer 0, .timer 0, .answer 1] =
      some ⟨.awaiting, 1, 2, ⟨[0, 1], [], false, false, none⟩, []⟩ := by
  obtain ⟨delayMs, hdelay, heq⟩ := attemptOf_waits hwaits
  have hzero : Read.move opts answers (Read.callRead opts) (.answer 0) =
      some ⟨.awaiting, 1, 1, ⟨[0], [], true, false, none⟩, []⟩ := by
    simp [Read.move, Read.answer, Read.callRead, Round.first, Round.answer, heq, hfirst, hdelay,
      hdelay.ne']
  have htimer : Read.move opts answers ⟨.awaiting, 1, 1, ⟨[0], [], true, false, none⟩, []⟩
      (.timer 0) = some ⟨.awaiting, 1, 2, ⟨[0, 1], [1], false, false, none⟩, []⟩ := rfl
  have hone : Read.move opts answers ⟨.awaiting, 1, 2, ⟨[0, 1], [1], false, false, none⟩, []⟩
      (.answer 1) = some ⟨.awaiting, 1, 2, ⟨[0, 1], [], false, false, none⟩, []⟩ := by
    simp [Read.move, Read.answer, Round.answer, heq, hsecond, hdelay.ne']
  simp only [Moves.run_cons, hzero, htimer, hone, Option.bind_some, Moves.run_nil]

theorem final_lost :
    Final opts answers ⟨.awaiting, 1, 2, ⟨[0, 1], [], false, false, none⟩, []⟩ := by
  intro event
  cases event with
  | answer call => simp [Read.move, Read.answer]
  | timer age =>
      cases age with
      | zero => rfl
      | succ age => simp [Read.move, Read.timer]
  | resume => rfl
  | wake => rfl

/-- Every run of a read settles it, except where a hedge with a positive delay is on and its first
two calls fail. -/
theorem callRead_settles_iff (opts : ClientOptions) (answers : Nat → Except CallError T) :
    (∀ (events : List Event) (last : Read T),
      Moves.run (Read.move opts answers) (Read.callRead opts) events = some last →
        Settles opts answers events last) ↔
      ¬ (opts.hedgedReads = true ∧ 0 < opts.hedgeDelayMs.getD 75 ∧
        (∃ err, answers 0 = .error err) ∧ ∃ err, answers 1 = .error err) := by
  constructor
  · rintro hall ⟨hhedged, hdelay, ⟨first, hfirst⟩, second, hsecond⟩
    have hsettles := hall _ _ (run_lost ⟨hhedged, hdelay⟩ hfirst hsecond)
    obtain ⟨result, hphase, _⟩ := hsettles.answered final_lost
    cases hphase
  · intro hcondition events last hrun
    by_cases hwaits : Waits opts
    · obtain ⟨hracing, hlength⟩ := racing_of_run hwaits hrun
      have hone := @one_le_attempts opts
      constructor
      case length =>
        have hcast : (events.length : Rat) ≤ 5 := by exact_mod_cast hlength
        linarith
      case made =>
        have hmade : (last.made : Rat) ≤ 2 := by
          rcases hracing.made with heq | heq <;> rw [heq] <;> norm_num
        linarith
      case answered =>
        intro hfinal
        apply hracing.answered hfinal
        by_contra hnone
        rw [not_or] at hnone
        apply hcondition
        refine ⟨hwaits.1, hwaits.2, ?_, ?_⟩
        · cases hanswer : answers 0 with
          | ok res => exact absurd ⟨res, hanswer⟩ hnone.1
          | error err => exact ⟨err, rfl⟩
        · cases hanswer : answers 1 with
          | ok res => exact absurd ⟨res, hanswer⟩ hnone.2
          | error err => exact ⟨err, rfl⟩
    · exact settles_of_retrying hwaits hrun

/-- A hedged read whose calls all fail is never settled. -/
theorem callRead_stalls :
    ∃ (opts : ClientOptions) (answers : Nat → Except CallError Unit) (events : List Event)
      (last : Read Unit),
      Moves.run (Read.move opts answers) (Read.callRead opts) events = some last ∧
        Final opts answers last ∧ last.phase = .awaiting := by
  refine ⟨{ defaultOptions with hedgedReads := true },
    fun _ => .error (.service Status.unavailable "no connection"), _, _,
    run_lost ⟨rfl, by norm_num [defaultOptions]⟩ rfl rfl, final_lost, rfl⟩

end Vectron.Client.JavaScript
