import Vectron.Foundation.MapEdit
import Vectron.Foundation.Windows

/-! # The rate limiter of the auth service

`RateLimiter` counts the requests of a client to an endpoint in windows that begin with a request.
`Cleanup` deletes the counters of windows that are long over.
-/

namespace Vectron.Auth

open Foundation

structure RateLimit where
  requests : Int
  window : Int

structure RateCounter where
  count : Int
  windowFrom : Int
deriving DecidableEq, Repr

structure RateLimiter where
  requests : GoMap String (GoMap String RateCounter)
  limits : GoMap String RateLimit
  defaultLimit : RateLimit

namespace RateLimiter

section Operations

variable (rl : RateLimiter)

/-- The limit of an endpoint. -/
def limit (endpoint : String) : RateLimit := (rl.limits.lookup endpoint).getD rl.defaultLimit

/-- `rl.requests[clientID][endpoint] = counter`, with the map of the client created if need be. -/
def put (clientID endpoint : String) (counter : RateCounter) : RateLimiter :=
  let endpoints := ((rl.requests.lookup clientID).getD ∅).insert endpoint counter
  { rl with requests := rl.requests.insert clientID endpoints }

def allowRequest (clientID endpoint : String) (now : Int) : RateLimiter × Bool :=
  let endpoints := (rl.requests.lookup clientID).getD ∅
  let limit := rl.limit endpoint
  let counter := (endpoints.lookup endpoint).getD ⟨0, now⟩
  let counter := if now - counter.windowFrom ≥ limit.window then ⟨0, now⟩ else counter
  if counter.count ≥ limit.requests then (rl.put clientID endpoint counter, false)
  else (rl.put clientID endpoint { counter with count := counter.count + 1 }, true)

def maxWindow : Int :=
  rl.limits.entries.foldl
    (fun maxWindow limit => if limit.2.window > maxWindow then limit.2.window else maxWindow)
    rl.defaultLimit.window

/-- `-maxWindow * 2` of 64 bits. -/
def reach : Int := Int.bmod (-rl.maxWindow * 2) (2 ^ 64)

/-- One tick of `Cleanup`. -/
def cleanup (now : Int) : RateLimiter :=
  let cutoff := now + rl.reach
  let old (counter : RateCounter) : Bool := counter.windowFrom < cutoff
  let requests := rl.requests.mapValues fun endpoints =>
    GoMap.eraseWhere (fun endpoint => (endpoints.lookup endpoint).any old) endpoints
  let empty (clientID : String) : Bool :=
    (requests.lookup clientID).any fun endpoints => endpoints.size = 0
  { rl with requests := requests.eraseWhere empty }

/-- The counter of a client and an endpoint. -/
def counter (clientID endpoint : String) : Option RateCounter :=
  (rl.requests.lookup clientID).bind fun endpoints => endpoints.lookup endpoint

end Operations

variable {rl : RateLimiter} {clientID endpoint : String} {now : Int}

/-! ## Counters -/

/-- The counter of a request that comes now. -/
def current (rl : RateLimiter) (clientID endpoint : String) (now : Int) : RateCounter :=
  let counter := (rl.counter clientID endpoint).getD ⟨0, now⟩
  if now - counter.windowFrom ≥ (rl.limit endpoint).window then ⟨0, now⟩ else counter

theorem lookup_endpoints (rl : RateLimiter) (clientID endpoint : String) :
    ((rl.requests.lookup clientID).getD ∅).lookup endpoint = rl.counter clientID endpoint := by
  unfold counter
  cases rl.requests.lookup clientID with
  | none => rfl
  | some endpoints => rfl

theorem allowRequest_eq (rl : RateLimiter) (clientID endpoint : String) (now : Int) :
    rl.allowRequest clientID endpoint now =
      if (rl.current clientID endpoint now).count ≥ (rl.limit endpoint).requests then
        (rl.put clientID endpoint (rl.current clientID endpoint now), false)
      else
        (rl.put clientID endpoint { rl.current clientID endpoint now with
          count := (rl.current clientID endpoint now).count + 1 }, true) := by
  simp only [allowRequest, lookup_endpoints]
  rfl

theorem counter_put (rl : RateLimiter) (clientID endpoint other path : String)
    (found : RateCounter) :
    (rl.put clientID endpoint found).counter other path =
      if other = clientID ∧ path = endpoint then some found else rl.counter other path := by
  simp only [put, counter, GoMap.lookup_insert_if]
  by_cases hother : other = clientID
  · subst hother
    simp only [if_true, Option.bind_some, GoMap.lookup_insert_if, true_and, lookup_endpoints]
    rfl
  · simp [hother]

theorem lookup_eraseOld (endpoints : GoMap String RateCounter) (old : RateCounter → Bool)
    (endpoint : String) :
    (GoMap.eraseWhere (fun endpoint => (endpoints.lookup endpoint).any old) endpoints).lookup
      endpoint = (endpoints.lookup endpoint).filter fun counter => !old counter := by
  rw [GoMap.lookup_eraseWhere]
  cases endpoints.lookup endpoint with
  | none => simp
  | some counter => cases hold : old counter <;> simp [hold, Option.filter]

theorem lookup_of_size_zero {K V : Type} [DecidableEq K] {m : GoMap K V} (hsize : m.size = 0)
    (k : K) : m.lookup k = none := by
  apply AList.lookup_eq_none.mpr
  intro hk
  have hkeys : m.keys = [] := List.length_eq_zero_iff.mp hsize
  exact absurd (AList.mem_keys.mp hk) (by rw [hkeys]; exact List.not_mem_nil)

/-- A tick keeps the counters that are not old. -/
theorem counter_cleanup (rl : RateLimiter) (now : Int) (clientID endpoint : String) :
    (rl.cleanup now).counter clientID endpoint =
      (rl.counter clientID endpoint).filter fun counter =>
        !decide (counter.windowFrom < now + rl.reach) := by
  simp only [cleanup, counter, GoMap.lookup_eraseWhere, GoMap.lookup_mapValues]
  cases hclient : rl.requests.lookup clientID with
  | none => simp
  | some endpoints =>
      have hlookup := lookup_eraseOld endpoints
        (fun counter => decide (counter.windowFrom < now + rl.reach)) endpoint
      simp only [Option.map_some, Option.any_some, Option.bind_some, decide_eq_true_eq]
      split
      next hempty => rw [Option.bind_none, ← hlookup, lookup_of_size_zero hempty]
      next => rw [Option.bind_some, hlookup]

/-! ## The reach of a tick -/

theorem foldl_window_le (limits : List (Σ _ : String, RateLimit)) (start : Int) :
    start ≤ limits.foldl (fun maxWindow limit =>
        if limit.2.window > maxWindow then limit.2.window else maxWindow) start ∧
      ∀ limit ∈ limits, limit.2.window ≤ limits.foldl (fun maxWindow limit =>
        if limit.2.window > maxWindow then limit.2.window else maxWindow) start := by
  induction limits generalizing start with
  | nil => simp
  | cons first rest ih =>
      rw [List.foldl_cons]
      obtain ⟨hstart, hrest⟩ := ih (if first.2.window > start then first.2.window else start)
      have hboth : start ≤ (if first.2.window > start then first.2.window else start) ∧
          first.2.window ≤ (if first.2.window > start then first.2.window else start) := by
        split <;> omega
      refine ⟨hboth.1.trans hstart, ?_⟩
      intro limit hlimit
      rcases List.mem_cons.mp hlimit with rfl | hlimit
      · exact hboth.2.trans hstart
      · exact hrest limit hlimit

theorem window_le_maxWindow (rl : RateLimiter) (endpoint : String) :
    (rl.limit endpoint).window ≤ rl.maxWindow := by
  obtain ⟨hdefault, hlimits⟩ := foldl_window_le rl.limits.entries rl.defaultLimit.window
  unfold limit
  cases hlimit : rl.limits.lookup endpoint with
  | none => exact hdefault
  | some limit => exact hlimits ⟨endpoint, limit⟩ (List.of_mem_dlookup hlimit)

/-- Limits that can be kept, with windows that can be doubled. -/
structure Limited (rl : RateLimiter) : Prop where
  requests : ∀ endpoint, 0 ≤ (rl.limit endpoint).requests
  window : ∀ endpoint, 0 < (rl.limit endpoint).window
  fits : rl.maxWindow * 2 ≤ 2 ^ 63

theorem Limited.reach_eq (hlimited : Limited rl) : rl.reach = -rl.maxWindow * 2 := by
  have hfits := hlimited.fits
  have hpos := (hlimited.window "").trans_le (window_le_maxWindow rl "")
  unfold reach
  apply Int.bmod_eq_of_le <;> omega

/-- A tick keeps the counters of running windows. -/
theorem Limited.counter_cleanup (hlimited : Limited rl) {counter : RateCounter}
    (hcounter : rl.counter clientID endpoint = some counter)
    (hrunning : now - counter.windowFrom < (rl.limit endpoint).window) :
    (rl.cleanup now).counter clientID endpoint = some counter := by
  have hwindow := window_le_maxWindow rl endpoint
  have hpos := hlimited.window endpoint
  rw [RateLimiter.counter_cleanup, hcounter, hlimited.reach_eq]
  apply Option.filter_some_pos
  simp only [Bool.not_eq_true', decide_eq_false_iff_not]
  omega

/-! ## Runs -/

inductive Event where
  | request (clientID endpoint : String) (now : Int)
  | cleanup (now : Int)

def Event.time : Event → Int
  | .request _ _ now => now
  | .cleanup now => now

/-- A request and whether it was allowed. -/
structure Answer where
  clientID : String
  endpoint : String
  now : Int
  allowed : Bool
deriving DecidableEq, Repr

def answers (rl : RateLimiter) : List Event → List Answer
  | [] => []
  | .request clientID endpoint now :: rest =>
      let (next, allowed) := rl.allowRequest clientID endpoint now
      ⟨clientID, endpoint, now, allowed⟩ :: answers next rest
  | .cleanup now :: rest => answers (rl.cleanup now) rest

def after (rl : RateLimiter) : List Event → RateLimiter
  | [] => rl
  | .request clientID endpoint now :: rest => after (rl.allowRequest clientID endpoint now).1 rest
  | .cleanup now :: rest => after (rl.cleanup now) rest

/-- What is fixed: the limits. -/
def Fixed (rl next : RateLimiter) : Prop :=
  next.limits = rl.limits ∧ next.defaultLimit = rl.defaultLimit

theorem fixed_allowRequest (rl : RateLimiter) (clientID endpoint : String) (now : Int) :
    Fixed rl (rl.allowRequest clientID endpoint now).1 := by
  rw [allowRequest_eq]
  split <;> exact ⟨rfl, rfl⟩

theorem Fixed.limit {next : RateLimiter} (hfixed : Fixed rl next) (endpoint : String) :
    next.limit endpoint = rl.limit endpoint := by
  rw [RateLimiter.limit, RateLimiter.limit, hfixed.1, hfixed.2]

theorem fixed_after (rl : RateLimiter) (events : List Event) : Fixed rl (rl.after events) := by
  induction events generalizing rl with
  | nil => exact ⟨rfl, rfl⟩
  | cons event rest ih =>
      cases event with
      | request clientID endpoint now =>
          have hfirst := fixed_allowRequest rl clientID endpoint now
          have hrest := ih (rl.allowRequest clientID endpoint now).1
          exact ⟨hrest.1.trans hfirst.1, hrest.2.trans hfirst.2⟩
      | cleanup now => exact ih (rl.cleanup now)

theorem Limited.of_fixed {next : RateLimiter} (hlimited : Limited rl) (hfixed : Fixed rl next) :
    Limited next where
  requests endpoint := by
    rw [hfixed.limit]
    exact hlimited.requests endpoint
  window endpoint := by
    rw [hfixed.limit]
    exact hlimited.window endpoint
  fits := by
    rw [maxWindow, hfixed.1, hfixed.2]
    exact hlimited.fits

/-- The window that a counter stands for, and what it counted. -/
def RateCounter.pair (counter : RateCounter) : Int × Int := (counter.windowFrom, counter.count)

section Tracking

variable {length bound : Int} {grants : List Grant}

section

variable (hlimited : Limited rl) (hlength : (rl.limit endpoint).window = length)

include hlimited hlength

theorem tracks_current
    (htracks : Tracks length bound ((rl.counter clientID endpoint).map RateCounter.pair) now grants) :
    Tracks length bound (some (RateCounter.pair (rl.current clientID endpoint now))) now grants ∧
      now < (rl.current clientID endpoint now).windowFrom + length := by
  have hpos := hlimited.window endpoint
  rw [hlength] at hpos
  unfold current
  rw [hlength]
  cases hcounter : rl.counter clientID endpoint with
  | none =>
      rw [hcounter] at htracks
      simp only [Option.getD_none, sub_self, if_neg (not_le.mpr hpos)]
      exact ⟨htracks.restart hpos, by omega⟩
  | some counter =>
      rw [hcounter] at htracks
      simp only [Option.getD_some]
      split
      next hover =>
        have hforget : Tracks length bound none now grants :=
          Tracks.forget hpos htracks (by omega)
        exact ⟨hforget.restart hpos, lt_add_of_pos_right now hpos⟩
      next hrunning => exact ⟨htracks, by omega⟩

theorem tracks_allowRequest (hbound : (rl.limit endpoint).requests = bound)
    (htracks : Tracks length bound ((rl.counter clientID endpoint).map RateCounter.pair) now grants) :
    Tracks length bound
      (((rl.allowRequest clientID endpoint now).1.counter clientID endpoint).map RateCounter.pair)
      now (if (rl.allowRequest clientID endpoint now).2 then
        grants ++ [⟨(rl.current clientID endpoint now).windowFrom, now⟩] else grants) := by
  obtain ⟨hcurrent, hrunning⟩ := tracks_current hlimited hlength htracks
  rw [allowRequest_eq, hbound]
  split
  next hfull =>
    rw [counter_put, if_pos ⟨rfl, rfl⟩]
    exact hcurrent
  next hroom =>
    rw [counter_put, if_pos ⟨rfl, rfl⟩]
    exact hcurrent.grant hrunning (by omega)

theorem tracks_cleanup
    (htracks : Tracks length bound ((rl.counter clientID endpoint).map RateCounter.pair) now grants) :
    Tracks length bound (((rl.cleanup now).counter clientID endpoint).map RateCounter.pair) now
      grants := by
  have hpos := hlimited.window endpoint
  have hwindow := window_le_maxWindow rl endpoint
  rw [counter_cleanup, hlimited.reach_eq]
  cases hcounter : rl.counter clientID endpoint with
  | none =>
      rw [hcounter] at htracks
      exact htracks
  | some counter =>
      rw [hcounter] at htracks
      by_cases hold : counter.windowFrom < now + -rl.maxWindow * 2
      · rw [Option.filter_some_neg (by simpa using hold)]
        exact Tracks.forget (by omega) htracks (by omega)
      · rw [Option.filter_some_pos (by simpa using hold)]
        exact htracks

/-- The grants of a run from some state on are spaced as the ones before it. -/
theorem exists_grants (hbound : (rl.limit endpoint).requests = bound)
    (htracks : Tracks length bound ((rl.counter clientID endpoint).map RateCounter.pair) now grants)
    {events : List Event} (hlater : ∀ event ∈ events, now ≤ event.time)
    (hordered : events.Pairwise fun event later => event.time ≤ later.time) :
    ∃ more : List Grant, Spaced length bound (grants ++ more) ∧
      more.map Grant.time = ((answers rl events).filter fun answer =>
        answer.clientID = clientID ∧ answer.endpoint = endpoint ∧ answer.allowed = true).map
          Answer.now := by
  induction events generalizing rl now grants with
  | nil => exact ⟨[], by rw [List.append_nil]; exact htracks.spaced, rfl⟩
  | cons event rest ih =>
      obtain ⟨hfirst, hrest⟩ := List.pairwise_cons.mp hordered
      have hnow := hlater event List.mem_cons_self
      cases event with
      | request other path time =>
          have htracks := @Tracks.later _ _ _ _ _ htracks time hnow
          have hfixed := fixed_allowRequest rl other path time
          have hnext := hlimited.of_fixed hfixed
          simp only [answers]
          by_cases hsame : other = clientID ∧ path = endpoint
          · obtain ⟨rfl, rfl⟩ := hsame
            have hstep := tracks_allowRequest hlimited hlength hbound htracks
            obtain ⟨more, hspaced, hmore⟩ := ih hnext (by rw [hfixed.limit, hlength])
              (by rw [hfixed.limit, hbound]) hstep hfirst hrest
            cases hallowed : (rl.allowRequest other path time).2 with
            | true =>
                rw [hallowed, if_pos rfl, List.append_assoc] at hspaced
                exact ⟨_, hspaced, by simp [hmore]⟩
            | false =>
                rw [hallowed, if_neg Bool.false_ne_true] at hspaced
                exact ⟨_, hspaced, by simp [hmore]⟩
          · have hkept : (rl.allowRequest other path time).1.counter clientID endpoint =
                rl.counter clientID endpoint := by
              have hne : ¬ (clientID = other ∧ endpoint = path) := by
                rintro ⟨rfl, rfl⟩
                exact hsame ⟨rfl, rfl⟩
              rw [allowRequest_eq]
              split <;> rw [counter_put, if_neg hne]
            rw [← hkept] at htracks
            obtain ⟨more, hspaced, hmore⟩ := ih hnext (by rw [hfixed.limit, hlength])
              (by rw [hfixed.limit, hbound]) htracks hfirst hrest
            refine ⟨more, hspaced, ?_⟩
            rw [List.filter_cons_of_neg, hmore]
            simp only [decide_eq_true_eq]
            exact fun hall => hsame ⟨hall.1, hall.2.1⟩
      | cleanup time =>
          have htracks := @Tracks.later _ _ _ _ _ htracks time hnow
          have hfixed : Fixed rl (rl.cleanup time) := ⟨rfl, rfl⟩
          exact ih (hlimited.of_fixed hfixed) hlength hbound
            (tracks_cleanup hlimited hlength htracks) hfirst hrest

end

end Tracking

/-- A limiter that has counted nothing yet. -/
def Fresh (rl : RateLimiter) : Prop := rl.requests = ∅

/-- An interval that is shorter than the window of an endpoint sees twice its requests of a client
at most. -/
theorem countP_allowed_le (hlimited : Limited rl) (hfresh : Fresh rl) {events : List Event}
    (hordered : events.Pairwise fun event later => event.time ≤ later.time) (clientID : String)
    {endpoint : String} {a b : Int} (hshort : b - a < (rl.limit endpoint).window) :
    (((answers rl events).countP fun answer => answer.clientID = clientID ∧
      answer.endpoint = endpoint ∧ answer.allowed = true ∧ a ≤ answer.now ∧ answer.now ≤ b :
        Nat) : Int) ≤ 2 * (rl.limit endpoint).requests := by
  have hnone : rl.counter clientID endpoint = none := by
    simp [counter, show rl.requests = ∅ from hfresh]
  obtain ⟨now, hlater⟩ := exists_earliest hordered
  have htracks : Tracks (rl.limit endpoint).window (rl.limit endpoint).requests
      ((rl.counter clientID endpoint).map RateCounter.pair) now [] := by
    rw [hnone]
    exact tracks_nil (hlimited.requests endpoint) now
  obtain ⟨more, hspaced, hmore⟩ := exists_grants hlimited rfl rfl htracks hlater hordered
  have hcount := hspaced.countP_le hshort
  have hsame : ((answers rl events).countP fun answer => answer.clientID = clientID ∧
      answer.endpoint = endpoint ∧ answer.allowed = true ∧ a ≤ answer.now ∧ answer.now ≤ b) =
      (more.map Grant.time).countP fun time => a ≤ time && time ≤ b := by
    rw [hmore, List.countP_map, List.countP_filter]
    congr 1
    funext answer
    simp only [Function.comp_apply, Bool.decide_and]
    cases decide (answer.clientID = clientID) <;> cases decide (answer.endpoint = endpoint) <;>
      cases decide (answer.allowed = true) <;> simp
  rw [hsame, List.countP_map]
  exact hcount

/-! ## Other clients -/

/-- What a client was answered. -/
def answersOf (clientID : String) (answers : List Answer) : List Answer :=
  answers.filter fun answer => answer.clientID = clientID

/-- A run without the requests of other clients. -/
def alone (clientID : String) (events : List Event) : List Event :=
  events.filter fun event => match event with
    | .request other _ _ => decide (other = clientID)
    | .cleanup _ => true

/-- The same limits, and the same counters of one client. -/
structure SameFor (clientID : String) (rl other : RateLimiter) : Prop where
  fixed : Fixed rl other
  counter : ∀ endpoint, other.counter clientID endpoint = rl.counter clientID endpoint

namespace SameFor

variable {other : RateLimiter}

section

variable (hsame : SameFor clientID rl other)

include hsame

theorem current (endpoint : String) (now : Int) :
    other.current clientID endpoint now = rl.current clientID endpoint now := by
  rw [RateLimiter.current, RateLimiter.current, hsame.counter, hsame.fixed.limit]

/-- A request of the client. -/
theorem allowRequest (endpoint : String) (now : Int) :
    (other.allowRequest clientID endpoint now).2 = (rl.allowRequest clientID endpoint now).2 ∧
      SameFor clientID (rl.allowRequest clientID endpoint now).1
        (other.allowRequest clientID endpoint now).1 := by
  rw [allowRequest_eq, allowRequest_eq, hsame.current, hsame.fixed.limit]
  split
  · refine ⟨rfl, hsame.fixed, ?_⟩
    intro path
    rw [counter_put, counter_put, hsame.counter]
  · refine ⟨rfl, hsame.fixed, ?_⟩
    intro path
    rw [counter_put, counter_put, hsame.counter]

/-- A request of another client, on one side. -/
theorem allowOther {another : String} (hanother : another ≠ clientID) (endpoint : String)
    (now : Int) :
    SameFor clientID (rl.allowRequest another endpoint now).1 other := by
  have hfixed := fixed_allowRequest rl another endpoint now
  refine ⟨⟨hsame.fixed.1.trans hfixed.1.symm, hsame.fixed.2.trans hfixed.2.symm⟩, ?_⟩
  intro path
  have hne : ¬ (clientID = another ∧ path = endpoint) := fun hboth => hanother hboth.1.symm
  rw [hsame.counter, allowRequest_eq]
  split <;> rw [counter_put, if_neg hne]

theorem cleanup (now : Int) :
    SameFor clientID (rl.cleanup now) (other.cleanup now) := by
  refine ⟨hsame.fixed, ?_⟩
  intro path
  have hreach : other.reach = rl.reach := by
    rw [reach, reach, maxWindow, maxWindow, hsame.fixed.1, hsame.fixed.2]
  rw [counter_cleanup, counter_cleanup, hsame.counter, hreach]

end

end SameFor

/-- What a client is answered does not depend on the requests of other clients. -/
theorem answersOf_alone {other : RateLimiter} (hsame : SameFor clientID rl other)
    (events : List Event) :
    answersOf clientID (answers rl events) =
      answersOf clientID (answers other (alone clientID events)) := by
  induction events generalizing rl other with
  | nil => rfl
  | cons event rest ih =>
      cases event with
      | request another endpoint now =>
          by_cases hanother : another = clientID
          · subst hanother
            obtain ⟨hallowed, hnext⟩ := hsame.allowRequest endpoint now
            have hkeep : alone another (.request another endpoint now :: rest) =
                .request another endpoint now :: alone another rest := by
              simp [alone]
            rw [hkeep]
            simp only [answers, answersOf, List.filter_cons, decide_true, if_true, hallowed]
            exact congrArg _ (ih hnext)
          · have hdrop : alone clientID (.request another endpoint now :: rest) =
                alone clientID rest := by
              simp [alone, hanother]
            rw [hdrop, ← ih (hsame.allowOther hanother endpoint now)]
            simp [answers, answersOf, hanother]
      | cleanup now => exact ih (hsame.cleanup now)

end RateLimiter

end Vectron.Auth
