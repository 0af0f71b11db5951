import Vectron.Auth.RateLimiter
import Vectron.Foundation.Reader

/-! # The rate limiter of the gateway

`RateLimitInterceptor` counts the requests of a user in windows of one second, in one of the shards
of a table that a goroutine cleans shard after shard.
-/

namespace Vectron.Gateway

open Foundation

/-! ## Shards -/

def shardCount : Nat := 256

/-- FNV-1a of 32 bits. -/
def sum32 (data : Bytes) : UInt32 :=
  data.foldl (fun hash byte => (hash ^^^ byte.toUInt32) * 16777619) 2166136261

def getShard (userID : Bytes) : Nat := (sum32 userID).toNat % shardCount

/-! ## Requests -/

/-- `limiter`. -/
structure Limiter where
  count : Int
  resetAt : Int
deriving DecidableEq, Repr

abbrev ShardedRateLimiter := Nat → GoMap Bytes Limiter

def second : Int := 1000000000

def benchmarkUser : Bytes := "benchmark-user".toList.map fun c => c.toNat.toUInt8

namespace ShardedRateLimiter

section Operations

variable (rps : Int) (limits : ShardedRateLimiter)

/-- `limits[shard][userID]`. -/
def find (userID : Bytes) : Option Limiter := (limits (getShard userID)).lookup userID

def put (userID : Bytes) (l : Limiter) : ShardedRateLimiter :=
  Function.update limits (getShard userID) ((limits (getShard userID)).insert userID l)

/-- The limiter of a user with the request that comes now. -/
def counted (userID : Bytes) (now : Int) : Limiter :=
  match limits.find userID with
  | none => ⟨1, now + second⟩
  | some l => if l.resetAt < now then ⟨1, now + second⟩ else { l with count := l.count + 1 }

/-- Whether the interceptor of `RateLimitInterceptor` lets a request through to the handler. -/
def intercept (userID : Bytes) (now : Int) : ShardedRateLimiter × Bool :=
  if userID = [] ∨ userID = benchmarkUser then (limits, true)
  else if rps ≤ 0 then (limits, true)
  else
    let l := limits.counted userID now
    (limits.put userID l, !decide (rps < l.count))

/-- `cleanupExpiredLimiters` at one shard. The time is read before the first shard is locked. -/
def cleanShard (shard : Nat) (now : Int) : ShardedRateLimiter :=
  Function.update limits shard (GoMap.eraseWhere
    (fun userID => ((limits shard).lookup userID).any fun l => l.resetAt < now) (limits shard))

end Operations

/-! ## Runs -/

/-- Events with the time at which they happen. -/
inductive Event where
  | request (userID : Bytes) (time : Int)
  | cleanShard (shard : Nat) (now time : Int)

def Event.time : Event → Int
  | .request _ time => time
  | .cleanShard _ _ time => time

/-- A cleanup read its time no later than it cleans. -/
def Event.Valid : Event → Prop
  | .request _ _ => True
  | .cleanShard _ now time => now ≤ time

/-- A request and whether it came through. -/
structure Answer where
  userID : Bytes
  time : Int
  accepted : Bool
deriving DecidableEq, Repr

def answers (rps : Int) (limits : ShardedRateLimiter) : List Event → List Answer
  | [] => []
  | .request userID time :: rest =>
      let (next, accepted) := limits.intercept rps userID time
      ⟨userID, time, accepted⟩ :: answers rps next rest
  | .cleanShard shard now _ :: rest => answers rps (limits.cleanShard shard now) rest

variable {rps : Int} {limits : ShardedRateLimiter} {userID : Bytes} {time : Int}

theorem find_put (limits : ShardedRateLimiter) (userID other : Bytes) (l : Limiter) :
    (limits.put userID l).find other = if other = userID then some l else limits.find other := by
  unfold find put
  by_cases hshard : getShard other = getShard userID
  · rw [hshard, Function.update_self, GoMap.lookup_insert_if]
  · have hother : other ≠ userID := by
      rintro rfl
      exact hshard rfl
    rw [Function.update_of_ne hshard, if_neg hother]

theorem find_cleanShard (limits : ShardedRateLimiter) (shard : Nat) (now : Int) (userID : Bytes) :
    (limits.cleanShard shard now).find userID = limits.find userID ∨
      ((limits.cleanShard shard now).find userID = none ∧
        ∃ l, limits.find userID = some l ∧ l.resetAt < now) := by
  unfold find cleanShard
  by_cases hshard : getShard userID = shard
  · subst hshard
    rw [Function.update_self, GoMap.lookup_eraseWhere]
    cases hlookup : (limits (getShard userID)).lookup userID with
    | none => simp
    | some l =>
        by_cases hexpired : l.resetAt < now
        · right
          exact ⟨by simp [hexpired], l, rfl, hexpired⟩
        · left
          simp [hexpired]
  · rw [Function.update_of_ne hshard]
    exact Or.inl rfl

/-! ## Two windows -/

/-- The window of a limiter, which is over after the second that it is reset at. -/
def window (l : Limiter) : Int × Int := (l.resetAt - second, l.count)

section Tracking

variable {grants : List Grant}

theorem tracks_request (hrps : 1 ≤ rps)
    (htracks : Tracks (second + 1) rps ((limits.find userID).map window) time grants) :
    ∃ start, Tracks (second + 1) rps (some (window (limits.counted userID time))) time
      (if rps < (limits.counted userID time).count then grants
        else grants ++ [⟨start, time⟩]) := by
  have hsecond : (0 : Int) < second + 1 := by decide
  have hnew : Tracks (second + 1) rps none time grants →
      ∃ start, Tracks (second + 1) rps (some (window ⟨1, time + second⟩)) time
        (if rps < (⟨1, time + second⟩ : Limiter).count then grants
          else grants ++ [⟨start, time⟩]) := by
    intro hnone
    have hgrant := (hnone.restart hsecond).grant (by omega) (by omega)
    refine ⟨time, ?_⟩
    rw [if_neg (by simpa using hrps)]
    simpa [window] using hgrant
  unfold counted
  cases hfind : limits.find userID with
  | none =>
      rw [hfind] at htracks
      exact hnew htracks
  | some l =>
      rw [hfind] at htracks
      simp only
      split
      next hover =>
        exact hnew (Tracks.forget hsecond htracks (by omega))
      next hrunning =>
        have hwindow : time < l.resetAt - second + (second + 1) := by omega
        refine ⟨l.resetAt - second, ?_⟩
        split
        next => exact Tracks.refuse htracks (by simp)
        next hroom => exact Tracks.grant htracks hwindow (by simpa using hroom)

theorem tracks_cleanShard {shard : Nat} {now : Int} (hnow : now ≤ time)
    (htracks : Tracks (second + 1) rps ((limits.find userID).map window) time grants) :
    Tracks (second + 1) rps (((limits.cleanShard shard now).find userID).map window) time
      grants := by
  rcases find_cleanShard limits shard now userID with hsame | ⟨hnone, l, hl, hexpired⟩
  · rwa [hsame]
  · rw [hl] at htracks
    rw [hnone]
    exact Tracks.forget (by decide) htracks (by omega)

theorem exists_grants (hrps : 1 ≤ rps) (huser : userID ≠ []) (hbenchmark : userID ≠ benchmarkUser)
    (htracks : Tracks (second + 1) rps ((limits.find userID).map window) time grants)
    {events : List Event} (hvalid : ∀ event ∈ events, event.Valid)
    (hlater : ∀ event ∈ events, time ≤ event.time)
    (hordered : events.Pairwise fun event later => event.time ≤ later.time) :
    ∃ more : List Grant, Spaced (second + 1) rps (grants ++ more) ∧
      more.map Grant.time = ((answers rps limits events).filter fun answer =>
        answer.userID = userID ∧ answer.accepted = true).map Answer.time := by
  induction events generalizing limits time grants with
  | nil => exact ⟨[], by rw [List.append_nil]; exact htracks.spaced, rfl⟩
  | cons event rest ih =>
      obtain ⟨hfirst, hrest⟩ := List.pairwise_cons.mp hordered
      have hnow := hlater event List.mem_cons_self
      have hvalidRest : ∀ event ∈ rest, event.Valid :=
        fun event hevent => hvalid event (List.mem_cons_of_mem _ hevent)
      cases event with
      | request other now =>
          have htracks := @Tracks.later _ _ _ _ _ htracks now hnow
          by_cases hsame : other = userID
          · subst hsame
            obtain ⟨start, hstep⟩ := tracks_request hrps htracks
            have hintercept : limits.intercept rps other now =
                (limits.put other (limits.counted other now),
                  !decide (rps < (limits.counted other now).count)) := by
              rw [intercept, if_neg (by simp [huser, hbenchmark]), if_neg (by omega)]
            have hfind : (limits.put other (limits.counted other now)).find other =
                some (limits.counted other now) := by
              rw [find_put, if_pos rfl]
            rw [← Option.map_some, ← hfind] at hstep
            obtain ⟨more, hspaced, hmore⟩ := ih hstep hvalidRest hfirst hrest
            simp only [answers, hintercept]
            by_cases hexceeded : rps < (limits.counted other now).count
            · rw [if_pos hexceeded] at hspaced
              exact ⟨_, hspaced, by simp [hexceeded, hmore]⟩
            · rw [if_neg hexceeded, List.append_assoc] at hspaced
              exact ⟨_, hspaced, by simp [hexceeded, hmore]⟩
          · have hkept : (limits.intercept rps other now).1.find userID = limits.find userID := by
              unfold intercept
              split
              next => rfl
              next =>
                split
                next => rfl
                next => rw [find_put, if_neg (Ne.symm hsame)]
            rw [← hkept] at htracks
            obtain ⟨more, hspaced, hmore⟩ := ih htracks hvalidRest hfirst hrest
            refine ⟨more, hspaced, ?_⟩
            simp only [answers]
            rw [List.filter_cons_of_neg, hmore]
            simp only [decide_eq_true_eq]
            exact fun hboth => hsame hboth.1
      | cleanShard shard read now =>
          have htracks := @Tracks.later _ _ _ _ _ htracks now hnow
          exact ih (tracks_cleanShard (hvalid _ List.mem_cons_self) htracks) hvalidRest hfirst hrest

end Tracking

/-- An interval of a second sees twice the requests per second of a user at most. -/
theorem countP_accepted_le (hrps : 1 ≤ rps) (huser : userID ≠ [])
    (hbenchmark : userID ≠ benchmarkUser) {events : List Event} (hvalid : ∀ event ∈ events, event.Valid)
    (hordered : events.Pairwise fun event later => event.time ≤ later.time) {a b : Int}
    (hshort : b - a ≤ second) :
    (((answers rps (fun _ => ∅) events).countP fun answer => answer.userID = userID ∧
      answer.accepted = true ∧ a ≤ answer.time ∧ answer.time ≤ b : Nat) : Int) ≤ 2 * rps := by
  obtain ⟨time, hlater⟩ := exists_earliest hordered
  have htracks : Tracks (second + 1) rps
      ((ShardedRateLimiter.find (fun _ => ∅) userID).map window) time [] :=
    tracks_nil (by omega) time
  obtain ⟨more, hspaced, hmore⟩ :=
    exists_grants hrps huser hbenchmark htracks hvalid hlater hordered
  have hcount := @Spaced.countP_le _ _ _ hspaced a b (by omega)
  have hsame : ((answers rps (fun _ => ∅) events).countP fun answer => answer.userID = userID ∧
      answer.accepted = true ∧ a ≤ answer.time ∧ answer.time ≤ b) =
      (more.map Grant.time).countP fun time => a ≤ time && time ≤ b := by
    rw [hmore, List.countP_map, List.countP_filter]
    congr 1
    funext answer
    simp only [Function.comp_apply, Bool.decide_and]
    cases decide (answer.userID = userID) <;> cases decide (answer.accepted = true) <;> simp
  rw [hsame, List.countP_map]
  exact hcount

end ShardedRateLimiter

/-! ## Both limiters -/

/-- Neither limiter grants more than twice its limit in an interval of a window, a cleanup gives
nothing back, and clients do not share a budget. -/
theorem rate_limits {rl : Auth.RateLimiter} (hlimited : rl.Limited) (hfresh : rl.Fresh)
    {events : List Auth.RateLimiter.Event}
    (hordered : events.Pairwise fun event later => event.time ≤ later.time)
    {rps : Int} (hrps : 1 ≤ rps) {requests : List ShardedRateLimiter.Event}
    (hvalid : ∀ event ∈ requests, event.Valid)
    (hinOrder : requests.Pairwise fun event later => event.time ≤ later.time) :
    (∀ (clientID endpoint : String) (a b : Int), b - a < (rl.limit endpoint).window →
      (((Auth.RateLimiter.answers rl events).countP fun answer => answer.clientID = clientID ∧
        answer.endpoint = endpoint ∧ answer.allowed = true ∧ a ≤ answer.now ∧ answer.now ≤ b :
          Nat) : Int) ≤ 2 * (rl.limit endpoint).requests) ∧
      (∀ (clientID endpoint : String) (counter : Auth.RateCounter) (now : Int),
        (rl.after events).counter clientID endpoint = some counter →
          now - counter.windowFrom < (rl.limit endpoint).window →
            ((rl.after events).cleanup now).counter clientID endpoint = some counter) ∧
      (∀ clientID : String,
        Auth.RateLimiter.answersOf clientID (rl.answers events) =
          Auth.RateLimiter.answersOf clientID
            (rl.answers (Auth.RateLimiter.alone clientID events))) ∧
      ∀ userID : Bytes, userID ≠ [] → userID ≠ benchmarkUser → ∀ a b : Int, b - a ≤ second →
        (((ShardedRateLimiter.answers rps (fun _ => ∅) requests).countP fun answer =>
          answer.userID = userID ∧ answer.accepted = true ∧ a ≤ answer.time ∧ answer.time ≤ b :
            Nat) : Int) ≤ 2 * rps := by
  refine ⟨?_, ?_, ?_, ?_⟩
  · intro clientID endpoint a b hshort
    exact Auth.RateLimiter.countP_allowed_le hlimited hfresh hordered clientID hshort
  · intro clientID endpoint counter now hcounter hrunning
    have hfixed := Auth.RateLimiter.fixed_after rl events
    rw [← hfixed.limit] at hrunning
    exact (hlimited.of_fixed hfixed).counter_cleanup hcounter hrunning
  · intro clientID
    exact Auth.RateLimiter.answersOf_alone ⟨⟨rfl, rfl⟩, fun _ => rfl⟩ events
  · intro userID huser hbenchmark a b hshort
    exact ShardedRateLimiter.countP_accepted_le hrps huser hbenchmark hvalid hinOrder hshort

/-- One request a minute, and one a second, with a cleanup that drops what has expired. -/
theorem rate_limits_cleanup :
    let events : List Auth.RateLimiter.Event := [.request "a" "b" 0, .cleanup 200,
      .request "a" "b" 200, .request "a" "b" 201]
    let requests : List ShardedRateLimiter.Event := [.request [97] 0, .request [97] 5,
      .cleanShard (getShard [97]) (3 * second) (3 * second), .request [97] (3 * second)]
    (((Auth.RateLimiter.answers ⟨∅, ∅, ⟨1, 60⟩⟩ events).countP fun answer =>
      answer.clientID = "a" ∧ answer.endpoint = "b" ∧ answer.allowed = true ∧
        150 ≤ answer.now ∧ answer.now ≤ 201 : Nat) : Int) ≤ 2 * 1 ∧
      (((ShardedRateLimiter.answers 1 (fun _ => ∅) requests).countP fun answer =>
        answer.userID = [97] ∧ answer.accepted = true ∧ 0 ≤ answer.time ∧
          answer.time ≤ second : Nat) : Int) ≤ 2 * 1 := by
  intro events requests
  have hlimited : Auth.RateLimiter.Limited ⟨∅, ∅, ⟨1, 60⟩⟩ :=
    ⟨fun _ => Int.one_nonneg, fun _ => Int.ofNat_succ_pos 59, by decide⟩
  obtain ⟨hclients, -, -, husers⟩ := @rate_limits _ hlimited rfl events
    (by simp [events, Auth.RateLimiter.Event.time]) 1 le_rfl requests
    (by simp [requests, ShardedRateLimiter.Event.Valid])
    (by simp [requests, ShardedRateLimiter.Event.time, second])
  exact ⟨hclients "a" "b" 150 201 (by decide),
    husers [97] (by decide) (by decide) 0 second (by decide)⟩

/-- A limit of zero requests per second is none. With a window that cannot be doubled in 64 bits, a
cleanup deletes counters of running windows. -/
theorem limits_exceeded :
    (¬ ∀ (rps : Int) (requests : List ShardedRateLimiter.Event),
      (∀ event ∈ requests, event.Valid) →
      (requests.Pairwise fun event later => event.time ≤ later.time) →
      ∀ userID : Bytes, userID ≠ [] → userID ≠ benchmarkUser → ∀ a b : Int, b - a ≤ second →
        (((ShardedRateLimiter.answers rps (fun _ => ∅) requests).countP fun answer =>
          answer.userID = userID ∧ answer.accepted = true ∧ a ≤ answer.time ∧ answer.time ≤ b :
            Nat) : Int) ≤ 2 * rps) ∧
      ((Auth.RateLimiter.answers ⟨∅, ∅, ⟨1, 2 ^ 63 - 1⟩⟩ [.request "a" "b" 0, .cleanup 1,
        .request "a" "b" 2, .cleanup 3, .request "a" "b" 4]).countP fun answer =>
          answer.allowed = true) = 3 := by
  constructor
  · intro hbound
    have hone := hbound 0 [.request [97] 0] (by simp [ShardedRateLimiter.Event.Valid]) (by simp)
      [97] (by decide) (by decide) 0 0 (by decide)
    exact absurd hone (by decide)
  · decide +kernel

end Vectron.Gateway
