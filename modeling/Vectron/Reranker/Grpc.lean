import Vectron.Foundation.Memo
import Vectron.Reranker.Strategy

/-! # The reranking server and its cache

`GrpcServer.Rerank` and `InvalidateCache` of `reranker/internal/grpc.go`. Both backends of the
cache hold what was set last under a key until it expires, is evicted or invalidated, which may
happen at any time. Counts of results stay below 2^31: `TopN` is an integer.
-/

namespace Vectron.Reranker

open Foundation

variable {F : Type}

structure RerankRequest (F : Type) where
  query : Text
  candidates : List (Candidate F)
  topN : Int
  options : StringMap

structure RerankResponse (F : Type) where
  results : List (ScoredCandidate F)
  strategyUsed : String
  fromCache : Bool
  latencyMs : Nat

inductive Code where
  | invalidArgument
  | internal
deriving DecidableEq

structure Status where
  code : Code
  message : String
deriving DecidableEq

/-- The server with its strategy; the rest stands for the test of a score and for library
code. -/
structure GrpcServer (F : Type) where
  strategy : Strategy F
  isFinite : F → Bool
  unicode : Unicode
  sha256 : List UInt8 → List UInt8

abbrev Cache (F : Type) := GoMap Text (RerankOutput F)

namespace GrpcServer

variable (server : GrpcServer F)

/-- The request in the internal format. -/
def input (req : RerankRequest F) : RerankInput F where
  query := req.query
  candidates := req.candidates.map fun c =>
    { c with vector := if server.strategy.needsCandidateVectors then c.vector else [] }
  topN := req.topN
  options := req.options

/-- `buildResponse`. -/
def buildResponse (output : RerankOutput F) (fromCache : Bool) (totalLatency : Nat) :
    RerankResponse F :=
  ⟨output.results, server.strategy.name, fromCache, totalLatency⟩

/-- What `Rerank` does with a valid input: the answer, and the cache after it. -/
def serve (cache : Option (Cache F)) (key : Text) (input : RerankInput F) (elapsed : Nat) :
    Except Status (RerankResponse F) × Option (Cache F) :=
  match cache.bind fun cache => cache.lookup key with
  | some cached => (.ok (server.buildResponse cached true elapsed), cache)
  | none =>
      match server.strategy.rerank input with
      | .error err => (.error ⟨.internal, "reranking failed: " ++ err⟩, cache)
      | .ok none => (.error ⟨.internal, "reranking failed: empty output"⟩, cache)
      | .ok (some output) =>
          (.ok (server.buildResponse output false elapsed),
            cache.map fun cache => cache.insert key output)

/-- `Rerank`, with a cache or without. -/
def rerank (cache : Option (Cache F)) (req : RerankRequest F) (elapsed : Nat) :
    Except Status (RerankResponse F) × Option (Cache F) :=
  match validateRerankInput server.isFinite (server.input req) with
  | .error err => (.error ⟨.invalidArgument, "invalid input: " ++ err.error⟩, cache)
  | .ok input =>
      let key := cacheKeyWithOptions server.unicode server.sha256 req.query
        (req.candidates.map Candidate.id) req.options
      server.serve cache key input elapsed

/-- `InvalidateCache`: the number of cleared entries and the cache after it. -/
def invalidateCache (cache : Option (Cache F)) (query : Text) (candidateIDs : List Text) :
    Nat × Option (Cache F) :=
  match cache with
  | none => (0, none)
  | some cache =>
      if query ≠ [] ∧ 0 < candidateIDs.length then
        (1, some (cache.erase (cacheKey server.sha256 query candidateIDs)))
      else (cache.keys.length, some ∅)

/-! ## Sequences of calls -/

/-- An entry is named by the data that its key hashes. -/
inductive Event (F : Type) where
  | rerank (req : RerankRequest F) (elapsed : Nat)
  | invalidateCache (query : Text) (candidateIDs : List Text)
  | evict (data : Text)

/-- The key of what is hashed. -/
def hashed (data : Text) : Text := encodeToString (server.sha256 (utf8 data))

def step (cache : Cache F) : Event F → Cache F
  | .rerank req elapsed => ((server.rerank (some cache) req elapsed).2).getD ∅
  | .invalidateCache query candidateIDs =>
      ((server.invalidateCache (some cache) query candidateIDs).2).getD ∅
  | .evict data => cache.erase (server.hashed data)

/-- The cache after some events, from an empty one. -/
def run (events : List (Event F)) : Cache F := events.foldl server.step ∅

/-- What the strategy returns for a request. -/
def results (req : RerankRequest F) : Except Status (List (ScoredCandidate F)) :=
  (server.rerank none req 0).1.map RerankResponse.results

/-- The strategy returns as many results as it is asked for, as far as there are candidates. -/
def Counts : Prop :=
  ∀ input output, server.strategy.rerank input = .ok (some output) →
    output.results.length = min input.topN.toNat input.candidates.length

/-- The cache cannot be seen in the results. -/
structure Transparent (events : List (Event F)) : Prop where
  results {before req elapsed after} : events = before ++ .rerank req elapsed :: after →
    (server.rerank (some (server.run before)) req elapsed).1.map RerankResponse.results =
      server.results req
  count {before req elapsed after response} : server.Counts →
    events = before ++ .rerank req elapsed :: after →
    (server.rerank (some (server.run before)) req elapsed).1 = .ok response →
    response.results.length = min req.topN.toNat req.candidates.length

/-- What is hashed for an input. -/
def inputData (input : RerankInput F) : Text :=
  keyData (keyQuery server.unicode input.query input.options) (input.candidates.map Candidate.id)

/-- What an event does to the table of answers; a rejected request does nothing. -/
def use? : Event F → Option (Memo.Use (RerankInput F) Text)
  | .rerank req _ => (validateRerankInput server.isFinite (server.input req)).toOption.map .ask
  | .invalidateCache query candidateIDs =>
      if query ≠ [] ∧ 0 < candidateIDs.length then some (.drop (keyData query candidateIDs))
      else some .clear
  | .evict data => some (.drop data)

/-- An accepted request that finds an entry asks for the same reranking as the request that
filled it: the same query, options, `TopN` and candidates in the same order. -/
def Unambiguous (events : List (Event F)) : Prop :=
  Memo.Matched server.inputData (events.filterMap server.use?)

/-! ## The server's cache is a table of answers -/

/-- The strategy as the table sees it. -/
def value (input : RerankInput F) : Option (RerankOutput F) :=
  (server.strategy.rerank input).toOption.join

/-- The table of answers that the cache is. -/
def table (events : List (Event F)) : GoMap Text (RerankOutput F) :=
  Memo.run (fun input => server.hashed (server.inputData input)) server.value
    ((events.filterMap server.use?).map (Memo.Use.rename server.hashed))

section Laws

variable {server} {req : RerankRequest F} {events : List (Event F)}

theorem rerank_of_ok (cache : Option (Cache F)) (elapsed : Nat) {input : RerankInput F}
    (hok : validateRerankInput server.isFinite (server.input req) = .ok input) :
    server.rerank cache req elapsed =
      server.serve cache (server.hashed (server.inputData input)) input elapsed := by
  have hinput := (validateRerankInput_eq_ok_iff.mp hok).2
  have hids : input.candidates.map Candidate.id = req.candidates.map Candidate.id := by
    simp [hinput, RerankInput.adjust, GrpcServer.input, Function.comp_def]
  have hkey : cacheKeyWithOptions server.unicode server.sha256 req.query
      (req.candidates.map Candidate.id) req.options = server.hashed (server.inputData input) := by
    rw [cacheKeyWithOptions, cacheKey, hashed, inputData, hids, hinput]
    rfl
  simp only [rerank, hok, hkey]

theorem serve_cache (cache : Cache F) (input : RerankInput F) (elapsed : Nat) :
    (server.serve (some cache) (server.hashed (server.inputData input)) input elapsed).2 =
      some (Memo.use (fun input => server.hashed (server.inputData input)) server.value cache
        (.ask input)) := by
  simp only [serve, Option.bind_some, Memo.use, value]
  cases cache.lookup (server.hashed (server.inputData input)) with
  | some cached => rfl
  | none =>
      cases server.strategy.rerank input with
      | error err => rfl
      | ok output => cases output <;> rfl

/-- The cache is the table. -/
theorem run_eq_table (events : List (Event F)) : server.run events = server.table events := by
  induction events using List.reverseRecOn with
  | nil => rfl
  | append_singleton events last ih =>
      have hrun : server.run (events ++ [last]) = server.step (server.run events) last := by
        simp [run]
      have htable : ∀ use, server.use? last = some use →
          server.table (events ++ [last]) =
            Memo.use (fun input => server.hashed (server.inputData input)) server.value
              (server.table events) (use.rename server.hashed) := by
        intro use huse
        simp [table, List.filterMap_append, huse, Memo.run_concat]
      rw [hrun, ih]
      cases last with
      | rerank req elapsed =>
          cases hok : validateRerankInput server.isFinite (server.input req) with
          | error err =>
              have hnone : server.use? (.rerank req elapsed) = none := by
                simp [use?, hok, Except.toOption]
              simp [step, rerank, hok, table, List.filterMap_append, hnone]
          | ok input =>
              have huse : server.use? (.rerank req elapsed) = some (.ask input) := by
                simp [use?, hok, Except.toOption]
              rw [htable _ huse, step, rerank_of_ok _ _ hok, serve_cache]
              rfl
      | invalidateCache query candidateIDs =>
          by_cases hkey : query ≠ [] ∧ 0 < candidateIDs.length
          · rw [htable (.drop (keyData query candidateIDs)) (by rw [use?, if_pos hkey])]
            rw [step, invalidateCache, if_pos hkey]
            rfl
          · rw [htable .clear (by rw [use?, if_neg hkey]), step, invalidateCache, if_neg hkey]
            rfl
      | evict data =>
          rw [htable (.drop data) rfl]
          rfl

theorem filterMap_use?_eq_iff {before after : List (Memo.Use (RerankInput F) Text)}
    {input : RerankInput F} (huses : events.filterMap server.use? = before ++ .ask input :: after) :
    ∃ front req elapsed rest, events = front ++ .rerank req elapsed :: rest ∧
      front.filterMap server.use? = before ∧
      validateRerankInput server.isFinite (server.input req) = .ok input := by
  obtain ⟨front, back, rfl, hfront, hback⟩ := List.filterMap_eq_append_iff.mp huses
  obtain ⟨skipped, event, rest, rfl, hskipped, hevent, -⟩ := List.filterMap_eq_cons_iff.mp hback
  cases event with
  | rerank req elapsed =>
      refine ⟨front ++ skipped, req, elapsed, rest, by simp, ?_, ?_⟩
      · rw [List.filterMap_append, hfront, List.filterMap_eq_nil_iff.mpr hskipped, List.append_nil]
      · rw [use?] at hevent
        cases hok : validateRerankInput server.isFinite (server.input req) with
        | error err => simp [hok, Except.toOption] at hevent
        | ok accepted => simpa [hok, Except.toOption] using hevent
  | invalidateCache query candidateIDs =>
      rw [use?] at hevent
      split at hevent <;> simp at hevent
  | evict data => simp [use?] at hevent

/-- The results of a valid input, in terms of the table. -/
theorem serve_results_iff (cache : Cache F) (input : RerankInput F) (elapsed other : Nat) :
    (server.serve (some cache) (server.hashed (server.inputData input)) input elapsed).1.map
          RerankResponse.results =
        (server.serve none (server.hashed (server.inputData input)) input other).1.map
          RerankResponse.results ↔
      (Memo.answer (fun input => server.hashed (server.inputData input)) server.value cache
          input).map RerankOutput.results = (server.value input).map RerankOutput.results := by
  simp only [serve, Option.bind_some, Option.bind_none, Memo.answer, value]
  cases cache.lookup (server.hashed (server.inputData input)) with
  | some cached
  | none =>
      cases server.strategy.rerank input with
      | error err => simp [Except.map, Except.toOption]
      | ok output => cases output <;> simp [Except.map, Except.toOption, buildResponse]

theorem hashed_injective (hsha : Function.Injective server.sha256) :
    Function.Injective server.hashed :=
  encodeToString_injective.comp (hsha.comp utf8_injective)

/-- Requests that match keep the cache out of sight, whatever the strategy computes. -/
theorem transparent_of_unambiguous (hsha : Function.Injective server.sha256)
    (hevents : server.Unambiguous events) : server.Transparent events := by
  have hresults : ∀ {before req elapsed after},
      events = before ++ .rerank req elapsed :: after →
      (server.rerank (some (server.run before)) req elapsed).1.map RerankResponse.results =
        server.results req := by
    rintro before req elapsed after rfl
    cases hok : validateRerankInput server.isFinite (server.input req) with
    | error err => simp [results, rerank, hok, Except.map]
    | ok input =>
        have huse : server.use? (.rerank req elapsed) = some (.ask input) := by
          simp [use?, hok, Except.toOption]
        have hmatched := (Memo.matched_rename_iff (hashed_injective hsha)).mpr hevents
        simp only [List.filterMap_append, List.filterMap_cons_some huse, List.map_append,
          List.map_cons, Memo.Use.rename] at hmatched
        rw [results, rerank_of_ok _ _ hok, rerank_of_ok _ _ hok, serve_results_iff, run_eq_table]
        exact hmatched.transparent RerankOutput.results server.value _ _ _ rfl
  refine ⟨hresults, ?_⟩
  intro before req elapsed after response hcounts heq hresponse
  have hown := hresults heq
  rw [hresponse, results] at hown
  cases hok : validateRerankInput server.isFinite (server.input req) with
  | error err => simp [rerank, hok, Except.map] at hown
  | ok input =>
      have hinput := (validateRerankInput_eq_ok_iff.mp hok).2
      rw [rerank_of_ok _ _ hok] at hown
      simp only [serve, Option.bind_none] at hown
      cases hstrategy : server.strategy.rerank input with
      | error err => simp [hstrategy, Except.map] at hown
      | ok output =>
          cases output with
          | none => simp [hstrategy, Except.map] at hown
          | some output =>
              have hlength := hcounts input output hstrategy
              have hcandidates : input.candidates.length = req.candidates.length := by
                simp [hinput, RerankInput.adjust, GrpcServer.input]
              have htop : input.topN = min req.topN req.candidates.length := by
                simp [hinput, RerankInput.adjust, GrpcServer.input]
              simp only [hstrategy, Except.map, buildResponse, Except.ok.injEq] at hown
              rw [hown, hlength, htop, hcandidates]
              omega

end Laws

/-- The server with another strategy under the same name. -/
def withRerank (rerank : RerankInput F → Except String (Option (RerankOutput F))) :
    GrpcServer F :=
  { server with strategy := { server.strategy with rerank := rerank } }

/-- The cache is out of sight for every strategy exactly when each accepted request that finds
an entry asks for the reranking that the entry was computed for. -/
theorem transparent_iff [Inhabited F] (hsha : Function.Injective server.sha256)
    (events : List (Event F)) :
    (∀ rerank, (server.withRerank rerank).Transparent events) ↔ server.Unambiguous events := by
  constructor
  · intro hall
    -- outputs that differ in their results
    let shown : RerankOutput F := ⟨[⟨[], default, default, ""⟩], 0, []⟩
    have hview : RerankOutput.results shown ≠ RerankOutput.results ⟨[], 0, []⟩ := by simp [shown]
    apply (Memo.matched_rename_iff (hashed_injective hsha)).mp
    apply Memo.matched_of_transparent hview
    intro f before input after huses
    obtain ⟨front, back, hsplit, rfl, hback⟩ := List.map_eq_append_iff.mp huses
    obtain ⟨use, rest, rfl, huse, -⟩ := List.map_eq_cons_iff.mp hback
    have huse : use = .ask input := by cases use <;> simp_all [Memo.Use.rename]
    subst huse
    obtain ⟨before, req, elapsed, after, hevents, rfl, hok⟩ := filterMap_use?_eq_iff hsplit
    let other := server.withRerank fun input => .ok (f input)
    have hvalue : other.value = f := by
      funext input
      simp [value, other, withRerank, Except.toOption]
    have h := (hall fun input => .ok (f input)).results hevents
    rw [results, @rerank_of_ok _ other _ _ _ _ hok, @rerank_of_ok _ other _ _ _ _ hok,
      serve_results_iff, run_eq_table, hvalue] at h
    rwa [table, hvalue] at h
  · intro hevents rerank
    exact transparent_of_unambiguous hsha hevents

end GrpcServer

/-! ## The stub strategy -/

/-- `StubStrategy` of `cmd/reranker`: the candidates in their order. -/
def stubStrategy (name : String) : Strategy F where
  name := name
  needsCandidateVectors := true
  rerank req :=
    let results := req.candidates.map fun c =>
      ⟨c.id, c.score, c.score, "stub implementation - no reranking applied"⟩
    .ok (some ⟨if req.topN < results.length then results.take req.topN.toNat else results, 0,
      [("strategy", name)]⟩)

def stubServer : GrpcServer Rat := ⟨stubStrategy "llm-stub", fun _ => true, .ascii, id⟩

theorem stubServer_counts : stubServer.Counts := by
  rintro input output hok
  obtain rfl := Option.some.inj (Except.ok.inj hok)
  dsimp only
  split
  next htop => simp
  next htop =>
    rw [List.length_map] at htop ⊢
    omega

/-- Both candidates are wanted, and one was cached. -/
def firstOfTwo (topN : Int) : RerankRequest Rat where
  query := "go".toList
  candidates := [⟨"a".toList, 0, [], ∅⟩, ⟨"b".toList, 1, [], ∅⟩]
  topN := topN
  options := ∅

theorem one_result_served_for_two : Function.Injective stubServer.sha256 ∧ stubServer.Counts ∧
    ¬ stubServer.Transparent [.rerank (firstOfTwo 1) 0, .rerank (firstOfTwo 2) 0] := by
  refine ⟨Function.injective_id, stubServer_counts, ?_⟩
  intro htransparent
  have hevents : [GrpcServer.Event.rerank (firstOfTwo 1) 0, .rerank (firstOfTwo 2) 0] =
      [.rerank (firstOfTwo 1) 0] ++ .rerank (firstOfTwo 2) 0 :: [] := rfl
  have hresults := htransparent.results hevents
  have hdiff : (stubServer.rerank (some (stubServer.run [.rerank (firstOfTwo 1) 0]))
      (firstOfTwo 2) 0).1.map (RerankResponse.results) ≠ stubServer.results (firstOfTwo 2) := by
    decide +kernel
  exact hdiff hresults

theorem transparent_iff_stub :
    (∀ rerank, (stubServer.withRerank rerank).Transparent
        [.rerank (firstOfTwo 2) 0, .evict (stubServer.inputData (stubServer.input (firstOfTwo 2))),
          .rerank (firstOfTwo 1) 0]) ↔
      stubServer.Unambiguous
        [.rerank (firstOfTwo 2) 0, .evict (stubServer.inputData (stubServer.input (firstOfTwo 2))),
          .rerank (firstOfTwo 1) 0] :=
  stubServer.transparent_iff Function.injective_id _

end Vectron.Reranker
