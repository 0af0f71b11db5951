import Vectron.Gateway.Results
import Vectron.Reranker.Grpc
import Vectron.Reranker.Rule

/-! # Reranking in the gateway

The reranking of a search response in `apigateway/cmd/apigateway/main.go`, with the rule-based
reranker behind it. Smaller scores are better in the gateway. The vectors of results are
attached after reranking, and warm-up runs in the background and returns the base results.
-/

namespace Vectron.Gateway

open Foundation Reranker Placement

structure SearchRequest where
  collection : Text
  topK : Nat
  query : Text

structure Config where
  rerankEnabled : Bool
  rerankCollections : Finmap fun _ : Text => Bool
  rerankTopNOverrides : Finmap fun _ : Text => Int
  rerankMode : Text
  rerankWarmup : Bool

/-! ## The order of search results -/

def betterSearchScore (a b : Score) : Bool := a.lt b

/-- The comparison of `sortSearchResults`. -/
def searchLess (a b : SearchResult Score) : Bool :=
  if a.score.eq b.score then decide (a.id < b.id) else betterSearchScore a.score b.score

/-- `trimBaseResults`, on the results as the sort left them. -/
def trimBaseResults (sorted : List (SearchResult Score)) (topK : Nat) : List (SearchResult Score) :=
  if 0 < topK ∧ topK < sorted.length then sorted.take topK else sorted

/-! ## The reranking request -/

def shouldUseReranker (cfg : Config) (req : SearchRequest) : Bool :=
  req.query ≠ [] && cfg.rerankEnabled &&
    (cfg.rerankCollections.keys.card = 0 ||
      (cfg.rerankCollections.lookup req.collection).getD false)

/-- The candidates of `buildRerankCandidates`. -/
def rerankCandidates (results : List (SearchResult Score)) : List (Candidate Score) :=
  results.map fun result => ⟨result.id, result.score, [], result.payload.getD ∅⟩

/-- `metadataByID` of `buildRerankCandidates`. -/
def metadataByID (results : List (SearchResult Score)) : GoMap Text StringMap :=
  results.foldl
    (fun byID result =>
      match result.payload with
      | some metadata => byID.insert result.id metadata
      | none => byID)
    ∅

def rerankTopN (cfg : Config) (req : SearchRequest) (results : List (SearchResult Score)) : Int :=
  let asked : Int :=
    match cfg.rerankTopNOverrides.lookup req.collection with
    | some v => if v > 0 then v else req.topK
    | none => req.topK
  if asked ≤ 0 ∨ asked > results.length then results.length else asked

def rerankRequest (cfg : Config) (req : SearchRequest) (results : List (SearchResult Score)) :
    RerankRequest Score where
  query := req.query
  candidates := rerankCandidates results
  topN := rerankTopN cfg req results
  options := Finmap.singleton "mode".toList cfg.rerankMode

/-- `rerankedSearchResponse`. -/
def rerankedSearchResponse (rerankResp : RerankResponse Score) (byID : GoMap Text StringMap)
    (topK : Nat) : List (SearchResult Score) :=
  let rerankedResults := rerankResp.results.map fun result =>
    ⟨result.id, result.rerankScore, byID.lookup result.id⟩
  if 0 < topK ∧ topK < rerankedResults.length then rerankedResults.take topK else rerankedResults

/-- `rerankSearchResponse`; `sorted` is what the sort of the base results leaves, and `call`
the reranker, without an answer when it fails or is late. -/
def rerankSearchResponse (cfg : Config) (req : SearchRequest)
    (results sorted : List (SearchResult Score))
    (call : RerankRequest Score → Option (RerankResponse Score)) : List (SearchResult Score) :=
  if !shouldUseReranker cfg req then trimBaseResults sorted req.topK
  else if cfg.rerankWarmup then trimBaseResults sorted req.topK
  else
    match call (rerankRequest cfg req results) with
    | none => trimBaseResults sorted req.topK
    | some rerankResp => rerankedSearchResponse rerankResp (metadataByID results) req.topK

/-! ## The rule-based reranker behind the gateway -/

section Reranked

variable (lib : Rule.Library) (config : Rule.Config) (now : Nat → Int)

/-- A reranker that misses its cache, with the order in which its sort leaves the positions. -/
def ruleServer (order : List Nat) : GrpcServer Score where
  strategy :=
    ⟨"rule-based", false, fun input => .ok (some (Rule.rerank lib config now order input))⟩
  isFinite := Option.isSome
  unicode := lib.unicode
  sha256 := id

def callReranker (order : List Nat) (req : RerankRequest Score) : Option (RerankResponse Score) :=
  ((ruleServer lib config now order).rerank none req 0).1.toOption

/-- The reranker's validation passes. -/
structure Accepted (results : List (SearchResult Score)) : Prop where
  nonempty : results ≠ []
  ids : ∀ result ∈ results, trimSpace result.id ≠ []
  scores : ∀ result ∈ results, result.score.isSome

/-- The request goes to the reranker, which accepts it and sorts the candidates so. -/
structure Reranks (cfg : Config) (req : SearchRequest) (results : List (SearchResult Score))
    (order : List Nat) : Prop where
  used : shouldUseReranker cfg req = true
  direct : cfg.rerankWarmup = false
  accepted : Accepted results
  ranked : Rule.Ranked lib config now req.query (rerankCandidates results) order

/-- The response of the gateway. -/
def response (cfg : Config) (req : SearchRequest) (results sorted : List (SearchResult Score))
    (order : List Nat) : List (SearchResult Score) :=
  rerankSearchResponse cfg req results sorted (callReranker lib config now order)

/-- Reranking does not invert nearness: of two candidates with the same metadata the one with
the larger distance is shown only after the other, and a query without tokens shows the base
results, as many as were asked for. -/
structure NearnessKept (query : Text) (results : List (SearchResult Score)) : Prop where
  pairs {cfg req order sorted i j a b} : req.query = query →
    Reranks lib config now cfg req results order →
    (rerankCandidates results)[i]? = some a → (rerankCandidates results)[j]? = some b →
    a.metadata = b.metadata → a.score.lt b.score = true →
    let shown := order.take (response lib config now cfg req results sorted order).length
    j ∈ shown → [i, j].Sublist shown
  base {cfg req order sorted} : req.query = query →
    Reranks lib config now cfg req results order → Rule.tokenize lib config query = [] →
    Sorts (fun a b => searchLess a b = true) results sorted →
    response lib config now cfg req results sorted order =
      (trimBaseResults sorted req.topK).take (rerankTopN cfg req results).toNat

/-- When that is so. The empty query is not reranked, and rejected candidates are not either. -/
def KeepsNearness (query : Text) (results : List (SearchResult Score)) : Prop :=
  query ≠ [] → Accepted results →
    if Rule.tokenize lib config query = [] then ∀ a ∈ results, ∀ b ∈ results, a = b
    else
      ∀ i j a b, (rerankCandidates results)[i]? = some a →
        (rerankCandidates results)[j]? = some b → a.metadata = b.metadata →
        a.score.lt b.score = true →
        (∀ k c, (rerankCandidates results)[k]? = some c →
          (Rule.weighted lib config now query (rerankCandidates results) k c).isSome) ∧
        ∃ x y, Rule.weighted lib config now query (rerankCandidates results) i a = some x ∧
          Rule.weighted lib config now query (rerankCandidates results) j b = some y ∧
          Rule.Precedes x y a.id b.id

/-! ## The reranked response -/

section Response

variable {lib config now} {cfg : Config} {req : SearchRequest}
  {results sorted : List (SearchResult Score)} {order : List Nat}

theorem rerankTopN_pos (hresults : results ≠ []) : 0 < rerankTopN cfg req results := by
  have hpos := List.length_pos_iff.mpr hresults
  rw [rerankTopN]
  split <;> omega

theorem rerankTopN_le (cfg : Config) (req : SearchRequest) (results : List (SearchResult Score)) :
    rerankTopN cfg req results ≤ results.length := by
  rw [rerankTopN]
  split <;> omega

theorem input_rerankRequest :
    (ruleServer lib config now order).input (rerankRequest cfg req results) =
      ⟨req.query, rerankCandidates results, rerankTopN cfg req results,
        Finmap.singleton "mode".toList cfg.rerankMode⟩ := by
  simp [GrpcServer.input, ruleServer, rerankRequest, rerankCandidates]

/-- What the response shows for a candidate. -/
def shownResult (lib : Rule.Library) (config : Rule.Config) (now : Nat → Int) (query : Text)
    (results : List (SearchResult Score)) (i : Nat) (c : Candidate Score) : SearchResult Score where
  id := c.id
  score := (Rule.result lib config now query (rerankCandidates results) i c).rerankScore
  payload := (metadataByID results).lookup c.id

/-- The number of results that the reranker and then the gateway leave. -/
def shownCount (cfg : Config) (req : SearchRequest) (results : List (SearchResult Score)) : Nat :=
  let topN := (rerankTopN cfg req results).toNat
  if 0 < req.topK ∧ req.topK < topN then req.topK else topN

theorem shownCount_le (cfg : Config) (req : SearchRequest) (results : List (SearchResult Score)) :
    shownCount cfg req results ≤ results.length := by
  have hle := rerankTopN_le cfg req results
  simp only [shownCount]
  split <;> omega

theorem callReranker_eq (lib : Rule.Library) (config : Rule.Config) (now : Nat → Int)
    (order : List Nat) (cfg : Config) (req : SearchRequest) (haccepted : Accepted results) :
    (callReranker lib config now order (rerankRequest cfg req results)).map
        RerankResponse.results =
      some ((order.take (rerankTopN cfg req results).toNat).filterMap fun i =>
        (rerankCandidates results)[i]?.map
          (Rule.result lib config now req.query (rerankCandidates results) i)) := by
  have hlength : (rerankCandidates results).length = results.length := by simp [rerankCandidates]
  have hvalid : ((ruleServer lib config now order).input (rerankRequest cfg req results)).Valid
      Option.isSome := by
    rw [input_rerankRequest]
    constructor
    · simpa [rerankCandidates] using haccepted.nonempty
    · exact rerankTopN_pos haccepted.nonempty
    · simpa [rerankCandidates] using haccepted.ids
    · simpa [rerankCandidates] using haccepted.scores
  have hok := validateRerankInput_of_valid hvalid
  have htop : min (rerankTopN cfg req results) results.length = rerankTopN cfg req results :=
    min_eq_left (rerankTopN_le cfg req results)
  rw [callReranker, @GrpcServer.rerank_of_ok _ (ruleServer lib config now order) _ _ _ _ hok,
    input_rerankRequest]
  simp [GrpcServer.serve, ruleServer, Rule.rerank, RerankInput.adjust, hlength, htop,
    Except.toOption, GrpcServer.buildResponse]

section

variable {α β : Type} {f : α → Option β} {list : List α} (hall : ∀ x ∈ list, (f x).isSome)

include hall

theorem take_filterMap (n : Nat) :
    (list.filterMap f).take n = (list.take n).filterMap f := by
  induction list generalizing n with
  | nil => simp
  | cons head rest ih =>
      obtain ⟨y, hy⟩ := Option.isSome_iff_exists.mp (hall head List.mem_cons_self)
      cases n with
      | zero => simp
      | succ n =>
          rw [List.filterMap_cons_some hy, List.take_succ_cons, List.take_succ_cons,
            List.filterMap_cons_some hy, ih fun x hx => hall x (List.mem_cons_of_mem head hx)]

theorem length_filterMap : (list.filterMap f).length = list.length := by
  induction list with
  | nil => rfl
  | cons head rest ih =>
      obtain ⟨y, hy⟩ := Option.isSome_iff_exists.mp (hall head List.mem_cons_self)
      rw [List.filterMap_cons_some hy, List.length_cons, List.length_cons,
        ih fun x hx => hall x (List.mem_cons_of_mem head hx)]

theorem getElem?_filterMap (k : Nat) : (list.filterMap f)[k]? = list[k]?.bind f := by
  induction list generalizing k with
  | nil => simp
  | cons head rest ih =>
      obtain ⟨y, hy⟩ := Option.isSome_iff_exists.mp (hall head List.mem_cons_self)
      rw [List.filterMap_cons_some hy]
      cases k with
      | zero => simp [hy]
      | succ k => simpa using ih (fun x hx => hall x (List.mem_cons_of_mem head hx)) k

end

section

variable (hreranks : Reranks lib config now cfg req results order)

include hreranks

theorem Reranks.isSome {β : Type} (f : Nat → Candidate Score → β) :
    ∀ i ∈ order, ((rerankCandidates results)[i]?.map (f i)).isSome := by
  intro i hi
  have hpos := List.mem_range.mp (hreranks.ranked.perm.mem_iff.mp hi)
  simpa using hpos

/-- The response shows the candidates in the reranker's order. -/
theorem Reranks.response_eq :
    response lib config now cfg req results sorted order =
      (order.take (shownCount cfg req results)).filterMap fun i =>
        (rerankCandidates results)[i]?.map
          (shownResult lib config now req.query results i) := by
  have hcall := callReranker_eq lib config now order cfg req hreranks.accepted
  rw [response, rerankSearchResponse, hreranks.used, hreranks.direct]
  cases hanswer : callReranker lib config now order (rerankRequest cfg req results) with
  | none => simp [hanswer] at hcall
  | some rerankResp =>
      rw [hanswer, Option.map_some, Option.some.injEq] at hcall
      have hmap : (rerankResp.results.map fun result =>
          (⟨result.id, result.rerankScore, (metadataByID results).lookup result.id⟩ :
            SearchResult Score)) =
          (order.take (rerankTopN cfg req results).toNat).filterMap fun i =>
            (rerankCandidates results)[i]?.map
              (shownResult lib config now req.query results i) := by
        rw [hcall, List.map_filterMap]
        apply List.filterMap_congr
        intro i hi
        rw [Option.map_map]
        apply Option.map_congr
        intro c _
        dsimp only [Function.comp, shownResult]
        rw [Rule.result_id]
      have hall : ∀ i ∈ order.take (rerankTopN cfg req results).toNat,
          ((rerankCandidates results)[i]?.map
            (shownResult lib config now req.query results i)).isSome :=
        fun i hi => hreranks.isSome _ i (List.mem_of_mem_take hi)
      have hlength := hreranks.ranked.perm.length_eq
      have hle := rerankTopN_le cfg req results
      simp only [List.length_range, rerankCandidates, List.length_map] at hlength
      have hcount : (order.take (rerankTopN cfg req results).toNat).length =
          (rerankTopN cfg req results).toNat := by
        rw [List.length_take]
        omega
      simp only [Bool.not_true, Bool.false_eq_true, if_false, rerankedSearchResponse, hmap,
        length_filterMap hall, hcount, shownCount]
      split
      next htop => rw [take_filterMap hall, List.take_take, min_eq_left (le_of_lt htop.2)]
      next => rfl

theorem Reranks.response_length :
    (response lib config now cfg req results sorted order).length =
      shownCount cfg req results := by
  have hlength := hreranks.ranked.perm.length_eq
  have hle := shownCount_le cfg req results
  simp only [List.length_range, rerankCandidates, List.length_map] at hlength
  rw [hreranks.response_eq, length_filterMap, List.length_take]
  · omega
  · exact fun i hi => hreranks.isSome _ i (List.mem_of_mem_take hi)

/-- The response at a position. -/
theorem Reranks.response_getElem? {k : Nat} (hk : k < shownCount cfg req results) :
    (response lib config now cfg req results sorted order)[k]? =
      order[k]?.bind fun i => (rerankCandidates results)[i]?.map
        (shownResult lib config now req.query results i) := by
  rw [hreranks.response_eq]
  have hall : ∀ i ∈ order.take (shownCount cfg req results), ((rerankCandidates results)[i]?.map
      (shownResult lib config now req.query results i)).isSome :=
    fun i hi => hreranks.isSome _ i (List.mem_of_mem_take hi)
  rw [getElem?_filterMap hall, List.getElem?_take_of_lt hk]

end

end Response

/-! ## When nearness is kept -/

/-- Reranking for every collection, with as many results as there are. -/
def rerankAll : Config := ⟨true, ∅, ∅, "rule".toList, false⟩

def searchAll (query : Text) : SearchRequest := ⟨[], 0, query⟩

section Kept

variable {lib config now} {cfg : Config} {req : SearchRequest} {query : Text}
  {results sorted : List (SearchResult Score)} {order : List Nat}

@[simp] theorem Score.lt_irrefl (score : Score) : score.lt score = false := by
  cases score <;> simp [Score.lt]

theorem candidate_of_getElem? {i : Nat} {c : Candidate Score}
    (hc : (rerankCandidates results)[i]? = some c) :
    ∃ result ∈ results, results[i]? = some result ∧
      c = ⟨result.id, result.score, [], result.payload.getD ∅⟩ := by
  rw [rerankCandidates, List.getElem?_map, Option.map_eq_some_iff] at hc
  obtain ⟨result, hresult, rfl⟩ := hc
  exact ⟨result, List.mem_of_getElem? hresult, hresult, rfl⟩

theorem reranks_all (hquery : query ≠ []) (haccepted : Accepted results)
    (hranked : Rule.Ranked lib config now query (rerankCandidates results) order) :
    Reranks lib config now rerankAll (searchAll query) results order where
  used := by simp [shouldUseReranker, searchAll, rerankAll, hquery]
  direct := rfl
  accepted := haccepted
  ranked := hranked

theorem Reranks.query_ne (hreranks : Reranks lib config now cfg req results order) :
    req.query ≠ [] := by
  have hused := hreranks.used
  simp only [shouldUseReranker, Bool.and_eq_true, decide_eq_true_eq] at hused
  exact hused.1.1

theorem shownCount_all : shownCount rerankAll (searchAll query) results = results.length := by
  simp [shownCount, rerankTopN, searchAll, rerankAll]

/-- Results that are all the same have one payload. -/
theorem lookup_metadataByID {result : SearchResult Score} (hresults : results ≠ [])
    (hall : ∀ other ∈ results, other = result) :
    (metadataByID results).lookup result.id = result.payload := by
  obtain ⟨n, hn⟩ : ∃ n, results = List.replicate n result :=
    ⟨results.length, List.eq_replicate_iff.mpr ⟨rfl, hall⟩⟩
  have hpos : 0 < n := by
    have h := List.length_pos_iff.mpr hresults
    rwa [hn, List.length_replicate] at h
  obtain ⟨n, rfl⟩ := Nat.exists_eq_succ_of_ne_zero hpos.ne'
  rw [hn, metadataByID, List.replicate_succ', List.foldl_append]
  cases hpayload : result.payload with
  | some metadata => simp [hpayload]
  | none =>
      have hnone : ∀ m, (List.replicate m result).foldl
          (fun (byID : GoMap Text StringMap) result =>
            match result.payload with
            | some metadata => byID.insert result.id metadata
            | none => byID) ∅ = ∅ := by
        intro m
        induction m with
        | zero => rfl
        | succ m ih => rw [List.replicate_succ', List.foldl_append, ih]; simp [hpayload]
      rw [hnone]
      simp [hpayload]

/-- The response to results that are all the same. -/
theorem Reranks.response_of_same (hreranks : Reranks lib config now cfg req results order)
    (htokens : Rule.tokenize lib config req.query = []) {result : SearchResult Score}
    (hall : ∀ other ∈ results, other = result) :
    response lib config now cfg req results sorted order =
      List.replicate (shownCount cfg req results) result := by
  rw [List.eq_replicate_iff]
  refine ⟨hreranks.response_length, ?_⟩
  intro shown hshown
  rw [hreranks.response_eq, List.mem_filterMap] at hshown
  obtain ⟨i, -, hi⟩ := hshown
  rw [Option.map_eq_some_iff] at hi
  obtain ⟨c, hc, rfl⟩ := hi
  obtain ⟨other, hother, -, rfl⟩ := candidate_of_getElem? hc
  obtain rfl := hall other hother
  rw [shownResult, Rule.result, if_pos htokens]
  have hpayload := lookup_metadataByID hreranks.accepted.nonempty hall
  rw [hpayload]

theorem replicate_trim {result : SearchResult Score} (hperm : sorted.Perm results)
    (hall : ∀ other ∈ results, other = result) :
    (trimBaseResults sorted req.topK).take (rerankTopN cfg req results).toNat =
      List.replicate (shownCount cfg req results) result := by
  have hle := rerankTopN_le cfg req results
  have hlength := hperm.length_eq
  rw [List.eq_replicate_iff]
  constructor
  · simp only [trimBaseResults, shownCount]
    split <;> split <;> simp only [List.length_take] <;> omega
  · intro other hother
    have hmem := List.mem_of_mem_take hother
    apply hall
    rw [← hperm.mem_iff]
    rw [trimBaseResults] at hmem
    split at hmem
    · exact List.mem_of_mem_take hmem
    · exact hmem

/-- Without tokens the base results can only be kept when the results are all the same. -/
theorem same_of_base (hquery : query ≠ []) (haccepted : Accepted results)
    (htokens : Rule.tokenize lib config query = [])
    (hbase : ∀ order sorted, Rule.Ranked lib config now query (rerankCandidates results) order →
      Sorts (fun a b => searchLess a b = true) results sorted →
      response lib config now rerankAll (searchAll query) results sorted order = sorted) :
    ∀ a ∈ results, ∀ b ∈ results, a = b := by
  have hlength : (rerankCandidates results).length = results.length := by simp [rerankCandidates]
  have hnumber : ∀ a ∈ results, ∃ x, a.score = some x :=
    fun a ha => Option.isSome_iff_exists.mp (haccepted.scores a ha)
  have hpos := List.length_pos_iff.mpr haccepted.nonempty
  -- the results that the response begins with
  have hhead : ∀ i order, Rule.Ranked lib config now query (rerankCandidates results)
      (i :: order) → ∀ a, results[i]? = some a → ∀ sorted,
      Sorts (fun a b => searchLess a b = true) results sorted →
      sorted[0]? = some ⟨a.id, a.score, (metadataByID results).lookup a.id⟩ := by
    intro i order hranked a ha sorted hsorted
    have hreranks := reranks_all hquery haccepted hranked
    rw [← hbase (i :: order) sorted hranked hsorted, hreranks.response_getElem?]
    · simp [rerankCandidates, ha, shownResult, Rule.result, searchAll, htokens]
    · rw [shownCount_all]
      exact hpos
  -- any position may come first if no score is larger
  have hfirst : ∀ i a, results[i]? = some a → (∀ b ∈ results, b.score.getD 0 ≤ a.score.getD 0) →
      ∃ order, Rule.Ranked lib config now query (rerankCandidates results) (i :: order) := by
    intro i a ha hmax
    apply exists_sorts_cons
    · rw [List.mem_range, hlength]
      exact (List.getElem?_eq_some_iff.mp ha).1
    · intro k hk
      rw [List.mem_range, hlength] at hk
      obtain ⟨x, hx⟩ := hnumber a (List.mem_of_getElem? ha)
      obtain ⟨y, hy⟩ := hnumber results[k] (List.getElem_mem hk)
      have hle := hmax results[k] (List.getElem_mem hk)
      rw [hx, hy] at hle
      rw [Rule.less_iff_of_no_tokens (i := k) (j := i)
        (a := ⟨results[k].id, results[k].score, [], results[k].payload.getD ∅⟩)
        (b := ⟨a.id, a.score, [], a.payload.getD ∅⟩) htokens
        (by simp [rerankCandidates, hk]) (by simp [rerankCandidates, ha])]
      simpa [hx, hy, Score.lt] using hle
  -- all scores are the same: a largest one comes first for the reranker, a smallest for the base
  have hscores : ∀ a ∈ results, ∀ b ∈ results, a.score.getD 0 ≤ b.score.getD 0 := by
    have hfinite : {a | a ∈ results}.Finite := List.finite_toSet results
    have hexists : {a | a ∈ results}.Nonempty := List.exists_mem_of_ne_nil _ haccepted.nonempty
    obtain ⟨least, hleast, hmin⟩ := Set.exists_min_image _
      (fun a : SearchResult Score => toLex (a.score.getD 0, a.id)) hfinite hexists
    obtain ⟨most, hmost, hmax⟩ := Set.exists_max_image _
      (fun a : SearchResult Score => a.score.getD 0) hfinite hexists
    obtain ⟨sorted, hsorted⟩ : ∃ sorted,
        Sorts (fun a b => searchLess a b = true) results (least :: sorted) :=
      exists_sorts_cons hleast fun other hother => by
        obtain ⟨x, hx⟩ := hnumber least hleast
        obtain ⟨y, hy⟩ := hnumber other hother
        have hle := hmin other hother
        rw [Prod.Lex.le_iff] at hle
        simp only [hx, hy, Option.getD_some, ofLex_toLex] at hle
        rw [searchLess, hx, hy]
        simp only [Score.eq, betterSearchScore, Score.lt]
        rcases hle with hlt | ⟨rfl, hid⟩
        · simp [hlt.ne', hlt.le]
        · simpa using hid
    obtain ⟨i, hi⟩ := List.mem_iff_getElem?.mp hmost
    obtain ⟨order, hranked⟩ := hfirst i most hi hmax
    have hsame := hhead i order hranked most hi (least :: sorted) hsorted
    simp only [List.getElem?_cons_zero, Option.some.injEq] at hsame
    intro a ha b hb
    have hlow := hmin b hb
    rw [Prod.Lex.le_iff] at hlow
    have hle : least.score.getD 0 ≤ b.score.getD 0 := by
      rcases hlow with hlt | ⟨heq, -⟩
      · exact hlt.le
      · exact heq.le
    calc a.score.getD 0 ≤ most.score.getD 0 := hmax a ha
      _ = least.score.getD 0 := by rw [hsame]
      _ ≤ b.score.getD 0 := hle
  have hequal : ∀ a ∈ results, ∀ b ∈ results, a.score = b.score := by
    intro a ha b hb
    obtain ⟨x, hx⟩ := hnumber a ha
    obtain ⟨y, hy⟩ := hnumber b hb
    have hle := hscores a ha b hb
    have hge := hscores b hb a ha
    rw [hx, hy] at hle hge
    rw [hx, hy]
    exact congrArg some (le_antisymm hle hge)
  obtain ⟨sorted, hsorted⟩ := exists_sorts (fun a b => searchLess a b = true) results
  -- so every result may come first for the reranker, and all ids are the same
  have hids : ∀ a ∈ results, ∀ b ∈ results, a.id = b.id := by
    have hany : ∀ a ∈ results,
        sorted[0]? = some ⟨a.id, a.score, (metadataByID results).lookup a.id⟩ := by
      intro a ha
      obtain ⟨i, hi⟩ := List.mem_iff_getElem?.mp ha
      obtain ⟨order, hranked⟩ := hfirst i a hi fun b hb => hscores b hb a ha
      exact hhead i order hranked a hi sorted hsorted
    intro a ha b hb
    have h := (hany a ha).symm.trans (hany b hb)
    simp only [Option.some.injEq, SearchResult.mk.injEq] at h
    exact h.1
  -- and for the base
  have hany : ∀ a ∈ results, ∀ b ∈ results,
      b = ⟨a.id, a.score, (metadataByID results).lookup a.id⟩ := by
    intro a ha b hb
    obtain ⟨i, hi⟩ := List.mem_iff_getElem?.mp ha
    obtain ⟨order, hranked⟩ := hfirst i a hi fun b hb => hscores b hb a ha
    obtain ⟨sorted, hsorted⟩ : ∃ sorted,
        Sorts (fun a b => searchLess a b = true) results (b :: sorted) :=
      exists_sorts_cons hb fun other hother => by
        obtain ⟨x, hx⟩ := hnumber b hb
        simp [searchLess, hequal other hother b hb, hx, Score.eq, hids other hother b hb]
    have h := hhead i order hranked a hi (b :: sorted) hsorted
    simpa using h
  intro a ha b hb
  rw [hany a ha a ha, ← hany a ha b hb]

/-- The reranked response keeps nearness exactly then. -/
theorem nearnessKept_iff (lib : Rule.Library) (config : Rule.Config) (now : Nat → Int)
    (query : Text) (results : List (SearchResult Score)) :
    NearnessKept lib config now query results ↔ KeepsNearness lib config now query results := by
  constructor
  · intro hkept hquery haccepted
    split
    next htokens =>
      apply same_of_base hquery haccepted htokens
      intro order sorted hranked hsorted
      rw [hkept.base rfl (reranks_all hquery haccepted hranked) htokens hsorted]
      have hlength := hsorted.perm.length_eq
      simp [trimBaseResults, searchAll, rerankTopN, rerankAll, ← hlength]
    next htokens =>
      intro i j a b ha hb hmetadata hlt
      have hne : i ≠ j := by
        rintro rfl
        rw [ha, Option.some.injEq] at hb
        simp [hb] at hlt
      rw [← Rule.forall_ranked_iff htokens hne ha hb]
      intro order hranked
      have hreranks := reranks_all hquery haccepted hranked
      have hall : order.take (response lib config now rerankAll (searchAll query) results results
          order).length = order := by
        have hlength := hranked.perm.length_eq
        rw [hreranks.response_length, shownCount_all]
        simp only [List.length_range, rerankCandidates, List.length_map] at hlength
        rw [← hlength, List.take_length]
      have hj : j ∈ order := by
        rw [hranked.perm.mem_iff, List.mem_range]
        exact (List.getElem?_eq_some_iff.mp hb).1
      rw [← hall] at hj ⊢
      exact hkept.pairs rfl hreranks ha hb hmetadata hlt hj
  · intro hkeeps
    constructor
    · rintro cfg req order sorted i j a b rfl hreranks ha hb hmetadata hlt shown hj
      have h := hkeeps hreranks.query_ne hreranks.accepted
      have hne : i ≠ j := by
        rintro rfl
        rw [ha, Option.some.injEq] at hb
        simp [hb] at hlt
      split at h
      next htokens =>
        obtain ⟨first, hfirst, -, rfl⟩ := candidate_of_getElem? ha
        obtain ⟨second, hsecond, -, rfl⟩ := candidate_of_getElem? hb
        simp [h first hfirst second hsecond] at hlt
      next htokens =>
        have hpair := (Rule.forall_ranked_iff htokens hne ha hb).mpr
          (h i j a b ha hb hmetadata hlt) order hreranks.ranked
        exact pair_sublist_take (hreranks.ranked.perm.nodup_iff.mpr List.nodup_range) hpair hj
    · rintro cfg req order sorted rfl hreranks htokens hsorted
      have h := hkeeps hreranks.query_ne hreranks.accepted
      rw [if_pos htokens] at h
      obtain ⟨result, hresult⟩ := List.exists_mem_of_ne_nil _ hreranks.accepted.nonempty
      have hall := fun other hother => h other hother result hresult
      rw [hreranks.response_of_same htokens hall, replicate_trim hsorted.perm hall]

end Kept

end Reranked

/-- Tables for the texts below; no logarithm or exponential is taken there. -/
def plainLibrary : Rule.Library := ⟨.ascii, fun _ => 0, fun _ => 1, fun _ => none⟩

def nearAndFar : List (SearchResult Score) :=
  [⟨"near".toList, some (1 / 10), none⟩, ⟨"zfar".toList, some (9 / 10), none⟩]

theorem reranking_inverts_nearness :
    ¬ NearnessKept plainLibrary Rule.defaultConfig (fun _ => 0) "golang".toList nearAndFar := by
  rw [nearnessKept_iff]
  intro hkeeps
  have hquery : "golang".toList ≠ [] := by decide
  have haccepted : Accepted nearAndFar := ⟨by decide, by decide +kernel, by decide⟩
  have h := hkeeps hquery haccepted
  rw [if_neg (by decide +kernel)] at h
  obtain ⟨-, x, y, hx, hy, hprecedes⟩ := h 0 1 _ _ rfl rfl rfl (by decide +kernel)
  have hx' : x = 1 / 20 := by
    have heval : Rule.weighted plainLibrary Rule.defaultConfig (fun _ => 0) "golang".toList
        (rerankCandidates nearAndFar) 0 ⟨"near".toList, some (1 / 10), [], ∅⟩ = some (1 / 20) := by
      decide +kernel
    exact Option.some.inj (hx.symm.trans heval)
  have hy' : y = 9 / 20 := by
    have heval : Rule.weighted plainLibrary Rule.defaultConfig (fun _ => 0) "golang".toList
        (rerankCandidates nearAndFar) 1 ⟨"zfar".toList, some (9 / 10), [], ∅⟩ = some (9 / 20) := by
      decide +kernel
    exact Option.some.inj (hy.symm.trans heval)
  subst hx' hy'
  rcases hprecedes with ⟨hlt, -⟩ | ⟨-, heq | ⟨hle, -⟩ | ⟨hle, -⟩⟩ <;> norm_num at *

end Vectron.Gateway
