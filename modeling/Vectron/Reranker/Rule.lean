import Vectron.Foundation.Sorting
import Vectron.Reranker.Strategy

/-! # The rule-based strategy

`reranker/internal/strategies/rule/rule.go` over exact rationals. Where the code divides zero by
zero the score is no number, and no comparison with it holds. The clock is read once for each
candidate. `sort.Slice` is unstable: the order in which it leaves the positions is an input,
and `Ranked` says which orders it may leave.
-/

namespace Vectron.Reranker

open Foundation Placement

/-- A rational, or no number. -/
abbrev Score := Option Rat

namespace Score

def lt (a b : Score) : Bool :=
  match a, b with
  | some x, some y => decide (x < y)
  | _, _ => false

def eq (a b : Score) : Bool :=
  match a, b with
  | some x, some y => decide (x = y)
  | _, _ => false

end Score

namespace Rule

/-- `Config`; two of the field weights are used nowhere. -/
structure Config where
  titleWeight : Rat
  contentWeight : Rat
  bm25K1 : Rat
  bm25B : Rat
  originalWeight : Rat
  bm25Weight : Rat
  keywordWeight : Rat
  coverageWeight : Rat
  recencyWeight : Rat
  exactMatchBoost : Rat
  titleBoost : Rat
  fuzzyBoost : Rat
  metadataBoosts : GoMap Text Rat
  metadataPenalties : GoMap Text Rat
  recencyField : Text
  recencyDays : Int
  halfLifeDays : Rat
  stopWords : List Text
  caseSensitive : Bool

def defaultConfig : Config where
  titleWeight := 3
  contentWeight := 1
  bm25K1 := 12 / 10
  bm25B := 75 / 100
  originalWeight := 5 / 10
  bm25Weight := 25 / 100
  keywordWeight := 15 / 100
  coverageWeight := 5 / 100
  recencyWeight := 5 / 100
  exactMatchBoost := 3 / 10
  titleBoost := 2 / 10
  fuzzyBoost := 5 / 100
  metadataBoosts := ∅
  metadataPenalties := ∅
  recencyField := "created_at".toList
  recencyDays := 30
  halfLifeDays := 7
  stopWords := ["the", "a", "an", "and", "or", "but", "in", "on", "at", "to", "for", "of", "with",
    "is", "was", "are", "were", "be", "been", "being"].map String.toList
  caseSensitive := false

/-- Library code: the character tables, `math.Log` and `math.Exp`, and the time of an RFC 3339
text in nanoseconds. -/
structure Library where
  unicode : Unicode
  log : Rat → Rat
  exp : Rat → Rat
  parseRFC3339 : Text → Option Int

/-! ## Tokens -/

def toLower (lib : Library) (text : Text) : Text := text.map lib.unicode.toLower

/-- The classes `\w` and `\s` of the regular expression. -/
def isWordOrSpace (c : Char) : Bool :=
  c.isAlphanum || c = '_' || ['\t', '\n', '\x0c', '\r', ' '].contains c

/-- `tokenizeRegex.ReplaceAllString(text, " ")`: one blank for each run of other characters. -/
def replaceOthers (inRun : Bool) : Text → Text
  | [] => []
  | c :: rest =>
      if isWordOrSpace c then c :: replaceOthers false rest
      else if inRun then replaceOthers true rest
      else ' ' :: replaceOthers true rest

/-- `strings.Fields`. -/
def fields (text : Text) : List Text := (text.splitOnP isSpace).filter (· ≠ [])

/-- `strings.Contains`. -/
def contains (text part : Text) : Bool := decide (part <:+: text)

section Scoring

variable (lib : Library) (config : Config)

def tokenize (text : Text) : List Text :=
  let text := if config.caseSensitive then text else toLower lib text
  let stopWordsSet := config.stopWords.map (toLower lib)
  (fields (replaceOthers false text)).filter fun word =>
    !stopWordsSet.contains word && decide (1 < (utf8 word).length)

/-! ## Documents -/

structure DocumentFields where
  titleLower : Text
  allLower : Text
  tokens : List Text
  metadata : StringMap

namespace DocumentFields

variable (doc : DocumentFields)

def length : Nat := doc.tokens.length

/-- Membership in `TokenSet`. -/
def hasToken (token : Text) : Bool := doc.tokens.contains token

end DocumentFields

def getField (m : StringMap) (key : String) : Text := (m.lookup key.toList).getD []

/-- The fields of one candidate in `extractFields`. -/
def document (m : StringMap) : DocumentFields :=
  let title := getField m "title"
  let text := [' '].intercalate
    [title, getField m "description", getField m "tags", getField m "content"]
  ⟨toLower lib title, toLower lib text, tokenize lib config text, m⟩

def extractFields (candidates : List (Candidate Score)) : List DocumentFields :=
  candidates.map fun c => document lib config c.metadata

def calculateAverageDocLength (docs : List DocumentFields) : Rat :=
  if docs.length = 0 then 0
  else ((docs.map DocumentFields.length).sum : Rat) / docs.length

/-- `calculateDocumentFrequencies` at a token. -/
def docFreq (docs : List DocumentFields) (token : Text) : Nat :=
  docs.countP fun doc => doc.hasToken token

/-! ## The parts of a score -/

/-- What one token adds in `calculateBM25`. -/
def bm25Term (doc : DocumentFields) (docs : List DocumentFields) (token : Text) : Score :=
  let avgDL := calculateAverageDocLength docs
  let tf : Rat :=
    if contains doc.titleLower token then config.titleWeight
    else if contains doc.allLower token then config.contentWeight
    else 1
  let df := if docFreq docs token = 0 then 1 else docFreq docs token
  let idf := lib.log ((docs.length : Rat) / df + 1)
  let tfNorm := tf * (config.bm25K1 * (1 - config.bm25B + config.bm25B * doc.length / avgDL))
  -- zero by zero when the norm vanishes
  if tfNorm + tfNorm = 0 then none else some (idf * (tfNorm / (tfNorm + tfNorm)))

/-- `calculateBM25`; the average length is not zero where it divides. -/
def calculateBM25 (doc : DocumentFields) (docs : List DocumentFields) (queryTokens : List Text) :
    Score :=
  if doc.length = 0 ∨ queryTokens.length = 0 then some 0
  else do
    let terms ← queryTokens.mapM (bm25Term lib config doc docs)
    return terms.sum / queryTokens.length

/-- The number of query tokens in the document, `countMatches`. -/
def countMatches (doc : DocumentFields) (tokens : List Text) : Nat := tokens.countP doc.hasToken

/-- `containsLower`. -/
def containsLower (text part : Text) : Bool := contains (toLower lib text) (toLower lib part)

def calculateKeywordScore (doc : DocumentFields) (queryTokens : List Text) : Rat :=
  if queryTokens.length = 0 then 0
  else
    let query := [' '].intercalate queryTokens
    let matchCount := countMatches doc queryTokens
    (if containsLower lib doc.allLower query then config.exactMatchBoost else 0) +
      (if containsLower lib doc.titleLower query then config.titleBoost else 0) +
      (if 0 < matchCount then config.fuzzyBoost * (matchCount / queryTokens.length) else 0)

def calculateCoverage (doc : DocumentFields) (queryTokens : List Text) : Rat :=
  if queryTokens.length = 0 ∨ doc.length = 0 then 0
  else countMatches doc queryTokens / queryTokens.length

/-- `parseTimestamp`, in nanoseconds. -/
def parseTimestamp (value : Text) : Option Int :=
  let value := trimSpace value
  if value = [] then none
  else
    match lib.parseRFC3339 value with
    | some t => some t
    | none =>
        (atoi value).map fun parsed =>
          if parsed > 10 ^ 12 then parsed * 10 ^ 6 else parsed * 10 ^ 9

/-- `time.Since`, a 64-bit duration that saturates. -/
def since (now t : Int) : Int := max (-2 ^ 63) (min (2 ^ 63 - 1) (now - t))

def calculateRecency (doc : DocumentFields) (now : Int) : Rat :=
  if config.recencyWeight = 0 ∨ config.recencyField = [] then 0
  else
    let ts := (doc.metadata.lookup config.recencyField).getD []
    if ts = [] then 0
    else
      match parseTimestamp lib ts with
      | none => 0
      | some t =>
          let daysSince : Rat := since now t / (3600 * 10 ^ 9) / 24
          if daysSince > config.recencyDays then 0
          else
            let halflife := if config.halfLifeDays ≤ 0 then 7 else config.halfLifeDays
            lib.exp (-(693 / 1000) * daysSince / halflife)

/-- The sum of the values whose keys the metadata set to true. -/
def flagged (m : StringMap) (values : GoMap Text Rat) : Rat :=
  (values.entries.map fun entry =>
    if m.lookup entry.1 = some "true".toList ∨ m.lookup entry.1 = some ['1'] then entry.2
    else 0).sum

def calculateMetadataScore (doc : DocumentFields) : Rat :=
  flagged doc.metadata config.metadataBoosts - flagged doc.metadata config.metadataPenalties

def clamp (value low high : Rat) : Rat :=
  if value < low then low else if value > high then high else value

/-- What `calculateScore` adds to the weighted original score. -/
def matchScore (doc : DocumentFields) (docs : List DocumentFields) (queryTokens : List Text)
    (now : Int) : Score := do
  let bm25Score ← calculateBM25 lib config doc docs queryTokens
  return config.bm25Weight * bm25Score +
    config.keywordWeight * calculateKeywordScore lib config doc queryTokens +
    config.coverageWeight * calculateCoverage doc queryTokens +
    config.recencyWeight * calculateRecency lib config doc now +
    calculateMetadataScore config doc

def calculateScore (candidate : Candidate Score) (doc : DocumentFields)
    (docs : List DocumentFields) (queryTokens : List Text) (now : Int) : Score := do
  let original ← candidate.score
  let rest ← matchScore lib config doc docs queryTokens now
  return clamp (config.originalWeight * original + rest) 0 1

/-! ## Ranking -/

structure CandidateScore where
  id : Text
  score : Score
  original : Score
  hasExact : Bool
  hasTitle : Bool
  matchCount : Nat

/-- `hasExactMatch`. -/
def hasExactMatch (doc : DocumentFields) (tokens : List Text) : Bool :=
  match tokens with
  | [] => false
  | token :: _ => doc.hasToken token

/-- `hasTitleMatch`. -/
def hasTitleMatch (doc : DocumentFields) (tokens : List Text) : Bool :=
  tokens ≠ [] && containsLower lib doc.titleLower ([' '].intercalate tokens)

def CandidateScore.explain (c : CandidateScore) : String :=
  let parts := (if c.hasExact then ["exact match"] else []) ++
    (if c.hasTitle then ["title match"] else []) ++
    (if c.matchCount > 0 then [s!"+{c.matchCount} tokens"] else [])
  if parts = [] then "keyword relevance" else String.intercalate ", " parts

/-- The comparison of candidates by score. -/
def CandidateScore.less (a b : CandidateScore) : Bool :=
  if a.score.eq b.score then decide (a.id < b.id) else b.score.lt a.score

variable (now : Nat → Int) (query : Text) (candidates : List (Candidate Score))

/-- The score of the candidate at a position; `now` is the clock there. -/
def candidateScore (i : Nat) (c : Candidate Score) : CandidateScore :=
  let queryTokens := tokenize lib config query
  let docs := extractFields lib config candidates
  let doc := document lib config c.metadata
  { id := c.id
    score := calculateScore lib config c doc docs queryTokens (now i)
    original := c.score
    hasExact := hasExactMatch doc queryTokens
    hasTitle := hasTitleMatch lib doc queryTokens
    matchCount := countMatches doc queryTokens }

/-- The comparison by which `Rerank` sorts, on positions. Without tokens, which includes the
empty query, it is that of `rerankByOriginalScore`. -/
def less (i j : Nat) : Bool :=
  match candidates[i]?, candidates[j]? with
  | some a, some b =>
      if tokenize lib config query = [] then b.score.lt a.score
      else
        (candidateScore lib config now query candidates i a).less
          (candidateScore lib config now query candidates j b)
  | _, _ => false

/-- The orders in which the sort may leave the positions. -/
abbrev Ranked (order : List Nat) : Prop :=
  Sorts (fun i j => less lib config now query candidates i j = true)
    (List.range candidates.length) order

/-- The result for a candidate. -/
def result (i : Nat) (c : Candidate Score) : ScoredCandidate Score :=
  if tokenize lib config query = [] then ⟨c.id, c.score, c.score, "sorted by original score"⟩
  else
    let scored := candidateScore lib config now query candidates i c
    ⟨scored.id, scored.score, scored.original, scored.explain⟩

@[simp] theorem result_id (i : Nat) (c : Candidate Score) :
    (result lib config now query candidates i c).id = c.id := by
  unfold result
  split <;> rfl

/-- `Rerank`, when it is not cancelled and the sort leaves the positions in `order`. -/
def rerank (order : List Nat) (input : RerankInput Score) : RerankOutput Score where
  results := (order.take input.topN.toNat).filterMap fun i =>
    input.candidates[i]?.map (result lib config now input.query input.candidates i)
  latency := 0
  metadata :=
    if tokenize lib config input.query = [] then [("strategy", "rule-based"), ("query_empty", "true")]
    else [("strategy", "rule-based"), ("version", "2.0.0")]

/-! ## The order of two candidates -/

/-- The part of a candidate's score that is not its original score. -/
def rest (i : Nat) (c : Candidate Score) : Score :=
  matchScore lib config (document lib config c.metadata) (extractFields lib config candidates)
    (tokenize lib config query) (now i)

/-- The weighted sum that is clamped. -/
def weighted (i : Nat) (c : Candidate Score) : Score := do
  let original ← c.score
  let rest ← rest lib config now query candidates i c
  return config.originalWeight * original + rest

end Scoring

/-- A candidate with weighted sum `x` comes before one with `y`: by the sums, unless both are
clamped to one bound, or else by the ids. -/
def Precedes (x y : Rat) (first second : Text) : Prop :=
  y < x ∧ 0 < x ∧ y < 1 ∨ first < second ∧ (x = y ∨ x ≤ 0 ∧ y ≤ 0 ∨ 1 ≤ x ∧ 1 ≤ y)

theorem clamp_lt_clamp {x y : Rat} : clamp y 0 1 < clamp x 0 1 ↔ y < x ∧ 0 < x ∧ y < 1 := by
  unfold clamp
  grind

theorem clamp_eq_clamp {x y : Rat} :
    clamp x 0 1 = clamp y 0 1 ↔ x = y ∨ x ≤ 0 ∧ y ≤ 0 ∨ 1 ≤ x ∧ 1 ≤ y := by
  unfold clamp
  grind

section Order

variable {lib : Library} {config : Config} {now : Nat → Int} {query : Text}
  {candidates : List (Candidate Score)} {i j : Nat} {a b : Candidate Score}

theorem candidateScore_score :
    (candidateScore lib config now query candidates i a).score =
      (weighted lib config now query candidates i a).map fun sum => clamp sum 0 1 := by
  simp only [candidateScore, calculateScore, weighted, rest]
  cases a.score with
  | none => rfl
  | some original =>
      cases matchScore lib config (document lib config a.metadata)
        (extractFields lib config candidates) (tokenize lib config query) (now i) <;> rfl

theorem less_iff (htokens : tokenize lib config query ≠ []) (ha : candidates[i]? = some a)
    (hb : candidates[j]? = some b) :
    less lib config now query candidates i j = true ↔
      ∃ x y, weighted lib config now query candidates i a = some x ∧
        weighted lib config now query candidates j b = some y ∧ Precedes x y a.id b.id := by
  rw [less, ha, hb]
  simp only [if_neg htokens, CandidateScore.less, candidateScore_score]
  cases hx : weighted lib config now query candidates i a with
  | none => simp [Score.eq, Score.lt]
  | some x =>
      cases hy : weighted lib config now query candidates j b with
      | none => simp [Score.eq, Score.lt]
      | some y =>
          by_cases heq : clamp x 0 1 = clamp y 0 1
          · have hnot : ¬ (y < x ∧ 0 < x ∧ y < 1) := by
              rw [← clamp_lt_clamp, heq]
              exact lt_irrefl _
            have hclamped := clamp_eq_clamp.mp heq
            simp only [Option.map_some, Score.eq, heq, decide_true, if_true, Option.some.injEq,
              exists_and_left, exists_eq_left', Precedes, hnot, hclamped, false_or, and_true]
            exact decide_eq_true_iff
          · have hnot := mt clamp_eq_clamp.mpr heq
            simp [Score.eq, Score.lt, heq, Precedes, hnot, clamp_lt_clamp]

theorem less_iff_of_no_tokens (htokens : tokenize lib config query = [])
    (ha : candidates[i]? = some a) (hb : candidates[j]? = some b) :
    less lib config now query candidates i j = true ↔ b.score.lt a.score = true := by
  rw [less, ha, hb]
  simp [htokens]

/-- The comparison is a strict weak order when all scores are numbers. -/
theorem weakOn_less (htokens : tokenize lib config query ≠ [])
    (hnumbers : ∀ k c, candidates[k]? = some c →
      (weighted lib config now query candidates k c).isSome) :
    WeakOn (fun i j => less lib config now query candidates i j = true)
      (List.range candidates.length) := by
  have hpos : ∀ k : {k // k ∈ List.range candidates.length}, k.1 < candidates.length :=
    fun k => List.mem_range.mp k.2
  let c := fun k : {k // k ∈ List.range candidates.length} => candidates.get ⟨k.1, hpos k⟩
  have hc : ∀ k, candidates[k.1]? = some (c k) := fun k => List.getElem?_eq_getElem (hpos k)
  let sum := fun k => (weighted lib config now query candidates k.1 (c k)).getD 0
  have hsum : ∀ k, weighted lib config now query candidates k.1 (c k) = some (sum k) := by
    intro k
    obtain ⟨x, hx⟩ := Option.isSome_iff_exists.mp (hnumbers k.1 (c k) (hc k))
    simp [sum, hx]
  -- larger clamped sums first, then smaller ids
  let key := fun k => toLex (OrderDual.toDual (clamp (sum k) 0 1), (c k).id)
  have hkey : (fun x y : {k // k ∈ List.range candidates.length} =>
      less lib config now query candidates x y = true) = fun x y => key x < key y := by
    funext x y
    rw [eq_iff_iff, less_iff htokens (hc x) (hc y), hsum, hsum, Prod.Lex.lt_iff]
    simp only [Option.some.injEq, exists_and_left, exists_eq_left', Precedes, key, ofLex_toLex,
      OrderDual.toDual_lt_toDual, OrderDual.toDual_inj, clamp_lt_clamp, clamp_eq_clamp]
    tauto
  rw [WeakOn, hkey]
  exact isStrictWeakOrder_of_key key

/-- With tokens in the query, a candidate is before another in every order exactly when all
weighted sums are numbers and its own precedes. -/
theorem forall_ranked_iff (htokens : tokenize lib config query ≠ []) (hne : i ≠ j)
    (ha : candidates[i]? = some a) (hb : candidates[j]? = some b) :
    (∀ order, Ranked lib config now query candidates order → [i, j].Sublist order) ↔
      (∀ k c, candidates[k]? = some c →
        (weighted lib config now query candidates k c).isSome) ∧
      ∃ x y, weighted lib config now query candidates i a = some x ∧
        weighted lib config now query candidates j b = some y ∧ Precedes x y a.id b.id := by
  have hpos : ∀ {k c}, candidates[k]? = some c → k ∈ List.range candidates.length := by
    intro k c hk
    exact List.mem_range.mpr (List.getElem?_eq_some_iff.mp hk).1
  rw [forall_sorts_pair_iff List.nodup_range (hpos ha) (hpos hb) hne, ← less_iff htokens ha hb]
  constructor
  · rintro ⟨hweak, hless⟩
    refine ⟨?_, hless⟩
    intro k c hk
    by_contra hnone
    rw [Option.not_isSome_iff_eq_none] at hnone
    -- what is no number is equal to both candidates, which are then equal to each other
    have hleft : ∀ l d, candidates[l]? = some d →
        ¬ less lib config now query candidates k l = true := by
      intro l d hl
      simp [less_iff htokens hk hl, hnone]
    have hright : ∀ l d, candidates[l]? = some d →
        ¬ less lib config now query candidates l k = true := by
      intro l d hl
      simp [less_iff htokens hl hk, hnone]
    exact (hweak.incomp_trans ⟨i, hpos ha⟩ ⟨k, hpos hk⟩ ⟨j, hpos hb⟩
      ⟨hright i a ha, hleft i a ha⟩ ⟨hleft j b hb, hright j b hb⟩).1 hless
  · rintro ⟨hnumbers, hless⟩
    exact ⟨weakOn_less htokens hnumbers, hless⟩

end Order

end Rule

end Vectron.Reranker
