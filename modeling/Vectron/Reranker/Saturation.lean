import Vectron.Reranker.Rule

/-! # The saturation of a match

The quotient that should saturate a term frequency divides the frequency by itself twice. It is one
half whatever the document is, so the BM25 part of a score does not see which tokens a document
contains.
-/

namespace Vectron.Reranker.Rule

open Foundation Placement

variable {lib : Library} {config : Config}

/-! ## Any weights of the tokens -/

section Weighted

variable (config) (idf : Text → Rat) (avgDL : Rat)

/-- The frequency of a token, by the field that contains it. -/
def tokenFrequency (doc : DocumentFields) (token : Text) : Rat :=
  if contains doc.titleLower token then config.titleWeight
  else if contains doc.allLower token then config.contentWeight
  else 1

/-- `bm25Term` for any inverse document frequency and average length. -/
def bm25TermOf (doc : DocumentFields) (token : Text) : Score :=
  let tf := tokenFrequency config doc token
  let tfNorm := tf * (config.bm25K1 * (1 - config.bm25B + config.bm25B * doc.length / avgDL))
  if tfNorm + tfNorm = 0 then none else some (idf token * (tfNorm / (tfNorm + tfNorm)))

/-- `calculateBM25` for any inverse document frequency and average length. -/
def bm25Of (doc : DocumentFields) (queryTokens : List Text) : Score :=
  if doc.length = 0 ∨ queryTokens.length = 0 then some 0
  else do
    let terms ← queryTokens.mapM (bm25TermOf config idf avgDL doc)
    return terms.sum / queryTokens.length

/-- The score of the strategy is the one for its own frequencies. -/
theorem calculateBM25_eq (doc : DocumentFields) (docs : List DocumentFields)
    (queryTokens : List Text) :
    calculateBM25 lib config doc docs queryTokens =
      bm25Of config (fun token => lib.log ((docs.length : Rat) /
        ((if docFreq docs token = 0 then 1 else docFreq docs token : Nat) : Rat) + 1))
        (calculateAverageDocLength docs) doc queryTokens := by
  unfold calculateBM25 bm25Of
  split
  next => rfl
  next =>
    have hterm : bm25Term lib config doc docs = bm25TermOf config (fun token =>
        lib.log ((docs.length : Rat) /
          ((if docFreq docs token = 0 then 1 else docFreq docs token : Nat) : Rat) + 1))
        (calculateAverageDocLength docs) doc := by
      funext token
      simp [bm25Term, bm25TermOf, tokenFrequency]
    rw [hterm]

end Weighted

/-! ## One half of every token -/

/-- The parameters and weights of a ranking that rewards matches. -/
structure Rewarding (config : Config) (idf : Text → Rat) (avgDL : Rat) : Prop where
  idf : ∀ token, 0 < idf token
  k1 : 0 < config.bm25K1
  b_nonneg : 0 ≤ config.bm25B
  b_lt : config.bm25B < 1
  avgDL : 0 < avgDL
  content : 0 < config.contentWeight
  title : config.contentWeight < config.titleWeight

variable {idf : Text → Rat} {avgDL : Rat} {doc : DocumentFields} {queryTokens : List Text}

theorem Rewarding.tokenFrequency_pos (hrewarding : Rewarding config idf avgDL)
    (doc : DocumentFields) (token : Text) : 0 < tokenFrequency config doc token := by
  have hcontent := hrewarding.content
  have htitle := hrewarding.title
  unfold tokenFrequency
  split
  next => exact hcontent.trans htitle
  next =>
    split
    next => exact hcontent
    next => exact one_pos

theorem Rewarding.bm25TermOf_eq (hrewarding : Rewarding config idf avgDL) (doc : DocumentFields)
    (token : Text) : bm25TermOf config idf avgDL doc token = some (idf token * (1 / 2)) := by
  have hlength : 0 ≤ config.bm25B * doc.length / avgDL :=
    div_nonneg (mul_nonneg hrewarding.b_nonneg (Nat.cast_nonneg _)) hrewarding.avgDL.le
  have hnorm : 0 < 1 - config.bm25B + config.bm25B * doc.length / avgDL := by
    have hb := hrewarding.b_lt
    linarith
  have hpos : 0 < tokenFrequency config doc token *
      (config.bm25K1 * (1 - config.bm25B + config.bm25B * doc.length / avgDL)) :=
    mul_pos (hrewarding.tokenFrequency_pos doc token) (mul_pos hrewarding.k1 hnorm)
  simp only [bm25TermOf]
  generalize tokenFrequency config doc token *
    (config.bm25K1 * (1 - config.bm25B + config.bm25B * doc.length / avgDL)) = tfNorm at hpos
  rw [if_neg (by linarith)]
  congr 2
  field_simp
  norm_num

/-- Only the query and the weights of its tokens are left of a score. -/
theorem Rewarding.bm25Of_eq (hrewarding : Rewarding config idf avgDL) (hdoc : doc.length ≠ 0)
    (hquery : queryTokens ≠ []) :
    bm25Of config idf avgDL doc queryTokens =
      some ((queryTokens.map fun token => idf token * (1 / 2)).sum / queryTokens.length) := by
  have hlength : queryTokens.length ≠ 0 := fun hzero => hquery (List.length_eq_zero_iff.mp hzero)
  have hterms : queryTokens.mapM (bm25TermOf config idf avgDL doc) =
      some (queryTokens.map fun token => idf token * (1 / 2)) := by
    clear hquery hlength
    induction queryTokens with
    | nil => rfl
    | cons token rest ih => simp [hrewarding.bm25TermOf_eq, ih]
  rw [bm25Of, if_neg (not_or.mpr ⟨hdoc, hlength⟩), hterms]
  rfl

/-! ## No match is rewarded -/

/-- The document contains the token in some field. -/
def Matches (doc : DocumentFields) (token : Text) : Prop :=
  contains doc.titleLower token = true ∨ contains doc.allLower token = true

/-- One document contains every token of the query that the other does, in a field of at least the
same weight, and one more. -/
structure Outmatches (config : Config) (queryTokens : List Text) (doc other : DocumentFields) :
    Prop where
  covers : ∀ token ∈ queryTokens, Matches other token →
    Matches doc token ∧ tokenFrequency config other token ≤ tokenFrequency config doc token
  extra : ∃ token ∈ queryTokens, Matches doc token ∧ ¬ Matches other token

/-- A document with more matches than another one of the same length never has a greater score:
the scores are equal. -/
theorem bm25_rewards_nothing (hrewarding : Rewarding config idf avgDL) {other : DocumentFields}
    (hquery : queryTokens ≠ []) (hlength : doc.length = other.length) (hdoc : doc.length ≠ 0)
    (_hmore : Outmatches config queryTokens doc other) :
    bm25Of config idf avgDL doc queryTokens = bm25Of config idf avgDL other queryTokens ∧
      Score.lt (bm25Of config idf avgDL other queryTokens)
        (bm25Of config idf avgDL doc queryTokens) = false := by
  rw [hrewarding.bm25Of_eq hdoc hquery, hrewarding.bm25Of_eq (hlength ▸ hdoc) hquery]
  exact ⟨rfl, by simp [Score.lt]⟩

/-- A document with the given tokens, all of them outside the title. -/
def body (tokens : List Text) : DocumentFields where
  titleLower := []
  allLower := [' '].intercalate tokens
  tokens := tokens
  metadata := ∅

theorem rewarding_default : Rewarding defaultConfig (fun _ => 1) 2 := by
  constructor <;> simp [defaultConfig] <;> norm_num

theorem outmatches_red :
    Outmatches defaultConfig [['r', 'e', 'd']] (body [['r', 'e', 'd'], ['c', 'a', 'r']])
      (body [['o', 'l', 'd'], ['c', 'a', 'r']]) := by
  constructor
  · intro token htoken hmatches
    obtain rfl := List.mem_singleton.mp htoken
    exact absurd hmatches (by unfold Matches; decide)
  · exact ⟨['r', 'e', 'd'], by simp, by unfold Matches; decide, by unfold Matches; decide⟩

/-- The query `red` gives the document `red car` the score of the document `old car`. -/
theorem bm25_rewards_nothing_red :
    bm25Of defaultConfig (fun _ => 1) 2 (body [['r', 'e', 'd'], ['c', 'a', 'r']])
        [['r', 'e', 'd']] =
      bm25Of defaultConfig (fun _ => 1) 2 (body [['o', 'l', 'd'], ['c', 'a', 'r']])
        [['r', 'e', 'd']] := by
  have hlength : (body [['r', 'e', 'd'], ['c', 'a', 'r']]).length =
      (body [['o', 'l', 'd'], ['c', 'a', 'r']]).length := rfl
  exact (bm25_rewards_nothing rewarding_default (by simp) hlength (by decide) outmatches_red).1

/-- A match is not rewarded under every configuration that should reward it. -/
theorem bm25_not_monotone :
    ¬ ∀ (config : Config) (idf : Text → Rat) (avgDL : Rat) (queryTokens : List Text)
      (doc other : DocumentFields), Rewarding config idf avgDL → queryTokens ≠ [] →
      doc.length = other.length → doc.length ≠ 0 → Outmatches config queryTokens doc other →
      Score.lt (bm25Of config idf avgDL other queryTokens)
        (bm25Of config idf avgDL doc queryTokens) = true := by
  intro hrewards
  have hlt := hrewards defaultConfig (fun _ => 1) 2 [['r', 'e', 'd']]
    (body [['r', 'e', 'd'], ['c', 'a', 'r']]) (body [['o', 'l', 'd'], ['c', 'a', 'r']])
    rewarding_default (by simp) rfl (by decide) outmatches_red
  rw [rewarding_default.bm25Of_eq (by decide) (by simp),
    rewarding_default.bm25Of_eq (by decide) (by simp)] at hlt
  simp [Score.lt] at hlt

end Vectron.Reranker.Rule
