import Vectron.Gateway.Rerank

/-! # How many results a search asks for

The limits at the start of `searchUncached` and `searchStreamUncached` in
`apigateway/cmd/apigateway/main.go`. `TopK` has 32 bits and is doubled in them; an `int` has
64, in which nothing below can overflow. The number that is sent to a worker has 32 bits and a
sign.
-/

namespace Vectron.Gateway

open Reranker

/-- `Search` and `SearchStream` on a request without a limit. -/
def defaultedTopK (topK : UInt32) : UInt32 := if topK = 0 then 10 else topK

def requestedTopK (topK : UInt32) : Nat :=
  let workerTopK := (topK * 2).toNat
  let workerTopK := if workerTopK < topK.toNat then topK.toNat else workerTopK
  let capLimit := 100
  let capLimit := if topK.toNat > capLimit then topK.toNat else capLimit
  if workerTopK > capLimit then capLimit else workerTopK

/-- `candidateLimit` without the rule for short queries. -/
def doubledLimit (topK : UInt32) (workerTopK : Nat) : Nat :=
  let candidateLimit := (topK * 2).toNat
  if candidateLimit > workerTopK then workerTopK else candidateLimit

/-- The rule for queries of one or two bytes. -/
def shortened (topK : UInt32) (queryLength candidateLimit : Nat) : Nat :=
  if 0 < queryLength ∧ queryLength < 3 then
    let shortQueryLimit := topK.toNat + topK.toNat / 2
    let shortQueryLimit := if shortQueryLimit < 1 then 1 else shortQueryLimit
    if shortQueryLimit < candidateLimit then shortQueryLimit else candidateLimit
  else candidateLimit

/-- `workerTopK` and `candidateLimit`. -/
structure SearchLimits where
  workerTopK : Nat
  candidateLimit : Nat
deriving DecidableEq

namespace SearchLimits

/-- The limits of `searchStreamUncached`. -/
def stream (topK : UInt32) (queryLength : Nat) : SearchLimits where
  workerTopK := requestedTopK topK
  candidateLimit := shortened topK queryLength (doubledLimit topK (requestedTopK topK))

/-- The limits of `searchUncached`, which asks for no more than it returns when it does not
rerank. -/
def unary (reranks : Bool) (topK : UInt32) (queryLength : Nat) : SearchLimits :=
  if !reranks then ⟨topK.toNat, topK.toNat⟩ else stream topK queryLength

/-- `workerReq.K`, which takes the place of what `ToWorkerSearchRequest` has put there. -/
def k (limits : SearchLimits) : Int32 := Int32.ofNat limits.workerTopK

/-- Both limits reach the number of results asked for, and ask for some. -/
structure Enough (limits : SearchLimits) (topK : UInt32) : Prop where
  sent : (topK.toNat : Int) ≤ limits.k.toInt
  sent_pos : 0 < limits.k.toInt
  kept : topK.toNat ≤ limits.candidateLimit
  kept_pos : 0 < limits.candidateLimit

end SearchLimits

/-- The limits of `Search` and of `SearchStream` are enough. -/
def LimitsEnough (cfg : Config) (collection query : Text) (topK : UInt32) : Prop :=
  let topK := defaultedTopK topK
  let reranks := shouldUseReranker cfg ⟨collection, topK.toNat, query⟩
  let queryLength := (String.ofList query).utf8ByteSize
  (SearchLimits.unary reranks topK queryLength).Enough topK ∧
    (SearchLimits.stream topK queryLength).Enough topK

section Limits

variable {topK : UInt32}

theorem toNat_double_of_lt (hsmall : topK.toNat < 2 ^ 31) : (topK * 2).toNat = topK.toNat * 2 := by
  rw [UInt32.toNat_mul]
  exact Nat.mod_eq_of_lt (by change topK.toNat * 2 < 2 ^ 32; omega)

/-- From half the range on, doubling loses. -/
theorem toNat_double_lt (hlarge : 2 ^ 31 ≤ topK.toNat) : (topK * 2).toNat < topK.toNat := by
  have hlt := topK.toNat_lt
  rw [UInt32.toNat_mul]
  change topK.toNat * 2 % 2 ^ 32 < topK.toNat
  omega

theorem requestedTopK_of_lt (hsmall : topK.toNat < 2 ^ 31) :
    topK.toNat ≤ requestedTopK topK ∧ requestedTopK topK < 2 ^ 31 := by
  unfold requestedTopK
  rw [toNat_double_of_lt hsmall]
  grind

theorem requestedTopK_of_le (hlarge : 2 ^ 31 ≤ topK.toNat) : requestedTopK topK = topK.toNat := by
  have hdouble := toNat_double_lt hlarge
  unfold requestedTopK
  grind

theorem le_shortened {queryLength candidateLimit : Nat} (hle : topK.toNat ≤ candidateLimit) :
    topK.toNat ≤ shortened topK queryLength candidateLimit := by
  unfold shortened
  grind

theorem toInt_ofNat_neg {n : Nat} (hlarge : 2 ^ 31 ≤ n) (hlt : n < 2 ^ 32) :
    (Int32.ofNat n).toInt < 0 := by
  rw [Int32.toInt_ofNat', Int.bmod_def]
  simp only [Int32.size]
  split <;> omega

namespace SearchLimits

theorem enough_of_le {limits : SearchLimits} (hpos : 0 < topK.toNat)
    (hworker : topK.toNat ≤ limits.workerTopK) (hsmall : limits.workerTopK < 2 ^ 31)
    (hkept : topK.toNat ≤ limits.candidateLimit) : limits.Enough topK where
  sent := by
    rw [k, Int32.toInt_ofNat_of_lt hsmall]
    exact_mod_cast hworker
  sent_pos := by
    rw [k, Int32.toInt_ofNat_of_lt hsmall]
    omega
  kept := hkept
  kept_pos := hpos.trans_le hkept

theorem stream_enough (hpos : 0 < topK.toNat) (hsmall : topK.toNat < 2 ^ 31) (queryLength : Nat) :
    (stream topK queryLength).Enough topK := by
  obtain ⟨hle, hlt⟩ := requestedTopK_of_lt hsmall
  apply enough_of_le hpos hle hlt
  apply le_shortened
  unfold doubledLimit
  rw [toNat_double_of_lt hsmall]
  grind

theorem unary_enough (hpos : 0 < topK.toNat) (hsmall : topK.toNat < 2 ^ 31) (reranks : Bool)
    (queryLength : Nat) : (unary reranks topK queryLength).Enough topK := by
  unfold unary
  split
  · exact enough_of_le hpos (le_refl _) hsmall (le_refl _)
  · exact stream_enough hpos hsmall queryLength

/-- What is sent turns negative. -/
theorem stream_not_enough (hlarge : 2 ^ 31 ≤ topK.toNat) (queryLength : Nat) :
    ¬(stream topK queryLength).Enough topK := by
  intro henough
  have hneg : (stream topK queryLength).k.toInt < 0 := by
    rw [k, stream, requestedTopK_of_le hlarge]
    exact toInt_ofNat_neg hlarge topK.toNat_lt
  have hpos := henough.sent_pos
  omega

end SearchLimits

theorem defaultedTopK_pos (topK : UInt32) : 0 < (defaultedTopK topK).toNat := by
  unfold defaultedTopK
  split
  · decide
  next hne =>
    rw [Nat.pos_iff_ne_zero]
    exact fun hzero => hne (UInt32.toNat_inj.mp hzero)

theorem defaultedTopK_lt_iff (topK : UInt32) :
    (defaultedTopK topK).toNat < 2 ^ 31 ↔ topK.toNat < 2 ^ 31 := by
  unfold defaultedTopK
  split
  next hzero => simp [hzero]
  next => exact Iff.rfl

/-- The limits are enough exactly up to the largest number that a worker can be asked for. -/
theorem limitsEnough_iff (cfg : Config) (collection query : Text) (topK : UInt32) :
    LimitsEnough cfg collection query topK ↔ topK.toNat < 2 ^ 31 := by
  rw [← defaultedTopK_lt_iff]
  constructor
  · rintro ⟨-, hstream⟩
    by_contra hlarge
    exact SearchLimits.stream_not_enough (Nat.le_of_not_lt hlarge) _ hstream
  · intro hsmall
    exact ⟨SearchLimits.unary_enough (defaultedTopK_pos topK) hsmall _ _,
      SearchLimits.stream_enough (defaultedTopK_pos topK) hsmall _⟩

/-- Of 2 ^ 31 results the stream keeps none and asks a worker for a negative number. -/
theorem largest_bit_wraps : SearchLimits.stream 2147483648 0 = ⟨2147483648, 0⟩ ∧
    (SearchLimits.stream 2147483648 0).k = -2147483648 ∧
    ¬LimitsEnough rerankAll [] [] 2147483648 := by
  refine ⟨by decide, by decide, ?_⟩
  rintro ⟨-, hstream⟩
  exact SearchLimits.stream_not_enough (by decide) _ hstream

end Limits

end Vectron.Gateway
