import Vectron.Foundation.Text
import Vectron.Placement.Placement

/-! # What a reranking strategy reads and returns

The records, the validation and the cache keys of `reranker/internal/strategy.go`. The server
tests scores for being finite and otherwise only passes them on, so their type is a
parameter. Strings come from gRPC messages and are valid UTF-8: a text is a list of characters,
and texts compare as their bytes do. Maps are only looked up.
-/

namespace Vectron.Reranker

open Foundation Placement

abbrev Text := List Char

abbrev StringMap := Finmap fun _ : Text => Text

variable {F : Type}

structure Candidate (F : Type) where
  id : Text
  score : F
  vector : List F
  metadata : StringMap

structure RerankInput (F : Type) where
  query : Text
  candidates : List (Candidate F)
  topN : Int
  options : StringMap

structure ScoredCandidate (F : Type) where
  id : Text
  rerankScore : F
  originalScore : F
  explanation : String
deriving DecidableEq

structure RerankOutput (F : Type) where
  results : List (ScoredCandidate F)
  latency : Nat
  metadata : List (String × String)

/-- A strategy; `needsCandidateVectors` is true for one that does not say. A rerank returns an
error, no output, or an output. -/
structure Strategy (F : Type) where
  name : String
  needsCandidateVectors : Bool
  rerank : RerankInput F → Except String (Option (RerankOutput F))

/-! ## Validation -/

structure ValidationError where
  field : String
  message : String
deriving DecidableEq

def ValidationError.error (e : ValidationError) : String :=
  "validation error on field '" ++ e.field ++ "': " ++ e.message

/-- The check of one candidate in `ValidateRerankInput`. -/
def validateCandidate (isFinite : F → Bool) (i : Nat) (c : Candidate F) : Option ValidationError :=
  if trimSpace c.id = [] then some ⟨s!"candidates[{i}].id", "id cannot be empty"⟩
  else if isFinite c.score then none
  else some ⟨s!"candidates[{i}].score", "score must be a finite number"⟩

/-- `ValidateRerankInput`: the input with `TopN` adjusted, or the first error. -/
def validateRerankInput (isFinite : F → Bool) (input : RerankInput F) :
    Except ValidationError (RerankInput F) :=
  if input.candidates.length = 0 then .error ⟨"candidates", "candidates list is empty"⟩
  else if input.topN ≤ 0 then .error ⟨"top_n", "top_n must be positive"⟩
  else
    match input.candidates.zipIdx.findSome? fun c => validateCandidate isFinite c.2 c.1 with
    | some e => .error e
    | none =>
        if input.topN > input.candidates.length then
          .ok { input with topN := input.candidates.length }
        else .ok input

/-- What validation accepts. -/
structure RerankInput.Valid (isFinite : F → Bool) (input : RerankInput F) : Prop where
  candidates : input.candidates ≠ []
  topN_pos : 0 < input.topN
  ids : ∀ c ∈ input.candidates, trimSpace c.id ≠ []
  scores : ∀ c ∈ input.candidates, isFinite c.score = true

/-- `TopN` cut to the number of candidates. -/
def RerankInput.adjust (input : RerankInput F) : RerankInput F :=
  { input with topN := min input.topN input.candidates.length }

section

variable {isFinite : F → Bool}

theorem validateCandidate_eq_none {i : Nat} {c : Candidate F} :
    validateCandidate isFinite i c = none ↔ trimSpace c.id ≠ [] ∧ isFinite c.score = true := by
  unfold validateCandidate
  split <;> simp [*]

theorem validateRerankInput_of_valid {input : RerankInput F} (hvalid : input.Valid isFinite) :
    validateRerankInput isFinite input = .ok input.adjust := by
  have hcandidates : input.candidates.length ≠ 0 := by simpa using hvalid.candidates
  have hchecks : input.candidates.zipIdx.findSome?
      (fun c => validateCandidate isFinite c.2 c.1) = none := by
    rw [List.findSome?_eq_none_iff]
    intro c hc
    have hmem := List.fst_mem_of_mem_zipIdx hc
    exact validateCandidate_eq_none.mpr ⟨hvalid.ids _ hmem, hvalid.scores _ hmem⟩
  rw [validateRerankInput, if_neg hcandidates, if_neg (not_le.mpr hvalid.topN_pos), hchecks]
  dsimp only
  split
  next htop => simp [RerankInput.adjust, min_eq_right (le_of_lt htop)]
  next htop => simp [RerankInput.adjust, min_eq_left (not_lt.mp htop)]

theorem valid_of_validateRerankInput {input output : RerankInput F}
    (hok : validateRerankInput isFinite input = .ok output) : input.Valid isFinite := by
  rw [validateRerankInput] at hok
  split at hok
  next => contradiction
  next hcandidates =>
    split at hok
    next => contradiction
    next htop =>
      split at hok
      next => contradiction
      next hchecks =>
        rw [List.findSome?_eq_none_iff] at hchecks
        have hcheck : ∀ c ∈ input.candidates, trimSpace c.id ≠ [] ∧ isFinite c.score = true := by
          intro c hc
          obtain ⟨i, hi⟩ := List.mem_iff_getElem?.mp hc
          have hmem : (c, i) ∈ input.candidates.zipIdx := List.mk_mem_zipIdx_iff_getElem?.mpr hi
          exact validateCandidate_eq_none.mp (hchecks (c, i) hmem)
        exact ⟨by simpa using hcandidates, not_le.mp htop, fun c hc => (hcheck c hc).1,
          fun c hc => (hcheck c hc).2⟩

theorem validateRerankInput_eq_ok_iff {input output : RerankInput F} :
    validateRerankInput isFinite input = .ok output ↔
      input.Valid isFinite ∧ output = input.adjust := by
  constructor
  · intro hok
    have hvalid := valid_of_validateRerankInput hok
    rw [validateRerankInput_of_valid hvalid] at hok
    exact ⟨hvalid, (Except.ok.inj hok).symm⟩
  · rintro ⟨hvalid, rfl⟩
    exact validateRerankInput_of_valid hvalid

end

/-! ## Cache keys -/

/-- The digit of a half byte in `hex.EncodeToString`. -/
def hexDigit (n : Nat) : Char := ['0', '1', '2', '3', '4', '5', '6', '7', '8', '9', 'a', 'b', 'c',
  'd', 'e', 'f'].getD n '0'

/-- `hex.EncodeToString`. -/
def encodeToString (bytes : List UInt8) : Text :=
  bytes.flatMap fun byte => [hexDigit (byte.toNat / 16), hexDigit (byte.toNat % 16)]

theorem hexDigit_injective :
    ∀ m < 16, ∀ n < 16, hexDigit m = hexDigit n → m = n := by decide

theorem encodeToString_injective : Function.Injective encodeToString := by
  intro left right heq
  induction left generalizing right with
  | nil =>
      cases right with
      | nil => rfl
      | cons byte right => simp [encodeToString] at heq
  | cons byte left ih =>
      cases right with
      | nil => simp [encodeToString] at heq
      | cons byte' right =>
          simp only [encodeToString, List.flatMap_cons, List.cons_append, List.nil_append,
            List.cons.injEq] at heq
          obtain ⟨hhigh, hlow, hrest⟩ := heq
          have hbyte := byte.toNat_lt
          have hbyte' := byte'.toNat_lt
          have hhigh := hexDigit_injective _ (by omega) _ (by omega) hhigh
          have hlow := hexDigit_injective _ (by omega) _ (by omega) hlow
          have heq : byte = byte' := UInt8.toNat_inj.mp (by omega)
          rw [heq, ih hrest]

/-- The bytes of a text. -/
def utf8 (text : Text) : List UInt8 := (String.ofList text).toUTF8.data.toList

theorem utf8_injective : Function.Injective utf8 := by
  intro left right heq
  rw [← String.ofList_inj, ← String.toByteArray_inj]
  exact ByteArray.ext (Array.toList_inj.mp heq)

/-- What `CacheKey` hashes. -/
def keyData (query : Text) (candidateIDs : List Text) : Text :=
  query ++ ['|'] ++ [','].intercalate (candidateIDs.insertionSort (· ≤ ·))

section Keys

variable (unicode : Unicode) (sha256 : List UInt8 → List UInt8)

/-- `CacheKey`. -/
def cacheKey (query : Text) (candidateIDs : List Text) : Text :=
  encodeToString (sha256 (utf8 (keyData query candidateIDs)))

/-- The query that `CacheKeyWithOptions` hashes. -/
def keyQuery (query : Text) (options : StringMap) : Text :=
  let mode :=
    match options.lookup "mode".toList with
    | some v => (trimSpace v).map unicode.toLower
    | none => []
  if mode = [] then query else query ++ "|mode=".toList ++ mode

/-- `CacheKeyWithOptions`. -/
def cacheKeyWithOptions (query : Text) (candidateIDs : List Text) (options : StringMap) : Text :=
  cacheKey sha256 (keyQuery unicode query options) candidateIDs

end Keys

end Vectron.Reranker
