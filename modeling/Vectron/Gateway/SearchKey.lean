import Vectron.Foundation.Text

/-! # The key of a search in the gateway

`computeSearchCacheKeyWithMode` in `apigateway/cmd/apigateway/main.go` hashes the parts of a
request one after the other, without their lengths and with nothing between them. Text is
taken as its bytes, and the components of a vector as their bits.
-/

namespace Vectron.Gateway

open Foundation

/-- What the key reads of a `SearchRequest`. -/
structure KeyedSearch where
  vector : List UInt32
  collection : Bytes
  query : Bytes
  topK : UInt32
  includeVectors : Bool
deriving DecidableEq

/-- `cfg.RerankMode` and `cfg.RerankEnabled`. -/
structure RerankSettings where
  rerankMode : Bytes
  rerankEnabled : Bool

namespace KeyedSearch

variable (cfg : RerankSettings)

/-- The mode that enters the key. -/
def modeUsed (req : KeyedSearch) : Bytes :=
  if cfg.rerankEnabled && req.query ≠ [] then cfg.rerankMode else []

/-- The bytes that `computeSearchCacheKeyWithMode` hashes. -/
def keyBytes (req : KeyedSearch) : Bytes :=
  req.vector.flatMap putUint32 ++ (req.collection ++ (req.query ++ req.modeUsed cfg)) ++
    (putUint32 req.topK ++ [if req.includeVectors then 1 else 0])

/-- The bytes of the second request are those of the first, read with another end of the vector
or with another end of the collection. -/
inductive ReadsOn (a b : KeyedSearch) : Prop
  | vector (more : List UInt32) : more ≠ [] → b.vector = a.vector ++ more →
      a.collection ++ (a.query ++ a.modeUsed cfg) =
        more.flatMap putUint32 ++ (b.collection ++ (b.query ++ b.modeUsed cfg)) → ReadsOn a b
  | collection (more : Bytes) : more ≠ [] → b.vector = a.vector →
      b.collection = a.collection ++ more →
      a.query ++ a.modeUsed cfg = more ++ (b.query ++ b.modeUsed cfg) → ReadsOn a b

/-- Two requests for as many results have the same bytes, cut at different places. -/
def Confused (a b : KeyedSearch) : Prop :=
  a.topK = b.topK ∧ a.includeVectors = b.includeVectors ∧ (a.ReadsOn cfg b ∨ b.ReadsOn cfg a)

variable {cfg} {a b : KeyedSearch}

/-- The query ends before the mode, which an empty query goes without. -/
theorem query_eq_of_asked (h : a.query ++ a.modeUsed cfg = b.query ++ b.modeUsed cfg) :
    a.query = b.query := by
  simp only [modeUsed, Bool.and_eq_true, decide_eq_true_eq] at h
  by_cases ha : a.query = [] <;> by_cases hb : b.query = [] <;>
    by_cases henabled : cfg.rerankEnabled = true <;> simp_all

theorem keyBytes_eq_iff : a.keyBytes cfg = b.keyBytes cfg ↔
    a.topK = b.topK ∧ a.includeVectors = b.includeVectors ∧
      a.vector.flatMap putUint32 ++ (a.collection ++ (a.query ++ a.modeUsed cfg)) =
        b.vector.flatMap putUint32 ++ (b.collection ++ (b.query ++ b.modeUsed cfg)) := by
  constructor
  · intro h
    obtain ⟨hbody, htail⟩ := List.append_inj' h rfl
    obtain ⟨htopK, hflag⟩ := List.append_inj htail rfl
    refine ⟨Coded.putUint32.injective htopK, ?_, hbody⟩
    revert hflag
    cases a.includeVectors <;> cases b.includeVectors <;> simp
  · rintro ⟨htopK, hflag, hbody⟩
    rw [keyBytes, keyBytes, htopK, hflag, hbody]

theorem ReadsOn.ne (hreads : a.ReadsOn cfg b) : a ≠ b := by
  rintro rfl
  cases hreads with
  | vector more hmore hvector _ => simp [hmore] at hvector
  | collection more hmore _ hcollection _ => simp [hmore] at hcollection

theorem ReadsOn.body_eq (hreads : a.ReadsOn cfg b) :
    a.vector.flatMap putUint32 ++ (a.collection ++ (a.query ++ a.modeUsed cfg)) =
      b.vector.flatMap putUint32 ++ (b.collection ++ (b.query ++ b.modeUsed cfg)) := by
  cases hreads with
  | vector more _ hvector hrest => simp [hvector, hrest]
  | collection more _ hvector hcollection hasked => simp [hvector, hcollection, hasked]

theorem Confused.keyBytes_eq (hconfused : Confused cfg a b) : a.keyBytes cfg = b.keyBytes cfg := by
  obtain ⟨htopK, hflag, hreads | hreads⟩ := hconfused
  · exact keyBytes_eq_iff.mpr ⟨htopK, hflag, hreads.body_eq⟩
  · exact keyBytes_eq_iff.mpr ⟨htopK, hflag, hreads.body_eq.symm⟩

theorem Confused.ne (hconfused : Confused cfg a b) : a ≠ b := by
  obtain ⟨-, -, hreads | hreads⟩ := hconfused
  · exact hreads.ne
  · exact hreads.ne.symm

/-- Of two vectors one starts the other. -/
theorem vector_eq_or_readsOn
    (hbody : a.vector.flatMap putUint32 ++ (a.collection ++ (a.query ++ a.modeUsed cfg)) =
      b.vector.flatMap putUint32 ++ (b.collection ++ (b.query ++ b.modeUsed cfg)))
    (hle : a.vector.length ≤ b.vector.length) : a.vector = b.vector ∨ a.ReadsOn cfg b := by
  obtain ⟨more, hvector, hrest⟩ := Coded.putUint32.flatMap_append_of_le hle hbody
  by_cases hmore : more = []
  · left
    rw [hvector, hmore, List.append_nil]
  · exact Or.inr (.vector more hmore hvector hrest)

/-- Of two collections one starts the other. -/
theorem collection_eq_or_readsOn (hvector : a.vector = b.vector)
    (hrest : a.collection ++ (a.query ++ a.modeUsed cfg) =
      b.collection ++ (b.query ++ b.modeUsed cfg)) :
    a.collection = b.collection ∨ a.ReadsOn cfg b ∨ b.ReadsOn cfg a := by
  rcases List.append_eq_append_iff.mp hrest with
    ⟨more, hcollection, hasked⟩ | ⟨more, hcollection, hasked⟩
  all_goals
    by_cases hmore : more = []
    · left
      simp [hcollection, hmore]
  · exact Or.inr (Or.inl (.collection more hmore hvector.symm hcollection hasked))
  · exact Or.inr (Or.inr (.collection more hmore hvector hcollection hasked))

theorem eq_or_confused (h : a.keyBytes cfg = b.keyBytes cfg) : a = b ∨ Confused cfg a b := by
  obtain ⟨htopK, hflag, hbody⟩ := keyBytes_eq_iff.mp h
  have hvector : a.vector = b.vector ∨ a.ReadsOn cfg b ∨ b.ReadsOn cfg a := by
    rcases Nat.le_total a.vector.length b.vector.length with hle | hle
    · exact (vector_eq_or_readsOn hbody hle).imp_right Or.inl
    · exact (vector_eq_or_readsOn hbody.symm hle).imp Eq.symm Or.inr
  rcases hvector with hvector | hreads
  · rw [hvector] at hbody
    have hrest := List.append_cancel_left hbody
    rcases collection_eq_or_readsOn hvector hrest with hcollection | hreads
    · left
      rw [hcollection] at hrest
      have hquery := query_eq_of_asked (List.append_cancel_left hrest)
      obtain ⟨_, _, _, _, _⟩ := a
      cases b
      simp_all
    · exact Or.inr ⟨htopK, hflag, hreads⟩
  · exact Or.inr ⟨htopK, hflag, hreads⟩

/-- The bytes determine two requests exactly if they are not the same bytes cut at different
places. -/
theorem keyBytes_determine_iff (cfg : RerankSettings) (a b : KeyedSearch) :
    (a.keyBytes cfg = b.keyBytes cfg →
      a = b ∧ a.modeUsed cfg = b.modeUsed cfg) ↔ ¬Confused cfg a b := by
  constructor
  · intro hdetermine hconfused
    exact hconfused.ne (hdetermine hconfused.keyBytes_eq).1
  · intro hclear h
    obtain rfl := (eq_or_confused h).resolve_right hclear
    exact ⟨rfl, rfl⟩

/-- "b" asked of the collection "a" and an empty query of the collection "ab". -/
theorem collection_runs_into_query :
    keyBytes ⟨[], false⟩ ⟨[0], [97], [98], 10, false⟩ =
        keyBytes ⟨[], false⟩ ⟨[0], [97, 98], [], 10, false⟩ ∧
      (⟨[0], [97], [98], 10, false⟩ : KeyedSearch) ≠ ⟨[0], [97, 98], [], 10, false⟩ := by
  decide

end KeyedSearch

end Vectron.Gateway
