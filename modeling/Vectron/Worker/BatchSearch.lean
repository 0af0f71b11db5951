import Mathlib.Data.List.Perm.Basic
import Vectron.Worker.Broadcast

/-! # Batches of searches

The lease checks of `Search` and `BatchSearch` in `worker/internal/grpc.go`. What a search finds
once it has passed its checks is given from outside, and so are the readings of the clock and of
the shard manager that a check makes.
-/

namespace Vectron.Worker

open Foundation

variable {S : Type}

/-- What the checks read of a `worker.SearchRequest`. -/
structure LeasedSearch where
  shardID : UInt64
  shardEpoch : UInt64
  leaseExpiryUnixMs : Int
  vector : List UInt32
  linearizable : Bool
  bruteForce : Bool
deriving DecidableEq

inductive SearchRejection where
  /-- `InvalidArgument`, "batch search requests are empty" -/
  | emptyBatch
  /-- `InvalidArgument`, "search vector is empty" -/
  | emptyVector
  /-- `FailedPrecondition`, "missing shard epoch" -/
  | missingShardEpoch
  /-- `FailedPrecondition`, "stale shard epoch (have %d, want %d)" -/
  | staleShardEpoch (shardEpoch current : UInt64)
  /-- `FailedPrecondition`, "shard lease expired" -/
  | leaseExpired
  /-- `FailedPrecondition`, "linearizable reads not supported on search-only worker" -/
  | linearizable
  /-- `FailedPrecondition`, "brute force search not supported on search-only worker" -/
  | bruteForce
  /-- the search itself fails -/
  | search (status : SearchStatus)
deriving DecidableEq

/-- What a check reads: `GetShardEpoch` and the clock. -/
structure LeaseReading where
  shardEpoch : UInt64 → UInt64
  now : Int

def validateShardLease (reading : LeaseReading) (request : LeasedSearch) :
    Except SearchRejection Unit :=
  if request.shardID = 0 then .ok ()
  else if request.shardEpoch = 0 then .error .missingShardEpoch
  else
    let current := reading.shardEpoch request.shardID
    if current = 0 ∨ request.shardEpoch ≠ current then
      .error (.staleShardEpoch request.shardEpoch current)
    else if 0 < request.leaseExpiryUnixMs ∧ request.leaseExpiryUnixMs < reading.now then
      .error .leaseExpired
    else .ok ()

/-- What a worker that only searches does not do. -/
def checkSearchOnly (searchOnly : Bool) (request : LeasedSearch) : Except SearchRejection Unit :=
  if searchOnly && request.linearizable then .error .linearizable
  else if searchOnly && request.bruteForce then .error .bruteForce
  else .ok ()

/-- `searchCore` up to its search, and what this finds. -/
def searchCore (searchOnly : Bool) (request : LeasedSearch)
    (found : Except SearchStatus (ShardSearchResult S)) : Except SearchRejection
      (ShardSearchResult S) := do
  checkSearchOnly searchOnly request
  found.mapError .search

/-- `Search` up to its cache, and what it returns from there on. -/
def unarySearch (searchOnly : Bool) (reading : LeaseReading) (request : LeasedSearch)
    (found : Except SearchRejection (ShardSearchResult S)) :
    Except SearchRejection (ShardSearchResult S) := do
  if request.vector = [] then throw .emptyVector
  validateShardLease reading request
  checkSearchOnly searchOnly request
  found

/-- What the environment of a batch decides: the readings and the search of the request at each
position. -/
structure BatchRun (S : Type) where
  readings : Nat → LeaseReading
  found : Nat → Except SearchStatus (ShardSearchResult S)
  /-- the order in which the goroutines come to an end -/
  order : List Nat

section Batch

variable (searchOnly : Bool) (run : BatchRun S)

/-- The goroutine of a request. -/
def searchOne (requests : List LeasedSearch) (i : Nat) : Except SearchRejection (ShardSearchResult S) :=
  match requests[i]? with
  | none => .ok ⟨[], [], []⟩
  | some request => do
      validateShardLease (run.readings i) request
      searchCore searchOnly request (run.found i)

/-- `firstErr`. -/
def firstErr (requests : List LeasedSearch) : Option SearchRejection :=
  run.order.findSome? fun i =>
    match searchOne searchOnly run requests i with
    | .error rejection => some rejection
    | .ok _ => none

/-- `BatchSearch`. A nil request reads like one with an empty vector. -/
def batchSearch (requests : List LeasedSearch) :
    Except SearchRejection (List (ShardSearchResult S)) :=
  if requests = [] then .error .emptyBatch
  else if requests.any fun request => request.vector = [] then .error .emptyVector
  else
    match requests with
    | [request] => (searchCore searchOnly request (run.found 0)).map fun response => [response]
    | _ =>
        match firstErr searchOnly run requests with
        | some rejection => .error rejection
        | none => .ok ((List.range requests.length).filterMap fun i =>
            (searchOne searchOnly run requests i).toOption)

end Batch

/-! ## Stale requests -/

/-- The request names a shard by an older epoch, or its lease has expired. -/
def LeasedSearch.Stale (request : LeasedSearch) (reading : LeaseReading) : Prop :=
  request.shardID ≠ 0 ∧
    (request.shardEpoch < reading.shardEpoch request.shardID ∨
      0 < request.leaseExpiryUnixMs ∧ request.leaseExpiryUnixMs < reading.now)

/-- The rejections of `validateShardLease`. -/
def SearchRejection.OfLease : SearchRejection → Prop
  | .missingShardEpoch | .staleShardEpoch _ _ | .leaseExpired => True
  | _ => False

/-- The other requests of a batch have nothing that fails. -/
def OthersServed (searchOnly : Bool) (run : BatchRun S) (requests : List LeasedSearch) (i : Nat) :
    Prop :=
  ∀ j other, j ≠ i → requests[j]? = some other →
    other.vector ≠ [] ∧ ∃ response, searchOne searchOnly run requests j = .ok response

/-- Whatever the searches find and in whatever order they end, a batch with a stale request is
rejected; with the very rejection of `Search` unless something else in the batch fails. -/
def RejectsStale (S : Type) (searchOnly : Bool) (requests : List LeasedSearch)
    (readings : Nat → LeaseReading) : Prop :=
  ∀ (found : Nat → Except SearchStatus (ShardSearchResult S)) (order : List Nat),
    order.Perm (List.range requests.length) →
    ∀ i request, requests[i]? = some request → request.Stale (readings i) →
      (∃ rejection, batchSearch searchOnly ⟨readings, found, order⟩ requests = .error rejection) ∧
      (OthersServed searchOnly ⟨readings, found, order⟩ requests i →
        ∀ tail : Except SearchRejection (ShardSearchResult S), ∃ rejection,
          unarySearch searchOnly (readings i) request tail = .error rejection ∧
          batchSearch searchOnly ⟨readings, found, order⟩ requests = .error rejection)

theorem validateShardLease_stale {request : LeasedSearch} {reading : LeaseReading}
    (hstale : request.Stale reading) :
    ∃ rejection, validateShardLease reading request = .error rejection ∧ rejection.OfLease := by
  obtain ⟨hshard, hstale⟩ := hstale
  unfold validateShardLease
  rw [if_neg hshard]
  split
  · exact ⟨_, rfl, trivial⟩
  · dsimp only
    split
    · exact ⟨_, rfl, trivial⟩
    next hcurrent =>
      simp only [not_or, ne_eq, not_not] at hcurrent
      split
      · exact ⟨_, rfl, trivial⟩
      next hlease =>
        rcases hstale with hless | hexpired
        · rw [hcurrent.2] at hless
          exact absurd hless (UInt64.lt_irrefl _)
        · exact absurd hexpired hlease

theorem checkSearchOnly_not_ofLease {searchOnly : Bool} {request : LeasedSearch}
    {rejection : SearchRejection} (h : checkSearchOnly searchOnly request = .error rejection) :
    ¬ rejection.OfLease := by
  unfold checkSearchOnly at h
  split at h
  · obtain rfl := Except.error.inj h
    exact id
  · split at h
    · obtain rfl := Except.error.inj h
      exact id
    · cases h

theorem unarySearch_stale (searchOnly : Bool) {request : LeasedSearch} {reading : LeaseReading}
    {rejection : SearchRejection} (hvector : request.vector ≠ [])
    (hlease : validateShardLease reading request = .error rejection)
      (tail : Except SearchRejection (ShardSearchResult S)) :
    unarySearch searchOnly reading request tail = .error rejection := by
  rw [unarySearch, if_neg hvector, hlease]
  rfl

section

variable (searchOnly : Bool) (run : BatchRun S) {requests : List LeasedSearch}

theorem searchOne_stale {i : Nat} {request : LeasedSearch} {rejection : SearchRejection}
    (hrequest : requests[i]? = some request)
    (hlease : validateShardLease (run.readings i) request = .error rejection) :
    searchOne searchOnly run requests i = .error rejection := by
  rw [searchOne, hrequest]
  dsimp only
  rw [hlease]
  rfl

section

variable {i : Nat} {rejection : SearchRejection} (hi : i ∈ run.order)
  (hone : searchOne searchOnly run requests i = .error rejection)

include hi hone

theorem firstErr_isSome :
    ∃ rejection, firstErr searchOnly run requests = some rejection := by
  rw [← Option.isSome_iff_exists, firstErr, List.findSome?_isSome_iff]
  exact ⟨i, hi, by rw [hone]; rfl⟩

theorem firstErr_eq
    (hothers : ∀ j ∈ run.order, j ≠ i → ∃ response, searchOne searchOnly run requests j = .ok response) :
    firstErr searchOnly run requests = some rejection := by
  obtain ⟨first, hfirst⟩ := firstErr_isSome searchOnly run hi hone
  rw [hfirst]
  obtain ⟨j, hj, herror⟩ := List.exists_of_findSome?_eq_some hfirst
  by_cases hij : j = i
  · subst hij
    rw [hone] at herror
    exact herror.symm
  · obtain ⟨response, hresponse⟩ := hothers j hj hij
    rw [hresponse] at herror
    contradiction

end

/-- In a batch of several requests with vectors the goroutines decide. -/
theorem batchSearch_many (hmany : 1 < requests.length)
    (hvectors : ∀ request ∈ requests, request.vector ≠ []) :
    batchSearch searchOnly run requests =
      match firstErr searchOnly run requests with
      | some rejection => .error rejection
      | none => .ok ((List.range requests.length).filterMap fun i =>
          (searchOne searchOnly run requests i).toOption) := by
  have hnone : (requests.any fun request => request.vector = []) = false := by
    simpa using hvectors
  match requests, hmany with
  | first :: second :: rest, _ =>
      unfold batchSearch
      rw [if_neg (List.cons_ne_nil _ _), if_neg (by simp [hnone])]

theorem batchSearch_emptyVector {request : LeasedSearch} (hrequest : request ∈ requests)
    (hvector : request.vector = []) :
    batchSearch searchOnly run requests = .error .emptyVector := by
  have hany : (requests.any fun request => request.vector = []) = true :=
    List.any_eq_true.mpr ⟨request, hrequest, by simpa using hvector⟩
  unfold batchSearch
  rw [if_neg (List.ne_nil_of_mem hrequest), if_pos hany]

/-! ## Requests on their own -/

/-- What `Search` answers to the request at a position, neither from its cache nor from a search
in flight. -/
def aloneSearch (searchOnly : Bool) (run : BatchRun S) (i : Nat) (request : LeasedSearch) :
    Except SearchRejection (ShardSearchResult S) :=
  unarySearch searchOnly (run.readings i) request (searchCore searchOnly request (run.found i))

theorem aloneSearch_eq {i : Nat} {request : LeasedSearch} (hrequest : requests[i]? = some request)
    (hvector : request.vector ≠ []) :
    aloneSearch searchOnly run i request = searchOne searchOnly run requests i := by
  rw [aloneSearch, unarySearch, if_neg hvector, searchOne, hrequest]
  dsimp only
  cases hlease : validateShardLease (run.readings i) request with
  | error rejection => rfl
  | ok =>
      cases hcheck : checkSearchOnly searchOnly request with
      | error rejection =>
          rw [searchCore, hcheck]
          rfl
      | ok => rfl

end

theorem vector_of_aloneSearch {searchOnly : Bool} {run : BatchRun S} {i : Nat}
    {request : LeasedSearch} {response : ShardSearchResult S}
    (halone : aloneSearch searchOnly run i request = .ok response) : request.vector ≠ [] := by
  intro hvector
  rw [aloneSearch, unarySearch, if_pos hvector] at halone
  cases halone

section

variable (searchOnly : Bool) (run : BatchRun S) {requests : List LeasedSearch}

/-- A batch whose requests all succeed on their own is answered as they are. -/
theorem batchSearch_ok (hne : requests ≠ [])
    (halone : ∀ (i : Nat) request, requests[i]? = some request →
      ∃ response, aloneSearch searchOnly run i request = .ok response) :
    ∃ responses, batchSearch searchOnly run requests = .ok responses ∧
      responses.length = requests.length ∧
      ∀ (i : Nat) request, requests[i]? = some request → ∃ response,
        responses[i]? = some response ∧ aloneSearch searchOnly run i request = .ok response := by
  have hvectors : ∀ request ∈ requests, request.vector ≠ [] := by
    intro request hmem
    obtain ⟨i, hi⟩ := List.mem_iff_getElem?.mp hmem
    obtain ⟨response, hresponse⟩ := halone i request hi
    exact vector_of_aloneSearch hresponse
  obtain ⟨only, rfl⟩ | hmany : (∃ only, requests = [only]) ∨ 1 < requests.length := by
    cases requests with
    | nil => exact absurd rfl hne
    | cons only others =>
        cases others with
        | nil => exact .inl ⟨only, rfl⟩
        | cons => exact .inr (by simp)
  · -- the goroutines are not started for one request
    obtain ⟨response, hresponse⟩ := halone 0 only rfl
    have hvector := hvectors only (List.mem_singleton.mpr rfl)
    have honly : [only][0]? = some only := rfl
    have hone := hresponse
    rw [aloneSearch_eq searchOnly run honly hvector, searchOne] at hone
    have hcore : searchCore searchOnly only (run.found 0) = .ok response := by
      cases hlease : validateShardLease (run.readings 0) only with
      | error rejection => simp [hlease, bind, Except.bind] at hone
      | ok => simpa [hlease, bind, Except.bind] using hone
    refine ⟨[response], ?_, rfl, ?_⟩
    · rw [batchSearch, if_neg hne, if_neg (by simp [hvector])]
      rw [hcore]
      rfl
    · intro i request hi
      cases i with
      | zero =>
          obtain rfl := Option.some.inj hi
          exact ⟨response, rfl, hresponse⟩
      | succ i => simp at hi
  · have hones : ∀ i, ∃ response, searchOne searchOnly run requests i = .ok response := by
      intro i
      cases hi : requests[i]? with
      | none => exact ⟨⟨[], [], []⟩, by rw [searchOne, hi]⟩
      | some request =>
          obtain ⟨response, hresponse⟩ := halone i request hi
          rw [aloneSearch_eq searchOnly run hi (hvectors request (List.mem_of_getElem? hi))]
            at hresponse
          exact ⟨response, hresponse⟩
    choose response hresponse using hones
    have hnone : firstErr searchOnly run requests = none := by
      rw [firstErr, List.findSome?_eq_none_iff]
      intro i _
      rw [hresponse i]
    have hall : (List.range requests.length).filterMap
        (fun i => (searchOne searchOnly run requests i).toOption) =
          (List.range requests.length).map response := by
      rw [← List.filterMap_eq_map]
      congr
      funext i
      rw [hresponse i]
      rfl
    refine ⟨(List.range requests.length).map response, ?_, by simp, ?_⟩
    · rw [batchSearch_many searchOnly run hmany hvectors, hnone, hall]
    · intro i request hi
      have hlt := (List.getElem?_eq_some_iff.mp hi).1
      refine ⟨response i, by simp [hlt], ?_⟩
      rw [aloneSearch_eq searchOnly run hi (hvectors request (List.mem_of_getElem? hi))]
      exact hresponse i

/-- Several requests of which one fails on its own all fail, with what one of them fails with. -/
theorem batchSearch_error (hmany : 1 < requests.length)
    (horder : run.order.Perm (List.range requests.length))
    (hfails : ∃ (i : Nat) (request : LeasedSearch) (rejection : SearchRejection), requests[i]? =
      some request ∧ aloneSearch searchOnly run i request = .error rejection) :
    ∃ (i : Nat) (request : LeasedSearch) (rejection : SearchRejection),
      requests[i]? = some request ∧ aloneSearch searchOnly run i request = .error rejection ∧
        batchSearch searchOnly run requests = .error rejection := by
  by_cases hempty : ∃ request ∈ requests, request.vector = []
  · obtain ⟨request, hmem, hvector⟩ := hempty
    obtain ⟨i, hi⟩ := List.mem_iff_getElem?.mp hmem
    refine ⟨i, request, .emptyVector, hi, ?_, batchSearch_emptyVector searchOnly run hmem hvector⟩
    rw [aloneSearch, unarySearch, if_pos hvector]
    rfl
  · push Not at hempty
    obtain ⟨i, request, rejection, hi, halone⟩ := hfails
    rw [aloneSearch_eq searchOnly run hi (hempty request (List.mem_of_getElem? hi))] at halone
    have hin : i ∈ run.order :=
      horder.mem_iff.mpr (List.mem_range.mpr (List.getElem?_eq_some_iff.mp hi).1)
    obtain ⟨first, hfirst⟩ := firstErr_isSome searchOnly run hin halone
    obtain ⟨j, hj, herror⟩ := List.exists_of_findSome?_eq_some hfirst
    have hlt := List.mem_range.mp (horder.mem_iff.mp hj)
    have hone : searchOne searchOnly run requests j = .error first := by
      cases hcase : searchOne searchOnly run requests j with
      | error rejection =>
          rw [hcase] at herror
          rw [Option.some.inj herror]
      | ok response =>
          rw [hcase] at herror
          cases herror
    refine ⟨j, requests[j], first, List.getElem?_eq_getElem hlt, ?_, ?_⟩
    · rw [aloneSearch_eq searchOnly run (List.getElem?_eq_getElem hlt)
        (hempty _ (List.getElem_mem hlt))]
      exact hone
    · rw [batchSearch_many searchOnly run hmany hempty, hfirst]

end

/-- A single stale request with a vector reaches the search. -/
theorem single_stale_searched (S : Type) (searchOnly : Bool) {request : LeasedSearch}
    {readings : Nat → LeaseReading} (hvector : request.vector ≠ [])
    (hstale : request.Stale (readings 0)) : ¬ RejectsStale S searchOnly [request] readings := by
  intro hrejects
  obtain ⟨lease, hlease, hof⟩ := validateShardLease_stale hstale
  obtain ⟨⟨rejection, hbatch⟩, hsame⟩ := hrejects (fun _ => .ok ⟨[], [], []⟩) [0] (List.Perm.refl _)
    0 request rfl hstale
  obtain ⟨rejection', hunary, hbatch'⟩ := hsame (by
    intro j other hj hother
    match j with
    | 0 => exact absurd rfl hj
    | j + 1 => simp at hother) (.ok ⟨[], [], []⟩)
  rw [unarySearch_stale searchOnly hvector hlease] at hunary
  obtain rfl := Except.error.inj hunary
  rw [hbatch, Except.error.injEq] at hbatch'
  subst hbatch'
  have hany : ([request].any fun request => request.vector = []) = false := by simpa using hvector
  rw [batchSearch, if_neg (List.cons_ne_nil _ _), if_neg (by simp [hany])] at hbatch
  dsimp only [searchCore] at hbatch
  cases hcheck : checkSearchOnly searchOnly request with
  | error refusal =>
      rw [hcheck] at hbatch
      obtain rfl := Except.error.inj hbatch
      exact checkSearchOnly_not_ofLease hcheck hof
  | ok =>
      rw [hcheck] at hbatch
      cases hbatch

/-- A batch rejects its stale requests exactly if it is not a single stale request with a
vector. -/
theorem rejectsStale_iff (S : Type) (searchOnly : Bool) (requests : List LeasedSearch)
    (readings : Nat → LeaseReading) :
    RejectsStale S searchOnly requests readings ↔
      ∀ request, requests = [request] → request.Stale (readings 0) → request.vector = [] := by
  constructor
  · rintro hrejects request rfl hstale
    by_contra hvector
    exact single_stale_searched S searchOnly hvector hstale hrejects
  · intro hsingle found order horder i request hrequest hstale
    obtain ⟨lease, hlease, -⟩ := validateShardLease_stale hstale
    have hmem := List.mem_of_getElem? hrequest
    by_cases hempty : ∃ other ∈ requests, other.vector = []
    · obtain ⟨other, hother, hvector⟩ := hempty
      rw [batchSearch_emptyVector searchOnly _ hother hvector]
      refine ⟨⟨_, rfl⟩, ?_⟩
      intro hserved tail
      obtain ⟨j, hj⟩ := List.mem_iff_getElem?.mp hother
      by_cases hij : j = i
      · subst hij
        obtain rfl := Option.some.inj (hj.symm.trans hrequest)
        exact ⟨.emptyVector, by rw [unarySearch, if_pos hvector]; rfl, rfl⟩
      · exact absurd hvector (hserved j other hij hj).1
    · push Not at hempty
      have hmany : 1 < requests.length := by
        by_contra hfew
        match requests, hmem, hfew, hsingle with
        | [only], hmem, _, hsingle =>
            obtain rfl := List.mem_singleton.mp hmem
            have hi : i = 0 := by
              have h := (List.getElem?_eq_some_iff.mp hrequest).1
              simpa using h
            subst hi
            exact hempty request hmem (hsingle request rfl hstale)
        | _ :: _ :: _, _, hfew, _ => simp at hfew
      have hi : i ∈ order := by
        rw [horder.mem_iff, List.mem_range]
        exact (List.getElem?_eq_some_iff.mp hrequest).1
      rw [batchSearch_many searchOnly _ hmany hempty]
      have hone := searchOne_stale (S := S) searchOnly ⟨readings, found, order⟩ hrequest hlease
      constructor
      · obtain ⟨rejection, hfirst⟩ := firstErr_isSome searchOnly _ hi hone
        rw [hfirst]
        exact ⟨rejection, rfl⟩
      · intro hserved tail
        refine ⟨lease, unarySearch_stale searchOnly (hempty request hmem) hlease tail, ?_⟩
        have hfirst := firstErr_eq searchOnly _ hi hone (by
          intro j hj hij
          have hj : j < requests.length := List.mem_range.mp (horder.mem_iff.mp hj)
          exact (hserved j _ hij (List.getElem?_eq_getElem hj)).2)
        rw [hfirst]

/-- A search of shard 1 by an older epoch. -/
def staleSearch : LeasedSearch := ⟨1, 1, 0, [0], false, false⟩

theorem single_stale_search_served :
    ¬ RejectsStale Nat false [staleSearch] fun _ => ⟨fun _ => 2, 0⟩ := by
  intro hrejects
  have hstale : staleSearch.Stale ⟨fun _ => 2, 0⟩ := by
    refine ⟨by decide, Or.inl (by decide)⟩
  obtain ⟨⟨rejection, hbatch⟩, -⟩ :=
    hrejects (fun _ => .ok ⟨[], [], []⟩) [0] (List.Perm.refl _) 0 staleSearch rfl hstale
  cases hbatch

end Vectron.Worker
