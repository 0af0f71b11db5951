import Vectron.Foundation.Best
import Vectron.Foundation.Reader

/-! # Broadcast searches

The branch of `searchCore` in `worker/internal/grpc.go` for shard 0. A shard answers from the
cache or from its searcher; its answer is treated the same. An absent metadata is empty.
-/

namespace Vectron.Worker

open Foundation

variable {S : Type} [LinearOrder S]

/-- `shard.SearchResult`, and with the same fields `worker.SearchResponse`. -/
structure ShardSearchResult (S : Type) where
  ids : List Bytes
  scores : List S
  metadata : List Bytes
deriving DecidableEq

structure SearchHeapItem (S : Type) where
  id : Bytes
  score : S
  metadata : Bytes
deriving DecidableEq

/-- The errors of a shard's search. -/
inductive SearchError where
  | shardNotReady
  | linearizableNotSupported
  | other (message : Bytes)
deriving DecidableEq

inductive SearchStatus where
  /-- `Unavailable` -/
  | shardNotReady
  /-- `FailedPrecondition` -/
  | linearizableNotSupported
  | other (message : Bytes)
deriving DecidableEq

def mapSearchError : SearchError → SearchStatus
  | .shardNotReady => .shardNotReady
  | .linearizableNotSupported => .linearizableNotSupported
  | .other message => .other message

def better (a b : SearchHeapItem S) : Bool := decide (a.score < b.score)

theorem weakOrder_better : WeakOrder (better (S := S)) := WeakOrder.of_key SearchHeapItem.score

/-- `searchMinHeap.Less`. -/
def searchMinHeapLess (a b : SearchHeapItem S) : Bool := better b a

theorem weakOrder_searchMinHeapLess : WeakOrder (searchMinHeapLess (S := S)) where
  asymm h := weakOrder_better.asymm h
  negTrans hxy hyz := weakOrder_better.negTrans hyz hxy

/-- The number of results that a request asks for. -/
def searchLimit (k : Int) : Nat := if k ≤ 0 then 10 else k.toNat

/-- The entries of a result that have a score. -/
def heapItems (result : ShardSearchResult S) : List (SearchHeapItem S) :=
  (result.ids.zip result.scores).mapIdx fun i entry =>
    ⟨entry.1, entry.2, result.metadata.getD i []⟩

def responseOf (items : List (SearchHeapItem S)) : ShardSearchResult S :=
  ⟨items.map SearchHeapItem.id, items.map SearchHeapItem.score, items.map SearchHeapItem.metadata⟩

/-- The shards that answer. A failed one is logged. -/
def answers (shards : List (Except SearchError (ShardSearchResult S))) :
    List (ShardSearchResult S) :=
  shards.filterMap Except.toOption

section Branch

variable (heap : Heap (searchMinHeapLess (S := S)))

/-- What a shard sends. -/
def localItems (limit : Nat) (result : ShardSearchResult S) : List (SearchHeapItem S) :=
  (heapItems result).foldl (offer heap better limit) []

/-- The loop over the received items with `VECTRON_WORKER_DEDUPE_BROADCAST`. -/
def noteBest (best : GoMap Bytes (S × Bytes)) (item : SearchHeapItem S) :
    GoMap Bytes (S × Bytes) :=
  match best.lookup item.id with
  | some known => if known.1 ≤ item.score then best else best.insert item.id (item.score, item.metadata)
  | none => best.insert item.id (item.score, item.metadata)

/-- The items that are offered to the heap of the merge. -/
def merging (dedupe : Bool) (order : RangeOrder) (received : List (SearchHeapItem S)) :
    List (SearchHeapItem S) :=
  if dedupe then
    (order.range (received.foldl noteBest ∅)).map fun entry => ⟨entry.1, entry.2.1, entry.2.2⟩
  else received

/-- The merge of the answers in the order in which they arrive. The last popped comes first. -/
def merge (dedupe : Bool) (order : RangeOrder) (limit : Nat)
    (arrivals : List (ShardSearchResult S)) : List (SearchHeapItem S) :=
  let received := (arrivals.map (localItems heap limit)).flatten
  let topK := (merging dedupe order received).foldl (offer heap better limit) []
  (drain heap topK.length topK).reverse

/-- The branch for shard 0. One shard alone answers for itself. -/
def searchBroadcast (dedupe : Bool) (order : RangeOrder) (k : Int)
    (shards : List (Except SearchError (ShardSearchResult S)))
    (arrivals : List (ShardSearchResult S)) : Except SearchStatus (ShardSearchResult S) :=
  match shards with
  | [only] => only.mapError mapSearchError
  | _ => .ok (responseOf (merge heap dedupe order (searchLimit k) arrivals))

end Branch

/-! ## What the merge should return -/

/-- The entries of smallest score in ascending order. -/
def nearest (limit : Nat) (items : List (SearchHeapItem S)) : List (SearchHeapItem S) :=
  (items.insertionSort fun a b => a.score ≤ b.score).take limit

/-- The entry of smallest score of each id. -/
def bestOfId (items : List (SearchHeapItem S)) : List (SearchHeapItem S) :=
  items.filter fun x => items.all fun y => decide (x.id = y.id → x.score ≤ y.score)

def allItems (results : List (ShardSearchResult S)) : List (SearchHeapItem S) :=
  (results.map heapItems).flatten

/-- All entries of the shards. With `VECTRON_WORKER_DEDUPE_BROADCAST` each shard sends its best
ones, of which the best of each id counts. -/
def candidates (dedupe : Bool) (limit : Nat) (results : List (ShardSearchResult S)) :
    List (SearchHeapItem S) :=
  if dedupe then bestOfId (results.map fun result => nearest limit (heapItems result)).flatten
  else allItems results

/-! ## What the merge returns -/

theorem nearest_best (limit : Nat) (items : List (SearchHeapItem S)) :
    Best better limit items (nearest limit items) ∧
      (nearest limit items).Pairwise fun x y => better y x = false := by
  have hsorted : (items.insertionSort fun a b => a.score ≤ b.score).Pairwise
      fun x y => better y x = false := by
    have : Std.Total fun a b : SearchHeapItem S => a.score ≤ b.score :=
      ⟨fun a b => le_total a.score b.score⟩
    have : IsTrans (SearchHeapItem S) fun a b => a.score ≤ b.score := ⟨fun _ _ _ => le_trans⟩
    exact (List.pairwise_insertionSort _ items).imp fun h => by simpa [better] using h
  exact ⟨(Best.take limit hsorted).perm (List.perm_insertionSort _ items),
    hsorted.sublist (List.take_sublist limit _)⟩

/-- With distinct scores the best entries in ascending order are determined. -/
theorem eq_nearest {limit : Nat} {items kept : List (SearchHeapItem S)}
    (hdistinct : (items.map SearchHeapItem.score).Nodup) (hbest : Best better limit items kept)
    (hsorted : kept.Pairwise fun x y => better y x = false) : kept = nearest limit items := by
  obtain ⟨hnearest, hordered⟩ := nearest_best limit items
  refine hbest.eq_of_pairwise weakOrder_better hnearest ?_ hsorted hordered
  refine (List.pairwise_map.mp hdistinct).imp ?_
  intro x y hne
  rcases lt_or_gt_of_ne hne with h | h
  · exact Or.inl (decide_eq_true h)
  · exact Or.inr (decide_eq_true h)

section Merge

variable {heap : Heap (searchMinHeapLess (S := S))}

theorem noteBest_eq (best : GoMap Bytes (S × Bytes)) (item : SearchHeapItem S) :
    noteBest best item =
      keepBest (fun a b => decide (a.1 < b.1)) best (item.id, item.score, item.metadata) := by
  unfold noteBest keepBest
  cases best.lookup item.id with
  | none => rfl
  | some known =>
      by_cases hle : known.1 ≤ item.score
      · simp [hle, not_lt.mpr hle]
      · simp [hle, not_le.mp hle]

/-- What the loop over the received items knows of an id. -/
theorem lookup_noteBest (received : List (SearchHeapItem S)) (id : Bytes) :
    (∀ known, (received.foldl noteBest ∅).lookup id = some known →
      ⟨id, known.1, known.2⟩ ∈ received ∧ ∀ y ∈ received, y.id = id → known.1 ≤ y.score) ∧
    ((received.foldl noteBest ∅).lookup id = none → ∀ y ∈ received, y.id ≠ id) := by
  have hfold : received.foldl noteBest ∅ =
      (received.map fun item => (item.id, item.score, item.metadata)).foldl
        (keepBest fun a b => decide (a.1 < b.1)) ∅ := by
    rw [List.foldl_map]
    congr
    funext best item
    exact noteBest_eq best item
  rw [hfold]
  obtain ⟨hsome, hnone⟩ := lookup_keepBest (WeakOrder.of_key (Prod.fst : S × Bytes → S))
    (received.map fun item => (item.id, item.score, item.metadata)) id
  constructor
  · intro known hlookup
    obtain ⟨hmem, hall⟩ := hsome known hlookup
    constructor
    · obtain ⟨item, hitem, heq⟩ := List.mem_map.mp hmem
      obtain ⟨rfl, rfl⟩ := Prod.mk.inj heq
      exact hitem
    · rintro y hy rfl
      have h := hall (y.score, y.metadata) (List.mem_map.mpr ⟨y, hy, rfl⟩)
      simpa using h
  · rintro hlookup y hy rfl
    exact hnone hlookup _ (List.mem_map.mpr ⟨y, hy, rfl⟩)

theorem bestOfId_perm {first second : List (SearchHeapItem S)} (hperm : first.Perm second) :
    (bestOfId first).Perm (bestOfId second) := by
  have hall : ∀ x : SearchHeapItem S,
      first.all (fun y => decide (x.id = y.id → x.score ≤ y.score)) =
        second.all fun y => decide (x.id = y.id → x.score ≤ y.score) := by
    intro x
    rw [Bool.eq_iff_iff, List.all_eq_true, List.all_eq_true]
    simp only [hperm.mem_iff]
  simp only [bestOfId, hall]
  exact hperm.filter _

/-- With distinct scores the loop over the received items finds the best of each id. -/
theorem merging_perm (order : RangeOrder) {received : List (SearchHeapItem S)}
    (hdistinct : (received.map SearchHeapItem.score).Nodup) :
    (merging true order received).Perm (bestOfId received) := by
  have hmem : ∀ x, x ∈ merging true order received ↔
      (received.foldl noteBest ∅).lookup x.id = some (x.score, x.metadata) := by
    intro x
    rw [merging, if_pos rfl, List.mem_map, ← @RangeOrder.mem_range _ _ _ order]
    constructor
    · rintro ⟨⟨id, known⟩, hentry, rfl⟩
      exact hentry
    · exact fun hentry => ⟨_, hentry, rfl⟩
  have hnodup : (merging true order received).Nodup := by
    have hkeys : ((merging true order received).map SearchHeapItem.id).Nodup := by
      rw [merging, if_pos rfl, List.map_map]
      exact order.range_keys_nodup _
    exact hkeys.of_map _
  have hbest : (bestOfId received).Nodup := (hdistinct.of_map _).filter _
  rw [List.perm_ext_iff_of_nodup hnodup hbest]
  intro x
  obtain ⟨hsome, hnone⟩ := lookup_noteBest received x.id
  rw [hmem, bestOfId, List.mem_filter]
  simp only [List.all_eq_true, decide_eq_true_eq]
  constructor
  · intro hlookup
    obtain ⟨hx, hall⟩ := hsome _ hlookup
    exact ⟨hx, fun y hy hid => hall y hy hid.symm⟩
  · rintro ⟨hx, hall⟩
    cases hlookup : (received.foldl noteBest ∅).lookup x.id with
    | none => exact absurd rfl (hnone hlookup x hx)
    | some known =>
        obtain ⟨hknown, hleast⟩ := hsome known hlookup
        have hscore : known.1 = x.score := le_antisymm (hleast x hx rfl) (hall _ hknown rfl)
        have heq := List.inj_on_of_nodup_map hdistinct hknown hx hscore
        rw [← heq]

theorem localItems_best (heap : Heap (searchMinHeapLess (S := S))) (limit : Nat)
    (result : ShardSearchResult S) :
    Best better limit (heapItems result) (localItems heap limit result) :=
  (foldl_offer_best weakOrder_better heap limit (heapItems result)).2

theorem localItems_perm_nearest (limit : Nat) {result : ShardSearchResult S}
    (hdistinct : ((heapItems result).map SearchHeapItem.score).Nodup) :
    (localItems heap limit result).Perm (nearest limit (heapItems result)) := by
  have hbest := localItems_best heap limit result
  obtain ⟨hsorted, hordered⟩ := nearest_best (localItems heap limit result).length
    (localItems heap limit result)
  have hperm := hsorted.perm_of_le le_rfl
  rw [← eq_nearest hdistinct (hbest.perm_kept hperm) hordered]
  exact hperm

theorem nearest_subperm (limit : Nat) (items : List (SearchHeapItem S)) :
    (nearest limit items).Subperm items :=
  (List.take_sublist limit _).subperm.trans (List.perm_insertionSort _ items).subperm

theorem received_perm (heap : Heap (searchMinHeapLess (S := S)))
    (limit : Nat) {arrivals results : List (ShardSearchResult S)}
    (harrivals : arrivals.Perm results)
    (hdistinct : ((allItems results).map SearchHeapItem.score).Nodup) :
    ((arrivals.map (localItems heap limit)).flatten).Perm
      (results.map fun result => nearest limit (heapItems result)).flatten := by
  refine ((harrivals.map _).flatten).trans (List.Perm.flatten_congr ?_)
  rw [List.forall₂_map_left_iff, List.forall₂_map_right_iff, List.forall₂_same]
  intro result hresult
  apply localItems_perm_nearest
  have hsub : (heapItems result).Sublist (allItems results) :=
    List.sublist_flatten_of_mem (List.mem_map_of_mem hresult)
  exact (hsub.map _).nodup hdistinct

theorem nearest_flatten_nodup (limit : Nat) {results : List (ShardSearchResult S)}
    (hdistinct : ((allItems results).map SearchHeapItem.score).Nodup) :
    ((results.map fun result => nearest limit (heapItems result)).flatten.map
      SearchHeapItem.score).Nodup := by
  have hsub : (results.map fun result => nearest limit (heapItems result)).flatten.Subperm
      (allItems results) := by
    rw [allItems]
    clear hdistinct
    induction results with
    | nil => exact List.Subperm.refl []
    | cons result results ih =>
        simp only [List.map_cons, List.flatten_cons]
        exact (nearest_subperm limit (heapItems result)).append ih
  obtain ⟨items, hperm, hsublist⟩ := hsub
  exact (hperm.map _).nodup_iff.mp ((hsublist.map _).nodup hdistinct)

/-- The merge keeps the best of what it merges and returns it in ascending order. -/
theorem merge_best (heap : Heap (searchMinHeapLess (S := S))) (dedupe : Bool) (order : RangeOrder)
    (limit : Nat)
    (arrivals : List (ShardSearchResult S)) :
    Best better limit
        (merging dedupe order (arrivals.map (localItems heap limit)).flatten)
        (merge heap dedupe order limit arrivals) ∧
      (merge heap dedupe order limit arrivals).Pairwise fun x y => better y x = false := by
  rw [merge]
  obtain ⟨hordered, hbest⟩ := foldl_offer_best weakOrder_better heap limit
    (merging dedupe order (arrivals.map (localItems heap limit)).flatten)
  refine ⟨hbest.perm_kept ?_, ?_⟩
  · exact ((drain_perm heap rfl).symm).trans (List.reverse_perm _).symm
  · exact List.pairwise_reverse.mpr (drain_pairwise heap hordered rfl)

theorem merge_best_all (order : RangeOrder) (limit : Nat)
    {arrivals results : List (ShardSearchResult S)} (harrivals : arrivals.Perm results) :
    Best better limit (allItems results) (merge heap false order limit arrivals) := by
  have hmerged := (merge_best heap false order limit arrivals).1
  rw [merging, if_neg Bool.false_ne_true] at hmerged
  have hparts : Best better limit
      ((arrivals.map fun result => (heapItems result, localItems heap limit result)).map
        Prod.fst).flatten (merge heap false order limit arrivals) := by
    apply Best.flatten weakOrder_better
    · rintro part hpart
      obtain ⟨result, -, rfl⟩ := List.mem_map.mp hpart
      exact localItems_best heap limit result
    · rw [List.map_map]
      exact hmerged
  rw [List.map_map] at hparts
  exact hparts.perm (harrivals.map _).flatten

end Merge

/-- The shards' entries merged: for any scores the entries of smallest score in ascending order,
and for distinct ones exactly these, in whatever order the shards answer. -/
theorem searchBroadcast_nearest (heap : Heap (searchMinHeapLess (S := S))) (dedupe : Bool)
    (order : RangeOrder) (k : Int) {shards : List (Except SearchError (ShardSearchResult S))}
    {arrivals : List (ShardSearchResult S)} (hmany : shards.length ≠ 1)
    (harrivals : arrivals.Perm (answers shards)) :
    ∃ items, searchBroadcast heap dedupe order k shards arrivals = .ok (responseOf items) ∧
      items.Pairwise (fun x y => x.score ≤ y.score) ∧
      (dedupe = false → Best better (searchLimit k) (allItems (answers shards)) items) ∧
      (((allItems (answers shards)).map SearchHeapItem.score).Nodup →
        items = nearest (searchLimit k) (candidates dedupe (searchLimit k) (answers shards))) := by
  have hbranch : searchBroadcast heap dedupe order k shards arrivals =
      .ok (responseOf (merge heap dedupe order (searchLimit k) arrivals)) := by
    unfold searchBroadcast
    split
    · simp at hmany
    · rfl
  obtain ⟨hbest, hsorted⟩ := merge_best heap dedupe order (searchLimit k) arrivals
  refine ⟨_, hbranch, ?_, ?_, ?_⟩
  · exact hsorted.imp fun h => by simpa [better] using h
  · rintro rfl
    exact merge_best_all order (searchLimit k) harrivals
  · intro hdistinct
    cases dedupe with
    | false => exact eq_nearest hdistinct (merge_best_all order (searchLimit k) harrivals) hsorted
    | true =>
        have hreceived := received_perm heap (searchLimit k) harrivals hdistinct
        have hnodup := nearest_flatten_nodup (searchLimit k) hdistinct
        have hmerging := merging_perm order ((hreceived.map _).nodup_iff.mpr hnodup)
        have hbest := hbest.perm (hmerging.trans (bestOfId_perm hreceived))
        exact eq_nearest (hnodup.sublist (List.filter_sublist.map _)) hbest hsorted

/-- One shard with more entries than asked for, not in order. -/
def onlyShard : ShardSearchResult Nat := ⟨[[1], [2]], [2, 1], []⟩

theorem only_shard_answers_for_itself :
    searchBroadcast (binaryHeap weakOrder_searchMinHeapLess) false RangeOrder.stored 1
        [.ok onlyShard] [onlyShard] ≠
      .ok (responseOf (nearest (searchLimit 1) (allItems (answers [.ok onlyShard])))) := by
  decide +kernel

/-- A shard that has one of these ids too. -/
def otherShard : ShardSearchResult Nat := ⟨[[3], [1]], [4, 0], []⟩

theorem searchBroadcast_nearest_two :
    ∃ items, searchBroadcast (binaryHeap weakOrder_searchMinHeapLess) true RangeOrder.stored 2
        [.ok onlyShard, .error .shardNotReady, .ok otherShard] [otherShard, onlyShard] =
          .ok (responseOf items) ∧
      items.Pairwise (fun x y => x.score ≤ y.score) ∧
      items = nearest (searchLimit 2) (candidates true (searchLimit 2) [onlyShard, otherShard]) := by
  have hperm : [otherShard, onlyShard].Perm
      (answers [.ok onlyShard, .error .shardNotReady, .ok otherShard]) := List.Perm.swap ..
  obtain ⟨items, hitems, hsorted, -, hnearest⟩ := searchBroadcast_nearest
    (binaryHeap weakOrder_searchMinHeapLess) true RangeOrder.stored 2 (by decide) hperm
  exact ⟨items, hitems, hsorted, hnearest (by decide)⟩

end Vectron.Worker
