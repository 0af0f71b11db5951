import Vectron.Foundation.Best
import Vectron.Worker.Recovery

/-! # The brute-force search

`BruteForceSearch` of `worker/internal/storage/storage.go`. The distance of a vector to the query
is a parameter; a query has the dimension of the stored vectors.
-/

namespace Vectron.Worker

open Foundation OrderedStore

variable {D : Type} [LinearOrder D]

/-- `result`. -/
structure BruteResult (D : Type) where
  id : Bytes
  dist : D
deriving DecidableEq

/-- `resultHeap.Less`. -/
def nearer (a b : BruteResult D) : Bool := decide (a.dist < b.dist)

theorem weakOrder_nearer : WeakOrder (nearer (D := D)) := WeakOrder.of_key BruteResult.dist

theorem weakOrder_farther : WeakOrder fun x y : BruteResult D => nearer y x :=
  ⟨fun h => weakOrder_nearer.asymm h, fun hxy hyz => weakOrder_nearer.negTrans hyz hxy⟩

section Search

variable (arith : Arithmetic) (dist : Vector → D)

/-- The vector of a value that is neither deleted nor malformed. -/
def decodedVector (value : Bytes) : Option Vector :=
  if value = [] then none else (decodeVectorWithMeta arith value).toOption.map Prod.fst

def bruteResult (entry : Bytes × Bytes) : Option (BruteResult D) :=
  (decodedVector arith entry.2).map fun vec => ⟨entry.1, dist vec⟩

/-- The keys from "v_" on as long as they begin with a v. The iterator knows no namespace. -/
def visited (db : Pebble) : List (Bytes × Bytes) :=
  (db.scan (vectorKey []) none).takeWhile fun entry => entry.1.head? = some 'v'.toUInt8

/-- What the loop pushes. -/
def scanned (db : Pebble) : List (BruteResult D) := (visited db).filterMap (bruteResult arith dist)

/-- `BruteForceSearch`. A negative `k` acts like 0. -/
def bruteForceSearch (heap : Heap (nearer (D := D))) (k : Int) (db : Pebble) : List Bytes :=
  (lastReversed heap k.toNat (scanned arith dist db)).map BruteResult.id

/-- The vectors of a namespace under the ids that they were stored with. -/
def storedResults (ns : Bytes) (db : Pebble) : List (BruteResult D) :=
  (db.under fun key => (nsKey ns (vectorKey [])).isPrefixOf key).filterMap fun entry =>
    bruteResult arith dist (entry.1.drop (nsKey ns (vectorKey [])).length, entry.2)

end Search

/-- The ids of the nearest results in ascending order. -/
def NearestFirst (k : Nat) (results : List (BruteResult D)) (ids : List Bytes) : Prop :=
  ∃ near, Best nearer k results near ∧ near.Pairwise (fun x y => nearer y x = false) ∧
    near.map BruteResult.id = ids

/-- The farthest results in descending order. -/
def FarthestFirst (k : Nat) (results far : List (BruteResult D)) : Prop :=
  Best (fun x y => nearer y x) k results far ∧ far.Pairwise fun x y => nearer x y = false

/-- However ties fall, the search returns the ids of the nearest vectors. -/
def BruteForceExact (arith : Arithmetic) (dist : Vector → D) (ns : Bytes) (k : Int)
    (db : Pebble) : Prop :=
  ∀ heap : Heap (nearer (D := D)),
    NearestFirst k.toNat (storedResults arith dist ns db) (bruteForceSearch arith dist heap k db)

/-- As many entries are kept of those scanned as of those stored. The key of a scanned entry that
fewer than `k` are farther than is the id of a stored vector, and what is stored nearer than that
vector has the key of an entry scanned farther than the first as its id. -/
structure KeysAreIds (k : Nat) (stored scanned : List (BruteResult D)) : Prop where
  count : min k scanned.length = min k stored.length
  crossed : ∀ e ∈ scanned, (scanned.countP fun f => nearer e f) < k → ∃ v ∈ stored, v.id = e.id ∧
    ∀ w ∈ stored, nearer w v = true → ∃ f ∈ scanned, f.id = w.id ∧ nearer e f = true

variable {arith : Arithmetic} {dist : Vector → D}

section

omit [LinearOrder D]

theorem resultIds_sublist (rename : Bytes → Bytes) (entries : List (Bytes × Bytes)) :
    ((entries.filterMap fun entry => bruteResult arith dist (rename entry.1, entry.2)).map
      BruteResult.id).Sublist (entries.map fun entry => rename entry.1) := by
  induction entries with
  | nil => exact List.Sublist.refl []
  | cons entry entries ih =>
      rw [List.filterMap_cons, List.map_cons]
      cases hentry : bruteResult arith dist (rename entry.1, entry.2) with
      | none => exact ih.cons _
      | some result =>
          have hid : result.id = rename entry.1 := by
            obtain ⟨vec, -, rfl⟩ := Option.map_eq_some_iff.mp hentry
            rfl
          dsimp only
          rw [List.map_cons, hid]
          exact ih.cons_cons _

theorem scanned_ids_nodup (db : Pebble) :
    ((scanned arith dist db).map BruteResult.id).Nodup := by
  have hsorted : (visited db).Pairwise fun first second => first.1 < second.1 :=
    (db.scan_sorted (vectorKey []) none).sublist (List.takeWhile_sublist _)
  exact (resultIds_sublist id (visited db)).nodup
    (List.pairwise_map.mpr (hsorted.imp fun hlt => ne_of_lt hlt))

/-- The keys of a namespace differ in the ids. -/
theorem stored_ids_nodup (ns : Bytes) (db : Pebble) :
    ((storedResults arith dist ns db).map BruteResult.id).Nodup := by
  refine (resultIds_sublist (List.drop (nsKey ns (vectorKey [])).length) _).nodup
    (List.pairwise_map.mpr ?_)
  refine ((db.sorted.filter _).imp_of_mem fun {first second} hfirst hsecond hlt heq => ?_)
  have hprefix : ∀ entry ∈ db.under fun key => (nsKey ns (vectorKey [])).isPrefixOf key,
      nsKey ns (vectorKey []) ++ entry.1.drop (nsKey ns (vectorKey [])).length = entry.1 := by
    intro entry hentry
    obtain ⟨rest, hrest⟩ := List.isPrefixOf_iff_prefix.mp (List.mem_filter.mp hentry).2
    rw [← hrest, List.drop_left]
  have hsame := hprefix first hfirst
  rw [heq, hprefix second hsecond] at hsame
  exact absurd hsame.symm (ne_of_lt hlt)

theorem eq_of_id_eq {results : List (BruteResult D)} (hnodup : (results.map BruteResult.id).Nodup)
    {x y : BruteResult D} (hx : x ∈ results) (hy : y ∈ results) (hid : x.id = y.id) : x = y :=
  List.inj_on_of_nodup_map hnodup hx hy hid

end

/-- The search keeps the farthest of the vectors that it visits, the farthest first. -/
theorem farthestFirst_lastReversed (heap : Heap (nearer (D := D))) (k : Nat)
    (results : List (BruteResult D)) : FarthestFirst k results (lastReversed heap k results) :=
  lastReversed_best weakOrder_nearer heap k results

/-- Every choice among ties may be made, so an exact search crosses the entries over. -/
theorem keysAreIds_of_exact {ns : Bytes} {k : Int} {db : Pebble}
    (hexact : BruteForceExact arith dist ns k db) :
    KeysAreIds k.toNat (storedResults arith dist ns db) (scanned arith dist db) := by
  have hfar : ∀ far, FarthestFirst k.toNat (scanned arith dist db) far →
      NearestFirst k.toNat (storedResults arith dist ns db) (far.map BruteResult.id) := by
    intro far hfar
    obtain ⟨heap, heq⟩ := exists_lastReversed_eq weakOrder_nearer
      ((scanned_ids_nodup db).of_map _) hfar.1 hfar.2
    rw [← heq]
    exact hexact heap
  refine ⟨?_, fun e he hfew => ?_⟩
  · have hfirst := farthestFirst_lastReversed (binaryHeap weakOrder_nearer) k.toNat
      (scanned arith dist db)
    obtain ⟨near, hnear, -, hids⟩ := hfar _ hfirst
    have hlength := congrArg List.length hids
    rw [List.length_map, List.length_map, hnear.length, hfirst.1.length] at hlength
    exact hlength.symm
  · obtain ⟨front, back, hbest, hsorted, hfront⟩ :=
      @Best.exists_first _ _ k.toNat weakOrder_farther _ e he hfew
    obtain ⟨near, hnear, hascending, hids⟩ := hfar _ ⟨hbest, hsorted⟩
    rw [List.map_append, List.map_cons] at hids
    obtain ⟨nfront, tail, rfl, hnfront, htail⟩ := List.map_eq_append_iff.mp hids
    obtain ⟨v, nback, rfl, hid, -⟩ := List.map_eq_cons_iff.mp htail
    refine ⟨v, hnear.subset (by simp), hid, fun w hw hless => ?_⟩
    -- what is nearer than `v` is returned before it
    have hbefore : w ∈ nfront := by
      obtain ⟨dropped, hsplit, hdropped⟩ := hnear.split
      have hkept : w ∈ nfront ++ v :: nback := by
        refine (List.mem_append.mp (hsplit.mem_iff.mp hw)).resolve_right fun hmem => ?_
        rw [hdropped v (by simp) w hmem] at hless
        cases hless
      obtain ⟨-, hlater, -⟩ := List.pairwise_append.mp hascending
      rcases List.mem_append.mp hkept with hmem | hmem
      · exact hmem
      · rcases List.mem_cons.mp hmem with rfl | hmem
        · rw [weakOrder_nearer.irrefl] at hless
          cases hless
        · rw [(List.pairwise_cons.mp hlater).1 w hmem] at hless
          cases hless
    have hwid : w.id ∈ front.map BruteResult.id := hnfront ▸ List.mem_map_of_mem hbefore
    obtain ⟨f, hf, hfid⟩ := List.mem_map.mp hwid
    exact ⟨f, hbest.subset (by simp [hf]), hfid, hfront f hf⟩

/-- Crossed over, the farthest entries are the nearest vectors. -/
theorem KeysAreIds.nearestFirst {k : Nat} {stored scanned far : List (BruteResult D)}
    (hkeys : KeysAreIds k stored scanned) (hstored : (stored.map BruteResult.id).Nodup)
    (hscanned : (scanned.map BruteResult.id).Nodup) (hfar : FarthestFirst k scanned far) :
    NearestFirst k stored (far.map BruteResult.id) := by
  classical
  obtain ⟨dropped, hsplit, hdropped⟩ := hfar.1.split
  have hfew : ∀ e ∈ far, (scanned.countP fun f => nearer e f) < k := by
    intro e he
    have hnone : dropped.countP (fun f => nearer e f) = 0 :=
      List.countP_eq_zero.mpr fun f hf => by simp [hdropped e he f hf]
    have hmany : far.countP (fun f => nearer e f) < far.length :=
      List.countP_lt_length_iff.mpr ⟨e, he, by simp [weakOrder_nearer.irrefl]⟩
    rw [hsplit.countP_eq, List.countP_append, hnone]
    have hlength := hfar.1.length
    omega
  have hmatch : ∀ e : BruteResult D, ∃ v : BruteResult D, e ∈ far → v ∈ stored ∧ v.id = e.id ∧
      ∀ w ∈ stored, nearer w v = true → ∃ f ∈ scanned, f.id = w.id ∧ nearer e f = true := by
    intro e
    by_cases he : e ∈ far
    · obtain ⟨v, hv⟩ := hkeys.crossed e (hfar.1.subset he) (hfew e he)
      exact ⟨v, fun _ => hv⟩
    · exact ⟨e, fun hmem => absurd hmem he⟩
  choose image himage using hmatch
  have hids : (far.map image).map BruteResult.id = far.map BruteResult.id := by
    rw [List.map_map]
    exact List.map_congr_left fun e he => (himage e he).2.1
  have hfarnodup : (far.map BruteResult.id).Nodup := by
    have hall := (hsplit.map BruteResult.id).nodup_iff.mp hscanned
    rw [List.map_append] at hall
    exact hall.of_append_left
  have hsub : far.map image ⊆ stored := by
    intro v hv
    obtain ⟨e, he, rfl⟩ := List.mem_map.mp hv
    exact (himage e he).1
  -- a vector nearer than a returned one is returned too
  have hclosed : ∀ e ∈ far, ∀ w ∈ stored, nearer w (image e) = true →
      ∃ f ∈ far, image f = w ∧ nearer e f = true := by
    intro e he w hw hless
    obtain ⟨f, hf, hid, hfarther⟩ := (himage e he).2.2 w hw hless
    have hkept : f ∈ far := by
      refine (List.mem_append.mp (hsplit.mem_iff.mp hf)).resolve_right fun hmem => ?_
      rw [hdropped e he f hmem] at hfarther
      cases hfarther
    exact ⟨f, hkept, eq_of_id_eq hstored (himage f hkept).1 hw ((himage f hkept).2.1.trans hid),
      hfarther⟩
  have hnodup : (far.map image).Nodup := List.Nodup.of_map _ (hids ▸ hfarnodup)
  obtain ⟨picked, hpicked, hsublist⟩ := List.subperm_of_subset hnodup hsub
  obtain ⟨left, hleft⟩ := hsublist.exists_perm_append
  refine ⟨far.map image, ⟨?_, left, hleft.trans (hpicked.append_right left), ?_⟩, ?_, hids⟩
  · rw [List.length_map, hfar.1.length, hkeys.count]
  · intro v hv w hw
    obtain ⟨e, he, rfl⟩ := List.mem_map.mp hv
    have hall := hleft.trans (hpicked.append_right left)
    by_contra hless
    rw [Bool.not_eq_false] at hless
    obtain ⟨f, hf, rfl, -⟩ := hclosed e he w (hall.mem_iff.mpr (List.mem_append_right _ hw)) hless
    have hdisjoint := (List.nodup_append'.mp (hall.nodup_iff.mp (hstored.of_map _))).2.2
    exact hdisjoint (List.mem_map_of_mem hf) hw
  · refine List.pairwise_map.mpr (hfar.2.imp_of_mem fun {x y} hx hy hxy => ?_)
    by_contra hless
    rw [Bool.not_eq_false] at hless
    obtain ⟨f, hf, heq, hfarther⟩ := hclosed x hx (image y) (himage y hy).1 hless
    have hid : f.id = y.id := by rw [← (himage f hf).2.1, heq, (himage y hy).2.1]
    obtain rfl := eq_of_id_eq hscanned (hfar.1.subset hf) (hfar.1.subset hy) hid
    rw [hxy] at hfarther
    cases hfarther

/-- Vectors of one word, under the ids "a" and "b". -/
def twoVectors : Pebble :=
  (empty.set (vectorKey [97]) (putUint32 1 ++ putUint32 1)).set (vectorKey [98])
    (putUint32 1 ++ putUint32 2)

def firstWord (vec : Vector) : Nat := (vec.headD 0).toNat

end Vectron.Worker
