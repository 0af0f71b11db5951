import Vectron.Foundation.BestFirst
import Vectron.Foundation.Selection
import Vectron.Hnsw.Cleanup

/-! # The shortcuts of a layer search

When the neighbours of a candidate are many, `searchLayer` does not look at them one by one: it
selects the best ones first, in pieces that run in parallel or all at once. What it leaves out
are neighbours that cannot be among the results, so that nothing changes as long as different
nodes have different distances.
-/

namespace Vectron.Hnsw

open Foundation
open Worker (Vector)

/-! ## The order of the distances -/

/-- One of two distances is smaller. -/
def Comparable (x y : Candidate) : Prop := x.dist < y.dist ∨ y.dist < x.dist

/-- Where a distance stands in a linear order; what is not a number comes first. -/
def distKey (c : Candidate) : WithBot (Int ×ₗ Int ×ₗ Int) := floatKey c.dist.toModel.unpack

/-- `nearer` as an order of all candidates. -/
noncomputable def before (x y : Candidate) : Bool := decide (distKey x < distKey y)

theorem weakOrder_before : WeakOrder before := WeakOrder.of_key distKey

theorem weakOrder_behind : WeakOrder fun x y => before y x where
  asymm h := weakOrder_before.asymm h
  negTrans hxy hyz := weakOrder_before.negTrans hyz hxy

theorem Comparable.symm {x y : Candidate} (hcomparable : Comparable x y) : Comparable y x :=
  Or.symm hcomparable

theorem before_of_lt {x y : Candidate} (hlt : x.dist < y.dist) : before x y = true := by
  obtain ⟨a, b, ha, hb, hab⟩ := float32_lt_iff.mp hlt
  rw [before, decide_eq_true_eq, distKey, distKey, ha, hb]
  exact WithBot.coe_lt_coe.mpr hab

theorem Comparable.apart {x y : Candidate} (hcomparable : Comparable x y) : Apart before x y :=
  hcomparable.imp before_of_lt before_of_lt

theorem Comparable.nearer_eq {x y : Candidate} (hcomparable : Comparable x y) :
    nearer x y = before x y := by
  cases hcomparable with
  | inl hlt => rw [before_of_lt hlt, nearer, decide_eq_true hlt]
  | inr hgt =>
      have hback := weakOrder_before.asymm (before_of_lt hgt)
      have hnot : ¬ x.dist < y.dist := fun hlt => by
        rw [before_of_lt hlt] at hback
        cases hback
      rw [hback, nearer, decide_eq_false hnot]

section Agree

variable {seen : List Candidate} {x : Candidate}

section

variable (hseen : seen.Pairwise Comparable)

include hseen

theorem agreeOn_nearer : AgreeOn nearer before seen := by
  intro x hx y hy
  by_cases heq : x = y
  · rw [heq, Index.nearer_irrefl, weakOrder_before.irrefl]
  · have : Std.Symm Comparable := ⟨fun _ _ h => h.symm⟩
    exact (hseen.forall hx hy heq).nearer_eq

theorem agreeOn_farther :
    AgreeOn farther (fun x y => before y x) seen :=
  fun x hx y hy => agreeOn_nearer hseen y hy x hx

theorem apart_of_comparable : seen.Pairwise (Apart before) :=
  hseen.imp Comparable.apart

end

end Agree

/-! ## The best of some candidates -/

section Selected

variable {lt better : Candidate → Candidate → Bool} {cands : List Candidate}

/-- The scan for the best candidate, from a place on. -/
theorem bestIndex_scan (hlt : WeakOrder lt) {scanned rest : List Candidate} {best : Candidate}
    {i : Nat} (hagree : AgreeOn better lt (scanned ++ rest)) (hbest : scanned[i]? = some best)
    (hleast : ∀ y ∈ scanned, lt y best = false) :
    let out := rest.foldl (fun (best : Candidate × Nat × Nat) c =>
      if better c best.1 then (c, best.2.2, best.2.2 + 1)
      else (best.1, best.2.1, best.2.2 + 1)) (best, i, scanned.length)
    (scanned ++ rest)[out.2.1]? = some out.1 ∧ ∀ y ∈ scanned ++ rest, lt y out.1 = false := by
  induction rest generalizing scanned best i with
  | nil => simpa using ⟨hbest, hleast⟩
  | cons c rest ih =>
      have hc : c ∈ scanned ++ c :: rest := List.mem_append_right _ List.mem_cons_self
      have hin : best ∈ scanned ++ c :: rest := List.mem_append_left _ (List.mem_of_getElem? hbest)
      rw [List.append_cons] at hagree ⊢
      rw [List.append_cons] at hc hin
      have hlength : (scanned ++ [c]).length = scanned.length + 1 := by simp
      simp only [List.foldl_cons, hagree c hc best hin, ← hlength]
      by_cases hless : lt c best = true
      · rw [if_pos hless]
        refine ih hagree (by simp) fun y hy => ?_
        rw [List.mem_append, List.mem_singleton] at hy
        cases hy with
        | inl hold => exact hlt.negTrans (hleast y hold) (hlt.asymm hless)
        | inr heq => exact heq ▸ hlt.irrefl c
      · rw [if_neg hless]
        have hbound := (List.getElem?_eq_some_iff.mp hbest).1
        refine ih hagree (by rw [List.getElem?_append_left hbound, hbest]) fun y hy => ?_
        rw [List.mem_append, List.mem_singleton] at hy
        cases hy with
        | inl hold => exact hleast y hold
        | inr heq => exact heq ▸ Bool.eq_false_iff.mpr hless

theorem bestIndex_spec (hlt : WeakOrder lt) (hagree : AgreeOn better lt cands) (hne : cands ≠ []) :
    ∃ best, cands[bestIndex better cands]? = some best ∧ ∀ y ∈ cands, lt y best = false := by
  cases cands with
  | nil => exact absurd rfl hne
  | cons head rest =>
      have hscan := @bestIndex_scan lt better hlt [head] rest head 0 hagree rfl fun y hy => by
        rw [List.mem_singleton.mp hy]
        exact hlt.irrefl head
      exact ⟨_, hscan.1, hscan.2⟩

/-- The selection returns the nearest candidates. -/
theorem selectTopKByDist_best (hcands : cands.Pairwise Comparable) {k : Int} (hk : 0 < k) :
    ∃ best, selectTopKByDist cands k = pure best ∧ Best before k.toNat cands best := by
  unfold selectTopKByDist
  by_cases hall : (cands.length : Int) ≤ k ∨ k ≤ 0
  · rw [if_pos hall]
    exact ⟨cands, rfl, Best.self before (by omega)⟩
  · rw [if_neg hall]
    have hagree := agreeOn_nearer hcands
    by_cases hone : k = 1
    · rw [if_pos hone]
      have hne : cands ≠ [] := by
        rintro rfl
        simp at hall
        omega
      obtain ⟨best, hget, hleast⟩ := bestIndex_spec weakOrder_before hagree hne
      have hpos := List.length_pos_iff.mpr hne
      obtain ⟨hfront, _⟩ := exchange_getElem? (List.getElem?_eq_getElem hpos) hget
      obtain ⟨rest, hexchanged⟩ : ∃ rest, exchange cands 0 (bestIndex nearer cands) = best :: rest := by
        cases hlist : exchange cands 0 (bestIndex nearer cands) with
        | nil => simp [hlist] at hfront
        | cons first rest =>
            rw [hlist] at hfront
            exact ⟨rest, by rw [Option.some.inj hfront]⟩
      have hperm := exchange_perm cands 0 (bestIndex nearer cands)
      rw [hexchanged] at hperm ⊢
      refine ⟨[best], rfl, ?_, rest, hperm.symm, fun x hx y hy => ?_⟩
      · simp only [List.length_singleton]
        omega
      · rw [List.mem_singleton.mp hx]
        exact hleast y (hperm.mem_iff.mp (List.mem_cons_of_mem best hy))
    · rw [if_neg hone]
      have htotal := @selectLoop_isSome _ nearer Index.nearer_irrefl (k.toNat - 1) (cands.length + 1)
        cands 0 cands.length (by omega) le_rfl
      obtain ⟨selected, hselected⟩ := Option.isSome_iff_exists.mp htotal
      rw [hselected]
      rw [selectLoop_congr hagree] at hselected
      have hbest := selectLoop_best weakOrder_before (by omega) hselected
      have hsame : k.toNat - 1 + 1 = k.toNat := by omega
      rw [hsame] at hbest
      exact ⟨_, rfl, hbest⟩

end Selected

namespace Index

variable {p : Platform} {h : Index} {query : Vector} {qvec : Option Bytes} {layer : Nat}

/-! ## Expansions -/

/-- The new candidates of an expansion of any graph. -/
structure Discovered (h : Index) (marks : List Nat) (result : List Candidate × List Nat) :
    Prop where
  stored : ∀ c ∈ result.1, h.getNodeFast c.id = some c.node
  nodup : (result.1.map Candidate.id).Nodup
  unmarked : ∀ c ∈ result.1, c.id ∉ marks
  marked : ∀ c ∈ result.1, c.id ∈ result.2
  marks : marks ⊆ result.2

theorem mem_zipWith {found : List (Nat × Node)} {dists : List Float32} {c : Candidate}
    (hc : c ∈ List.zipWith (fun entry dist => (⟨entry.1, dist, entry.2⟩ : Candidate)) found dists) :
    (c.id, c.node) ∈ found := by
  induction found generalizing dists with
  | nil => simp at hc
  | cons entry found ih =>
      cases dists with
      | nil => simp at hc
      | cons dist dists =>
          cases List.mem_cons.mp hc with
          | inl heq => simp [heq]
          | inr hc => exact List.mem_cons_of_mem entry (ih hc)

theorem ids_zipWith (found : List (Nat × Node)) (dists : List Float32) :
    ((List.zipWith (fun entry dist => (⟨entry.1, dist, entry.2⟩ : Candidate)) found dists).map
      Candidate.id).Sublist (found.map Prod.fst) := by
  induction found generalizing dists with
  | nil => simp
  | cons entry found ih =>
      cases dists with
      | nil => simp
      | cons dist dists => simpa using ih dists

/-- What an expansion that returns has found. -/
theorem expand_discovers {marks : List Nat} {c : Candidate} {result : List Candidate × List Nat}
    (hexpand : (h.expand p query qvec layer marks c).outcome = .ok result) :
    Discovered h marks result := by
  rw [expand] at hexpand
  split at hexpand
  next => cases hexpand
  next list hlist =>
    simp only [outcome_bind] at hexpand
    generalize (if 0 < p.neighborCap then list.take p.neighborCap else list) = capped at hexpand
    obtain ⟨hfound, hnodup, hsub⟩ := @freshNeighbors_spec h marks capped
    cases hdists : (h.computeDistancesInto p query qvec
        ((h.freshNeighbors marks capped).1.map Prod.snd)).outcome with
    | error fault =>
        rw [hdists] at hexpand
        cases hexpand
    | ok dists =>
        rw [hdists] at hexpand
        obtain rfl := Except.ok.inj hexpand
        refine ⟨fun cand hcand => ?_, ?_, fun cand hcand => ?_, fun cand hcand => ?_, hsub⟩
        · exact (hfound _ (mem_zipWith hcand)).2.2.2
        · exact hnodup.sublist (ids_zipWith _ _)
        · exact (hfound _ (mem_zipWith hcand)).2.1
        · exact (hfound _ (mem_zipWith hcand)).2.2.1

theorem computeDistancesInto_faults (nodes : List Node) :
    Traced.Keeps (fun _ => True) (fun fault => fault ≠ .endless) (fun _ : List Float32 => True)
      (h.computeDistancesInto p query qvec nodes) := by
  have hfault : (fun fault : Fault => fault ≠ .endless) .vectorOutOfRange := fun heq => by
    cases heq
  have heach : ∀ {f : Node → Probe Float32},
      (∀ node, Traced.Keeps (fun _ => True) (fun fault => fault ≠ .endless) (fun _ => True)
        (f node)) →
      Traced.Keeps (fun _ => True) (fun fault => fault ≠ .endless) (fun _ : List Float32 => True)
        (Traced.each f nodes) := by
    intro f hf
    have hall : Traced.Keeps (fun _ => True) (fun fault => fault ≠ .endless)
        (fun dists => List.Forall₂ (fun _ _ => True) nodes dists) (Traced.each f nodes) :=
      Traced.Keeps.each fun node _ => hf node
    exact hall.imp fun _ _ => trivial
  have hplain : ∀ qvec, Traced.Keeps (fun _ => True) (fun fault => fault ≠ .endless)
      (fun _ : List Float32 => True)
      (Traced.each (fun node => h.distanceToNode p query qvec (some node)) nodes) := by
    intro qvec
    exact heach fun node => distanceToNode_keeps query qvec trivial hfault
  unfold computeDistancesInto
  refine Traced.Keeps.ite (fun _ => hplain qvec) (fun _ => ?_)
  cases qvec with
  | some stored =>
      refine Traced.Keeps.ite (fun _ => ?_) (fun _ => hplain (some stored))
      exact heach fun node => batchDistanceInt8_keeps query stored trivial hfault
  | none =>
      refine Traced.Keeps.ite (fun _ => ?_) (fun _ => hplain none)
      exact heach fun node => batchDistanceFloat_keeps query trivial hfault

theorem expand_faults (marks : List Nat) (c : Candidate) :
    (h.expand p query qvec layer marks c).outcome ≠ .error .endless := by
  rw [expand]
  split
  next =>
    intro heq
    cases heq
  next list hlist =>
    intro hfault
    simp only [outcome_bind] at hfault
    cases hdists : (h.computeDistancesInto p query qvec ((h.freshNeighbors marks
        (if 0 < p.neighborCap then list.take p.neighborCap else list)).1.map Prod.snd)).outcome with
    | error fault =>
        rw [hdists] at hfault
        obtain rfl := Except.error.inj hfault
        exact (computeDistancesInto_faults _).faults _ hdists rfl
    | ok dists =>
        rw [hdists] at hfault
        cases hfault

theorem Discovered.room {marks : List Nat} {result : List Candidate × List Nat}
    (hdiscovered : Discovered h marks result) :
    result.1.length + (unmarkedSlots h result.2).card ≤ (unmarkedSlots h marks).card :=
  unmarked_card_le (fun c hc => Option.isSome_of_eq_some (hdiscovered.stored c hc))
    hdiscovered.nodup hdiscovered.unmarked hdiscovered.marked hdiscovered.marks

/-! ## Different distances -/

section Distances

variable (p h query qvec layer)

/-- The candidates that a search of a layer may come to see. -/
inductive Met (start : Option Node) : Candidate → Prop where
  | start {node : Node} {dist : Float32} (hstart : start = some node)
      (hdist : (h.distanceToNode p query qvec start).outcome = .ok dist) :
      Met start ⟨node.id, dist, node⟩
  | found {marks marks' : List Nat} {c x : Candidate} {found : List Candidate}
      (hexpand : (h.expand p query qvec layer marks c).outcome = .ok (found, marks'))
      (hx : x ∈ found) : Met start x

/-- Of the distances of two different nodes one is smaller. -/
def Distinguished (start : Option Node) : Prop :=
  ∀ x y, Met p h query qvec layer start x → Met p h query qvec layer start y → x.id ≠ y.id →
    Comparable x y

end Distances

/-- What was seen belongs to the marks. -/
structure Marked (p : Platform) (h : Index) (query : Vector) (qvec : Option Bytes) (layer : Nat)
    (start : Option Node) (seen : List Candidate) (marks : List Nat) : Prop where
  met : ∀ x ∈ seen, Met p h query qvec layer start x
  marks : ∀ x ∈ seen, x.id ∈ marks

theorem marked_start {start : Option Node} {node : Node} {dist : Float32}
    (hstart : start = some node)
    (hdist : (h.distanceToNode p query qvec start).outcome = .ok dist) :
    Marked p h query qvec layer start [⟨node.id, dist, node⟩] [node.id] where
  met x hx := by
    rw [List.mem_singleton.mp hx]
    exact .start hstart hdist
  marks x hx := by
    rw [List.mem_singleton.mp hx]
    exact List.mem_singleton_self _

theorem explores_expand {start : Option Node}
    (hdistinguished : Distinguished p h query qvec layer start) :
    Explores (h.expand p query qvec layer) Comparable (Marked p h query qvec layer start) := by
  intro seen marks x found marks' hmarked hseen hexpand
  have hdiscovered := expand_discovers hexpand
  have hmet : ∀ y ∈ found, Met p h query qvec layer start y := fun y hy => .found hexpand hy
  refine ⟨List.pairwise_append.mpr ⟨?_, hseen, fun y hy z hz => ?_⟩, fun y hy => ?_, fun y hy => ?_⟩
  · have hids : found.Pairwise fun y z => y.id ≠ z.id := List.pairwise_map.mp hdiscovered.nodup
    exact hids.imp_of_mem fun hy hz hne => hdistinguished _ _ (hmet _ hy) (hmet _ hz) hne
  · refine hdistinguished y z (hmet y hy) (hmarked.met z hz) fun heq => ?_
    exact hdiscovered.unmarked y hy (heq ▸ hmarked.marks z hz)
  · cases List.mem_append.mp hy with
    | inl hy => exact hmet y hy
    | inr hy => exact hmarked.met y hy
  · cases List.mem_append.mp hy with
    | inl hy => exact hdiscovered.marked y hy
    | inr hy => exact hdiscovered.marks (hmarked.marks y hy)

/-! ## Searches with two heaps -/

/-- Take the nearest candidate, unless it is farther than all of a full set of results. -/
def Frontier.next (ef : Nat) (frontier : Frontier) : Option (Candidate × Frontier) :=
  match candHeapPop frontier.candidates with
  | none => none
  | some (c, candidates) =>
      if ef ≤ frontier.results.length ∧
          frontier.results.head?.any (fun worst => decide (worst.dist < c.dist)) = true then none
      else some (c, { frontier with candidates := candidates })

/-- A search with the two heaps of `searchLayer` and some way to take new candidates. -/
def heapSearch (ef : Nat) (absorb : Frontier → List Candidate → Probe Frontier) :
    Explorer Candidate (List Nat) Frontier Node Fault where
  results := Frontier.results
  marks := Frontier.marks
  mark frontier marks := { frontier with marks := marks }
  next := Frontier.next ef
  absorb := absorb

theorem searchLoop_eq_run (ef fuel : Nat) (frontier : Frontier) :
    h.searchLoop p query qvec ef layer fuel frontier =
      (heapSearch ef (Frontier.absorb p h ef)).run (h.expand p query qvec layer) .endless fuel
        frontier := by
  induction fuel generalizing frontier with
  | zero => rfl
  | succ fuel ih =>
      rw [searchLoop, Explorer.run]
      simp only [heapSearch, Frontier.next]
      cases candHeapPop frontier.candidates with
      | none => rfl
      | some popped =>
          obtain ⟨c, candidates⟩ := popped
          simp only
          split
          next => rfl
          next => simp only [ih, heapSearch]

/-- The queues of a search against what it has seen and expanded. -/
structure HeapBeam (ef : Nat) (seen spent : List Candidate) (frontier : Frontier) : Prop where
  comparable : seen.Pairwise Comparable
  beam : Beam before ef seen spent frontier.results frontier.candidates
  candidates : HeapOrdered before frontier.candidates frontier.candidates.length
  results : HeapOrdered (fun x y => before y x) frontier.results frontier.results.length

section Heaps

variable {ef : Nat} {seen spent : List Candidate} {frontier : Frontier}

theorem HeapBeam.candidates_subset (hbeam : HeapBeam ef seen spent frontier) :
    frontier.candidates ⊆ seen := fun x hx => (hbeam.beam.queued x hx).1

/-- The root of the results is the farthest of them. -/
theorem HeapBeam.root_farthest (hbeam : HeapBeam ef seen spent frontier) {worst : Candidate}
    {rest : List Candidate} (hresults : frontier.results = worst :: rest) :
    ∀ y ∈ frontier.results, before worst y = false := by
  intro y hy
  have hordered := hbeam.results
  rw [hresults] at hordered hy
  cases List.mem_cons.mp hy with
  | inl heq => exact heq ▸ weakOrder_before.irrefl y
  | inr hy => exact (binaryHeap weakOrder_behind).root_least hordered hy

theorem HeapBeam.results_cons (hef : 1 ≤ ef) (hfull : ef ≤ frontier.results.length) :
    ∃ worst rest, frontier.results = worst :: rest :=
  List.exists_cons_of_ne_nil (List.ne_nil_of_length_pos (by omega))

/-- What the heap gives out is the nearest of the candidates. -/
theorem HeapBeam.pop (hbeam : HeapBeam ef seen spent frontier) {c : Candidate}
    {rest : List Candidate} (hpop : candHeapPop frontier.candidates = some (c, rest)) :
    (c :: rest).Perm frontier.candidates ∧ (∀ y ∈ frontier.candidates, before y c = false) ∧
      HeapOrdered before rest rest.length := by
  have hagree := (agreeOn_nearer hbeam.comparable).subset hbeam.candidates_subset
  have hordered := hbeam.candidates
  rw [candHeapPop, heapPop_congr hagree] at hpop
  have hperm : (c :: rest).Perm frontier.candidates := heapPop_perm hpop
  cases hlist : frontier.candidates with
  | nil =>
      rw [hlist] at hperm
      exact absurd hperm.length_eq (Nat.succ_ne_zero _)
  | cons root others =>
      rw [hlist] at hpop hordered hperm
      obtain ⟨hroot, hrest⟩ := (binaryHeap weakOrder_before).ordered_pop hordered hpop
      refine ⟨hperm, fun y hy => ?_, hrest⟩
      simp only at hroot
      rw [hroot]
      cases List.mem_cons.mp hy with
      | inl heq => exact heq ▸ weakOrder_before.irrefl y
      | inr hy => exact (binaryHeap weakOrder_before).root_least hordered hy

section

variable (hef : 1 ≤ ef) (hbeam : HeapBeam ef seen spent frontier)

include hef hbeam

theorem HeapBeam.stops (hnext : frontier.next ef = none) : ∀ x ∈ frontier.results, x ∈ spent := by
  unfold Frontier.next at hnext
  cases hpop : candHeapPop frontier.candidates with
  | none =>
      have hempty : frontier.candidates = [] := by
        by_contra hne
        have hsome := @heapPop_isSome _ nearer _ hne
        rw [← candHeapPop, hpop] at hsome
        cases hsome
      have hnil := hbeam.beam
      rw [hempty] at hnil
      exact hnil.stop_nil
  | some popped =>
      obtain ⟨c, rest⟩ := popped
      obtain ⟨hperm, hleast, _⟩ := hbeam.pop hpop
      simp only [hpop] at hnext
      split at hnext
      next hfar =>
        obtain ⟨worst, others, hresults⟩ := HeapBeam.results_cons hef hfar.1
        have hless : worst.dist < c.dist := by simpa [hresults] using hfar.2
        exact hbeam.beam.stop weakOrder_before hleast (hbeam.root_farthest hresults)
          (before_of_lt hless)
      next => cases hnext

theorem HeapBeam.goes {c : Candidate} {after : Frontier}
    (hnext : frontier.next ef = some (c, after)) :
    Next before spent frontier.results c ∧ HeapBeam ef seen (c :: spent) after ∧
      after.marks = frontier.marks := by
  unfold Frontier.next at hnext
  cases hpop : candHeapPop frontier.candidates with
  | none => simp [hpop] at hnext
  | some popped =>
      obtain ⟨x, rest⟩ := popped
      obtain ⟨hperm, hleast, hrest⟩ := hbeam.pop hpop
      simp only [hpop] at hnext
      split at hnext
      next => cases hnext
      next hnear =>
        obtain ⟨rfl, rfl⟩ := Prod.mk.inj (Option.some.inj hnext)
        have hx : x ∈ frontier.candidates := hperm.mem_iff.mp List.mem_cons_self
        refine ⟨hbeam.beam.next hx hleast fun hfull => ?_,
          ⟨hbeam.comparable, hbeam.beam.spend hperm, hrest, hbeam.results⟩, rfl⟩
        obtain ⟨worst, others, hresults⟩ := HeapBeam.results_cons hef hfull
        have hworst : worst ∈ frontier.results := by rw [hresults]; exact List.mem_cons_self
        refine ⟨worst, hworst, ?_⟩
        have hagree := agreeOn_nearer hbeam.comparable worst (hbeam.beam.best.subset hworst) x
          (hbeam.candidates_subset hx)
        rw [← hagree]
        exact decide_eq_false fun hless => hnear ⟨hfull, by simpa [hresults] using hless⟩

/-- Many of those that were seen are nearer than a candidate that does not beat full results. -/
theorem HeapBeam.covered (hfull : ef ≤ frontier.results.length) {c : Candidate}
    (hc : (c :: seen).Pairwise Comparable) (hbeats : frontier.beats c.dist = false) :
    ef ≤ rank before seen c := by
  obtain ⟨worst, rest, hresults⟩ := HeapBeam.results_cons hef hfull
  have hworst : worst ∈ seen :=
    hbeam.beam.best.subset (by rw [hresults]; exact List.mem_cons_self)
  have hless : before c worst = false := by
    rw [← agreeOn_nearer hc c List.mem_cons_self worst (List.mem_cons_of_mem c hworst)]
    simpa [Frontier.beats, hresults, nearer] using hbeats
  exact hbeam.beam.covered weakOrder_before hfull
    (fun y hy => ((List.pairwise_cons.mp hc).1 y hy).apart) (hbeam.root_farthest hresults) hless

/-- A new candidate is taken, or many results are nearer. -/
theorem HeapBeam.offer {c : Candidate} (hc : (c :: seen).Pairwise Comparable) :
    HeapBeam ef (c :: seen) spent (frontier.offer ef c) ∧
      (frontier.offer ef c).marks = frontier.marks := by
  refine ⟨?_, (frontier.offer_offered ef c).2⟩
  have hpairs := List.pairwise_cons.mp hc
  have hapart : ∀ y ∈ seen, Apart before c y := fun y hy => (hpairs.1 y hy).apart
  unfold Frontier.offer
  split
  next htaken =>
    have hsub : c :: frontier.candidates ⊆ c :: seen :=
      List.cons_subset_cons c hbeam.candidates_subset
    have hsub' : c :: frontier.results ⊆ c :: seen :=
      List.cons_subset_cons c hbeam.beam.best.subset
    have hqueue := heapPush_congr ((agreeOn_nearer hc).subset hsub)
    have hpush := heapPush_congr ((agreeOn_farther hc).subset hsub')
    have hresults : (if ef < (resHeapPush frontier.results c).length then
          ((resHeapPop (resHeapPush frontier.results c)).map Prod.snd).getD
            (resHeapPush frontier.results c)
        else resHeapPush frontier.results c) =
        pushPop (binaryHeap weakOrder_behind) ef frontier.results c := by
      have hpop : heapPop farther (heapPush (fun x y => before y x) frontier.results c) =
          heapPop (fun x y => before y x) (heapPush (fun x y => before y x) frontier.results c) :=
        heapPop_congr (((agreeOn_farther hc).subset hsub').subset (heapPush_perm _ c).subset)
      unfold resHeapPush resHeapPop pushPop
      rw [hpush, hpop]
      rfl
    obtain ⟨hordered, hbest⟩ := pushPop_best weakOrder_behind (binaryHeap weakOrder_behind)
      hbeam.results hbeam.beam.best c
    simp only
    rw [hresults]
    refine ⟨hc, hbeam.beam.accept weakOrder_before hapart hbest ?_, ?_, hordered⟩
    · exact heapPush_perm _ c
    · rw [candHeapPush, hqueue]
      exact (binaryHeap weakOrder_before).ordered_push hbeam.candidates
  next hleft =>
    simp only [not_or, not_lt, Bool.not_eq_true] at hleft
    have hcovered := hbeam.covered hef hleft.1 hc hleft.2
    exact ⟨hc, hbeam.beam.skip weakOrder_before hapart hcovered, hbeam.candidates, hbeam.results⟩

end

theorem HeapBeam.perm_seen (hbeam : HeapBeam ef seen spent frontier) {other : List Candidate}
    (hperm : seen.Perm other) : HeapBeam ef other spent frontier :=
  { hbeam with
    comparable := hperm.pairwise hbeam.comparable fun h => h.symm
    beam := hbeam.beam.perm_seen hperm }

/-- New candidates are taken one by one. -/
theorem HeapBeam.offerAll (hef : 1 ≤ ef) {found : List Candidate}
    (hbeam : HeapBeam ef seen spent frontier) (hfound : (found ++ seen).Pairwise Comparable) :
    HeapBeam ef (found ++ seen) spent (found.foldl (Frontier.offer ef) frontier) ∧
      (found.foldl (Frontier.offer ef) frontier).marks = frontier.marks :=
  foldl_seen (fun seen f => HeapBeam ef seen spent f ∧ f.marks = frontier.marks)
    (fun h => h.symm) (fun h hperm => ⟨h.1.perm_seen hperm, h.2⟩)
    (fun h hc => ⟨(h.1.offer hef hc).1, (h.1.offer hef hc).2.trans h.2⟩) ⟨hbeam, rfl⟩ hfound

/-- Candidates that many others are nearer than can be left out. -/
theorem HeapBeam.offerSome (hef : 1 ≤ ef) {found taken omitted : List Candidate}
    (hbeam : HeapBeam ef seen spent frontier) (hfound : (found ++ seen).Pairwise Comparable)
    (hsplit : found.Perm (taken ++ omitted))
    (hcovered : ∀ x ∈ omitted, ef ≤ rank before (taken ++ seen) x) :
    HeapBeam ef (found ++ seen) spent (taken.foldl (Frontier.offer ef) frontier) ∧
      (taken.foldl (Frontier.offer ef) frontier).marks = frontier.marks := by
  have hperm : (found ++ seen).Perm (omitted ++ (taken ++ seen)) := by
    rw [← List.append_assoc]
    exact (hsplit.trans List.perm_append_comm).append_right seen
  have hmoved : (omitted ++ (taken ++ seen)).Pairwise Comparable :=
    hperm.pairwise hfound fun h => h.symm
  obtain ⟨htaken, hmarks⟩ := hbeam.offerAll hef (List.pairwise_append.mp hmoved).2.1
  have hall : HeapBeam ef (omitted ++ (taken ++ seen)) spent
      (taken.foldl (Frontier.offer ef) frontier) :=
    { htaken with
      comparable := hmoved
      beam := htaken.beam.skipAll weakOrder_before (apart_of_comparable hmoved) hcovered }
  exact ⟨hall.perm_seen hperm.symm, hmarks⟩

/-- The best of those are taken that pass a test, where many are nearer than one that does not
pass. -/
theorem HeapBeam.offerBest (hef : 1 ≤ ef) (hbeam : HeapBeam ef seen spent frontier)
    {found : List Candidate} (hfound : (found ++ seen).Pairwise Comparable)
    {test : Candidate → Bool}
    (hfails : ∀ x ∈ found, test x = false → ef ≤ rank before seen x) {k : Int} (hk : k = ef) :
    ∃ after,
      (if (found.filter test).isEmpty then pure frontier
        else do
          let best ← selectTopKByDist (found.filter test) k
          pure (best.foldl (Frontier.offer ef) frontier) : Probe Frontier) = pure after ∧
        HeapBeam ef (found ++ seen) spent after ∧ after.marks = frontier.marks := by
  have hsplit : found.Perm (found.filter test ++ found.filter fun x => !test x) :=
    (List.filter_append_perm test found).symm
  have hmissed : ∀ taken, ∀ x ∈ found.filter fun x => !test x,
      ef ≤ rank before (taken ++ seen) x := by
    intro taken x hx
    obtain ⟨hin, hnot⟩ := List.mem_filter.mp hx
    have hmany := hfails x hin (by simpa using hnot)
    rw [rank_append]
    omega
  split
  next hempty =>
    refine ⟨frontier, rfl, ?_⟩
    rw [List.isEmpty_iff.mp hempty] at hsplit
    exact hbeam.offerSome hef hfound hsplit (hmissed [])
  next hsome =>
    have hbetter : (found.filter test).Pairwise Comparable :=
      (List.pairwise_append.mp hfound).1.sublist List.filter_sublist
    obtain ⟨best, hselect, hbest⟩ := selectTopKByDist_best hbetter (k := k) (by omega)
    have hcount : k.toNat = ef := by omega
    rw [hcount] at hbest
    obtain ⟨dropped, hparts, hcovered⟩ := hbest.exists_covered (apart_of_comparable hbetter)
    rw [hselect, Traced.pure_bind]
    have hall : found.Perm (best ++ (dropped ++ found.filter fun x => !test x)) := by
      rw [← List.append_assoc]
      exact hsplit.trans (hparts.append_right _)
    refine ⟨_, rfl, hbeam.offerSome hef hfound hall fun x hx => ?_⟩
    cases List.mem_append.mp hx with
    | inl hx =>
        have hmany := hcovered x hx
        rw [rank_append]
        omega
    | inr hx => exact hmissed best x hx

theorem HeapBeam.length_results (hbeam : HeapBeam ef seen spent frontier)
    (hseen : ef ≤ seen.length) : frontier.results.length = ef := by
  rw [hbeam.beam.best.length]
  omega

theorem HeapBeam.le_length_seen (hbeam : HeapBeam ef seen spent frontier)
    (hfull : ef ≤ frontier.results.length) : ef ≤ seen.length := by
  rw [hbeam.beam.best.length] at hfull
  omega

/-- The pieces of the parallel search are taken one after the other. -/
theorem HeapBeam.offerLocals (hef : 1 ≤ ef) {pieces : List (List Candidate)}
    (hbeam : HeapBeam ef seen spent frontier) (hfull : ef ≤ seen.length)
    (hpieces : (pieces.flatten ++ seen).Pairwise Comparable) {test : Candidate → Bool}
    (hfails : ∀ x ∈ pieces.flatten, test x = false → ef ≤ rank before seen x) :
    ∃ after, Traced.fold (Frontier.offerLocal ef) frontier (pieces.map (List.filter test)) =
        pure after ∧
      HeapBeam ef (pieces.flatten ++ seen) spent after ∧ after.marks = frontier.marks := by
  induction pieces generalizing seen frontier with
  | nil => exact ⟨frontier, rfl, hbeam, rfl⟩
  | cons piece pieces ih =>
      rw [List.flatten_cons] at hpieces hfails ⊢
      have hperm : (piece ++ pieces.flatten ++ seen).Perm (pieces.flatten ++ (piece ++ seen)) := by
        rw [← List.append_assoc]
        exact List.perm_append_comm.append_right seen
      have hmoved := hperm.pairwise hpieces fun h => Comparable.symm h
      obtain ⟨middle, hlocal, hmiddle, hmarks⟩ := hbeam.offerBest hef
        (List.pairwise_append.mp hmoved).2.1
        (fun x hx => hfails x (List.mem_append_left _ hx))
        (congrArg Nat.cast (hbeam.length_results hfull))
      have hlonger : ef ≤ (piece ++ seen).length := by
        rw [List.length_append]
        omega
      obtain ⟨after, hrest, hafter, hmarks'⟩ := ih hmiddle hlonger hmoved fun x hx hnot => by
        have hmany := hfails x (List.mem_append_right _ hx) hnot
        rw [rank_append]
        omega
      refine ⟨after, ?_, hafter.perm_seen hperm.symm, hmarks'.trans hmarks⟩
      rw [List.map_cons, Traced.fold, Frontier.offerLocal, hlocal, Traced.pure_bind]
      exact hrest

theorem chunksOf_flatten {size : Nat} (hsize : 0 < size) (list : List Candidate) :
    (chunksOf size list).flatten = list := by
  fun_induction chunksOf size list with
  | case1 list hdone => exact (hdone.resolve_right (by omega)).symm
  | case2 list _ ih => rw [List.flatten_cons, ih, List.take_append_drop]

/-- However `searchLayer` takes new candidates, the queues are as if it had seen them all. -/
theorem HeapBeam.absorb (hef : 1 ≤ ef) (hbeam : HeapBeam ef seen spent frontier)
    {found : List Candidate} (hfound : (found ++ seen).Pairwise Comparable) :
    ∃ after, frontier.absorb p h ef found = pure after ∧
      HeapBeam ef (found ++ seen) spent after ∧ after.marks = frontier.marks := by
  have hone : ∀ x ∈ found, (x :: seen).Pairwise Comparable := fun x hx =>
    List.pairwise_cons.mpr ⟨fun y hy => (List.pairwise_append.mp hfound).2.2 x hx y hy,
      hbeam.comparable⟩
  unfold Frontier.absorb
  simp only
  generalize hways : (if h.config.searchParallelism ≤ 0 then max p.maxProcs 1
    else h.config.searchParallelism.toNat) = ways
  by_cases hparallel : ef ≤ frontier.results.length ∧ 256 ≤ found.length ∧ 1 < ways
  · rw [if_pos hparallel]
    obtain ⟨hfull, hmany, hways⟩ := hparallel
    have hsize : 0 < (found.length + ways - 1) / ways := Nat.div_pos (by omega) (by omega)
    have hflatten := chunksOf_flatten hsize found
    rw [← hflatten] at hfound
    have hlocals := hbeam.offerLocals hef (hbeam.le_length_seen hfull) hfound
      fun x hx (hnot : (fun c : Candidate => frontier.beats c.dist) x = false) =>
        hbeam.covered hef hfull (hone x (hflatten ▸ hx)) hnot
    rwa [hflatten] at hlocals
  · rw [if_neg hparallel]
    by_cases hbulk : ef * 2 < found.length
    · rw [if_pos hbulk]
      refine hbeam.offerBest hef hfound (fun x hx hnot => ?_) rfl
      rw [Bool.or_eq_false_iff, decide_eq_false_iff_not, not_lt] at hnot
      exact hbeam.covered hef hnot.1 (hone x hx) hnot.2
    · rw [if_neg hbulk]
      exact ⟨_, rfl, hbeam.offerAll hef hfound⟩

/-- A search with the two heaps follows the order, if its way to take new candidates does. -/
theorem follows_heapSearch (hef : 1 ≤ ef) {absorb : Frontier → List Candidate → Probe Frontier}
    (habsorb : ∀ {seen spent frontier found}, HeapBeam ef seen spent frontier →
      (found ++ seen).Pairwise Comparable →
        ∃ after, absorb frontier found = pure after ∧ HeapBeam ef (found ++ seen) spent after ∧
          after.marks = frontier.marks) :
    (heapSearch ef absorb).Follows before Comparable ef (HeapBeam ef) where
  best hbeam := hbeam.beam.best
  known hbeam := hbeam.beam.known
  stops hbeam hnext := hbeam.stops hef hnext
  goes hbeam hnext := hbeam.goes hef hnext
  absorbs _ _ hbeam hfound :=
    habsorb ⟨hbeam.comparable, hbeam.beam, hbeam.candidates, hbeam.results⟩ hfound

variable (p h) in
/-- The search of `searchLayer` follows the order. -/
theorem follows_searchLoop (hef : 1 ≤ ef) :
    (heapSearch ef (Frontier.absorb p h ef)).Follows before Comparable ef (HeapBeam ef) :=
  follows_heapSearch hef fun hbeam => hbeam.absorb hef

theorem heapOrdered_singleton (lt : Candidate → Candidate → Bool) (first : Candidate) :
    HeapOrdered lt [first] [first].length := by
  intro c x y hpos hc
  rw [List.length_singleton] at hc
  omega

theorem HeapBeam.start (hef : 1 ≤ ef) (first : Candidate) (marks : List Nat) :
    HeapBeam ef [first] [] ⟨[first], [first], marks⟩ where
  comparable := List.pairwise_singleton _ _
  beam := Beam.start before hef first
  candidates := heapOrdered_singleton before first
  results := heapOrdered_singleton _ first

end Heaps

/-! ## The shortcuts -/

section Searches

variable (p : Platform) (h : Index) (query : Vector) (qvec : Option Bytes)

/-- The loop of `searchLayer` without the parallel and the bulk branch. -/
def searchOneByOne (ef layer : Nat) : Nat → Frontier → Probe (List Candidate)
  | 0, _ => Traced.raise .endless
  | fuel + 1, frontier =>
      match candHeapPop frontier.candidates with
      | none => pure frontier.results
      | some (c, candidates) =>
          if ef ≤ frontier.results.length ∧
              frontier.results.head?.any (fun worst => decide (worst.dist < c.dist)) = true then
            pure frontier.results
          else do
            let (found, marks) ← h.expand p query qvec layer frontier.marks c
            let frontier := { frontier with candidates := candidates, marks := marks }
            searchOneByOne ef layer fuel (found.foldl (Frontier.offer ef) frontier)

/-- A search of a layer from a start node, by a loop over the queues with the start in them. -/
def searchFrom (start : Option Node) (loop : Candidate → Probe (List Candidate)) :
    Probe (List Candidate) := do
  let startDist ← h.distanceToNode p query qvec start
  match start with
  | none => Traced.raise .nilDereference
  | some node => loop ⟨node.id, startDist, node⟩

/-- `searchLayer` without its shortcuts. -/
def searchLayerOneByOne (start : Option Node) (ef : Int) (layer : Nat) : Probe (List Candidate) :=
  h.searchFrom p query qvec start fun first =>
    h.searchOneByOne p query qvec ef.toNat layer (h.nodes.length + 2) ⟨[first], [first], [first.id]⟩

/-- The body of `searchLayer` after its test of `ef`. -/
def searchLayerHeaps (start : Option Node) (ef : Int) (layer : Nat) : Probe (List Candidate) :=
  h.searchFrom p query qvec start fun first =>
    h.searchLoop p query qvec ef.toNat layer (h.nodes.length + 2) ⟨[first], [first], [first.id]⟩

/-- `searchLayerSmall`. -/
def searchLayerSmall (start : Option Node) (ef : Int) (layer : Nat) : Probe (List Candidate) :=
  h.searchFrom p query qvec start fun first =>
    h.searchSmallLoop p query qvec (if ef ≤ 0 then 1 else ef.toNat) layer (h.nodes.length + 2)
      ⟨[first], [first], [first.id], maxFloat32, 0⟩

end Searches

section Shortcuts

variable {start : Option Node}

theorem searchLayer_eq (ef : Int) :
    h.searchLayer p query qvec start ef layer =
      if ef ≤ 32 then h.searchLayerSmall p query qvec start ef layer
      else h.searchLayerHeaps p query qvec start ef layer := by
  unfold searchLayer searchLayerSmall searchLayerHeaps searchFrom
  by_cases hsmall : ef ≤ 32 <;> cases start <;> simp [hsmall]

theorem searchOneByOne_eq_run (ef fuel : Nat) (frontier : Frontier) :
    h.searchOneByOne p query qvec ef layer fuel frontier =
      (heapSearch ef fun frontier found => pure (found.foldl (Frontier.offer ef) frontier)).run
        (h.expand p query qvec layer) .endless fuel frontier := by
  induction fuel generalizing frontier with
  | zero => rfl
  | succ fuel ih =>
      rw [searchOneByOne, Explorer.run]
      simp only [heapSearch, Frontier.next]
      cases candHeapPop frontier.candidates with
      | none => rfl
      | some popped =>
          obtain ⟨c, candidates⟩ := popped
          simp only
          split
          next => rfl
          next => simp only [ih, heapSearch, Traced.pure_bind]

/-- Two searches from one start agree exactly if their loops do. -/
theorem searchFrom_agree_iff {related : List Candidate → List Candidate → Prop}
    {loop other : Candidate → Probe (List Candidate)} :
    Traced.Agree related .endless (h.searchFrom p query qvec start loop)
        (h.searchFrom p query qvec start other) ↔
      ∀ node dist, start = some node →
        (h.distanceToNode p query qvec start).outcome = .ok dist →
          Traced.Agree related .endless (loop ⟨node.id, dist, node⟩)
            (other ⟨node.id, dist, node⟩) := by
  unfold searchFrom
  unfold Traced.Agree
  simp only [outcome_bind]
  cases start with
  | none =>
      refine iff_of_true ⟨rfl, fun heq => by cases heq⟩ fun node dist heq => ?_
      cases heq
  | some node =>
      have hkeeps : Traced.Keeps (fun _ => True) (fun fault => fault ≠ .endless) (fun _ => True)
          (h.distanceToNode p query qvec (some node)) :=
        distanceToNode_keeps query qvec trivial (fun heq => by cases heq)
      cases hdist : (h.distanceToNode p query qvec (some node)).outcome with
      | error fault =>
          refine iff_of_true ⟨rfl, hkeeps.faults fault hdist⟩ fun _ _ _ hok => ?_
          cases hok
      | ok dist =>
          constructor
          · intro hagree node' dist' heq hok
            obtain rfl := Option.some.inj heq
            obtain rfl := Except.ok.inj hok
            exact hagree
          · intro hall
            exact hall node dist rfl rfl

/-- Searches with two heaps of one beam agree. -/
theorem heapSearch_agree {ef : Nat} (hef : 1 ≤ ef)
    (hdistinguished : Distinguished p h query qvec layer start) {node : Node} {dist : Float32}
    (hstart : start = some node) (hdist : (h.distanceToNode p query qvec start).outcome = .ok dist)
    {σ : Type} {others : Explorer Candidate (List Nat) σ Node Fault} {state : σ}
    {invariant : List Candidate → List Candidate → σ → Prop}
    (hothers : others.Follows before Comparable ef invariant)
    (hstate : invariant [⟨node.id, dist, node⟩] [] state) (hmarks : others.marks state = [node.id]) :
    Traced.Agree List.Perm .endless
      (others.run (h.expand p query qvec layer) .endless (h.nodes.length + 2) state)
      (h.searchLoop p query qvec ef layer (h.nodes.length + 2)
        ⟨[⟨node.id, dist, node⟩], [⟨node.id, dist, node⟩], [node.id]⟩) := by
  rw [searchLoop_eq_run]
  have hslots : (unmarkedSlots h [node.id]).card ≤ h.nodes.length :=
    (Finset.card_filter_le _ _).trans_eq (Finset.card_range _)
  have hroom : ∀ {marks x found marks'},
      (h.expand p query qvec layer marks x).outcome = .ok (found, marks') →
        found.length + (unmarkedSlots h marks').card ≤ (unmarkedSlots h marks).card :=
    fun hexpand => (expand_discovers hexpand).room
  refine hothers.agree weakOrder_before (fun _ _ => Comparable.apart)
    (follows_searchLoop p h hef)
    (explores_expand hdistinguished) hroom (expand_faults _ _) hstate (HeapBeam.start hef _ _)
      hmarks.symm
    (hmarks ▸ marked_start hstart hdist)
    (List.pairwise_singleton _ _) List.nodup_nil ?_
  rw [hmarks, List.length_singleton, List.length_nil]
  omega

/-- Where different nodes have different distances, the parallel and the bulk branch of
`searchLayer` do not change what it returns. -/
theorem searchLayer_shortcuts {ef : Int} (hef : 32 < ef)
    (hdistinguished : Distinguished p h query qvec layer start) :
    Traced.Agree List.Perm .endless (h.searchLayerOneByOne p query qvec start ef layer)
      (h.searchLayer p query qvec start ef layer) := by
  rw [searchLayer_eq, if_neg (by omega)]
  refine searchFrom_agree_iff.mpr fun node dist hstart hdist => ?_
  have hpos : 1 ≤ ef.toNat := by omega
  rw [searchOneByOne_eq_run]
  exact heapSearch_agree hpos hdistinguished hstart hdist
    (follows_heapSearch hpos fun hbeam hfound => ⟨_, rfl, hbeam.offerAll hpos hfound⟩)
    (HeapBeam.start hpos _ _) rfl

/-! ### A graph of nodes on a line -/

/-- Without the batch functions, the distances to any two stored nodes are comparable. -/
def Separated (p : Platform) (h : Index) (query : Vector) (qvec : Option Bytes) : Prop :=
  ∀ i < h.nodes.length, ∀ j < h.nodes.length, i ≠ j →
    ∀ node ∈ h.getNodeFast i, ∀ other ∈ h.getNodeFast j,
      ∀ d ∈ (h.distanceToNode p query qvec (some node)).value?,
        ∀ e ∈ (h.distanceToNode p query qvec (some other)).value?, d < e ∨ e < d

theorem value?_eq_some {α : Type} {computation : Probe α} {value : α} :
    computation.value? = some value ↔ computation.outcome = .ok value := by
  unfold Traced.value?
  cases computation.outcome <;> simp [Except.toOption]

/-- A candidate that was found has the distance of its node. -/
theorem distanceToNode_of_expand (hplain : p.batchEnabled = false) {marks marks' : List Nat}
    {c x : Candidate} {found : List Candidate}
    (hexpand : (h.expand p query qvec layer marks c).outcome = .ok (found, marks'))
    (hx : x ∈ found) : (h.distanceToNode p query qvec (some x.node)).outcome = .ok x.dist := by
  have hall : ∀ nodes : List Node, Traced.Keeps (fun _ => True) (fun _ => True)
      (fun dists => List.Forall₂ (fun node dist =>
        (h.distanceToNode p query qvec (some node)).outcome = .ok dist) nodes dists)
      (h.computeDistancesInto p query qvec nodes) := by
    intro nodes
    have heach : h.computeDistancesInto p query qvec nodes =
        Traced.each (fun node => h.distanceToNode p query qvec (some node)) nodes := by
      unfold computeDistancesInto
      cases qvec <;> simp [hplain]
    rw [heach]
    exact Traced.Keeps.each fun node _ => ⟨fun _ _ => trivial, fun _ _ => trivial, fun _ h => h⟩
  rw [expand] at hexpand
  split at hexpand
  next => cases hexpand
  next list hlist =>
    simp only [outcome_bind] at hexpand
    generalize h.freshNeighbors marks
      (if 0 < p.neighborCap then list.take p.neighborCap else list) = fresh at hexpand
    cases hdists : (h.computeDistancesInto p query qvec (fresh.1.map Prod.snd)).outcome with
    | error fault =>
        rw [hdists] at hexpand
        cases hexpand
    | ok dists =>
        rw [hdists] at hexpand
        have hpairs := (hall _).value dists hdists
        obtain ⟨rfl, _⟩ := Prod.mk.inj (Except.ok.inj hexpand)
        clear hdists hexpand hall
        generalize fresh.1 = entries at hpairs hx
        induction entries generalizing dists with
        | nil => simp at hx
        | cons entry entries ih =>
            cases hpairs with
            | cons hfirst hrest =>
                cases List.mem_cons.mp hx with
                | inl heq => exact heq ▸ hfirst
                | inr hx => exact ih _ hrest hx

theorem distinguished_of_separated (hplain : p.batchEnabled = false)
    (hseparated : Separated p h query qvec)
    (hstart : ∀ node, start = some node → h.getNodeFast node.id = some node) :
    Distinguished p h query qvec layer start := by
  have hstored : ∀ {x}, Met p h query qvec layer start x → h.getNodeFast x.id = some x.node ∧
      (h.distanceToNode p query qvec (some x.node)).value? = some x.dist := by
    intro x hmet
    cases hmet with
    | start hnode hdist =>
        rw [hnode] at hdist
        exact ⟨hstart _ hnode, value?_eq_some.mpr hdist⟩
    | found hexpand hx =>
        exact ⟨(expand_discovers hexpand).stored x hx,
          value?_eq_some.mpr (distanceToNode_of_expand hplain hexpand hx)⟩
  intro x y hx hy hne
  obtain ⟨hx, hdist⟩ := hstored hx
  obtain ⟨hy, hdist'⟩ := hstored hy
  exact hseparated x.id (lt_length_of_getNodeFast hx) y.id (lt_length_of_getNodeFast hy) hne
    x.node hx y.node hy x.dist hdist y.dist hdist'

/-- Nodes with the vectors 1, 2, 3 and so on, each with an edge to the next. -/
def lineGraph (vectors : List Vector) : Index :=
  { Index.new 1 plainConfig with
    entry := 1
    nodes := none :: vectors.mapIdx fun i vec =>
      some ⟨i + 1, some vec, none, 0, 0, [[i + 2]]⟩ }

theorem distinguished_line (vectors : List Vector)
    (hseparated : Separated plainPlatform (lineGraph vectors) one none) :
    Distinguished plainPlatform (lineGraph vectors) one none 0
      ((lineGraph vectors).getNodeFast 1) := by
  refine distinguished_of_separated rfl hseparated fun node hnode => ?_
  have hid : node.id = 1 := by
    cases vectors with
    | nil => simp [lineGraph, getNodeFast] at hnode
    | cons vec rest =>
        simp only [lineGraph, getNodeFast, List.mapIdx_cons, List.getElem?_cons_succ,
          List.getElem?_cons_zero, Option.join_some, Option.some.injEq] at hnode
        rw [← hnode]
  rw [hid, hnode]

/-- A node with an edge to every other one. -/
def starGraph (leaves : Nat) : Index :=
  { Index.new 1 plainConfig with
    entry := 1
    nodes := none :: (List.range (leaves + 1)).map fun i =>
      some ⟨i + 1, some [0x40000000 + 0x10000 * i.toUInt32], none, 0, 0,
        [if i = 0 then (List.range leaves).map (· + 2) else []]⟩ }

/-- The first node has more than twice 33 neighbours, so they are taken in bulk. -/
theorem searchLayer_shortcuts_star :
    Distinguished plainPlatform (starGraph 70) one none 0 ((starGraph 70).getNodeFast 1) ∧
      Traced.Agree List.Perm .endless
        ((starGraph 70).searchLayerOneByOne plainPlatform one none ((starGraph 70).getNodeFast 1) 33 0)
        ((starGraph 70).searchLayer plainPlatform one none ((starGraph 70).getNodeFast 1) 33 0) := by
  have hseparated : Separated plainPlatform (starGraph 70) one none := by
    unfold Separated
    decide +kernel
  have hdistinguished : Distinguished plainPlatform (starGraph 70) one none 0
      ((starGraph 70).getNodeFast 1) :=
    distinguished_of_separated rfl hseparated fun node hnode => by
      cases hnode
      rfl
  exact ⟨hdistinguished, searchLayer_shortcuts (by decide) hdistinguished⟩

end Shortcuts

end Index

end Vectron.Hnsw
