import Vectron.Worker.Recovery

/-! # The hot tier of a store

A store can keep the vectors written last in a small index of their own. A set has the ids of
this index, and a queue has them in the order they came, so that the oldest ones leave when there
are too many. An id of the set is not added again, and a deletion takes an id out of the set and
the index and leaves it in the queue.
-/

namespace Vectron.Worker

open Foundation

/-- The hot index of a store that has one, and its ids. -/
structure HotTier where
  hnswHot : Hnsw
  hotSet : GoMap Bytes Unit
  hotQueue : List Bytes

namespace HotTier

/-- The hot tier of a store that was just opened. -/
def opened (config : IndexConfig) : HotTier := ⟨Hnsw.new config, ∅, []⟩

/-- `HotIndexMaxSize`, or the default. -/
def maxSize (hotIndexMaxSize : Int) : Nat :=
  if hotIndexMaxSize ≤ 0 then 100000 else hotIndexMaxSize.toNat

/-- The end of `hotAdd`: the oldest ids leave as long as there are too many. -/
def evictOldest (max : Nat) (hnswHot : Hnsw) (hotSet : GoMap Bytes Unit) : List Bytes → HotTier
  | [] => ⟨hnswHot, hotSet, []⟩
  | oldest :: rest =>
      if max < (oldest :: rest).length then
        evictOldest max (hnswHot.delete oldest) (hotSet.erase oldest) rest
      else ⟨hnswHot, hotSet, oldest :: rest⟩

def hotAdd (arith : Arithmetic) (hotIndexMaxSize : Int) (tier : HotTier) (id : Bytes)
    (vector : Vector) : HotTier :=
  if (tier.hotSet.lookup id).isSome then tier
  else
    let added := tier.hnswHot.add arith id vector
    if added.2 then
      evictOldest (maxSize hotIndexMaxSize) added.1 (tier.hotSet.insert id ())
        (tier.hotQueue ++ [id])
    else { tier with hnswHot := added.1 }

def hotDelete (tier : HotTier) (id : Bytes) : HotTier :=
  if (tier.hotSet.lookup id).isSome then
    { tier with hotSet := tier.hotSet.erase id, hnswHot := tier.hnswHot.delete id }
  else tier

/-- A call, with a vector of the dimension of the index. -/
inductive Call (dim : Nat) where
  | hotAdd (id : Bytes) (vector : Vector) (hdim : vector.length = dim)
  | hotDelete (id : Bytes)

/-- What a run has seen so far: how many calls there were, with which of them an id came into
the set last, and the vector that was passed for it last. -/
structure Journal where
  calls : Nat
  inserted : Bytes → Nat
  passed : Bytes → Option Vector

def Journal.empty : Journal := ⟨0, fun _ => 0, fun _ => none⟩

/-- A call is noted against the set it meets. -/
def Journal.note {dim : Nat} (journal : Journal) (tier : HotTier) : Call dim → Journal
  | .hotAdd id vector _ =>
      { calls := journal.calls + 1
        inserted :=
          if (tier.hotSet.lookup id).isSome then journal.inserted
          else Function.update journal.inserted id journal.calls
        passed := Function.update journal.passed id (some vector) }
  | .hotDelete _ => { journal with calls := journal.calls + 1 }

def step {dim : Nat} (arith : Arithmetic) (hotIndexMaxSize : Int) (state : HotTier × Journal)
    (call : Call dim) : HotTier × Journal :=
  (match call with
    | .hotAdd id vector _ => state.1.hotAdd arith hotIndexMaxSize id vector
    | .hotDelete id => state.1.hotDelete id,
    state.2.note state.1 call)

/-- The set, the queue and the index have the same ids, each with the vector that was passed
last, and the queue has them in the order they came. -/
structure Tied (arith : Arithmetic) (tier : HotTier) (journal : Journal) : Prop where
  order : tier.hotQueue.Pairwise fun first second =>
    journal.inserted first < journal.inserted second
  queue : ∀ id, id ∈ tier.hotQueue ↔ (tier.hotSet.lookup id).isSome
  live : ∀ id, (tier.hnswHot.item arith id).isSome ↔ (tier.hotSet.lookup id).isSome
  vector : ∀ id, (tier.hotSet.lookup id).isSome →
    tier.hnswHot.item arith id = (journal.passed id).map (kept arith tier.hnswHot.config)

/-- A hot tier that is tied and within its bound. -/
structure Consistent (arith : Arithmetic) (hotIndexMaxSize : Int) (tier : HotTier)
    (journal : Journal) : Prop extends Tied arith tier journal where
  bounded : tier.hotSet.keys.length ≤ maxSize hotIndexMaxSize

/-- A call that finds the id outside the set, or brings the vector that the index holds. -/
def Fresh {dim : Nat} (arith : Arithmetic) (state : HotTier × Journal) : Call dim → Prop
  | .hotAdd id vector _ => (state.1.hotSet.lookup id).isSome →
      state.1.hnswHot.item arith id = some (kept arith state.1.hnswHot.config vector)
  | .hotDelete id => state.1.hotSet.lookup id = none

section Steps

variable {arith : Arithmetic} {hotIndexMaxSize : Int} {tier : HotTier} {journal : Journal}

theorem Tied.nodup (htied : tier.Tied arith journal) : tier.hotQueue.Nodup :=
  htied.order.imp fun hlt heq => (heq ▸ hlt).false

theorem Tied.length (htied : tier.Tied arith journal) :
    tier.hotSet.keys.length = tier.hotQueue.length := by
  have hperm : tier.hotSet.keys.Perm tier.hotQueue := by
    rw [List.perm_ext_iff_of_nodup tier.hotSet.keys_nodup htied.nodup]
    intro id
    rw [htied.queue, AList.lookup_isSome]
    rfl
  exact hperm.length_eq

/-- The oldest id leaves the queue, the set and the index together. -/
theorem Tied.dropOldest {hnswHot : Hnsw} {hotSet : GoMap Bytes Unit} {oldest : Bytes}
    {rest : List Bytes} (htied : Tied arith ⟨hnswHot, hotSet, oldest :: rest⟩ journal) :
    Tied arith ⟨hnswHot.delete oldest, hotSet.erase oldest, rest⟩ journal := by
  have hnot : oldest ∉ rest := (List.nodup_cons.mp htied.nodup).1
  constructor
  case order => exact htied.order.of_cons
  case queue =>
    intro id
    have hmem := htied.queue id
    rw [GoMap.lookup_erase_if]
    by_cases hid : id = oldest
    · simp [hid, hnot]
    · simpa [hid] using hmem
  case live =>
    intro id
    have hlive := htied.live id
    rw [Hnsw.item_delete, GoMap.lookup_erase_if]
    by_cases hid : id = oldest
    · simp [hid]
    · simpa [hid] using hlive
  case vector =>
    intro id hmem
    have hvector := htied.vector id
    rw [GoMap.lookup_erase_if] at hmem
    rw [Hnsw.item_delete, Hnsw.config_delete]
    by_cases hid : id = oldest
    · simp [hid] at hmem
    · simp only [hid, if_false] at hmem ⊢
      exact hvector hmem

theorem Tied.evictOldest (max : Nat) {queue : List Bytes} :
    ∀ {hnswHot : Hnsw} {hotSet : GoMap Bytes Unit}, Tied arith ⟨hnswHot, hotSet, queue⟩ journal →
      Tied arith (evictOldest max hnswHot hotSet queue) journal ∧
        (evictOldest max hnswHot hotSet queue).hotQueue.length ≤ max := by
  induction queue with
  | nil => exact fun htied => ⟨htied, Nat.zero_le max⟩
  | cons oldest rest ih =>
      intro hnswHot hotSet htied
      rw [HotTier.evictOldest]
      split
      next _ => exact ih htied.dropOldest
      next hfits => exact ⟨htied, Nat.le_of_not_lt hfits⟩

/-- The ids that leave the queue are the ones in front. -/
theorem evictOldest_queue (max : Nat) (queue : List Bytes) (hnswHot : Hnsw)
    (hotSet : GoMap Bytes Unit) :
    (evictOldest max hnswHot hotSet queue).hotQueue <:+ queue ∧
      (evictOldest max hnswHot hotSet queue).hnswHot.config = hnswHot.config := by
  induction queue generalizing hnswHot hotSet with
  | nil => exact ⟨List.suffix_refl _, rfl⟩
  | cons oldest rest ih =>
      rw [HotTier.evictOldest]
      split
      next _ =>
        obtain ⟨hqueue, hconfig⟩ := ih (hnswHot.delete oldest) (hotSet.erase oldest)
        exact ⟨hqueue.trans (List.suffix_cons oldest rest),
          hconfig.trans (Hnsw.config_delete oldest)⟩
      next _ => exact ⟨List.suffix_refl _, rfl⟩

/-- What a run of harmless calls keeps: the tier is consistent, and the ids of the queue came
before now. -/
structure Settled (arith : Arithmetic) (hotIndexMaxSize : Int) (dim : Nat)
    (state : HotTier × Journal) : Prop where
  consistent : state.1.Consistent arith hotIndexMaxSize state.2
  past : ∀ id ∈ state.1.hotQueue, state.2.inserted id < state.2.calls
  dim : state.1.hnswHot.config.dim = dim

theorem settled_opened (arith : Arithmetic) (hotIndexMaxSize : Int) (config : IndexConfig) :
    Settled arith hotIndexMaxSize config.dim (opened config, Journal.empty) where
  consistent :=
    { order := List.Pairwise.nil
      queue := fun id => by simp [opened]
      live := fun id => by simp [opened]
      vector := fun id hmem => by simp [opened] at hmem
      bounded := Nat.zero_le _ }
  past id hid := by simp [opened] at hid
  dim := rfl

/-- An id outside the set is put behind the others. -/
theorem Tied.append (htied : tier.Tied arith journal)
    (hpast : ∀ id ∈ tier.hotQueue, journal.inserted id < journal.calls) {id : Bytes}
    (hnew : tier.hotSet.lookup id = none) {vector : Vector}
    (hdim : vector.length = tier.hnswHot.config.dim) :
    Tied arith ⟨(tier.hnswHot.add arith id vector).1, tier.hotSet.insert id (),
        tier.hotQueue ++ [id]⟩
      ⟨journal.calls + 1, Function.update journal.inserted id journal.calls,
        Function.update journal.passed id (some vector)⟩ := by
  have hnot : id ∉ tier.hotQueue := by
    rw [htied.queue, hnew]
    simp
  have hother : ∀ other ∈ tier.hotQueue,
      Function.update journal.inserted id journal.calls other = journal.inserted other :=
    fun other hmem => Function.update_of_ne (ne_of_mem_of_not_mem hmem hnot) _ _
  constructor
  case order =>
    simp only [List.pairwise_append]
    refine ⟨?_, List.pairwise_singleton _ _, ?_⟩
    · refine htied.order.imp_of_mem fun {first second} hfirst hsecond hlt => ?_
      simpa only [hother first hfirst, hother second hsecond] using hlt
    · intro other hmem last hlast
      simp only [List.mem_singleton.mp hlast, hother other hmem, Function.update_self]
      exact hpast other hmem
  case queue =>
    intro other
    have hmem := htied.queue other
    rw [List.mem_append, List.mem_singleton, GoMap.lookup_insert_if]
    by_cases hid : other = id
    · simp [hid]
    · simpa [hid] using hmem
  case live =>
    intro other
    have hlive := htied.live other
    rw [Hnsw.item_add hdim, GoMap.lookup_insert_if]
    by_cases hid : other = id
    · simp [hid]
    · simpa [hid] using hlive
  case vector =>
    intro other hmem
    have hvector := htied.vector other
    rw [GoMap.lookup_insert_if] at hmem
    rw [Hnsw.item_add hdim, Hnsw.config_add]
    by_cases hid : other = id
    · simp [hid]
    · simp only [hid, if_false] at hmem
      simp only [hid, if_false, Function.update_of_ne hid]
      exact hvector hmem

variable {dim : Nat} {state : HotTier × Journal}

/-- A call leaves the tier consistent if and only if it is fresh. -/
theorem Settled.step (hsettled : Settled arith hotIndexMaxSize dim state) (call : Call dim) :
    ((step arith hotIndexMaxSize state call).1.Consistent arith hotIndexMaxSize
        (step arith hotIndexMaxSize state call).2 ↔ Fresh arith state call) ∧
      (Fresh arith state call →
        Settled arith hotIndexMaxSize dim (step arith hotIndexMaxSize state call)) := by
  obtain ⟨tier, journal⟩ := state
  obtain ⟨hconsistent, hpast, hconfig⟩ := hsettled
  cases call with
  | hotAdd id vector hdim =>
      cases hid : tier.hotSet.lookup id with
      | some known =>
          have hmem : (tier.hotSet.lookup id).isSome := by rw [hid]; rfl
          have hstep : step arith hotIndexMaxSize (tier, journal) (.hotAdd id vector hdim) =
              (tier, ⟨journal.calls + 1, journal.inserted,
                Function.update journal.passed id (some vector)⟩) := by
            simp [step, HotTier.hotAdd, Journal.note, hid]
          rw [hstep]
          have hkept : Fresh arith (tier, journal) (.hotAdd id vector hdim) →
              tier.Consistent arith hotIndexMaxSize ⟨journal.calls + 1, journal.inserted,
                Function.update journal.passed id (some vector)⟩ := by
            intro hfresh
            refine { hconsistent with vector := fun other hother => ?_ }
            by_cases heq : other = id
            · simp only [heq, Function.update_self]
              exact hfresh hmem
            · simp only [Function.update_of_ne heq]
              exact hconsistent.vector other hother
          refine ⟨⟨fun hafter _ => ?_, hkept⟩, fun hfresh => ⟨hkept hfresh, ?_, hconfig⟩⟩
          · have hvector := hafter.vector id hmem
            simpa only [Function.update_self, Option.map_some] using hvector
          · exact fun other hother => Nat.lt_succ_of_lt (hpast other hother)
      | none =>
          have hlength : vector.length = tier.hnswHot.config.dim := hdim.trans hconfig.symm
          have hadded : (tier.hnswHot.add arith id vector).2 = true :=
            (Hnsw.add_succeeds id vector).mpr hlength
          have hfresh : Fresh arith (tier, journal) (.hotAdd id vector hdim) := by
            intro hmem
            simp [hid] at hmem
          have hstep : step arith hotIndexMaxSize (tier, journal) (.hotAdd id vector hdim) =
              (evictOldest (maxSize hotIndexMaxSize) (tier.hnswHot.add arith id vector).1
                (tier.hotSet.insert id ()) (tier.hotQueue ++ [id]),
                ⟨journal.calls + 1, Function.update journal.inserted id journal.calls,
                  Function.update journal.passed id (some vector)⟩) := by
            simp [step, HotTier.hotAdd, Journal.note, hid, hadded]
          have happend := hconsistent.toTied.append hpast hid hlength
          obtain ⟨htied, hbound⟩ := happend.evictOldest (maxSize hotIndexMaxSize)
          obtain ⟨hqueue, hsame⟩ := evictOldest_queue (maxSize hotIndexMaxSize)
            (tier.hotQueue ++ [id]) (tier.hnswHot.add arith id vector).1 (tier.hotSet.insert id ())
          rw [hstep]
          have hdimAfter := (congrArg IndexConfig.dim hsame).trans
            ((congrArg IndexConfig.dim (Hnsw.config_add id vector)).trans hconfig)
          have hconsistentAfter : Consistent arith hotIndexMaxSize _ _ :=
            { htied with bounded := htied.length.trans_le hbound }
          refine ⟨iff_of_true hconsistentAfter hfresh,
            fun _ => ⟨hconsistentAfter, fun other hother => ?_, hdimAfter⟩⟩
          by_cases heq : other = id
          · simp only [heq, Function.update_self]
            exact Nat.lt_succ_self _
          · simp only [Function.update_of_ne heq]
            have hmem := hqueue.subset hother
            rw [List.mem_append, List.mem_singleton] at hmem
            exact Nat.lt_succ_of_lt (hpast other (hmem.resolve_right heq))
  | hotDelete id =>
      cases hid : tier.hotSet.lookup id with
      | some known =>
          have hmem : (tier.hotSet.lookup id).isSome := by rw [hid]; rfl
          have hnot : ¬ Fresh arith (tier, journal) (.hotDelete id : Call dim) := by
            intro hfresh
            simp [Fresh, hid] at hfresh
          refine ⟨iff_of_false (fun hafter => ?_) hnot, fun hfresh => absurd hfresh hnot⟩
          -- the queue still has the id that left the set
          have hstep : (step arith hotIndexMaxSize (tier, journal) (.hotDelete id : Call dim)).1 =
              ⟨tier.hnswHot.delete id, tier.hotSet.erase id, tier.hotQueue⟩ := by
            simp [step, HotTier.hotDelete, hid]
          rw [hstep] at hafter
          have hqueue := (hafter.queue id).mp ((hconsistent.queue id).mpr hmem)
          simp at hqueue
      | none =>
          have hstep : step arith hotIndexMaxSize (tier, journal) (.hotDelete id : Call dim) =
              (tier, { journal with calls := journal.calls + 1 }) := by
            simp [step, HotTier.hotDelete, Journal.note, hid]
          rw [hstep]
          refine ⟨iff_of_true { hconsistent with } hid, fun _ => ⟨{ hconsistent with }, ?_, hconfig⟩⟩
          exact fun other hother => Nat.lt_succ_of_lt (hpast other hother)

end Steps

/-- The hot tier is consistent in every state of a run if and only if every call of the run is
fresh. -/
theorem consistent_iff_fresh (arith : Arithmetic) (hotIndexMaxSize : Int) (config : IndexConfig)
    (calls : List (Call config.dim)) :
    (∀ front, front <+: calls →
        (Run.run (step arith hotIndexMaxSize) (opened config, Journal.empty) front).1.Consistent
          arith hotIndexMaxSize
          (Run.run (step arith hotIndexMaxSize) (opened config, Journal.empty) front).2) ↔
      Run.Meets (step arith hotIndexMaxSize) (Fresh arith) (opened config, Journal.empty) calls :=
  Run.forall_front_iff_meets (Settled arith hotIndexMaxSize config.dim)
    (fun state => state.1.Consistent arith hotIndexMaxSize state.2)
    (fun _ hsettled => hsettled.consistent) (fun _ call hsettled => hsettled.step call)
    (settled_opened arith hotIndexMaxSize config)

/-- With room for two ids, one is added, deleted, added again, and then another one: the place
that the deletion left in the queue is the oldest, and the id that was added again leaves the
set. -/
theorem added_again_evicted :
    ¬ ∀ (arith : Arithmetic) (hotIndexMaxSize : Int) (config : IndexConfig)
        (calls : List (Call config.dim)),
      (Run.run (step arith hotIndexMaxSize) (opened config, Journal.empty) calls).1.Consistent
        arith hotIndexMaxSize
        (Run.run (step arith hotIndexMaxSize) (opened config, Journal.empty) calls).2 := by
  intro hall
  have hconsistent := hall wholeNumbers 2 lineSettings.config.index
    [.hotAdd (idOf 'a') [1] rfl, .hotDelete (idOf 'a'), .hotAdd (idOf 'a') [1] rfl,
      .hotAdd (idOf 'b') [2] rfl]
  have hqueue := hconsistent.queue (idOf 'a')
  revert hqueue
  decide +kernel

end HotTier

end Vectron.Worker
