import Vectron.Gateway.Results

/-! # The search aggregator

`searchAggregator` of `apigateway/cmd/apigateway/main.go` merges the results of the workers. The
heap may hold outdated items beside the current ones; its root is the worst item. Limits are
not negative: a negative one acts like zero. The pool of aggregators hands them out reset.
-/

namespace Vectron.Gateway

open Foundation Reranker

variable {S : Type} [LinearOrder S]

structure SearchAggItem (S : Type) where
  id : Text
  score : S
deriving DecidableEq

structure SearchAggEntry (S : Type) where
  score : S
  payload : Option StringMap

/-- The order of `sortSearchResults`. -/
def before (a b : SearchAggItem S) : Bool :=
  if a.score = b.score then decide (a.id < b.id) else decide (a.score < b.score)

/-- `searchAggHeap.Less`. -/
def worse (a b : SearchAggItem S) : Bool :=
  if a.score = b.score then decide (b.id < a.id) else decide (b.score < a.score)

theorem worse_eq (a b : SearchAggItem S) : worse a b = before b a := by
  by_cases h : a.score = b.score
  · simp [worse, before, h]
  · simp [worse, before, h, Ne.symm h]

theorem before_iff {a b : SearchAggItem S} :
    before a b = true ↔ a.score < b.score ∨ a.score = b.score ∧ a.id < b.id := by
  by_cases h : a.score = b.score
  · simp [before, h]
  · simp [before, h]

theorem before_eq_key :
    before (S := S) = fun a b => decide (toLex (a.score, a.id) < toLex (b.score, b.id)) := by
  funext a b
  rw [Bool.eq_iff_iff, before_iff, decide_eq_true_iff, Prod.Lex.lt_iff]
  rfl

theorem weakOrder_before : WeakOrder (before (S := S)) := by
  rw [before_eq_key]
  exact WeakOrder.of_key _

theorem weakOrder_worse : WeakOrder (worse (S := S)) where
  asymm h := by
    rw [worse_eq] at h ⊢
    exact weakOrder_before.asymm h
  negTrans hxy hyz := by
    rw [worse_eq] at hxy hyz ⊢
    exact weakOrder_before.negTrans hyz hxy

/-- Items that are not before each other are the same. -/
theorem eq_of_before {a b : SearchAggItem S} (hab : before a b = false)
    (hba : before b a = false) : a = b := by
  rw [← Bool.not_eq_true, before_iff] at hab hba
  have hscore : a.score = b.score := by
    rcases lt_trichotomy a.score b.score with h | h | h
    · exact absurd (Or.inl h) hab
    · exact h
    · exact absurd (Or.inl h) hba
  have hid : a.id = b.id := by
    rcases lt_trichotomy a.id b.id with h | h | h
    · exact absurd (Or.inr ⟨hscore, h⟩) hab
    · exact h
    · exact absurd (Or.inr ⟨hscore.symm, h⟩) hba
  cases a
  cases b
  simp_all

abbrev SearchAggEntries (S : Type) := GoMap Text (SearchAggEntry S)

/-- The item is not outdated. -/
def live (entries : SearchAggEntries S) (item : SearchAggItem S) : Bool :=
  match entries.lookup item.id with
  | some entry => decide (entry.score = item.score)
  | none => false

theorem live_iff {entries : SearchAggEntries S} {item : SearchAggItem S} :
    live entries item = true ↔
      ∃ entry, entries.lookup item.id = some entry ∧ entry.score = item.score := by
  unfold live
  cases entries.lookup item.id <;> simp

structure SearchAggregator (S : Type) where
  limit : Nat
  entries : SearchAggEntries S
  heap : List (SearchAggItem S)

namespace SearchAggregator

variable (heap : Heap (worse (S := S)))

/-- `newSearchAggregator`. -/
def new (limit : Nat) : SearchAggregator S := ⟨limit, ∅, []⟩

def popped (items : List (SearchAggItem S)) : List (SearchAggItem S) :=
  ((heap.pop items).map Prod.snd).getD items

/-- The inner loop of `compact`: discard outdated items from the root on. The first argument
bounds the number of rounds by that of the items. -/
def discardStale (entries : SearchAggEntries S) :
    Nat → List (SearchAggItem S) → List (SearchAggItem S)
  | 0, items => items
  | _ + 1, [] => []
  | rounds + 1, root :: rest =>
      if live entries root then root :: rest
      else discardStale entries rounds (popped heap (root :: rest))

/-- `compact`. -/
def compact : Nat → SearchAggregator S → SearchAggregator S
  | 0, agg => agg
  | rounds + 1, agg =>
      if agg.limit < agg.heap.length then
        let items := discardStale heap agg.entries agg.heap.length agg.heap
        if items.length ≤ agg.limit then { agg with heap := items }
        else
          match items with
          | [] => { agg with heap := items }
          | root :: rest =>
              let entries :=
                if live agg.entries root then agg.entries.erase root.id else agg.entries
              compact rounds { agg with entries := entries, heap := popped heap (root :: rest) }
      else agg

/-- The result is new or better than the entry of its id. -/
def accepts (agg : SearchAggregator S) (result : SearchResult S) : Bool :=
  result.id ≠ [] &&
    match agg.entries.lookup result.id with
    | some existing => decide (result.score < existing.score)
    | none => true

/-- The new entry, and its item on the heap. -/
def pushed (agg : SearchAggregator S) (result : SearchResult S) : SearchAggregator S :=
  { agg with
    entries := agg.entries.insert result.id ⟨result.score, result.payload⟩
    heap := heap.push agg.heap ⟨result.id, result.score⟩ }

/-- The body of the loop of `add`. -/
def addResult (agg : SearchAggregator S) (result : SearchResult S) : SearchAggregator S :=
  if agg.accepts result then
    let next := agg.pushed heap result
    compact heap next.heap.length next
  else agg

def add (agg : SearchAggregator S) (results : List (SearchResult S)) : SearchAggregator S :=
  if agg.limit = 0 then agg else results.foldl (addResult heap) agg

/-- The current items of the heap. -/
def liveItems (agg : SearchAggregator S) : List (SearchAggItem S) :=
  agg.heap.filter (live agg.entries)

/-- `snapshot`. The ids and scores of the results differ, so the sort leaves one order. -/
def snapshot (agg : SearchAggregator S) (limit : Nat) : List (SearchResult S) :=
  let items := agg.liveItems.insertionSort fun a b => before b a = false
  let results := items.map fun item =>
    ⟨item.id, item.score, (agg.entries.lookup item.id).bind SearchAggEntry.payload⟩
  results.take limit

/-! ## What a snapshot should show -/

/-- The smallest score of an id so far. -/
def note (minima : GoMap Text S) (result : SearchResult S) : GoMap Text S :=
  if result.id = [] then minima
  else
    match minima.lookup result.id with
    | some score => if result.score < score then minima.insert result.id result.score else minima
    | none => minima.insert result.id result.score

/-- Each added id with its smallest score. -/
def minima (results : List (SearchResult S)) : GoMap Text S := results.foldl note ∅

def items (minima : GoMap Text S) : List (SearchAggItem S) :=
  minima.entries.map fun entry => ⟨entry.1, entry.2⟩

/-- The first `limit` entries of the map. -/
def firstItems (limit : Nat) (minima : GoMap Text S) : List (SearchAggItem S) :=
  ((items minima).insertionSort fun a b => before b a = false).take limit

def shown (results : List (SearchResult S)) : List (SearchAggItem S) :=
  results.map fun result => ⟨result.id, result.score⟩

/-- The heap is overfull, its worst item is current and an outdated one lies behind it: the
current item gives way to the outdated one. -/
def crowded (agg : SearchAggregator S) : Bool :=
  decide (agg.limit < agg.heap.length) && agg.heap.head?.any (live agg.entries) &&
    agg.heap.any fun item => !live agg.entries item

/-- The result is pushed on a heap that it leaves crowded. -/
def crowdsOut (agg : SearchAggregator S) (result : SearchResult S) : Bool :=
  agg.accepts result && (agg.pushed heap result).crowded

/-! ## What the operations do -/

section Operations

variable {heap}

theorem popped_cons {root : SearchAggItem S} {rest : List (SearchAggItem S)}
    (hordered : heap.Ordered (root :: rest)) :
    heap.Ordered (popped heap (root :: rest)) ∧ (popped heap (root :: rest)).Perm rest := by
  obtain ⟨⟨x, rest'⟩, hpop⟩ :=
    Option.isSome_iff_exists.mp (heap.pop_isSome (List.cons_ne_nil root rest))
  obtain ⟨rfl, hrest⟩ := heap.ordered_pop hordered hpop
  rw [popped, hpop]
  exact ⟨hrest, (heap.pop_perm hpop).cons_inv⟩

/-- Only outdated items are discarded, and the root that is left is not outdated. -/
theorem discardStale_spec (entries : SearchAggEntries S) {rounds : Nat}
    {items : List (SearchAggItem S)} (hordered : heap.Ordered items)
    (hrounds : items.length ≤ rounds) :
    heap.Ordered (discardStale heap entries rounds items) ∧
      (∃ stale, items.Perm (discardStale heap entries rounds items ++ stale) ∧
        ∀ item ∈ stale, live entries item = false) ∧
      ∀ root ∈ (discardStale heap entries rounds items).head?, live entries root = true := by
  induction rounds generalizing items with
  | zero =>
      obtain rfl := List.eq_nil_of_length_eq_zero (Nat.le_zero.mp hrounds)
      exact ⟨hordered, ⟨[], by simp [discardStale], by simp⟩, by simp [discardStale]⟩
  | succ rounds ih =>
      cases items with
      | nil => exact ⟨hordered, ⟨[], by simp [discardStale], by simp⟩, by simp [discardStale]⟩
      | cons root rest =>
          rw [discardStale]
          split
          next hlive => exact ⟨hordered, ⟨[], by simp, by simp⟩, by simpa using hlive⟩
          next hstale =>
            obtain ⟨hpopped, hperm⟩ := popped_cons hordered
            have hlength := hperm.length_eq
            simp only [List.length_cons] at hrounds
            obtain ⟨hordered', ⟨stale, hsplit, hall⟩, hroot⟩ := ih hpopped (by omega)
            refine ⟨hordered', ⟨root :: stale, ?_, ?_⟩, hroot⟩
            · exact ((hperm.symm.trans hsplit).cons root).trans List.perm_middle.symm
            · intro item hitem
              rcases List.mem_cons.mp hitem with rfl | hitem
              · simpa using hstale
              · exact hall item hitem

/-- What `compact` makes of a heap with at most one item too many: it leaves it, discards
outdated items from the root on, or gives up the root. -/
theorem compact_cases {agg : SearchAggregator S} (hordered : heap.Ordered agg.heap)
    (hlength : agg.heap.length ≤ agg.limit + 1) :
    (agg.heap.length ≤ agg.limit ∧ compact heap agg.heap.length agg = agg) ∨
    (∃ kept stale, compact heap agg.heap.length agg = { agg with heap := kept } ∧
      agg.heap.length = agg.limit + 1 ∧ heap.Ordered kept ∧ agg.heap.Perm (kept ++ stale) ∧
      (∀ item ∈ stale, live agg.entries item = false) ∧ stale ≠ [] ∧
      agg.heap.head?.any (live agg.entries) = false) ∨
    (∃ root rest kept, agg.heap = root :: rest ∧ rest.length = agg.limit ∧
      live agg.entries root = true ∧ heap.Ordered kept ∧ kept.Perm rest ∧
      compact heap agg.heap.length agg =
        { agg with entries := agg.entries.erase root.id, heap := kept }) := by
  by_cases hroom : agg.heap.length ≤ agg.limit
  · left
    refine ⟨hroom, ?_⟩
    cases hrounds : agg.heap.length with
    | zero => rfl
    | succ rounds => rw [compact, if_neg (by omega)]
  · right
    obtain ⟨root, rest, hheap⟩ : ∃ root rest, agg.heap = root :: rest :=
      List.exists_cons_of_ne_nil (by rintro h; simp [h] at hroom)
    have hrest : rest.length = agg.limit := by
      have h := hlength
      rw [hheap, List.length_cons] at h hroom
      omega
    obtain ⟨hordered', ⟨stale, hsplit, hall⟩, -⟩ :=
      discardStale_spec agg.entries hordered le_rfl
    have hcompact : compact heap agg.heap.length agg =
        if (discardStale heap agg.entries agg.heap.length agg.heap).length ≤ agg.limit then
          { agg with heap := discardStale heap agg.entries agg.heap.length agg.heap }
        else
          match discardStale heap agg.entries agg.heap.length agg.heap with
          | [] => { agg with heap := discardStale heap agg.entries agg.heap.length agg.heap }
          | root :: rest =>
              let entries :=
                if live agg.entries root then agg.entries.erase root.id else agg.entries
              compact heap rest.length
                { agg with entries := entries, heap := popped heap (root :: rest) } := by
      have hsize : agg.heap.length = rest.length + 1 := by rw [hheap]; rfl
      have hrounds : ∀ x y, discardStale heap agg.entries agg.heap.length agg.heap = x :: y →
          ¬ (discardStale heap agg.entries agg.heap.length agg.heap).length ≤ agg.limit →
          y.length = rest.length := by
        intro x y hxy hnot
        have h := hsplit.length_eq
        rw [List.length_append, hxy, List.length_cons] at h
        rw [hxy, List.length_cons] at hnot
        omega
      conv_lhs => rw [hsize, compact]
      rw [if_pos (by omega)]
      dsimp only
      split
      · rfl
      · split
        next hnil => rfl
        next x y hxy => rw [hrounds x y hxy ‹_›]
    by_cases hlive : live agg.entries root = true
    · right
      have hkeep : discardStale heap agg.entries agg.heap.length agg.heap = root :: rest := by
        rw [hheap, List.length_cons, discardStale, if_pos hlive]
      obtain ⟨hpopped, hperm⟩ := popped_cons (hheap ▸ hordered)
      refine ⟨root, rest, popped heap (root :: rest), hheap, hrest, hlive, hpopped, hperm, ?_⟩
      rw [hcompact, hkeep, if_neg (by simp only [List.length_cons]; omega)]
      simp only [hlive, if_true]
      cases hrounds : rest.length with
      | zero => rfl
      | succ rounds => rw [compact, if_neg (by dsimp only; rw [hperm.length_eq]; omega)]
    · left
      -- the root is discarded in the first round
      have hfirst : discardStale heap agg.entries agg.heap.length agg.heap =
          discardStale heap agg.entries rest.length (popped heap (root :: rest)) := by
        rw [hheap, List.length_cons, discardStale, if_neg hlive]
      obtain ⟨hpopped, hperm⟩ := popped_cons (hheap ▸ hordered)
      obtain ⟨hordered', ⟨stale, hsplit', hall⟩, -⟩ :=
        discardStale_spec agg.entries hpopped hperm.length_eq.le
      have hkept := (hperm.symm.trans hsplit').length_eq
      rw [List.length_append] at hkept
      refine ⟨_, root :: stale, ?_, ?_, hordered', ?_, ?_, List.cons_ne_nil _ _, ?_⟩
      · rw [hcompact, hfirst, if_pos (by omega)]
      · rw [hheap, List.length_cons, hrest]
      · rw [hheap]
        exact ((hperm.symm.trans hsplit').cons root).trans List.perm_middle.symm
      · intro item hitem
        rcases List.mem_cons.mp hitem with rfl | hitem
        · simpa using hlive
        · exact hall item hitem
      · rw [hheap]
        simpa using hlive

end Operations

/-! ## The invariant -/

/-- The live items before an item. -/
def liveBefore (agg : SearchAggregator S) (item : SearchAggItem S) : Nat :=
  agg.heap.countP fun x => live agg.entries x && before x item

/-- What holds while nothing is crowded out, up to `room` items. An id without an entry was given
up for items before it. -/
structure Sound (heap : Heap (worse (S := S))) (room : Nat) (minima : GoMap Text S)
    (agg : SearchAggregator S) : Prop where
  ordered : heap.Ordered agg.heap
  nodup : agg.heap.Nodup
  room : agg.heap.length ≤ room
  present {x} : live agg.entries x = true → x ∈ agg.heap
  held {x} : x ∈ agg.heap → ∃ entry, agg.entries.lookup x.id = some entry ∧ entry.score ≤ x.score
  least {id entry} : agg.entries.lookup id = some entry → minima.lookup id = some entry.score
  lost {id score} : minima.lookup id = some score → agg.entries.lookup id = none →
    agg.limit ≤ agg.liveBefore ⟨id, score⟩

omit [LinearOrder S] in
theorem mem_items {minima : GoMap Text S} {x : SearchAggItem S} :
    x ∈ items minima ↔ minima.lookup x.id = some x.score := by
  rw [items, List.mem_map]
  constructor
  · rintro ⟨⟨id, score⟩, hentry, rfl⟩
    exact AList.mem_lookup_iff.mpr hentry
  · intro hlookup
    exact ⟨⟨x.id, x.score⟩, AList.mem_lookup_iff.mp hlookup, rfl⟩

omit [LinearOrder S] in
theorem items_nodup (minima : GoMap Text S) : (items minima).Nodup := by
  have hkeys : ((items minima).map SearchAggItem.id).Nodup := by
    rw [items, List.map_map]
    exact minima.keys_nodup
  exact hkeys.of_map _

theorem note_eq {minima : GoMap Text S} {result : SearchResult S} (hid : result.id ≠ []) :
    note minima result = minima.insert result.id result.score ∨
      ∃ score, minima.lookup result.id = some score ∧ score ≤ result.score ∧
        note minima result = minima := by
  unfold note
  rw [if_neg hid]
  cases hlookup : minima.lookup result.id with
  | none => exact Or.inl rfl
  | some score =>
      by_cases hless : result.score < score
      · left
        simp [hless]
      · right
        exact ⟨score, rfl, not_lt.mp hless, by simp [hless]⟩

section Invariant

variable {heap} {limit : Nat} {minima : GoMap Text S} {agg : SearchAggregator S}
  {result : SearchResult S}

theorem sound_new (heap : Heap (worse (S := S))) (limit : Nat) :
    Sound heap limit ∅ (new limit) where
  ordered := heap.ordered_nil
  nodup := List.nodup_nil
  room := Nat.zero_le limit
  present h := by simp [new, live] at h
  held h := by simp [new] at h
  least h := by simp [new] at h
  lost h := by simp at h

/-- Once an id was given up, the heap is full of current items before it. -/
theorem Sound.full (hsound : Sound heap agg.limit minima agg) {id : Text} {score : S}
    (hlookup : minima.lookup id = some score) (hnone : agg.entries.lookup id = none) :
    agg.heap.length = agg.limit ∧
      ∀ x ∈ agg.heap, live agg.entries x = true ∧ before x ⟨id, score⟩ = true := by
  have hcount := hsound.lost hlookup hnone
  have hroom := hsound.room
  have hle : agg.liveBefore ⟨id, score⟩ ≤ agg.heap.length := List.countP_le_length
  refine ⟨by omega, ?_⟩
  have hall := List.countP_eq_length.mp (show agg.liveBefore ⟨id, score⟩ = agg.heap.length by omega)
  intro x hx
  simpa using hall x hx

theorem not_accepts (hsound : Sound heap limit minima agg) (hnot : agg.accepts result = false) :
    note minima result = minima := by
  unfold accepts at hnot
  unfold note
  split
  · rfl
  next hid =>
    simp only [hid, ne_eq, not_false_eq_true, decide_true, Bool.true_and] at hnot
    cases hlookup : agg.entries.lookup result.id with
    | none => simp [hlookup] at hnot
    | some existing =>
        simp only [hlookup, decide_eq_false_iff_not] at hnot
        rw [hsound.least hlookup]
        simp [hnot]

/-- An accepted result is better than every item of its id. -/
theorem Sound.better_than_held (hsound : Sound heap limit minima agg)
    (haccepts : agg.accepts result = true) {x : SearchAggItem S} (hx : x ∈ agg.heap)
    (hid : x.id = result.id) : result.score < x.score := by
  obtain ⟨entry, hlookup, hle⟩ := hsound.held hx
  rw [hid] at hlookup
  simp only [accepts, hlookup, Bool.and_eq_true, decide_eq_true_eq] at haccepts
  exact lt_of_lt_of_le haccepts.2 hle

theorem live_pushed (agg : SearchAggregator S) (result : SearchResult S) (x : SearchAggItem S) :
    live (agg.pushed heap result).entries x =
      if x.id = result.id then decide (result.score = x.score) else live agg.entries x := by
  simp only [pushed, live, GoMap.lookup_insert_if]
  by_cases hid : x.id = result.id
  · simp [hid]
  · simp [hid]

theorem pushed_perm (agg : SearchAggregator S) (result : SearchResult S) :
    (agg.pushed heap result).heap.Perm (⟨result.id, result.score⟩ :: agg.heap) :=
  heap.push_perm agg.heap _

theorem eq_of_live {entries : SearchAggEntries S} {x y : SearchAggItem S}
    (hx : live entries x = true) (hy : live entries y = true) (hid : x.id = y.id) : x = y := by
  obtain ⟨entry, hlookup, hscore⟩ := live_iff.mp hx
  obtain ⟨entry', hlookup', hscore'⟩ := live_iff.mp hy
  rw [hid] at hlookup
  obtain rfl := Option.some.inj (hlookup.symm.trans hlookup')
  cases x
  cases y
  simp_all

section

variable (hsound : Sound heap limit minima agg) (haccepts : agg.accepts result = true)

include hsound haccepts

/-- The new item makes up for the one that it outdates. -/
theorem Sound.liveBefore_pushed (item : SearchAggItem S) :
    agg.liveBefore item ≤ (agg.pushed heap result).liveBefore item := by
  have hkeep : ∀ x, x.id ≠ result.id → live agg.entries x = true → before x item = true →
      (live (agg.pushed heap result).entries x && before x item) = true := by
    intro x hid hlive hbefore
    simp [live_pushed, hid, hlive, hbefore]
  unfold liveBefore
  rw [(pushed_perm agg result).countP_eq, List.countP_cons]
  by_cases hold : ∃ old ∈ agg.heap, old.id = result.id ∧ live agg.entries old = true ∧
      before old item = true
  · obtain ⟨old, hmem, hid, hlive, hbefore⟩ := hold
    have hnew : before ⟨result.id, result.score⟩ item = true := by
      have hless := hsound.better_than_held haccepts hmem hid
      rcases before_iff.mp hbefore with h | h
      · exact before_iff.mpr (Or.inl (hless.trans h))
      · exact before_iff.mpr (Or.inl (h.1 ▸ hless))
    rw [live_pushed, if_pos rfl, hnew]
    obtain ⟨front, back, hsplit⟩ := List.append_of_mem hmem
    have hperm : agg.heap.Perm (old :: (front ++ back)) := hsplit ▸ List.perm_middle
    have hfresh := (List.nodup_cons.mp (hperm.nodup_iff.mp hsound.nodup)).1
    have hrest : (front ++ back).countP (fun x => live agg.entries x && before x item) ≤
        (front ++ back).countP
          fun x => live (agg.pushed heap result).entries x && before x item := by
      apply List.countP_mono_left
      intro x hx h
      obtain ⟨hxlive, hxbefore⟩ := Bool.and_eq_true_iff.mp h
      apply hkeep x _ hxlive hxbefore
      intro hxid
      exact hfresh (eq_of_live hxlive hlive (hxid.trans hid.symm) ▸ hx)
    rw [hperm.countP_eq, hperm.countP_eq, List.countP_cons, List.countP_cons]
    simp only [hlive, hbefore, decide_true, Bool.and_self, if_true]
    omega
  · refine le_trans (List.countP_mono_left ?_) (Nat.le_add_right _ _)
    intro x hx h
    obtain ⟨hxlive, hxbefore⟩ := Bool.and_eq_true_iff.mp h
    exact hkeep x (fun hid => hold ⟨x, hx, hid, hxlive, hxbefore⟩) hxlive hxbefore

/-- What the invariant says after a push that improves the smallest score of the id. -/
theorem Sound.pushed :
    Sound heap (limit + 1) (minima.insert result.id result.score) (agg.pushed heap result) where
  ordered := heap.ordered_push hsound.ordered
  nodup := by
    rw [(pushed_perm agg result).nodup_iff]
    refine List.nodup_cons.mpr ⟨?_, hsound.nodup⟩
    intro hmem
    exact lt_irrefl _ (hsound.better_than_held haccepts hmem rfl)
  room := by
    rw [(pushed_perm agg result).length_eq, List.length_cons]
    exact Nat.succ_le_succ hsound.room
  present := by
    intro x hlive
    rw [(pushed_perm agg result).mem_iff, List.mem_cons]
    rw [live_pushed] at hlive
    split at hlive
    next hid =>
      left
      cases x
      simp_all
    next => exact Or.inr (hsound.present hlive)
  held := by
    intro x hx
    simp only [SearchAggregator.pushed, GoMap.lookup_insert_if]
    rcases List.mem_cons.mp ((pushed_perm agg result).mem_iff.mp hx) with rfl | hx
    · exact ⟨_, if_pos rfl, le_rfl⟩
    · split
      next hid => exact ⟨_, rfl, (hsound.better_than_held haccepts hx hid).le⟩
      next => exact hsound.held hx
  least := by
    intro id entry hlookup
    simp only [SearchAggregator.pushed, GoMap.lookup_insert_if] at hlookup ⊢
    split at hlookup
    next hid =>
      rw [if_pos hid, ← Option.some.inj hlookup]
    next hid =>
      rw [if_neg hid]
      exact hsound.least hlookup
  lost := by
    intro id score hminima hnone
    simp only [SearchAggregator.pushed, GoMap.lookup_insert_if] at hminima hnone
    split at hnone
    · contradiction
    next hid =>
      rw [if_neg hid] at hminima
      exact (hsound.lost hminima hnone).trans (hsound.liveBefore_pushed haccepts _)

end

theorem live_erase (entries : SearchAggEntries S) (id : Text) (x : SearchAggItem S) :
    live (entries.erase id) x = (decide (x.id ≠ id) && live entries x) := by
  simp only [live, GoMap.lookup_erase_if]
  by_cases hid : x.id = id
  · simp [hid]
  · simp [hid]

/-- Discarding outdated items keeps the invariant. -/
theorem Sound.discard {room : Nat} (hsound : Sound heap room minima agg)
    {kept stale : List (SearchAggItem S)} (hordered : heap.Ordered kept)
    (hperm : agg.heap.Perm (kept ++ stale)) (hroom : kept.length ≤ limit)
    (hstale : ∀ x ∈ stale, live agg.entries x = false) :
    Sound heap limit minima { agg with heap := kept } where
  ordered := hordered
  nodup := (hperm.nodup_iff.mp hsound.nodup).of_append_left
  room := hroom
  present := by
    intro x hlive
    refine (List.mem_append.mp (hperm.mem_iff.mp (hsound.present hlive))).resolve_right ?_
    intro hmem
    have hnot := hstale x hmem
    rw [hlive] at hnot
    contradiction
  held hx := hsound.held (hperm.mem_iff.mpr (List.mem_append_left stale hx))
  least := hsound.least
  lost := by
    intro id score hminima hnone
    have hcount := hsound.lost hminima hnone
    have hzero : stale.countP (fun x => live agg.entries x && before x ⟨id, score⟩) = 0 :=
      List.countP_eq_zero.mpr fun x hx => by simp [hstale x hx]
    unfold liveBefore at hcount ⊢
    rwa [hperm.countP_eq, List.countP_append, hzero, Nat.add_zero] at hcount

/-- Giving up the worst of one item too many keeps the invariant if all items are current. -/
theorem Sound.giveUp (hsound : Sound heap (agg.limit + 1) minima agg)
    {root : SearchAggItem S} {rest kept : List (SearchAggItem S)} (hheap : agg.heap = root :: rest)
    (hrest : rest.length = agg.limit) (hordered : heap.Ordered kept) (hperm : kept.Perm rest)
    (hall : ∀ x ∈ agg.heap, live agg.entries x = true) :
    Sound heap agg.limit minima
      { agg with entries := agg.entries.erase root.id, heap := kept } := by
  have hmem : ∀ x ∈ rest, x ∈ agg.heap := fun x hx => hheap ▸ List.mem_cons_of_mem root hx
  have hroot : root ∈ agg.heap := hheap ▸ List.mem_cons_self
  obtain ⟨hfresh, hnodup⟩ := List.nodup_cons.mp (hheap ▸ hsound.nodup)
  have hother : ∀ x ∈ rest, x.id ≠ root.id := by
    intro x hx hid
    exact hfresh (eq_of_live (hall x (hmem x hx)) (hall root hroot) hid ▸ hx)
  have hbefore : ∀ x ∈ rest, before x root = true := by
    intro x hx
    by_contra hnot
    have hleast := heap.root_least (hheap ▸ hsound.ordered) hx
    rw [worse_eq] at hleast
    have heq := eq_of_before (Bool.not_eq_true _ ▸ hnot) hleast
    exact hfresh (heq ▸ hx)
  refine ⟨hordered, ?_, ?_, ?_, ?_, ?_, ?_⟩
  · exact hperm.nodup_iff.mpr hnodup
  · exact (hperm.length_eq.trans hrest).le
  · intro x hlive
    rw [live_erase, Bool.and_eq_true, decide_eq_true_iff] at hlive
    have hx := hsound.present hlive.2
    rw [hheap, List.mem_cons] at hx
    refine hperm.mem_iff.mpr (hx.resolve_left ?_)
    rintro rfl
    exact hlive.1 rfl
  · intro x hx
    have hx := hperm.mem_iff.mp hx
    rw [GoMap.lookup_erase_if, if_neg (hother x hx)]
    exact hsound.held (hmem x hx)
  · intro id entry hlookup
    rw [GoMap.lookup_erase_if] at hlookup
    split at hlookup
    · contradiction
    · exact hsound.least hlookup
  · -- the items that stay are all before the id that was given up
    intro id score hminima hnone
    suffices hlast : ∀ x ∈ rest, before x ⟨id, score⟩ = true by
      unfold liveBefore
      dsimp only
      rw [hperm.countP_eq, ← hrest]
      apply (List.countP_eq_length.mpr _).ge
      intro x hx
      simp [live_erase, hother x hx, hall x (hmem x hx), hlast x hx]
    by_cases hid : id = root.id
    · subst hid
      obtain ⟨entry, hlookup, hscore⟩ := live_iff.mp (hall root hroot)
      have hleast := hsound.least hlookup
      rw [hminima, Option.some.injEq] at hleast
      rw [hleast, hscore]
      exact hbefore
    · rw [GoMap.lookup_erase_if, if_neg hid] at hnone
      have hcount := hsound.lost hminima hnone
      rw [liveBefore, hheap, List.countP_cons] at hcount
      by_cases hfirst : before root ⟨id, score⟩ = true
      · intro x hx
        rw [before_eq_key] at hfirst hbefore ⊢
        have h := of_decide_eq_true (hbefore x hx)
        exact decide_eq_true (h.trans (of_decide_eq_true hfirst))
      · rw [Bool.not_eq_true] at hfirst
        simp only [hfirst, Bool.and_false, Bool.false_eq_true, if_false, Nat.add_zero] at hcount
        have hle := List.countP_le_length
          (p := fun x => live agg.entries x && before x ⟨id, score⟩) (l := rest)
        intro x hx
        have h := List.countP_eq_length.mp (le_antisymm hle (hrest ▸ hcount)) x hx
        exact (Bool.and_eq_true_iff.mp h).2

theorem Sound.compact (hsound : Sound heap (agg.limit + 1) minima agg)
    (hcrowded : agg.crowded = false) :
    Sound heap agg.limit minima (compact heap agg.heap.length agg) := by
  rcases compact_cases hsound.ordered hsound.room with ⟨hroom, heq⟩ |
    ⟨kept, stale, heq, hlength, hordered, hperm, hstale, hne, -⟩ |
    ⟨root, rest, kept, hheap, hrest, hlive, hordered, hperm, heq⟩
  · rw [heq]
    have hperm : agg.heap.Perm (agg.heap ++ []) := by rw [List.append_nil]
    exact hsound.discard hsound.ordered hperm hroom (by simp)
  · rw [heq]
    apply hsound.discard hordered hperm _ hstale
    have hsize := hperm.length_eq
    have hpos := List.length_pos_iff.mpr hne
    rw [List.length_append] at hsize
    omega
  · rw [heq]
    apply hsound.giveUp hheap hrest hordered hperm
    simpa [crowded, hheap, hlive, hrest] using hcrowded

/-- The invariant sees the heap up to its layout and the map through its lookups. -/
theorem Sound.congr (hsound : Sound heap limit minima agg) {next : SearchAggregator S}
    (hlimit : next.limit = agg.limit) (hordered : heap.Ordered next.heap)
    (hperm : next.heap.Perm agg.heap)
    (hlookup : ∀ id, next.entries.lookup id = agg.entries.lookup id) :
    Sound heap limit minima next := by
  have hlive : ∀ x, live next.entries x = live agg.entries x := by
    intro x
    rw [live, live, hlookup]
  refine ⟨hordered, ?_, ?_, ?_, ?_, ?_, ?_⟩
  · exact hperm.nodup_iff.mpr hsound.nodup
  · exact hperm.length_eq.le.trans hsound.room
  · intro x hx
    exact hperm.mem_iff.mpr (hsound.present (hlive x ▸ hx))
  · intro x hx
    rw [hlookup]
    exact hsound.held (hperm.mem_iff.mp hx)
  · intro id entry hentry
    exact hsound.least (hlookup id ▸ hentry)
  · intro id score hminima hnone
    have hcount := hsound.lost hminima (hlookup id ▸ hnone)
    simp only [liveBefore, hlive, hperm.countP_eq, hlimit] at hcount ⊢
    exact hcount

/-- Once an id was given up, adding it with no better score is undone. -/
theorem Sound.addResult_lost (hsound : Sound heap agg.limit minima agg) {score : S}
    (haccepts : agg.accepts result = true) (hminima : minima.lookup result.id = some score)
    (hnone : agg.entries.lookup result.id = none) (hle : score ≤ result.score) :
    (agg.pushed heap result).crowded = false ∧
      Sound heap agg.limit minima (addResult heap agg result) := by
  obtain ⟨hfull, hall⟩ := hsound.full hminima hnone
  have hperm := (pushed_perm agg result : (agg.pushed heap result).heap.Perm _)
  have hlast : ∀ x ∈ agg.heap, before x ⟨result.id, result.score⟩ = true := by
    intro x hx
    rcases before_iff.mp (hall x hx).2 with h | ⟨h, hid⟩
    · exact before_iff.mpr (Or.inl (h.trans_le hle))
    · rcases hle.eq_or_lt with heq | hless
      · exact before_iff.mpr (Or.inr ⟨h.trans heq, hid⟩)
      · exact before_iff.mpr (Or.inl (h ▸ hless))
  have hlive : ∀ x ∈ (agg.pushed heap result).heap,
      live (agg.pushed heap result).entries x = true := by
    intro x hx
    rw [live_pushed]
    rcases List.mem_cons.mp (hperm.mem_iff.mp hx) with rfl | hx
    · simp
    · rw [if_neg, (hall x hx).1]
      rintro hid
      obtain ⟨entry, hlookup, -⟩ := live_iff.mp (hall x hx).1
      rw [hid, hnone] at hlookup
      contradiction
  have hsize : (agg.pushed heap result).heap.length = agg.limit + 1 := by
    rw [hperm.length_eq, List.length_cons, hfull]
  refine ⟨?_, ?_⟩
  · have hany : ((agg.pushed heap result).heap.any
        fun item => !live (agg.pushed heap result).entries item) = false := by
      simpa using hlive
    rw [crowded, hany, Bool.and_false]
  · rw [addResult, haccepts]
    have hpushed := hsound.pushed haccepts
    rcases compact_cases hpushed.ordered hpushed.room with ⟨hroom, -⟩ |
      ⟨kept, stale, -, -, -, hsplit, hstale, hne, -⟩ |
      ⟨root, rest, kept, hheap, hrest, -, hordered, hkept, heq⟩
    · rw [hsize] at hroom
      exact absurd hroom (Nat.not_succ_le_self agg.limit)
    · obtain ⟨x, hx⟩ := List.exists_mem_of_ne_nil stale hne
      have hnot := hstale x hx
      rw [hlive x (hsplit.mem_iff.mpr (List.mem_append_right kept hx))] at hnot
      contradiction
    · -- the pushed item itself is the worst
      have hroot : root = ⟨result.id, result.score⟩ := by
        by_contra hne
        have hmem := hperm.mem_iff.mp (hheap ▸ List.mem_cons_self (a := root))
        have hbefore := hlast root ((List.mem_cons.mp hmem).resolve_left hne)
        have hitem := hperm.mem_iff.mpr (List.mem_cons_self)
        rw [hheap, List.mem_cons] at hitem
        have hleast := heap.root_least (hheap ▸ hpushed.ordered)
          (hitem.resolve_left (Ne.symm hne))
        rw [worse_eq, hbefore] at hleast
        contradiction
      subst hroot
      rw [heq]
      refine hsound.congr rfl hordered (hkept.trans ?_) ?_
      · exact (hheap ▸ hperm : (_ :: rest).Perm _).cons_inv
      · intro id
        change ((agg.entries.insert result.id _).erase result.id).lookup id = _
        rw [GoMap.lookup_erase_if, GoMap.lookup_insert_if]
        by_cases hid : id = result.id
        · rw [if_pos hid, hid, hnone]
        · rw [if_neg hid, if_neg hid]

/-- An accepted result is the smallest of its id so far, or adds an id that was given up. -/
theorem Sound.note_cases (hsound : Sound heap limit minima agg)
    (haccepts : agg.accepts result = true) :
    note minima result = minima.insert result.id result.score ∨
      ∃ score, minima.lookup result.id = some score ∧ score ≤ result.score ∧
        agg.entries.lookup result.id = none ∧ note minima result = minima := by
  have hid : result.id ≠ [] := by
    rintro h
    simp [accepts, h] at haccepts
  rcases note_eq hid with hnote | ⟨score, hminima, hle, hnote⟩
  · exact Or.inl hnote
  · cases hlookup : agg.entries.lookup result.id with
    | none => exact Or.inr ⟨score, hminima, hle, rfl, hnote⟩
    | some existing =>
        rw [hsound.least hlookup, Option.some.injEq] at hminima
        simp only [accepts, hlookup, Bool.and_eq_true, decide_eq_true_eq] at haccepts
        exact absurd (hminima ▸ hle) (not_le.mpr haccepts.2)

/-- The step lemma. -/
theorem Sound.addResult (hsound : Sound heap agg.limit minima agg)
    (hcrowds : agg.crowdsOut heap result = false) :
    Sound heap agg.limit (note minima result) (addResult heap agg result) := by
  cases haccepts : agg.accepts result with
  | false =>
      rw [not_accepts hsound haccepts, SearchAggregator.addResult, haccepts]
      exact hsound
  | true =>
      rw [crowdsOut, haccepts, Bool.true_and] at hcrowds
      rcases hsound.note_cases haccepts with hnote | ⟨score, hminima, hle, hnone, hnote⟩
      · rw [hnote, SearchAggregator.addResult, haccepts]
        exact (hsound.pushed haccepts).compact hcrowds
      · rw [hnote]
        exact (hsound.addResult_lost haccepts hminima hnone hle).2

/-! ## Snapshots -/

theorem Sound.liveItems_best (hsound : Sound heap agg.limit minima agg) :
    Best before agg.limit (items minima) agg.liveItems := by
  classical
  have hnodup : agg.liveItems.Nodup := hsound.nodup.filter _
  have hsub : agg.liveItems ⊆ items minima := by
    intro x hx
    obtain ⟨entry, hlookup, hscore⟩ := live_iff.mp (List.mem_filter.mp hx).2
    rw [mem_items, hsound.least hlookup, hscore]
  obtain ⟨picked, hpicked, hsublist⟩ := List.subperm_of_subset hnodup hsub
  obtain ⟨dropped, hdrop⟩ := hsublist.exists_perm_append
  have hsplit := hdrop.trans (hpicked.append_right dropped)
  have hdropped : ∀ y ∈ dropped, agg.heap.length = agg.limit ∧
      ∀ x ∈ agg.heap, live agg.entries x = true ∧ before x y = true := by
    intro y hy
    have hminima := mem_items.mp (hsplit.mem_iff.mpr (List.mem_append_right _ hy))
    cases hlookup : agg.entries.lookup y.id with
    | none => exact hsound.full hminima hlookup
    | some entry =>
        have hscore := hsound.least hlookup
        rw [hminima, Option.some.injEq] at hscore
        have hlive := live_iff.mpr ⟨entry, hlookup, hscore.symm⟩
        have hkept : y ∈ agg.liveItems := List.mem_filter.mpr ⟨hsound.present hlive, hlive⟩
        have hdisjoint := (List.nodup_append'.mp (hsplit.nodup_iff.mp (items_nodup minima))).2.2
        exact absurd hy (hdisjoint hkept)
  refine ⟨?_, dropped, hsplit, ?_⟩
  · have hlength := hsplit.length_eq
    rw [List.length_append] at hlength
    have hkept : agg.liveItems.length ≤ agg.heap.length := List.length_filter_le _ _
    have hroom := hsound.room
    cases dropped with
    | nil =>
        rw [List.length_nil] at hlength
        omega
    | cons y rest =>
        obtain ⟨hfull, hall⟩ := hdropped y List.mem_cons_self
        have hsame : agg.liveItems = agg.heap := List.filter_eq_self.mpr fun x hx => (hall x hx).1
        rw [hsame] at hlength ⊢
        omega
  · intro x hx y hy
    exact weakOrder_before.asymm ((hdropped y hy).2 x (List.mem_filter.mp hx).1).2

theorem shown_snapshot (agg : SearchAggregator S) (limit : Nat) :
    shown (agg.snapshot limit) =
      (agg.liveItems.insertionSort fun a b => before b a = false).take limit := by
  rw [snapshot, shown, ← List.map_take, List.map_map]
  exact List.map_id _

theorem pairwise_insertionSort (items : List (SearchAggItem S)) :
    (items.insertionSort fun a b => before b a = false).Pairwise fun a b => before b a = false := by
  have : Std.Total fun a b : SearchAggItem S => before b a = false := ⟨by
    intro a b
    cases h : before b a with
    | false => exact Or.inl rfl
    | true => exact Or.inr (weakOrder_before.asymm h)⟩
  have : IsTrans (SearchAggItem S) fun a b => before b a = false :=
    ⟨fun a b c hab hbc => weakOrder_before.negTrans hbc hab⟩
  exact List.pairwise_insertionSort _ _

/-- In the invariant a snapshot shows what it should. -/
theorem Sound.shown_snapshot (hsound : Sound heap agg.limit minima agg) :
    shown (agg.snapshot agg.limit) = firstItems agg.limit minima := by
  have hkept : agg.liveItems.length ≤ agg.limit :=
    (List.length_filter_le _ _).trans hsound.room
  rw [SearchAggregator.shown_snapshot, List.take_of_length_le (by simpa using hkept)]
  have hperm := List.perm_insertionSort (fun a b => before b a = false) (items minima)
  have hbest := hsound.liveItems_best.perm_kept
    (List.perm_insertionSort (fun a b => before b a = false) agg.liveItems).symm
  have hfirst := (Best.take agg.limit (pairwise_insertionSort (items minima))).perm hperm
  refine hbest.eq_of_pairwise weakOrder_before hfirst ?_ (pairwise_insertionSort _) ?_
  · refine (items_nodup minima).imp ?_
    intro x y hne
    by_contra hnot
    simp only [not_or, Bool.not_eq_true] at hnot
    exact hne (eq_of_before hnot.1 hnot.2)
  · exact (pairwise_insertionSort _).sublist (List.take_sublist _ _)

/-- A result that crowds an item out leaves too few items. -/
theorem Sound.shown_snapshot_ne (hsound : Sound heap agg.limit minima agg)
    (hcrowds : agg.crowdsOut heap result = true) :
    shown ((SearchAggregator.addResult heap agg result).snapshot agg.limit) ≠
      firstItems agg.limit (note minima result) := by
  obtain ⟨haccepts, hcrowded⟩ := Bool.and_eq_true_iff.mp hcrowds
  rcases hsound.note_cases haccepts with hnote | ⟨score, hminima, hle, hnone, -⟩
  · have hpushed := hsound.pushed haccepts
    simp only [crowded, Bool.and_eq_true, decide_eq_true_eq, List.any_eq_true,
      Bool.not_eq_true'] at hcrowded
    obtain ⟨⟨hover, hhead⟩, outdated, hmem, hstale⟩ := hcrowded
    rw [hnote, SearchAggregator.addResult, haccepts]
    generalize hnext : agg.pushed heap result = next at *
    have hlimit : next.limit = agg.limit := by rw [← hnext]; rfl
    rcases compact_cases hpushed.ordered (hlimit ▸ hpushed.room) with ⟨hroom, -⟩ |
      ⟨kept, stale, -, -, -, -, -, -, hnot⟩ |
      ⟨root, rest, kept, hheap, hrest, hlive, hordered, hperm, heq⟩
    · exact absurd hover (not_lt.mpr hroom)
    · rw [hhead] at hnot
      contradiction
    · rw [if_pos rfl, heq]
      apply ne_of_apply_ne List.length
      rw [SearchAggregator.shown_snapshot, firstItems, List.length_take, List.length_take,
        List.length_insertionSort, List.length_insertionSort]
      set left := liveItems { next with entries := next.entries.erase root.id, heap := kept }
        with hleft
      have hcurrent : ∀ x ∈ left, x.id ≠ root.id ∧ live next.entries x = true := by
        intro x hx
        have hlive := (List.mem_filter.mp hx).2
        rwa [live_erase, Bool.and_eq_true, decide_eq_true_iff] at hlive
      -- the outdated item takes up room on the heap
      have hroom : left.length < agg.limit := by
        rw [← hlimit, ← hrest, ← hperm.length_eq]
        apply List.length_filter_lt_length_iff_exists.mpr
        refine ⟨outdated, hperm.mem_iff.mpr ?_, ?_⟩
        · refine (List.mem_cons.mp (hheap ▸ hmem)).resolve_left ?_
          rintro rfl
          rw [hlive] at hstale
          contradiction
        · simp [live_erase, hstale]
      -- the root is the smallest of its id
      have hmany : left.length + 1 ≤ (items (minima.insert result.id result.score)).length := by
        have hnodup : (root :: left).Nodup := by
          refine List.nodup_cons.mpr ⟨fun hroot => (hcurrent root hroot).1 rfl, ?_⟩
          have hrestnodup := (List.nodup_cons.mp (hheap ▸ hpushed.nodup)).2
          exact (hperm.nodup_iff.mpr hrestnodup).filter _
        have hsub : root :: left ⊆ items (minima.insert result.id result.score) := by
          intro x hx
          have hxlive : live next.entries x = true := by
            rcases List.mem_cons.mp hx with rfl | hx
            · exact hlive
            · exact (hcurrent x hx).2
          obtain ⟨entry, hlookup, hscore⟩ := live_iff.mp hxlive
          rw [mem_items, hpushed.least hlookup, hscore]
        exact (List.subperm_of_subset hnodup hsub).length_le
      omega
  · rw [(hsound.addResult_lost haccepts hminima hnone hle).1] at hcrowded
    contradiction

/-! ## Runs -/

theorem compact_limit (rounds : Nat) (agg : SearchAggregator S) :
    (SearchAggregator.compact heap rounds agg).limit = agg.limit := by
  induction rounds generalizing agg with
  | zero => rfl
  | succ rounds ih =>
      rw [SearchAggregator.compact]
      split
      · dsimp only
        split
        · rfl
        · split
          · rfl
          · rw [ih]
      · rfl

theorem addResult_limit (agg : SearchAggregator S) (result : SearchResult S) :
    (SearchAggregator.addResult heap agg result).limit = agg.limit := by
  unfold SearchAggregator.addResult
  split
  · exact compact_limit _ _
  · rfl

theorem foldl_addResult_limit (results : List (SearchResult S)) (agg : SearchAggregator S) :
    (results.foldl (SearchAggregator.addResult heap) agg).limit = agg.limit := by
  induction results generalizing agg with
  | nil => rfl
  | cons result results ih => rw [List.foldl_cons, ih, addResult_limit]

theorem foldl_new_limit (heap : Heap (worse (S := S))) (limit : Nat)
    (results : List (SearchResult S)) :
    (results.foldl (SearchAggregator.addResult heap) (new limit)).limit = limit :=
  foldl_addResult_limit results (new limit)

/-- How the results are split over the calls does not matter. -/
theorem foldl_add (calls : List (List (SearchResult S))) (agg : SearchAggregator S)
    (hpos : 0 < agg.limit) :
    calls.foldl (add heap) agg = calls.flatten.foldl (SearchAggregator.addResult heap) agg := by
  induction calls generalizing agg with
  | nil => rfl
  | cons call calls ih =>
      have hcall : add heap agg call = call.foldl (SearchAggregator.addResult heap) agg :=
        if_neg hpos.ne'
      rw [List.foldl_cons, List.flatten_cons, List.foldl_append, hcall]
      apply ih
      rwa [foldl_addResult_limit]

/-- The run lemma: the invariant holds at least until an item is crowded out. -/
theorem sound_foldl {results : List (SearchResult S)}
    (hquiet : ∀ front result back, results = front ++ result :: back →
      crowdsOut heap (front.foldl (SearchAggregator.addResult heap) (new limit)) result = false) :
    Sound heap (results.foldl (SearchAggregator.addResult heap) (new limit)).limit
      (SearchAggregator.minima results)
      (results.foldl (SearchAggregator.addResult heap) (new limit)) := by
  induction results using List.reverseRecOn with
  | nil => exact sound_new heap limit
  | append_singleton results result ih =>
      have hsound := ih fun front r back heq =>
        hquiet front r (back ++ [result]) (by rw [heq, List.append_assoc]; rfl)
      have hstep := Sound.addResult hsound (hquiet results result [] rfl)
      rw [foldl_new_limit] at hstep ⊢
      simpa [SearchAggregator.minima, List.foldl_append] using hstep

end Invariant

/-- Every snapshot on the way through the results, however these come in calls, shows the first
of the ids with their smallest scores exactly if no current item is ever crowded out by an
outdated one. -/
theorem snapshot_iff (heap : Heap (worse (S := S))) {limit : Nat} (hpos : 0 < limit)
    (results : List (SearchResult S)) :
    (∀ calls : List (List (SearchResult S)), calls.flatten <+: results →
      shown (snapshot (calls.foldl (add heap) (new limit)) limit) =
        firstItems limit (minima calls.flatten)) ↔
    ∀ front result back, results = front ++ result :: back →
      crowdsOut heap (add heap (new limit) front) result = false := by
  have hadd : ∀ front, add heap (new limit) front = front.foldl (addResult heap) (new limit) :=
    fun front => if_neg hpos.ne'
  simp only [hadd]
  have hlimit := foldl_new_limit heap limit
  constructor
  · intro hshown front
    -- up to the first item that is crowded out the invariant holds
    induction hn : front.length using Nat.strong_induction_on generalizing front with
    | _ n ih =>
        intro result back heq
        have hsound : Sound heap (front.foldl (addResult heap) (new limit)).limit (minima front)
            (front.foldl (addResult heap) (new limit)) := by
          apply sound_foldl
          intro front' result' back' heq'
          apply ih front'.length _ front' rfl result' (back' ++ result :: back)
          · rw [heq, heq', List.append_assoc]
            rfl
          · rw [← hn, heq', List.length_append, List.length_cons]
            omega
        by_contra hcrowds
        rw [Bool.not_eq_false] at hcrowds
        have hne := hsound.shown_snapshot_ne hcrowds
        have hsame := hshown [front ++ [result]] ⟨back, by simp [heq]⟩
        rw [foldl_add _ _ hpos] at hsame
        simp only [List.flatten_cons, List.flatten_nil, List.append_nil, List.foldl_append,
          List.foldl_cons, List.foldl_nil, minima] at hsame
        rw [hlimit] at hne
        exact hne hsame
  · intro hquiet calls hcalls
    obtain ⟨back, hback⟩ := hcalls
    rw [foldl_add calls (new limit) hpos]
    have hsound : Sound heap (calls.flatten.foldl (addResult heap) (new limit)).limit
        (minima calls.flatten) (calls.flatten.foldl (addResult heap) (new limit)) := by
      apply sound_foldl
      intro front result rest heq
      exact hquiet front result (rest ++ back) (by rw [← hback, heq, List.append_assoc]; rfl)
    have h := hsound.shown_snapshot
    rwa [hlimit] at h

/-- `a` improves while the outdated `a` and the current `b` are on the heap: `b` is lost. -/
theorem improved_result_crowds_out :
    ¬ ∀ calls : List (List (SearchResult Nat)),
      shown (snapshot (calls.foldl (add (binaryHeap weakOrder_worse)) (new 2)) 2) =
        firstItems 2 (minima calls.flatten) := by
  intro hshown
  have h := hshown [[⟨['a'], 2, none⟩], [⟨['b'], 3, none⟩], [⟨['a'], 1, none⟩]]
  revert h
  decide +kernel

theorem snapshot_iff_two :
    (∀ calls : List (List (SearchResult Nat)),
      calls.flatten <+: [⟨['a'], 2, none⟩, ⟨['a'], 1, none⟩] →
        shown (snapshot (calls.foldl (add (binaryHeap weakOrder_worse)) (new 2)) 2) =
          firstItems 2 (minima calls.flatten)) ↔
    ∀ front result back, [⟨['a'], 2, none⟩, ⟨['a'], 1, none⟩] = front ++ result :: back →
      crowdsOut (binaryHeap weakOrder_worse)
        (add (binaryHeap weakOrder_worse) (new 2) front) result = false :=
  snapshot_iff _ (by decide) _

end SearchAggregator

end Vectron.Gateway
