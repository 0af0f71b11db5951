import Vectron.Hnsw.LayerSearch

/-! # Visit trackers

`search.go` marks the nodes a layer search has visited in a tracker: one word for each
slot, equal to the epoch of the tracker if this search has visited the slot. Trackers come
from a pool and go back to it, so the marks of earlier searches stay in place; a new epoch
makes them void without clearing them.
-/

namespace Vectron.Hnsw

open Foundation

/-- `visitTracker`. -/
structure VisitTracker where
  marks : List UInt32
  epoch : UInt32
deriving DecidableEq

/-- What `visitedPool` makes when it has no tracker to hand out. -/
def newVisitTracker : VisitTracker where
  marks := []
  epoch := 0

/-- `newSize |= newSize >> shift`. -/
def spread (size shift : Nat) : Nat := size ||| (size >>> shift)

/-- The size of new marks: at least 4096, rounded up to a power of two. -/
def marksSize (maxID : Nat) : Nat :=
  let size := if maxID + 1 < 4096 then 4096 else maxID + 1
  spread (spread (spread (spread (spread (size - 1) 1) 2) 4) 8) 16 + 1

/-- `maxVisitTrackerMarksSize`. -/
def maxVisitTrackerMarksSize : Nat := 1 <<< 20

namespace VisitTracker

variable (tracker : VisitTracker)

/-- New marks, if there are too few for the ids of the index. -/
def grow (maxID : Nat) : VisitTracker :=
  if tracker.marks.length ≤ maxID then
    { tracker with marks := List.replicate (marksSize maxID) 0 }
  else tracker

/-- Clear the marks of a tracker at epoch 0. -/
def reset : VisitTracker :=
  if tracker.epoch = 0 then { tracker with marks := tracker.marks.map fun _ => 0 }
  else tracker

/-- The next epoch; 0 is skipped. -/
def advance : VisitTracker :=
  if tracker.epoch + 1 = 0 then { tracker with epoch := 1 }
  else { tracker with epoch := tracker.epoch + 1 }

/-- The setup that `searchLayer` and `searchLayerSmall` both begin with. -/
def prepare (maxID : Nat) : VisitTracker :=
  ((tracker.grow maxID).reset).advance

/-- Whether the slot has the mark of this search. -/
def seen (nid : Nat) : Bool :=
  tracker.marks[nid]? == some tracker.epoch

/-- Mark a slot; a slot out of range stays unmarked. -/
def mark (nid : Nat) : VisitTracker :=
  { tracker with marks := tracker.marks.set nid tracker.epoch }

/-- The ids a search has not seen yet, now marked. -/
def visit : VisitTracker → List Nat → List Nat × VisitTracker
  | tracker, [] => ([], tracker)
  | tracker, nid :: rest =>
      if tracker.seen nid then tracker.visit rest
      else
        let (unseen, after) := (tracker.mark nid).visit rest
        (nid :: unseen, after)

/-- No entry of the marks equals the epoch. -/
def Fresh : Prop := ∀ mark ∈ tracker.marks, mark ≠ tracker.epoch

/-- No mark is ahead of the epoch. -/
def Past : Prop := ∀ mark ∈ tracker.marks, mark ≤ tracker.epoch

/-- A tracker whose marks are kept while its epoch goes back to 1. -/
def Wraps (maxID : Nat) : Prop :=
  tracker.epoch = 4294967295 ∧ maxID < tracker.marks.length

instance (maxID : Nat) : Decidable (tracker.Wraps maxID) :=
  inferInstanceAs (Decidable (_ ∧ _))

/-! ## The setup -/

variable {tracker}

theorem le_spread (size shift : Nat) : size ≤ spread size shift := Nat.left_le_or

theorem lt_marksSize (maxID : Nat) : maxID < marksSize maxID := by
  have hsize : maxID ≤ (if maxID + 1 < 4096 then 4096 else maxID + 1) - 1 := by
    split <;> omega
  -- no round makes the size smaller
  exact Nat.lt_succ_of_le <| calc maxID
      ≤ _ := hsize
    _ ≤ _ := le_spread _ 1
    _ ≤ _ := le_spread _ 2
    _ ≤ _ := le_spread _ 4
    _ ≤ _ := le_spread _ 8
    _ ≤ _ := le_spread _ 16

theorem lt_length_grow (maxID : Nat) : maxID < (tracker.grow maxID).marks.length := by
  unfold grow
  split
  · simp [lt_marksSize]
  · omega

@[simp] theorem length_reset : tracker.reset.marks.length = tracker.marks.length := by
  unfold reset
  split <;> simp

@[simp] theorem advance_marks : tracker.advance.marks = tracker.marks := by
  unfold advance
  split <;> rfl

/-- Every id of the index has a mark. -/
theorem lt_length_prepare (maxID : Nat) : maxID < (tracker.prepare maxID).marks.length := by
  simp [prepare, lt_length_grow]

theorem advance_epoch_ne : tracker.advance.epoch ≠ 0 := by
  unfold advance
  split
  · simp
  next hne => exact hne

theorem advance_epoch_lt (hroom : tracker.epoch ≠ 4294967295) :
    tracker.epoch < tracker.advance.epoch := by
  unfold advance
  have hlt : tracker.epoch.toNat + 1 < 2 ^ 32 := by
    have hne : tracker.epoch.toNat ≠ 4294967295 := fun heq => hroom (UInt32.toNat_inj.mp heq)
    have hbound := tracker.epoch.toNat_lt
    omega
  have hnext : (tracker.epoch + 1).toNat = tracker.epoch.toNat + 1 := by
    rw [UInt32.toNat_add]
    exact Nat.mod_eq_of_lt hlt
  split
  next hzero =>
    rw [hzero] at hnext
    simp at hnext
  next =>
    rw [UInt32.lt_iff_toNat_lt, hnext]
    exact Nat.lt_succ_self _

theorem past_grow (hpast : tracker.Past) (maxID : Nat) : (tracker.grow maxID).Past := by
  unfold grow
  split
  · intro mark hmark
    rw [List.eq_of_mem_replicate hmark]
    exact UInt32.zero_le
  · exact hpast

theorem past_reset (hpast : tracker.Past) : tracker.reset.Past := by
  unfold reset
  split
  · intro mark hmark
    obtain ⟨old, _, rfl⟩ := List.mem_map.mp hmark
    exact UInt32.zero_le
  · exact hpast

@[simp] theorem grow_epoch (maxID : Nat) : (tracker.grow maxID).epoch = tracker.epoch := by
  unfold grow
  split <;> rfl

@[simp] theorem reset_epoch : tracker.reset.epoch = tracker.epoch := by
  unfold reset
  split <;> rfl

theorem mark_eq_zero_of_grown {maxID : Nat} (hshort : tracker.marks.length ≤ maxID)
    {mark : UInt32} (hmark : mark ∈ (tracker.prepare maxID).marks) : mark = 0 := by
  rw [prepare, advance_marks, reset] at hmark
  split at hmark
  · obtain ⟨old, _, rfl⟩ := List.mem_map.mp hmark
    rfl
  · rw [grow, if_pos hshort] at hmark
    exact List.eq_of_mem_replicate hmark

/-- The setup voids all marks, and none is ahead of the new epoch, unless the epoch goes back
while the marks stay. -/
theorem prepare_fresh {maxID : Nat} (hpast : tracker.Past) (hkeeps : ¬tracker.Wraps maxID) :
    (tracker.prepare maxID).Fresh ∧ (tracker.prepare maxID).Past := by
  by_cases hshort : tracker.marks.length ≤ maxID
  · have hzero : ∀ mark ∈ (tracker.prepare maxID).marks, mark = 0 :=
      fun mark => mark_eq_zero_of_grown hshort
    refine ⟨fun mark hmark => ?_, fun mark hmark => ?_⟩
    · rw [hzero mark hmark]
      exact Ne.symm advance_epoch_ne
    · rw [hzero mark hmark]
      exact UInt32.zero_le
  · have hroom : tracker.epoch ≠ 4294967295 := fun hmax => hkeeps ⟨hmax, by omega⟩
    have hlt : tracker.epoch < (tracker.prepare maxID).epoch := by
      have hadvance : (tracker.grow maxID).reset.epoch < (tracker.prepare maxID).epoch :=
        advance_epoch_lt (by simpa using hroom)
      simpa using hadvance
    have hbelow : ∀ mark ∈ (tracker.prepare maxID).marks, mark < (tracker.prepare maxID).epoch := by
      intro mark hmark
      rw [prepare, advance_marks] at hmark
      have hle := past_reset (past_grow hpast maxID) mark hmark
      rw [reset_epoch, grow_epoch] at hle
      exact UInt32.lt_of_le_of_lt hle hlt
    exact ⟨fun mark hmark => UInt32.ne_of_lt (hbelow mark hmark),
      fun mark hmark => UInt32.le_of_lt (hbelow mark hmark)⟩

/-! ## One search -/

/-- The marks of this search are on visited ids only. -/
def Sound (tracker : VisitTracker) (visited : List Nat) : Prop :=
  ∀ nid, tracker.seen nid = true → nid ∈ visited

theorem Fresh.sound (hfresh : tracker.Fresh) : tracker.Sound [] := by
  intro nid hseen
  obtain ⟨hlt, hmark⟩ := List.getElem?_eq_some_iff.mp (beq_iff_eq.mp hseen)
  exact absurd hmark (hfresh _ (List.getElem_mem hlt))

theorem seen_mark {nid other : Nat} (hother : (tracker.mark nid).seen other = true) :
    other = nid ∨ tracker.seen other = true := by
  by_cases heq : other = nid
  · exact Or.inl heq
  · refine Or.inr ?_
    rwa [seen, mark, List.getElem?_set_ne (Ne.symm heq)] at hother

theorem seen_mark_self {nid : Nat} (hlt : nid < tracker.marks.length) :
    (tracker.mark nid).seen nid = true := by
  simp [seen, mark, hlt]

theorem seen_mark_of_seen {nid other : Nat} (hother : tracker.seen other = true) :
    (tracker.mark nid).seen other = true := by
  by_cases heq : other = nid
  · subst heq
    obtain ⟨hlt, _⟩ := List.getElem?_eq_some_iff.mp (beq_iff_eq.mp hother)
    exact seen_mark_self hlt
  · rwa [seen, mark, List.getElem?_set_ne (Ne.symm heq)]

theorem Past.mark (hpast : tracker.Past) (nid : Nat) : (tracker.mark nid).Past := by
  intro mark hmark
  rcases List.mem_or_eq_of_mem_set hmark with hold | rfl
  · exact hpast mark hold
  · exact UInt32.le_refl _

theorem Sound.mark {visited : List Nat} (hsound : tracker.Sound visited) (nid : Nat) :
    (tracker.mark nid).Sound (nid :: visited) := by
  intro other hother
  rcases seen_mark hother with rfl | hseen
  · exact List.mem_cons_self
  · exact List.mem_cons_of_mem _ (hsound other hseen)

theorem visit_marks {nids : List Nat} (hpast : tracker.Past) {visited : List Nat}
    (hsound : tracker.Sound visited) :
    (tracker.visit nids).2.Past ∧ (tracker.visit nids).2.Sound (nids ++ visited) := by
  induction nids generalizing tracker visited with
  | nil => exact ⟨hpast, hsound⟩
  | cons nid rest ih =>
      rw [visit]
      split
      · obtain ⟨hpast, hsound⟩ := ih hpast hsound
        exact ⟨hpast, fun other hseen => List.mem_cons_of_mem _ (hsound other hseen)⟩
      · obtain ⟨hpast, hsound⟩ := ih (hpast.mark nid) (hsound.mark nid)
        refine ⟨hpast, fun other hseen => ?_⟩
        have hother := hsound other hseen
        simp only [List.mem_append, List.mem_cons] at hother ⊢
        tauto

/-- The marks of this search are on the visited ids, and every id has a mark. -/
structure Agrees (tracker : VisitTracker) (size : Nat) (visited : List Nat) : Prop where
  seen_iff : ∀ nid, tracker.seen nid = true ↔ nid ∈ visited
  covers : size ≤ tracker.marks.length

theorem Agrees.mark {size : Nat} {visited : List Nat} (hagrees : tracker.Agrees size visited)
    {nid : Nat} (hlt : nid < size) : (tracker.mark nid).Agrees size (nid :: visited) where
  seen_iff other := by
    refine ⟨fun hother => ?_, fun hother => ?_⟩
    · rcases seen_mark hother with rfl | hseen
      · exact List.mem_cons_self
      · exact List.mem_cons_of_mem _ ((hagrees.seen_iff other).mp hseen)
    · rcases List.mem_cons.mp hother with rfl | hold
      · exact seen_mark_self (Nat.lt_of_lt_of_le hlt hagrees.covers)
      · exact seen_mark_of_seen ((hagrees.seen_iff other).mpr hold)
  covers := by
    simpa [VisitTracker.mark] using hagrees.covers

/-- A tracker stands for the list of the visited ids: the neighbours it lets through are
those `freshNeighbors` returns. -/
theorem freshNeighbors_visit (h : Index) {size : Nat} {visited nids : List Nat}
    (hagrees : tracker.Agrees size visited) (hlt : ∀ nid ∈ nids, nid < size) :
    (h.freshNeighbors visited nids).1 =
        (tracker.visit nids).1.filterMap (fun nid => (h.getNodeFast nid).map (Prod.mk nid)) ∧
      (tracker.visit nids).2.Agrees size (h.freshNeighbors visited nids).2 := by
  induction nids generalizing tracker visited with
  | nil => exact ⟨rfl, hagrees⟩
  | cons nid rest ih =>
      have hrest : ∀ other ∈ rest, other < size :=
        fun other hother => hlt other (List.mem_cons_of_mem _ hother)
      rw [visit, Index.freshNeighbors]
      by_cases hseen : tracker.seen nid = true
      · rw [if_pos hseen, if_pos ((hagrees.seen_iff nid).mp hseen)]
        exact ih hagrees hrest
      · rw [if_neg hseen, if_neg (mt (hagrees.seen_iff nid).mpr hseen)]
        obtain ⟨hfound, hafter⟩ := ih (hagrees.mark (hlt nid List.mem_cons_self)) hrest
        cases hnode : h.getNodeFast nid with
        | none
        | some node => simpa [hnode] using ⟨hfound, hafter⟩

/-- A search on a fresh tracker starts like one on an empty list. -/
theorem agrees_prepare {maxID start : Nat} (hfresh : (tracker.prepare maxID).Fresh)
    (hstart : start ≤ maxID) :
    ((tracker.prepare maxID).mark start).Agrees (maxID + 1) [start] := by
  refine Agrees.mark ⟨fun nid => ⟨fun hseen => hfresh.sound nid hseen, fun hmem => ?_⟩,
    lt_length_prepare maxID⟩ (Nat.lt_succ_of_le hstart)
  contradiction

/-- What a search takes of one list of neighbours after another. -/
def expand {σ β : Type} (next : σ → List Nat → List β × σ) : σ → List (List Nat) → List β
  | _, [] => []
  | state, nids :: rest => (next state nids).1 ++ expand next (next state nids).2 rest

/-- A search on a tracker from the pool takes the neighbours it would take with a list of the
visited ids, whatever marks earlier searches of other indexes have left. -/
theorem expand_refines_list (hpast : tracker.Past) {maxID start : Nat}
    (hkeeps : ¬tracker.Wraps maxID) (hstart : start ≤ maxID) (h : Index) {lists : List (List Nat)}
    (hrange : ∀ nids ∈ lists, ∀ nid ∈ nids, nid ≤ maxID) :
    expand h.freshNeighbors [start] lists =
      (expand visit ((tracker.prepare maxID).mark start) lists).filterMap
        fun nid => (h.getNodeFast nid).map (Prod.mk nid) := by
  have hagrees := agrees_prepare (prepare_fresh hpast hkeeps).1 hstart
  -- every expansion leaves the tracker in agreement with the list
  generalize (tracker.prepare maxID).mark start = marked at hagrees ⊢
  generalize [start] = visited at hagrees ⊢
  induction lists generalizing marked visited with
  | nil => rfl
  | cons nids rest ih =>
      obtain ⟨hfound, hafter⟩ := freshNeighbors_visit h hagrees fun nid hnid =>
        Nat.lt_succ_of_le (hrange nids List.mem_cons_self nid hnid)
      rw [expand, expand, List.filterMap_append, hfound]
      congr 1
      exact ih (fun other hother => hrange other (List.mem_cons_of_mem _ hother)) _ _ hafter

/-- A tracker that has marks of an earlier search on both ids. -/
theorem expand_refines_list_reused :
    let h := Index.lineGraph [[1], [2]]
    expand h.freshNeighbors [1] [[2, 1], [2]] =
      (expand visit ((VisitTracker.prepare ⟨[0, 7, 7], 7⟩ 2).mark 1) [[2, 1], [2]]).filterMap
        fun nid => (h.getNodeFast nid).map (Prod.mk nid) :=
  expand_refines_list (by simp [Past]) (by decide) (by decide) _ (by decide)

end VisitTracker

/-! ## The pool -/

/-- A search under way, with the ids it has visited. -/
structure Visiting where
  tracker : VisitTracker
  visited : List Nat

/-- The trackers in `visitedPool` and those of the searches under way. -/
structure TrackerPool where
  idle : List VisitTracker
  running : List Visiting

def emptyPool : TrackerPool where
  idle := []
  running := []

/-- What happens to the trackers. -/
inductive TrackerEvent where
  /-- A search starts at a node of an index, with one of the idle trackers or a new one. -/
  | starts (idle : Option Nat) (maxID start : Nat)
  /-- A search looks at the neighbours of a node. -/
  | visits (i : Nat) (nids : List Nat)
  /-- `putVisitTracker`, at the end of a search. -/
  | ends (i : Nat)
  /-- The runtime frees an idle tracker. -/
  | frees (i : Nat)

namespace TrackerPool

/-- `visitedPool.Get`. -/
def get (pool : TrackerPool) (idle : Option Nat) : VisitTracker :=
  (idle.bind fun i => pool.idle[i]?).getD newVisitTracker

/-- The idle trackers after `visitedPool.Get`. -/
def rest (pool : TrackerPool) (idle : Option Nat) : List VisitTracker :=
  (idle.map pool.idle.eraseIdx).getD pool.idle

/-- `putVisitTracker`. -/
def put (pool : TrackerPool) (tracker : VisitTracker) : List VisitTracker :=
  if maxVisitTrackerMarksSize < tracker.marks.length then pool.idle
  else tracker :: pool.idle

def step (pool : TrackerPool) : TrackerEvent → TrackerPool
  | .starts idle maxID start =>
      { idle := pool.rest idle
        running := pool.running ++ [⟨((pool.get idle).prepare maxID).mark start, [start]⟩] }
  | .visits i nids =>
      { pool with
        running := pool.running.modify i fun visiting =>
          ⟨(visiting.tracker.visit nids).2, nids ++ visiting.visited⟩ }
  | .ends i =>
      match pool.running[i]? with
      | none => pool
      | some visiting =>
          { idle := pool.put visiting.tracker
            running := pool.running.eraseIdx i }
  | .frees i => { pool with idle := pool.idle.eraseIdx i }

/-- A search starts with no mark equal to its epoch. -/
def StartsFresh (pool : TrackerPool) : TrackerEvent → Prop
  | .starts idle maxID _ => ((pool.get idle).prepare maxID).Fresh
  | _ => True

/-- No search under way takes an id it has not visited for a visited one. -/
def SkipsVisited (pool : TrackerPool) : Prop :=
  ∀ visiting ∈ pool.running, visiting.tracker.Sound visiting.visited

/-- A search that starts does not take the epoch back to 1 over old marks. -/
def KeepsOrder (pool : TrackerPool) : TrackerEvent → Prop
  | .starts idle maxID _ => ¬(pool.get idle).Wraps maxID
  | _ => True

instance (pool : TrackerPool) : ∀ event, Decidable (pool.KeepsOrder event)
  | .starts idle maxID _ => inferInstanceAs (Decidable ¬(pool.get idle).Wraps maxID)
  | .visits _ _ => isTrue trivial
  | .ends _ => isTrue trivial
  | .frees _ => isTrue trivial

/-- What every pool of a run keeps: no mark is ahead of its tracker's epoch. -/
structure Sound (pool : TrackerPool) : Prop where
  idle : ∀ tracker ∈ pool.idle, tracker.Past
  running : ∀ visiting ∈ pool.running, visiting.tracker.Past
  skips : pool.SkipsVisited

variable {pool : TrackerPool}

theorem sound_emptyPool : emptyPool.Sound where
  idle tracker htracker := by contradiction
  running visiting hvisiting := by contradiction
  skips visiting hvisiting := by contradiction

theorem Sound.get (hsound : pool.Sound) (idle : Option Nat) : (pool.get idle).Past := by
  unfold TrackerPool.get
  cases hfound : idle.bind fun i => pool.idle[i]? with
  | none =>
      intro mark hmark
      contradiction
  | some tracker =>
      obtain ⟨i, _, hi⟩ := Option.bind_eq_some_iff.mp hfound
      exact hsound.idle tracker (List.mem_of_getElem? hi)

theorem mem_of_mem_rest {idle : Option Nat} {tracker : VisitTracker}
    (hmem : tracker ∈ pool.rest idle) : tracker ∈ pool.idle := by
  cases idle with
  | none => exact hmem
  | some i => exact List.mem_of_mem_eraseIdx hmem

section

variable {event : TrackerEvent} (hsound : pool.Sound) (hkeeps : pool.KeepsOrder event)

include hsound hkeeps

theorem Sound.startsFresh : pool.StartsFresh event := by
  cases event with
  | starts idle maxID start => exact (VisitTracker.prepare_fresh (hsound.get idle) hkeeps).1
  | visits | ends | frees => trivial

theorem Sound.step : (pool.step event).Sound := by
  cases event with
  | starts idle maxID start =>
      obtain ⟨hfresh, hpast⟩ := VisitTracker.prepare_fresh (hsound.get idle) hkeeps
      refine ⟨fun tracker htracker => hsound.idle tracker (mem_of_mem_rest htracker), ?_, ?_⟩
      · intro visiting hvisiting
        rcases List.mem_append.mp hvisiting with hold | hnew
        · exact hsound.running visiting hold
        · rw [List.mem_singleton.mp hnew]
          exact hpast.mark start
      · intro visiting hvisiting
        rcases List.mem_append.mp hvisiting with hold | hnew
        · exact hsound.skips visiting hold
        · rw [List.mem_singleton.mp hnew]
          exact hfresh.sound.mark start
  | visits i nids =>
      have hvisit : ∀ visiting ∈ (pool.step (.visits i nids)).running,
          visiting.tracker.Past ∧ visiting.tracker.Sound visiting.visited := by
        intro visiting hvisiting
        obtain ⟨j, hj⟩ := List.mem_iff_getElem?.mp hvisiting
        rw [TrackerPool.step, List.getElem?_modify] at hj
        obtain ⟨old, hold, rfl⟩ := Option.map_eq_some_iff.mp hj
        have hmem := List.mem_of_getElem? hold
        split
        · exact VisitTracker.visit_marks (hsound.running old hmem) (hsound.skips old hmem)
        · exact ⟨hsound.running old hmem, hsound.skips old hmem⟩
      exact ⟨hsound.idle, fun visiting hmem => (hvisit visiting hmem).1,
        fun visiting hmem => (hvisit visiting hmem).2⟩
  | ends i =>
      rw [TrackerPool.step]
      split
      · exact hsound
      next visiting hvisiting =>
        refine ⟨fun tracker htracker => ?_,
          fun other hother => hsound.running other (List.mem_of_mem_eraseIdx hother),
          fun other hother => hsound.skips other (List.mem_of_mem_eraseIdx hother)⟩
        simp only [put] at htracker
        split at htracker
        · exact hsound.idle tracker htracker
        · rcases List.mem_cons.mp htracker with rfl | hold
          · exact hsound.running visiting (List.mem_of_getElem? hvisiting)
          · exact hsound.idle tracker hold
  | frees i =>
      exact ⟨fun tracker htracker => hsound.idle tracker (List.mem_of_mem_eraseIdx htracker),
        hsound.running, hsound.skips⟩

end

/-- As long as no search takes the epoch of a tracker back over old marks, every search
starts with void marks and skips only what it has visited. -/
theorem marks_never_stale (events : List TrackerEvent)
    (hkeeps : Run.Meets step KeepsOrder emptyPool events) :
    Run.Meets step StartsFresh emptyPool events ∧
      ∀ first, first <+: events → (Run.run step emptyPool first).SkipsVisited := by
  refine ⟨?_, fun first hfirst => ?_⟩
  · exact hkeeps.of_invariant (fun pool event hkeeps hsound => Sound.step hsound hkeeps)
      (fun pool event hkeeps hsound => Sound.startsFresh hsound hkeeps) sound_emptyPool
  · exact (Run.run_invariant (fun pool event hkeeps hsound => Sound.step hsound hkeeps)
      (hkeeps.initial hfirst) sound_emptyPool).skips

/-- Two searches one after the other on one tracker. -/
theorem marks_never_stale_twice :
    let events : List TrackerEvent :=
      [.starts none 2 1, .visits 0 [2], .ends 0, .starts (some 0) 2 2]
    Run.Meets step StartsFresh emptyPool events ∧
      ∀ first, first <+: events → (Run.run step emptyPool first).SkipsVisited := by
  intro events
  exact marks_never_stale events ⟨by decide, trivial, trivial, by decide +kernel, trivial⟩

/-! ## The wrap-around -/

/-- A pool with one tracker, whose last search visited slot 1. -/
def worn (marks : List UInt32) (epoch : UInt32) : TrackerPool where
  idle := [⟨marks.set 1 epoch, epoch⟩]
  running := []

/-- The first search, of an index with two nodes. -/
def firstSearch : List TrackerEvent := [.starts none 2 1, .visits 0 [2], .ends 0]

/-- A search of an index with one node. -/
def oneNodeSearch : List TrackerEvent := [.starts (some 0) 1 1, .ends 0]

variable {marks : List UInt32} {epoch : UInt32}

theorem prepare_worn {maxID : Nat} (hroom : maxID < marks.length) (hzero : epoch ≠ 0) :
    ((worn marks epoch).get (some 0)).prepare maxID =
      ⟨marks.set 1 epoch, if epoch + 1 = 0 then 1 else epoch + 1⟩ := by
  have hget : (worn marks epoch).get (some 0) = ⟨marks.set 1 epoch, epoch⟩ := rfl
  have hlong : ¬(marks.set 1 epoch).length ≤ maxID := by simpa using hroom
  rw [hget, VisitTracker.prepare, VisitTracker.grow, if_neg hlong, VisitTracker.reset,
    if_neg hzero, VisitTracker.advance]
  split <;> rfl

theorem prepare_newVisitTracker (maxID : Nat) :
    newVisitTracker.prepare maxID = ⟨List.replicate (marksSize maxID) 0, 1⟩ := by
  simp [newVisitTracker, VisitTracker.prepare, VisitTracker.grow, VisitTracker.reset,
    VisitTracker.advance]

theorem run_firstSearch {zeros : List UInt32} (hzeros : zeros = List.replicate (marksSize 2) 0) :
    Run.run step emptyPool firstSearch = worn (zeros.set 2 1) 1 := by
  have hlength : zeros.length = 4096 := by
    rw [hzeros, List.length_replicate]
    decide
  have hstarts : step emptyPool (.starts none 2 1) = ⟨[], [⟨⟨zeros.set 1 1, 1⟩, [1]⟩]⟩ := by
    rw [step, get, Option.bind_none, Option.getD_none, prepare_newVisitTracker, ← hzeros]
    rfl
  have hunseen : (zeros.set 1 1)[2]? = some 0 := by
    rw [List.getElem?_set_ne (by decide), hzeros, List.getElem?_replicate_of_lt (by decide)]
  have hvisit : (VisitTracker.visit ⟨zeros.set 1 1, 1⟩ [2]).2 =
      ⟨(zeros.set 2 1).set 1 1, 1⟩ := by
    have hnew : ¬VisitTracker.seen ⟨zeros.set 1 1, 1⟩ 2 = true := by
      simp [VisitTracker.seen, hunseen]
    rw [VisitTracker.visit, if_neg hnew, VisitTracker.visit, VisitTracker.mark,
      List.set_comm _ _ (by decide)]
  have hkept : ¬maxVisitTrackerMarksSize < ((zeros.set 2 1).set 1 1).length := by
    simp [hlength, maxVisitTrackerMarksSize]
  rw [firstSearch, Run.run_cons, hstarts, Run.run_cons, Run.run_cons, Run.run_nil]
  simp only [step, List.modify_zero_cons, List.getElem?_cons_zero, hvisit, put, if_neg hkept,
    List.eraseIdx_cons_zero, worn]

section

variable (hroom : 1 < marks.length) (hsize : marks.length ≤ maxVisitTrackerMarksSize)

include hroom hsize

theorem run_oneNodeSearch (hzero : epoch ≠ 0) (hnext : epoch + 1 ≠ 0) :
    Run.run step (worn marks epoch) oneNodeSearch = worn marks (epoch + 1) := by
  have hkept : ¬maxVisitTrackerMarksSize < (marks.set 1 (epoch + 1)).length := by
    simpa using hsize
  have hstarts : step (worn marks epoch) (.starts (some 0) 1 1) =
      ⟨[], [⟨⟨(marks.set 1 epoch).set 1 (epoch + 1), epoch + 1⟩, [1]⟩]⟩ := by
    rw [step, prepare_worn hroom hzero, if_neg hnext]
    rfl
  rw [oneNodeSearch, Run.run_cons, hstarts, Run.run_cons, Run.run_nil]
  simp only [step, List.getElem?_cons_zero, put, if_neg hkept, worn, List.set_set,
    List.eraseIdx_cons_zero]

theorem run_oneNodeSearches (count : Nat) (hcount : count < 2 ^ 32 - 1) :
    Run.run step (worn marks 1) (List.replicate count oneNodeSearch).flatten =
      worn marks (UInt32.ofNat (count + 1)) := by
  induction count with
  | zero => rfl
  | succ count ih =>
      have hnat : (UInt32.ofNat (count + 1)).toNat = count + 1 :=
        UInt32.toNat_ofNat_of_lt' (by simp only [UInt32.size]; omega)
      have hsum : UInt32.ofNat (count + 1) + 1 = UInt32.ofNat (count + 1 + 1) := by
        rw [UInt32.ofNat_add (count + 1) 1]
        rfl
      have hzero : UInt32.ofNat (count + 1) ≠ 0 := by
        intro heq
        rw [heq] at hnat
        simp at hnat
      have hnext : UInt32.ofNat (count + 1) + 1 ≠ 0 := by
        intro heq
        have hwrap := congrArg UInt32.toNat heq
        rw [UInt32.toNat_add, hnat] at hwrap
        simp only [UInt32.toNat_zero, UInt32.toNat_one] at hwrap
        omega
      rw [List.replicate_succ', List.flatten_append, Run.run_append, ih (by omega),
        List.flatten_singleton, run_oneNodeSearch hroom hsize hzero hnext, hsum]

end

/-- After `2 ^ 32 - 1` searches on one tracker the next one is at epoch 1 again. It finds the
mark of the first search on slot 2, and skips the node there without having visited it. -/
theorem marks_stale_after_wrap :
    ∃ events, ¬Run.Meets step StartsFresh emptyPool events ∧
      ∃ visiting ∈ (Run.run step emptyPool events).running,
        2 ∉ visiting.visited ∧ visiting.tracker.seen 2 = true := by
  -- the number of searches stays a variable, so that nothing tries to build the run
  obtain ⟨count, hcount⟩ : ∃ count, count = 2 ^ 32 - 2 := ⟨_, rfl⟩
  obtain ⟨zeros, hzeros⟩ : ∃ zeros : List UInt32, zeros = List.replicate (marksSize 2) 0 :=
    ⟨_, rfl⟩
  have hlength : zeros.length = 4096 := by
    rw [hzeros, List.length_replicate]
    decide
  have hworn : Run.run step emptyPool
      (firstSearch ++ (List.replicate count oneNodeSearch).flatten) =
        worn (zeros.set 2 1) 4294967295 := by
    rw [Run.run_append, run_firstSearch hzeros, run_oneNodeSearches (by simp [hlength])
      (by simp [hlength, maxVisitTrackerMarksSize]) count (by omega), hcount]
    rfl
  have hprepared := @prepare_worn (zeros.set 2 1) 4294967295 2 (by simp [hlength]) (by decide)
  rw [if_pos (by decide)] at hprepared
  have hmark : ((zeros.set 2 1).set 1 4294967295)[2]? = some 1 := by
    simp [hlength]
  refine ⟨firstSearch ++ (List.replicate count oneNodeSearch).flatten ++ [.starts (some 0) 2 1],
    fun hmeets => ?_, ?_⟩
  · have hfresh := (Run.meets_append.mp hmeets).2.1
    rw [hworn, StartsFresh, hprepared] at hfresh
    exact hfresh 1 (List.mem_of_getElem? hmark) rfl
  · rw [Run.run_append, hworn, Run.run_cons, Run.run_nil, step, hprepared]
    refine ⟨_, List.mem_append_right _ (List.mem_singleton.mpr rfl), by simp, ?_⟩
    simp [VisitTracker.seen, VisitTracker.mark, hlength]

end TrackerPool

end Vectron.Hnsw
