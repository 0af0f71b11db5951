import Vectron.Hnsw.Names
import Vectron.Hnsw.Refusal

/-! # What a cleanup removes

`performCleanup` walks over the node table and reads through the pointer of every slot until
its batch is full. It returns exactly if no slot it comes to is empty; then it has removed the
first deleted nodes of the table, with all their names, and has kept every live node with its
edges to live nodes. The entry point is looked for among the layers up to the old one only.
-/

namespace Vectron.Hnsw

open Foundation
open Worker (Vector)

namespace Index

variable {h h' : Index}

/-- Whether a slot holds a deleted node. -/
def dead (h : Index) (i : Nat) : Bool := deletedSlot (h.getNodeFast i)

/-- The slots that hold deleted nodes. -/
def deadSlots (h : Index) (slots : List Nat) : List Nat := slots.filter h.dead

theorem nodes_eq_map (h : Index) : h.nodes = (List.range h.nodes.length).map h.getNodeFast := by
  apply List.ext_getElem
  · simp
  · intro i hi _
    simp [nodes_getElem hi]

theorem length_deadSlots (h : Index) :
    (h.deadSlots (List.range h.nodes.length)).length = h.deletedNodes := by
  unfold deletedNodes deadSlots
  rw [← List.countP_eq_length_filter]
  conv_rhs => rw [nodes_eq_map, List.countP_map]
  rfl

theorem isSome_getNode_of_skeleton (hskeleton : h'.skeleton = h.skeleton) (i : Nat) :
    (h'.getNode i).isSome = (h.getNode i).isSome := by
  have hmap : (h'.getNodeFast i).map Node.bare = (h.getNodeFast i).map Node.bare := by
    rw [← getNodeFast_skeleton, hskeleton, getNodeFast_skeleton]
  have hbare : ∀ g : Index, (g.getNode i).isSome =
      ((g.getNodeFast i).map Node.bare).any Node.live := by
    intro g
    unfold getNode
    cases g.getNodeFast i with
    | none => rfl
    | some node =>
        cases hlive : node.live <;> simp [live_bare, hlive]
  rw [hbare, hbare, hmap]

/-! ## Phase 1 -/

/-- Before every empty slot there are enough deleted nodes to fill what room is left. -/
def Passable (h : Index) (slots : List Nat) (room : Nat) : Prop :=
  ∀ before i after, slots = before ++ i :: after → i ≠ 0 → h.getNodeFast i = none →
    room ≤ before.countP h.dead

theorem passable_cons {i room : Nat} {rest : List Nat} :
    h.Passable (i :: rest) room ↔
      (i ≠ 0 → h.getNodeFast i = none → room = 0) ∧
        h.Passable rest (room - if h.dead i then 1 else 0) := by
  constructor
  · intro hpass
    refine ⟨fun hi hnone => ?_, fun before j after heq hj hnone => ?_⟩
    · simpa using hpass [] i rest rfl hi hnone
    · have hroom := hpass (i :: before) j after (by rw [heq]; rfl) hj hnone
      rw [List.countP_cons] at hroom
      omega
  · rintro ⟨hhead, hrest⟩ before j after heq hj hnone
    cases before with
    | nil =>
        obtain ⟨rfl, rfl⟩ := List.cons.inj heq
        rw [hhead hj hnone]
        exact Nat.zero_le _
    | cons first before =>
        obtain ⟨rfl, rfl⟩ := List.cons.inj heq
        have hroom := hrest before j after rfl hj hnone
        rw [List.countP_cons]
        omega

theorem Passable.of_zero (slots : List Nat) : h.Passable slots 0 :=
  fun _ _ _ _ _ _ => Nat.zero_le _

theorem passable_congr {slots : List Nat} {room : Nat}
    (hsame : ∀ i ∈ slots, h'.getNodeFast i = h.getNodeFast i) :
    h'.Passable slots room ↔ h.Passable slots room := by
  have hcount : ∀ before i after, slots = before ++ i :: after →
      before.countP h'.dead = before.countP h.dead := by
    rintro before i after rfl
    apply List.countP_congr
    intro j hj
    rw [dead, dead, hsame j (List.mem_append_left _ hj)]
  constructor
  · intro hpass before i after heq hi hnone
    rw [← hcount before i after heq]
    exact hpass before i after heq hi (by rw [hsame i (by simp [heq]), hnone])
  · intro hpass before i after heq hi hnone
    rw [hcount before i after heq]
    exact hpass before i after heq hi (by rw [← hsame i (by simp [heq]), hnone])

theorem deadSlots_congr {slots : List Nat}
    (hsame : ∀ i ∈ slots, h'.getNodeFast i = h.getNodeFast i) :
    h'.deadSlots slots = h.deadSlots slots := by
  apply List.filter_congr
  intro i hi
  rw [dead, dead, hsame i hi]

theorem getNodeFast_removeDeleted_ne {i n : Nat} (hne : i ≠ n) :
    (h.removeDeleted n).getNodeFast i = h.getNodeFast i := by
  have hread : (h.removeDeleted n).getNodeFast i = (h.setSlot n none).getNodeFast i := rfl
  rw [hread, getNodeFast_setSlot, if_neg (fun hboth => hne hboth.1)]

section Loop

variable {batchSize : Int} {slots : List Nat} {removed : Nat} {affected : List Nat}

/-- The room that is left in a batch. -/
def roomLeft (batchSize : Int) (removed : Nat) : Nat := batchSize.toNat - removed

theorem roomLeft_succ (batchSize : Int) (removed : Nat) :
    roomLeft batchSize (removed + 1) = roomLeft batchSize removed - 1 := by
  unfold roomLeft
  omega

/-- Phase 1 removes the first deleted nodes, as many as there is room for. -/
theorem cleanupLoop_of_passable (hnodup : slots.Nodup) (hzero : h.getNodeFast 0 = none)
    (hpass : h.Passable slots (roomLeft batchSize removed)) :
    ∃ affected', (cleanupLoop batchSize slots (h, removed, affected)).outcome =
      .ok (((h.deadSlots slots).take (roomLeft batchSize removed)).foldl removeDeleted h,
        removed + ((h.deadSlots slots).take (roomLeft batchSize removed)).length, affected') := by
  induction slots generalizing h removed affected with
  | nil => exact ⟨affected, by simp [deadSlots, cleanupLoop]; rfl⟩
  | cons i rest ih =>
      obtain ⟨hi, hrest⟩ := List.nodup_cons.mp hnodup
      obtain ⟨hhead, htail⟩ := passable_cons.mp hpass
      rw [cleanupLoop]
      by_cases hfull : batchSize ≤ removed
      · have hroom : roomLeft batchSize removed = 0 := by
          unfold roomLeft
          omega
        rw [if_pos hfull, hroom]
        exact ⟨affected, by simp; rfl⟩
      · have hroom : 0 < roomLeft batchSize removed := by
          unfold roomLeft
          omega
        rw [if_neg hfull]
        by_cases hpos : i = 0
        · have hdead : h.dead i = false := by
            rw [hpos, dead, hzero]
            rfl
          rw [if_pos hpos]
          rw [hdead] at htail
          have hskip : h.deadSlots (i :: rest) = h.deadSlots rest := by simp [deadSlots, hdead]
          rw [hskip]
          exact ih hrest hzero htail
        · rw [if_neg hpos]
          cases hnode : h.getNodeFast i with
          | none =>
              have hnot := hhead hpos hnode
              omega
          | some node =>
              have hdead : h.dead i = !node.live := by simp [dead, hnode, deletedSlot]
              cases hlive : node.live with
              | true =>
                  rw [hdead, hlive] at htail
                  have hskip : h.deadSlots (i :: rest) = h.deadSlots rest := by
                    simp [deadSlots, hdead, hlive]
                  rw [hskip]
                  simp only [hlive, if_true]
                  exact ih hrest hzero htail
              | false =>
                  rw [hdead, hlive] at htail
                  have hsame : ∀ j ∈ rest, (h.removeDeleted i).getNodeFast j = h.getNodeFast j :=
                    fun j hj => getNodeFast_removeDeleted_ne fun heq => hi (heq ▸ hj)
                  have hless := roomLeft_succ batchSize removed
                  obtain ⟨affected', houtcome⟩ := @ih (h.removeDeleted i) (removed + 1)
                    (affected ++ node.neighbors.flatten) hrest
                    (by rw [getNodeFast_removeDeleted_ne (Ne.symm hpos), hzero])
                    (by rw [passable_congr hsame, hless]; simpa using htail)
                  rw [deadSlots_congr hsame, hless] at houtcome
                  have htake : (h.deadSlots (i :: rest)).take (roomLeft batchSize removed) =
                      i :: (h.deadSlots rest).take (roomLeft batchSize removed - 1) := by
                    obtain ⟨n, hn⟩ := Nat.exists_eq_succ_of_ne_zero hroom.ne'
                    simp [deadSlots, hdead, hlive, hn]
                  refine ⟨affected', ?_⟩
                  simp only [hlive, Bool.false_eq_true, if_false]
                  rw [houtcome, htake, List.foldl_cons, List.length_cons]
                  congr 3
                  omega

/-- It panics at the first empty slot otherwise. -/
theorem cleanupLoop_of_not_passable (hnodup : slots.Nodup) (hzero : h.getNodeFast 0 = none)
    (hpass : ¬ h.Passable slots (roomLeft batchSize removed)) :
    (cleanupLoop batchSize slots (h, removed, affected)).outcome = .error .nilDereference := by
  induction slots generalizing h removed affected with
  | nil =>
      refine absurd ?_ hpass
      intro before i after heq
      simp at heq
  | cons i rest ih =>
      obtain ⟨hi, hrest⟩ := List.nodup_cons.mp hnodup
      rw [passable_cons] at hpass
      rw [cleanupLoop]
      by_cases hfull : batchSize ≤ removed
      · have hroom : roomLeft batchSize removed = 0 := by
          unfold roomLeft
          omega
        rw [hroom, Nat.zero_sub] at hpass
        exact absurd ⟨fun _ _ => rfl, Passable.of_zero rest⟩ hpass
      · rw [if_neg hfull]
        by_cases hpos : i = 0
        · have hdead : h.dead i = false := by
            rw [hpos, dead, hzero]
            rfl
          rw [if_pos hpos]
          rw [hdead] at hpass
          exact ih hrest hzero fun htail => hpass ⟨fun hne => absurd hpos hne, htail⟩
        · rw [if_neg hpos]
          cases hnode : h.getNodeFast i with
          | none => rfl
          | some node =>
              have hdead : h.dead i = !node.live := by simp [dead, hnode, deletedSlot]
              have hhead : i ≠ 0 → h.getNodeFast i = none → roomLeft batchSize removed = 0 := by
                intro _ hnone
                rw [hnode] at hnone
                cases hnone
              cases hlive : node.live with
              | true =>
                  rw [hdead, hlive] at hpass
                  simp only [hlive, if_true]
                  exact ih hrest hzero fun htail => hpass ⟨hhead, htail⟩
              | false =>
                  rw [hdead, hlive] at hpass
                  have hsame : ∀ j ∈ rest, (h.removeDeleted i).getNodeFast j = h.getNodeFast j :=
                    fun j hj => getNodeFast_removeDeleted_ne fun heq => hi (heq ▸ hj)
                  have hless := roomLeft_succ batchSize removed
                  simp only [hlive, Bool.false_eq_true, if_false]
                  apply ih hrest
                  · rw [getNodeFast_removeDeleted_ne (Ne.symm hpos), hzero]
                  · rw [passable_congr hsame, hless]
                    exact fun htail => hpass ⟨hhead, by simpa using htail⟩

end Loop

/-! ## What is removed -/

/-- `h'` is `h` without the deleted nodes of some slots. -/
structure Cleared (h : Index) (gone : List Nat) (h' : Index) : Prop where
  coherent : Coherent h'
  alike : Alike h h'
  slot : ∀ i, h'.getNodeFast i = if i ∈ gone then none else h.getNodeFast i
  named : ∀ id n, h'.idToUint32.lookup id = some n ↔ h.idToUint32.lookup id = some n ∧ n ∉ gone
  cached : ∀ i ∈ gone, h'.extIDCache[i]? = some []
  others : ∀ i, i ∉ gone → h'.extIDCache[i]? = h.extIDCache[i]?
  entry : h'.entry = h.entry
  maxLayer : h'.maxLayer = h.maxLayer

theorem cleared_nil (hcoherent : Coherent h) : Cleared h [] h where
  coherent := hcoherent
  alike := Alike.refl
  slot i := by simp
  named id n := by simp
  cached i hi := absurd hi List.not_mem_nil
  others i _ := rfl
  entry := rfl
  maxLayer := rfl

theorem dead_iff {i : Nat} :
    h.dead i = true ↔ ∃ node, h.getNodeFast i = some node ∧ node.live = false := by
  unfold dead deletedSlot
  cases h.getNodeFast i with
  | none => simp
  | some node => simp

theorem Cleared.snoc {gone : List Nat} {n : Nat} (hcleared : Cleared h gone h')
    (hdead : h.dead n = true) (hnot : n ∉ gone) :
    Cleared h (gone ++ [n]) (h'.removeDeleted n) := by
  obtain ⟨node, hold, hlive⟩ := dead_iff.mp hdead
  have hnode : h'.getNodeFast n = some node := by rw [hcleared.slot, if_neg hnot, hold]
  obtain ⟨hcoherent, halike⟩ := removeDeleted_spec hcleared.coherent hnode hlive
  obtain ⟨id, hname, hcache⟩ := (hcleared.coherent.tables.node n node hnode).named
  have hremoved := removed_removeDeleted hname (by rw [hnode]; rfl)
  refine
    { coherent := hcoherent
      alike := hcleared.alike.trans halike
      slot := fun i => ?_
      named := fun id' m => ?_
      cached := fun i hi => ?_
      others := fun i hi => ?_
      entry := hremoved.entry.trans hcleared.entry
      maxLayer := hremoved.maxLayer.trans hcleared.maxLayer }
  · rw [hremoved.getNodeFast, hcleared.slot]
    by_cases hi : i = n <;> simp [hi]
  · -- the id whose name is erased is the one that led to the slot
    rw [hremoved.idToUint32]
    have hid := (hcleared.coherent.tables.inverse id n).mpr hname
    by_cases hsame : id' = id
    · subst hsame
      simp only [AList.lookup_erase, reduceCtorEq, false_iff, List.mem_append, List.mem_singleton,
        not_or, not_and, not_not]
      intro hlookup hmem
      exact Option.some.inj (((hcleared.named id' m).mpr ⟨hlookup, hmem⟩).symm.trans hid)
    · rw [AList.lookup_erase_ne hsame, hcleared.named]
      simp only [List.mem_append, List.mem_singleton, not_or]
      constructor
      · rintro ⟨hlookup, hmem⟩
        refine ⟨hlookup, hmem, ?_⟩
        rintro rfl
        exact hsame (hcleared.coherent.tables.unique
          ((hcleared.named id' m).mpr ⟨hlookup, hmem⟩) hid)
      · rintro ⟨hlookup, hmem, _⟩
        exact ⟨hlookup, hmem⟩
  · have hset : (h'.removeDeleted n).extIDCache = h'.extIDCache.set n [] := rfl
    have hlt : n < h'.extIDCache.length := (List.getElem?_eq_some_iff.mp hcache).1
    rw [hset, List.getElem?_set]
    by_cases hn : n = i
    · rw [if_pos hn, if_pos hlt]
    · rw [if_neg hn]
      rcases List.mem_append.mp hi with hold | hnew
      · exact hcleared.cached i hold
      · exact absurd (List.mem_singleton.mp hnew).symm hn
  · simp only [List.mem_append, List.mem_singleton, not_or] at hi
    rw [hremoved.caches.2 i hi.2, hcleared.others i hi.1]

theorem cleared_foldl (hcoherent : Coherent h) {gone : List Nat} (hnodup : gone.Nodup)
    (hdead : ∀ i ∈ gone, h.dead i = true) : Cleared h gone (gone.foldl removeDeleted h) := by
  induction gone using List.reverseRecOn with
  | nil => exact cleared_nil hcoherent
  | append_singleton gone n ih =>
      obtain ⟨hgone, _, hdisjoint⟩ := List.nodup_append'.mp hnodup
      rw [List.foldl_append, List.foldl_cons, List.foldl_nil]
      have hfirst := ih hgone fun i hi => hdead i (List.mem_append_left _ hi)
      refine hfirst.snoc (hdead n (by simp)) fun hmem => ?_
      exact hdisjoint hmem (List.mem_singleton_self n)

/-! ## What is kept -/

/-- The same node, with all its edges to live nodes, in their order. -/
structure KeepsEdges (live : Nat → Prop) (node node' : Node) : Prop where
  bare : node'.bare = node.bare
  edges : List.Forall₂ (fun list list' => list'.Sublist list ∧ ∀ e ∈ list, live e → e ∈ list')
    node.neighbors node'.neighbors

theorem KeepsEdges.refl (live : Nat → Prop) (node : Node) : KeepsEdges live node node :=
  ⟨rfl, List.forall₂_same.mpr fun list _ => ⟨List.Sublist.refl list, fun _ he _ => he⟩⟩

theorem KeepsEdges.trans {live : Nat → Prop} {first second third : Node}
    (hfirst : KeepsEdges live first second) (hsecond : KeepsEdges live second third) :
    KeepsEdges live first third := by
  refine ⟨hsecond.bare.trans hfirst.bare, ?_⟩
  have hcompose : ∀ (xs ys zs : List (List Nat)),
      List.Forall₂ (fun list list' => list'.Sublist list ∧ ∀ e ∈ list, live e → e ∈ list') xs ys →
      List.Forall₂ (fun list list' => list'.Sublist list ∧ ∀ e ∈ list, live e → e ∈ list') ys zs →
      List.Forall₂ (fun list list' => list'.Sublist list ∧ ∀ e ∈ list, live e → e ∈ list') xs zs := by
    intro xs ys zs hxy
    induction hxy generalizing zs with
    | nil =>
        intro hyz
        exact hyz
    | cons hhead _ ih =>
        intro hyz
        cases hyz with
        | cons hhead' htail' =>
            exact .cons ⟨hhead'.1.trans hhead.1,
              fun e he hlive => hhead'.2 e (hhead.2 e he hlive) hlive⟩ (ih _ htail')
  exact hcompose _ _ _ hfirst.edges hsecond.edges

theorem filterDead_keepsEdges (h : Index) (id : Nat) {live : Nat → Prop}
    (hlive : ∀ e, live e ↔ (h.getNode e).isSome) {i : Nat} {node : Node}
    (hnode : h.getNodeFast i = some node) :
    ∃ node', (h.filterDead id).getNodeFast i = some node' ∧ KeepsEdges live node node' := by
  unfold filterDead
  split
  next => exact ⟨node, hnode, KeepsEdges.refl live node⟩
  next =>
    rw [getNodeFast_modifyNode]
    split
    next =>
      rw [hnode]
      refine ⟨_, rfl, rfl, ?_⟩
      rw [List.forall₂_map_right_iff]
      refine List.forall₂_same.mpr fun list _ => ⟨List.filter_sublist, fun e he halive => ?_⟩
      exact List.mem_filter.mpr ⟨he, (hlive e).mp halive⟩
    next => exact ⟨node, hnode, KeepsEdges.refl live node⟩

theorem foldl_filterDead_keepsEdges (affected : List Nat) {live : Nat → Prop}
    (hlive : ∀ e, live e ↔ (h.getNode e).isSome) {i : Nat} {node : Node}
    (hnode : h.getNodeFast i = some node) :
    ∃ node', (affected.foldl filterDead h).getNodeFast i = some node' ∧
      KeepsEdges live node node' := by
  induction affected generalizing h node with
  | nil => exact ⟨node, hnode, KeepsEdges.refl live node⟩
  | cons id rest ih =>
      obtain ⟨middle, hmiddle, hfirst⟩ := filterDead_keepsEdges h id hlive hnode
      have hlive' : ∀ e, live e ↔ ((h.filterDead id).getNode e).isSome := by
        intro e
        rw [hlive, isSome_getNode_of_skeleton (filterDead_skeleton id)]
      obtain ⟨node', hlast, hrest⟩ := ih hlive' hmiddle
      exact ⟨node', hlast, hfirst.trans hrest⟩

/-! ## The entry point -/

/-- The entry point is a live node, or 0 when there is none. -/
structure EntrySound (h : Index) : Prop where
  zero : h.entry = 0 ↔ ∀ n, h.getNode n = none
  live : h.entry ≠ 0 → (h.getNode h.entry).isSome

/-- A dead entry point is replaced if a node was removed, by a node that reaches no higher. -/
def EntryRepairable (h : Index) : Prop :=
  (h.getNode h.entry).isSome ∨
    (∀ n, h.getNode n = none) ∧ (h.entry = 0 ∨ 0 < h.deletedNodes) ∨
    h.entry ≠ 0 ∧ 0 < h.deletedNodes ∧ ∃ n node, h.getNode n = some node ∧ node.layer ≤ h.maxLayer

theorem liveAt_eq_none {l n : Nat} {node : Node}
    (hnone : h.liveAt l = none) (hnode : h.getNode n = some node) : node.layer ≠ l := by
  obtain ⟨hfast, hlive⟩ := getNode_eq_some.mp hnode
  have hlt := lt_length_of_getNode hnode
  have hslot := List.findSome?_eq_none_iff.mp hnone h.nodes[n] (List.getElem_mem hlt)
  rw [nodes_getElem hlt, hfast] at hslot
  intro heq
  simp [Option.filter, hlive, heq] at hslot

theorem getNode_zero (hlayered : Layered h) : h.getNode 0 = none := by
  rw [getNode, hlayered.not_zero]
  rfl

theorem entrySound_of_live (hlayered : Layered h) {node : Node}
    (hnode : h.getNode h.entry = some node) : EntrySound h := by
  constructor
  · constructor
    · intro hzero
      rw [hzero, getNode_zero hlayered] at hnode
      cases hnode
    · intro hnone
      rw [hnone] at hnode
      cases hnode
  · intro _
    rw [hnode]
    rfl

/-- The search for another entry point succeeds exactly if a live node is in its layers. -/
theorem entrySound_maybeUpdateEntryPoint_iff (hlayered : Layered h) :
    EntrySound h.maybeUpdateEntryPoint ↔
      (h.getNode h.entry).isSome ∨ (∀ n, h.getNode n = none) ∨
        h.entry ≠ 0 ∧ ∃ n node, h.getNode n = some node ∧ node.layer ≤ h.maxLayer := by
  unfold maybeUpdateEntryPoint
  split
  next hkeep =>
    constructor
    · intro hsound
      rcases hkeep with hzero | hlive
      · exact Or.inr (Or.inl (hsound.zero.mp hzero))
      · exact Or.inl hlive
    · rintro (hlive | hnone | ⟨hne, _⟩)
      · obtain ⟨node, hnode⟩ := Option.isSome_iff_exists.mp hlive
        exact entrySound_of_live hlayered hnode
      · have hzero : h.entry = 0 := by
          refine hkeep.resolve_right ?_
          simp [hnone]
        exact ⟨iff_of_true hzero hnone, fun hne => absurd hzero hne⟩
      · obtain ⟨node, hnode⟩ := Option.isSome_iff_exists.mp (hkeep.resolve_left hne)
        exact entrySound_of_live hlayered hnode
  next hlost =>
    rw [not_or] at hlost
    split
    next node hfound =>
      obtain ⟨l, hl, hat⟩ := List.exists_of_findSome?_eq_some hfound
      obtain ⟨hnode, hlive, hlayer⟩ := liveAt_spec hlayered hat
      have hget : h.getNode node.id = some node := getNode_eq_some.mpr ⟨hnode, hlive⟩
      have hle : node.layer ≤ h.maxLayer := by
        rw [List.mem_reverse, List.mem_range] at hl
        omega
      refine iff_of_true ?_ (Or.inr (Or.inr ⟨hlost.1, node.id, node, hget, hle⟩))
      have hpos := (hlayered.node node.id node hnode).pos
      refine ⟨iff_of_false hpos.ne' fun hnone => ?_, fun _ => ?_⟩
      · have hsame : h.getNode node.id = none := hnone node.id
        rw [hget] at hsame
        cases hsame
      · have hread : (h.getNode node.id).isSome = true := by
          rw [hget]
          rfl
        exact hread
    next hnone =>
      have hhigh : ∀ n node, h.getNode n = some node → ¬ node.layer ≤ h.maxLayer := by
        intro n node hnode hle
        refine liveAt_eq_none ?_ hnode rfl
        refine List.findSome?_eq_none_iff.mp hnone node.layer ?_
        rw [List.mem_reverse, List.mem_range]
        omega
      constructor
      · intro hsound
        exact Or.inr (Or.inl (hsound.zero.mp rfl))
      · rintro (hlive | hempty | ⟨_, n, node, hnode, hle⟩)
        · exact absurd hlive hlost.2
        · exact ⟨iff_of_true rfl hempty, fun hne => absurd rfl hne⟩
        · exact absurd hle (hhigh n node hnode)

/-! ## A whole cleanup -/

/-- A slot and its names are gone. -/
structure Gone (h : Index) (n : Nat) : Prop where
  slot : h.getNodeFast n = none
  idToUint32 : ∀ id, h.idToUint32.lookup id ≠ some n
  uint32ToID : h.uint32ToID.lookup n = none
  extIDCache : h.extIDCache[n]? = some []

/-- A slot keeps its node, up to edges, and all its names. -/
structure Stays (h h' : Index) (n : Nat) : Prop where
  slot : (h'.getNodeFast n).map Node.bare = (h.getNodeFast n).map Node.bare
  idToUint32 : ∀ id, h'.idToUint32.lookup id = some n ↔ h.idToUint32.lookup id = some n
  uint32ToID : h'.uint32ToID.lookup n = h.uint32ToID.lookup n
  extIDCache : h'.extIDCache[n]? = h.extIDCache[n]?

/-- What a cleanup of one batch should do. -/
structure Cleaned (batchSize : Int) (h h' : Index) : Prop where
  removed : ∃ gone : Finset Nat, (gone.card : Int) = min batchSize h.deletedNodes ∧
    (∀ n ∈ gone, h.dead n = true ∧ Gone h' n) ∧ ∀ n, n ∉ gone → Stays h h' n
  live : ∀ n node, h.getNode n = some node → ∃ node', h'.getNode n = some node' ∧
    KeepsEdges (fun e => (h.getNode e).isSome) node node'
  entry : EntrySound h'

/-- Before every empty slot but the first there is a whole batch of deleted nodes. -/
def Sweepable (batchSize : Int) (h : Index) : Prop :=
  ∀ i, 0 < i → i < h.nodes.length → h.getNodeFast i = none →
    batchSize ≤ ((List.range i).countP h.dead : Nat)

instance (batchSize : Int) (h : Index) : Decidable (Sweepable batchSize h) :=
  decidable_of_iff
    (∀ i ∈ List.range h.nodes.length, 0 < i → (h.getNodeFast i).isNone = true →
      batchSize ≤ ((List.range i).countP h.dead : Nat))
    (by
      simp only [List.mem_range, Option.isNone_iff_eq_none, Sweepable]
      exact forall_congr' fun i => forall_comm)

theorem passable_range_iff {batchSize : Int} (hbatch : 1 ≤ batchSize) :
    h.Passable (List.range h.nodes.length) (roomLeft batchSize 0) ↔ Sweepable batchSize h := by
  have hroom : (roomLeft batchSize 0 : Int) = batchSize := by
    unfold roomLeft
    omega
  constructor
  · intro hpass i hpos hlt hnone
    have hsplit : List.range h.nodes.length =
        List.range i ++ i :: (List.range h.nodes.length).drop (i + 1) := by
      have htake := List.take_append_drop i (List.range h.nodes.length)
      rw [List.take_range, Nat.min_eq_left hlt.le,
        List.drop_eq_getElem_cons (by simpa using hlt), List.getElem_range] at htake
      exact htake.symm
    have hcount := hpass _ i _ hsplit hpos.ne' hnone
    omega
  · intro hsweep before i after heq hne hnone
    have hi : before.length = i := by
      have hget : (List.range h.nodes.length)[before.length]? = some i := by
        rw [heq]
        simp
      obtain ⟨hlt, hvalue⟩ := List.getElem?_eq_some_iff.mp hget
      rw [List.getElem_range] at hvalue
      exact hvalue
    have hlength := congrArg List.length heq
    simp only [List.length_range, List.length_append, List.length_cons] at hlength
    have hbefore : before = List.range i := by
      have htake := congrArg (List.take before.length) heq
      rw [List.take_left, List.take_range, hi, Nat.min_eq_left (by omega)] at htake
      exact htake.symm
    have hcount := hsweep i (Nat.pos_of_ne_zero hne) (by omega) hnone
    rw [hbefore]
    omega

/-- What the first two phases leave: all names of some deleted nodes are gone, and the rest stays
up to edges to deleted nodes. -/
structure Trimmed (gone : List Nat) (h h' : Index) : Prop where
  coherent : Coherent h'
  names : ∀ n ∈ gone, Gone h' n
  stays : ∀ n, n ∉ gone → Stays h h' n
  live : ∀ n node, h.getNode n = some node → ∃ node', h'.getNode n = some node' ∧
    KeepsEdges (fun e => (h.getNode e).isSome) node node'
  isSome : ∀ n, (h'.getNode n).isSome = (h.getNode n).isSome
  entry : h'.entry = h.entry
  maxLayer : h'.maxLayer = h.maxLayer

theorem Cleared.gone {gone : List Nat} (hcleared : Cleared h gone h') {n : Nat} (hn : n ∈ gone) :
    Gone h' n where
  slot := by rw [hcleared.slot, if_pos hn]
  idToUint32 id hlookup := ((hcleared.named id n).mp hlookup).2 hn
  uint32ToID := by
    rw [Option.eq_none_iff_forall_ne_some]
    intro id hname
    have hid := (hcleared.coherent.tables.inverse id n).mpr hname
    exact ((hcleared.named id n).mp hid).2 hn
  extIDCache := hcleared.cached n hn

theorem Cleared.stays (hcoherent : Coherent h) {gone : List Nat} (hcleared : Cleared h gone h')
    {n : Nat} (hn : n ∉ gone) : Stays h h' n where
  slot := by rw [hcleared.slot, if_neg hn]
  idToUint32 id := by simp [hcleared.named, hn]
  uint32ToID := by
    ext id
    have hnamed : h'.idToUint32.lookup id = some n ↔ h.idToUint32.lookup id = some n := by
      simp [hcleared.named, hn]
    rw [← hcleared.coherent.tables.inverse, hnamed,
      hcoherent.tables.inverse]
  extIDCache := hcleared.others n hn

theorem names_of_skeleton {third : Index} (hskeleton : third.skeleton = h'.skeleton) :
    third.idToUint32 = h'.idToUint32 ∧ third.uint32ToID = h'.uint32ToID ∧
      third.extIDCache = h'.extIDCache :=
  ⟨@congrArg _ _ third.skeleton h'.skeleton idToUint32 hskeleton,
    @congrArg _ _ third.skeleton h'.skeleton uint32ToID hskeleton,
    @congrArg _ _ third.skeleton h'.skeleton extIDCache hskeleton⟩

theorem Stays.of_skeleton {third : Index} {n : Nat} (hstays : Stays h h' n)
    (hskeleton : third.skeleton = h'.skeleton) : Stays h third n := by
  obtain ⟨hids, hnames, hcache⟩ := names_of_skeleton hskeleton
  refine ⟨?_, fun id => ?_, ?_, ?_⟩
  · rw [← getNodeFast_skeleton, hskeleton, getNodeFast_skeleton]
    exact hstays.slot
  · rw [hids]
    exact hstays.idToUint32 id
  · rw [hnames]
    exact hstays.uint32ToID
  · rw [hcache]
    exact hstays.extIDCache

theorem Gone.of_skeleton {third : Index} {n : Nat} (hgone : Gone h' n)
    (hskeleton : third.skeleton = h'.skeleton) : Gone third n := by
  obtain ⟨hids, hnames, hcache⟩ := names_of_skeleton hskeleton
  refine ⟨?_, fun id => ?_, ?_, ?_⟩
  · have hslot : (third.getNodeFast n).map Node.bare = none := by
      rw [← getNodeFast_skeleton, hskeleton, getNodeFast_skeleton, hgone.slot]
      rfl
    exact Option.map_eq_none_iff.mp hslot
  · rw [hids]
    exact hgone.idToUint32 id
  · rw [hnames]
    exact hgone.uint32ToID
  · rw [hcache]
    exact hgone.extIDCache

theorem trimmed_foldl (hcoherent : Coherent h) {gone : List Nat} (hnodup : gone.Nodup)
    (hdead : ∀ i ∈ gone, h.dead i = true) (affected : List Nat) :
    Trimmed gone h (affected.foldl filterDead (gone.foldl removeDeleted h)) := by
  have hcleared := cleared_foldl hcoherent hnodup hdead
  obtain ⟨hfiltered, hskeleton⟩ := foldl_filterDead_spec hcleared.coherent affected
  have hsame : ∀ n, ((gone.foldl removeDeleted h).getNode n) = h.getNode n := by
    intro n
    unfold getNode
    rw [hcleared.slot]
    split
    next hn =>
      obtain ⟨node, hnode, hlive⟩ := dead_iff.mp (hdead n hn)
      rw [hnode]
      simp [Option.filter, hlive]
    next => rfl
  refine
    { coherent := hfiltered
      names := fun n hn => (hcleared.gone hn).of_skeleton hskeleton
      stays := fun n hn => (hcleared.stays hcoherent hn).of_skeleton hskeleton
      live := fun n node hnode => ?_
      isSome := fun n => ?_
      entry := ?_
      maxLayer := ?_ }
  · rw [← hsame n] at hnode
    obtain ⟨hfast, hlive⟩ := getNode_eq_some.mp hnode
    obtain ⟨node', hnode', hkeeps⟩ := @foldl_filterDead_keepsEdges (gone.foldl removeDeleted h)
      affected (fun e => (h.getNode e).isSome) (fun e => by rw [hsame]) n node hfast
    refine ⟨node', getNode_eq_some.mpr ⟨hnode', ?_⟩, hkeeps⟩
    rw [← live_bare, hkeeps.bare, live_bare, hlive]
  · rw [isSome_getNode_of_skeleton hskeleton, hsame]
  · have hentry : (affected.foldl filterDead (gone.foldl removeDeleted h)).skeleton.entry =
        (gone.foldl removeDeleted h).skeleton.entry := by rw [hskeleton]
    exact hentry.trans hcleared.entry
  · have hmax : (affected.foldl filterDead (gone.foldl removeDeleted h)).skeleton.maxLayer =
        (gone.foldl removeDeleted h).skeleton.maxLayer := by rw [hskeleton]
    exact hmax.trans hcleared.maxLayer

section

variable {gone : List Nat} (htrimmed : Trimmed gone h h')

include htrimmed

/-- Whether a live node reaches no higher than the entry point did is the same before and after. -/
theorem Trimmed.reaches_iff :
    (∃ n node, h'.getNode n = some node ∧ node.layer ≤ h'.maxLayer) ↔
      ∃ n node, h.getNode n = some node ∧ node.layer ≤ h.maxLayer := by
  have hlayer : ∀ n node node', h.getNode n = some node → h'.getNode n = some node' →
      node'.layer = node.layer := by
    intro n node node' hnode hnode'
    obtain ⟨other, hother, hkeeps⟩ := htrimmed.live n node hnode
    obtain rfl := Option.some.inj (hnode'.symm.trans hother)
    have hbare : node'.bare.layer = node.bare.layer := congrArg Node.layer hkeeps.bare
    exact hbare
  rw [htrimmed.maxLayer]
  constructor
  · rintro ⟨n, node', hnode', hle⟩
    have hsome := htrimmed.isSome n
    rw [hnode'] at hsome
    obtain ⟨node, hnode⟩ := Option.isSome_iff_exists.mp hsome.symm
    exact ⟨n, node, hnode, hlayer n node node' hnode hnode' ▸ hle⟩
  · rintro ⟨n, node, hnode, hle⟩
    obtain ⟨node', hnode', _⟩ := htrimmed.live n node hnode
    exact ⟨n, node', hnode', (hlayer n node node' hnode hnode').symm ▸ hle⟩

theorem Trimmed.empty_iff :
    (∀ n, h'.getNode n = none) ↔ ∀ n, h.getNode n = none := by
  have hsame : ∀ n, h'.getNode n = none ↔ h.getNode n = none := by
    intro n
    rw [← Option.isNone_iff_eq_none, ← Option.isNone_iff_eq_none, ← Option.not_isSome,
      ← Option.not_isSome, htrimmed.isSome]
  exact forall_congr' hsame

/-- The entry point is right after a cleanup exactly if it was, or can be replaced. -/
theorem Trimmed.entrySound_iff :
    EntrySound (if 0 < h.deletedNodes then h'.maybeUpdateEntryPoint else h') ↔
      EntryRepairable h := by
  have hlayered := htrimmed.coherent.layered
  have hempty := htrimmed.empty_iff
  have hlive : (h'.getNode h'.entry).isSome = (h.getNode h.entry).isSome := by
    rw [htrimmed.entry, htrimmed.isSome]
  unfold EntryRepairable
  split
  next hsome =>
    rw [entrySound_maybeUpdateEntryPoint_iff hlayered, hlive, hempty, htrimmed.reaches_iff,
      htrimmed.entry]
    simp [hsome]
  next hnone =>
    simp only [hnone, or_false, false_and, and_false]
    constructor
    · intro hsound
      by_cases hzero : h.entry = 0
      · have hall := hempty.mp (hsound.zero.mp (htrimmed.entry.trans hzero))
        exact Or.inr ⟨hall, hzero⟩
      · have halive := hsound.live (by rw [htrimmed.entry]; exact hzero)
        rw [hlive] at halive
        exact Or.inl halive
    · rintro (halive | ⟨hall, hzero⟩)
      · rw [← hlive] at halive
        obtain ⟨node, hnode⟩ := Option.isSome_iff_exists.mp halive
        exact entrySound_of_live hlayered hnode
      · have hzero' : h'.entry = 0 := htrimmed.entry.trans hzero
        exact ⟨iff_of_true hzero' (hempty.mpr hall), fun hne => absurd hzero' hne⟩

end

theorem stays_maybeUpdateEntryPoint {n : Nat} (hstays : Stays h h' n) :
    Stays h h'.maybeUpdateEntryPoint n := by
  unfold maybeUpdateEntryPoint
  split
  next => exact hstays
  next => split <;> exact ⟨hstays.slot, hstays.idToUint32, hstays.uint32ToID, hstays.extIDCache⟩

theorem gone_maybeUpdateEntryPoint {n : Nat} (hgone : Gone h' n) :
    Gone h'.maybeUpdateEntryPoint n := by
  unfold maybeUpdateEntryPoint
  split
  next => exact hgone
  next => split <;> exact ⟨hgone.slot, hgone.idToUint32, hgone.uint32ToID, hgone.extIDCache⟩

theorem getNode_maybeUpdateEntryPoint (n : Nat) :
    h'.maybeUpdateEntryPoint.getNode n = h'.getNode n := by
  unfold maybeUpdateEntryPoint
  split
  next => rfl
  next => split <;> rfl

theorem outcome_bind {α β : Type} {first : Probe α} {rest : α → Probe β} :
    (first >>= rest).outcome = first.outcome.bind fun a => (rest a).outcome := by
  obtain ⟨trace, outcome⟩ := first
  cases outcome <;> rfl

/-- The slots that a cleanup removes. -/
def batch (batchSize : Int) (h : Index) : List Nat :=
  (h.deadSlots (List.range h.nodes.length)).take batchSize.toNat

theorem length_batch {batchSize : Int} (hbatch : 1 ≤ batchSize) :
    ((h.batch batchSize).length : Int) = min batchSize h.deletedNodes := by
  rw [batch, List.length_take, length_deadSlots]
  omega

theorem performCleanup_eq (batchSize : Int) (h : Index) :
    (performCleanup batchSize h).outcome =
      (cleanupLoop batchSize (List.range h.nodes.length) (h, 0, [])).outcome.bind fun result =>
        .ok (if 0 < result.2.1 then (result.2.2.foldl filterDead result.1).maybeUpdateEntryPoint
          else result.2.2.foldl filterDead result.1) := by
  unfold performCleanup
  rw [outcome_bind]
  rfl

/-- On a coherent index, a cleanup does what it should exactly if it meets no empty slot before
its batch is full and the entry point is alive or can be replaced. -/
theorem cleaned_iff (hcoherent : Coherent h) {batchSize : Int} (hbatch : 1 ≤ batchSize) :
    (∃ h', (performCleanup batchSize h).outcome = .ok h' ∧ Cleaned batchSize h h') ↔
      Sweepable batchSize h ∧ EntryRepairable h := by
  have hzero := hcoherent.layered.not_zero
  have hnodup : (List.range h.nodes.length).Nodup := List.nodup_range
  have hroom : roomLeft batchSize 0 = batchSize.toNat := Nat.sub_zero _
  by_cases hsweep : Sweepable batchSize h
  · obtain ⟨affected, hloop⟩ := @cleanupLoop_of_passable h batchSize _ 0 [] hnodup hzero
      ((passable_range_iff hbatch).mpr hsweep)
    rw [hroom, Nat.zero_add] at hloop
    have hgone : (h.batch batchSize).Nodup := ((hnodup.filter _).sublist (List.take_sublist _ _))
    have hdead : ∀ i ∈ h.batch batchSize, h.dead i = true := fun i hi =>
      (List.mem_filter.mp (List.mem_of_mem_take hi)).2
    have hlength := @length_batch h batchSize hbatch
    have htrimmed := trimmed_foldl hcoherent hgone hdead affected
    have hpositive : 0 < (h.batch batchSize).length ↔ 0 < h.deletedNodes := by omega
    have houtcome : (performCleanup batchSize h).outcome = .ok
        (if 0 < h.deletedNodes then
          (affected.foldl filterDead ((h.batch batchSize).foldl removeDeleted h)).maybeUpdateEntryPoint
        else affected.foldl filterDead ((h.batch batchSize).foldl removeDeleted h)) := by
      rw [performCleanup_eq, hloop]
      simp only [Except.bind]
      congr 1
      exact if_congr hpositive rfl rfl
    rw [← htrimmed.entrySound_iff, houtcome]
    constructor
    · rintro ⟨h', heq, hcleaned⟩
      obtain rfl := Except.ok.inj heq
      exact ⟨hsweep, hcleaned.entry⟩
    · rintro ⟨_, hsound⟩
      refine ⟨_, rfl, ⟨(h.batch batchSize).toFinset, ?_, fun n hn => ?_, fun n hn => ?_⟩, ?_, hsound⟩
      · rw [List.toFinset_card_of_nodup hgone, hlength]
      · rw [List.mem_toFinset] at hn
        refine ⟨hdead n hn, ?_⟩
        split
        next => exact gone_maybeUpdateEntryPoint (htrimmed.names n hn)
        next => exact htrimmed.names n hn
      · rw [List.mem_toFinset] at hn
        split
        next => exact stays_maybeUpdateEntryPoint (htrimmed.stays n hn)
        next => exact htrimmed.stays n hn
      · intro n node hnode
        obtain ⟨node', hnode', hkeeps⟩ := htrimmed.live n node hnode
        refine ⟨node', ?_, hkeeps⟩
        split
        next => rw [getNode_maybeUpdateEntryPoint, hnode']
        next => exact hnode'
  · refine iff_of_false ?_ fun hboth => hsweep hboth.1
    rintro ⟨h', heq, _⟩
    rw [performCleanup_eq, cleanupLoop_of_not_passable hnodup hzero
      (fun hpass => hsweep ((passable_range_iff hbatch).mp hpass))] at heq
    cases heq

end Index

/-- In every state of a run in which the internal ids do not run out, a cleanup of a batch is safe
and exact in the states that are sweepable with an entry point that can be kept or replaced. -/
theorem cleanup_of_run (setting : Setting) {inputs : List Input}
    (hmeets : Run.Meets setting.serve (During Admissible) (some setting.start) inputs)
    {site : Site} (hsite : Run.run setting.serve (some setting.start) inputs = some site)
    {batchSize : Int} (hbatch : 1 ≤ batchSize) :
    (∃ h', (site.index.performCleanup batchSize).outcome = .ok h' ∧
        Index.Cleaned batchSize site.index h') ↔
      Index.Sweepable batchSize site.index ∧ Index.EntryRepairable site.index :=
  Index.cleaned_iff ((kept_coherent setting).run hmeets hsite).index.coherent hbatch

/-- A full node table whose last node is deleted. -/
def fullTable : List Input :=
  [call (.add (nameOf 'a') one), call (.add (nameOf 'b') two), call (.add (nameOf 'c') three),
    call (.delete (nameOf 'c'))]

theorem cleanup_of_run_fullTable :
    Run.Meets lineSetting.serve (During Admissible) (some lineSetting.start) fullTable ∧
      ∃ site, Run.run lineSetting.serve (some lineSetting.start) fullTable = some site ∧
        ∃ h', (site.index.performCleanup 1).outcome = .ok h' ∧ Index.Cleaned 1 site.index h' := by
  have hmeets : Run.Meets lineSetting.serve (During Admissible) (some lineSetting.start)
      fullTable := by decide +kernel
  have hany : (Run.run lineSetting.serve (some lineSetting.start) fullTable).any
      (fun site => decide (Index.Sweepable 1 site.index) &&
        (site.index.getNode site.index.entry).isSome) = true := by decide +kernel
  obtain ⟨site, hsite, hboth⟩ := (Option.any_eq_true _ _).mp hany
  obtain ⟨hsweep, hentry⟩ := Bool.and_eq_true_iff.mp hboth
  exact ⟨hmeets, site, hsite, (cleanup_of_run lineSetting hmeets hsite le_rfl).mpr
    ⟨of_decide_eq_true hsweep, Or.inl hentry⟩⟩

/-- After two insertions the table has an empty slot, and the next cleanup reads through it. -/
theorem cleanup_meets_empty_slot :
    ∃ site, Run.run lineSetting.serve (some lineSetting.start)
        [call (.add (nameOf 'a') one), call (.add (nameOf 'b') two)] = some site ∧
      lineSetting.fault site (call (.cleanup 1)) = some .nilDereference ∧
      ¬ ∃ h', (site.index.performCleanup 1).outcome = .ok h' ∧ Index.Cleaned 1 site.index h' := by
  have hany : (Run.run lineSetting.serve (some lineSetting.start)
      [call (.add (nameOf 'a') one), call (.add (nameOf 'b') two)]).any
        (fun site => decide (lineSetting.fault site (call (.cleanup 1)) = some .nilDereference)) =
          true := by decide +kernel
  obtain ⟨site, hsite, hfault⟩ := (Option.any_eq_true _ _).mp hany
  have hfault := of_decide_eq_true hfault
  refine ⟨site, hsite, hfault, ?_⟩
  rintro ⟨h', houtcome, _⟩
  have hnone : lineSetting.fault site (call (.cleanup 1)) = none := by
    have hread : lineSetting.fault site (call (.cleanup 1)) =
        (site.index.performCleanup 1).fault? := rfl
    rw [hread, Traced.fault?, houtcome]
  rw [hnone] at hfault
  cases hfault

end Vectron.Hnsw
