import Vectron.Hnsw.Lifetime

/-! # Insertions that are refused

`Add` writes before it looks at the vector: the node that is overwritten loses its vector, and
the new id is assigned. An insertion that is refused afterwards returns an error, and none of
this is taken back.
-/

namespace Vectron.Hnsw

open Foundation
open Worker (Vector)

namespace Index

variable {p : Platform} {h h' : Index} {env : Env}

/-- `Item`. -/
def item (p : Platform) (h : Index) (id : Bytes) : Option Vector :=
  ((h.idToUint32.lookup id).bind h.getNodeFast).bind (nodeVector p)

/-- What an operation that fails should not have changed. -/
structure Untouched (p : Platform) (h h' : Index) : Prop where
  idToUint32 : h'.idToUint32 = h.idToUint32
  uint32ToID : h'.uint32ToID = h.uint32ToID
  extIDCache : h'.extIDCache = h.extIDCache
  nodes : h'.nodes = h.nodes
  nodeCount : h'.nodeCount = h.nodeCount
  deletedCount : h'.deletedCount = h.deletedCount
  nextID : h'.nextID = h.nextID
  entry : h'.entry = h.entry
  maxLayer : h'.maxLayer = h.maxLayer
  item : ∀ id, h'.item p id = h.item p id

/-- The node store refuses the deleted marker of the node that an insertion overwrites. -/
def MarkerRefused (env : Env) (h : Index) (id : Bytes) : Prop :=
  ∃ n node, h.idToUint32.lookup id = some n ∧ h.getNode n = some node ∧
    h.persistNode env node.id = false

/-- The vector has another dimension, or the node store refuses the new node. -/
def NodeRefused (env : Env) (h : Index) (vec : Vector) : Prop :=
  vec.length ≠ h.dim ∨ 0 ≤ h.config.m ∧ h.persistNode env h.nextID = false

/-! ## What is written before the refusal -/

theorem deleteNoLock_snd (env : Env) (h : Index) (id : Bytes) :
    (h.deleteNoLock env id).2 = false ↔ MarkerRefused env h id := by
  rcases @deleteNoLock_cases h env id with ⟨hsame, hdead⟩ | ⟨n, node, hlookup, hnode, hafter⟩
  · rw [hsame]
    refine iff_of_false (by simp) ?_
    rintro ⟨n, node, hlookup, hnode, _⟩
    exact hdead ⟨n, node, hlookup, hnode⟩
  · rw [hafter]
    constructor
    · intro hrefused
      exact ⟨n, node, hlookup, hnode, hrefused⟩
    · rintro ⟨n', node', hlookup', hnode', hrefused⟩
      obtain rfl := Option.some.inj (hlookup.symm.trans hlookup')
      obtain rfl := Option.some.inj (hnode.symm.trans hnode')
      exact hrefused

/-- An insertion stops at the deleted marker, or is one into the index without the old node. -/
theorem add_eq (p : Platform) (env : Env) (h : Index) (id : Bytes) (vec : Vector) :
    h.add p env id vec =
      if (h.deleteNoLock env id).2 = false then
        pure ((h.deleteNoLock env id).1, some .store)
      else addNoLock p env (h.evicted env id) id vec := by
  unfold add evicted
  cases hlookup : h.idToUint32.lookup id with
  | none =>
      have hok : h.deleteNoLock env id = (h, true) := by
        unfold deleteNoLock
        rw [hlookup]
      simp only [hok, Bool.true_eq_false, if_false]
  | some n =>
      cases hok : (h.deleteNoLock env id).2 with
      | true => simp [hok]
      | false => simp [hok]

/-- The last step of an insertion does not fail. -/
theorem linkNode_error {node entry : Node} {searchVec : Vector} {result : Index × Option AddError}
    (hlinked : (h.linkNode p node entry searchVec >>= fun linked =>
      (pure (linked, none) : Probe (Index × Option AddError))).outcome = .ok result) :
    result.2 = none := by
  have hany : Traced.Keeps (fun _ => True) (fun _ => True) (fun _ => True)
      (h.linkNode p node entry searchVec) :=
    ⟨fun _ _ => trivial, fun _ _ => trivial, fun _ _ => trivial⟩
  have hkeeps : Traced.Keeps (fun _ => True) (fun _ => True)
      (fun result : Index × Option AddError => result.2 = none)
      (h.linkNode p node entry searchVec >>= fun linked => pure (linked, none)) :=
    hany.bind fun _ _ => Traced.Keeps.pure rfl
  exact hkeeps.value result hlinked

/-- A node that is refused leaves its id assigned. -/
theorem addNoLock_of_refused (p : Platform) (id : Bytes) {vec : Vector}
    (hrefused : NodeRefused env h vec) :
    ∃ err, (addNoLock p env h id vec).outcome = .ok (h.assign id, some err) := by
  have hdim : (h.assign id).dim = h.dim := rfl
  have hm : (h.assign id).config.m = h.config.m := rfl
  have hpersist : (h.assign id).persistNode env h.nextID = h.persistNode env h.nextID := rfl
  unfold addNoLock
  simp only [hdim, hm, hpersist]
  by_cases hlength : vec.length ≠ h.dim
  · rw [if_pos hlength]
    exact ⟨_, rfl⟩
  · obtain ⟨hpos, hput⟩ := hrefused.resolve_left hlength
    rw [if_neg hlength, if_neg (not_lt.mpr hpos), hput]
    exact ⟨_, rfl⟩

/-- An insertion fails for no other reason. -/
theorem nodeRefused_of_error {id : Bytes} {vec : Vector} {err : AddError}
    (herror : (addNoLock p env h id vec).outcome = .ok (h', some err)) :
    NodeRefused env h vec ∧ h' = h.assign id := by
  have hdim : (h.assign id).dim = h.dim := rfl
  have hm : (h.assign id).config.m = h.config.m := rfl
  have hpersist : (h.assign id).persistNode env h.nextID = h.persistNode env h.nextID := rfl
  unfold addNoLock at herror
  simp only [hdim, hm, hpersist] at herror
  split at herror
  next hlength =>
    cases herror
    exact ⟨Or.inl hlength, rfl⟩
  next =>
    split at herror
    next => cases herror
    next hneg =>
      split at herror
      next hput =>
        cases herror
        exact ⟨Or.inr ⟨not_lt.mp hneg, by simpa using hput⟩, rfl⟩
      next =>
        split at herror
        next => cases herror
        next =>
          split at herror
          next => cases herror
          next => cases linkNode_error herror

/-- `Add` fails exactly if one of its writes to the node store or the vector is refused. -/
def Refused (env : Env) (h : Index) (id : Bytes) (vec : Vector) : Prop :=
  MarkerRefused env h id ∨ NodeRefused env h vec

theorem nodeRefused_evicted {id : Bytes} {vec : Vector} :
    NodeRefused env (h.evicted env id) vec ↔ NodeRefused env h vec := by
  obtain ⟨hnext, _, _, hconfig, hdim⟩ := @evicted_fields h env id
  simp only [NodeRefused, persistNode, hnext, hconfig, hdim]

/-- The index that an insertion leaves behind when it fails. -/
theorem add_error_cases {id : Bytes} {vec : Vector} {err : AddError}
    (herror : (h.add p env id vec).outcome = .ok (h', some err)) :
    MarkerRefused env h id ∧ h' = (h.deleteNoLock env id).1 ∨
      NodeRefused env h vec ∧ h' = (h.evicted env id).assign id := by
  rw [add_eq] at herror
  split at herror
  next hmarker =>
    cases herror
    exact Or.inl ⟨(deleteNoLock_snd env h id).mp hmarker, rfl⟩
  next =>
    obtain ⟨hrefused, hafter⟩ := nodeRefused_of_error herror
    exact Or.inr ⟨nodeRefused_evicted.mp hrefused, hafter⟩

theorem MarkerRefused.deletedCount {id : Bytes} (hmarker : MarkerRefused env h id) :
    (h.deleteNoLock env id).1.deletedCount = h.deletedCount + 1 := by
  obtain ⟨n, node, hlookup, hnode, _⟩ := hmarker
  rcases @deleteNoLock_cases h env id with ⟨_, hdead⟩ | ⟨n', node', _, _, hafter⟩
  · exact absurd ⟨n, node, hlookup, hnode⟩ hdead
  · rw [hafter]
    rfl

theorem nextID_assign_ne (id : Bytes) : (h.assign id).nextID ≠ h.nextID := by
  have hnext : (h.assign id).nextID = (h.nextID + 1) % 2 ^ 32 := rfl
  omega

/-- `Add` returns an error exactly if it is refused, and no error leaves the index as it was. -/
theorem failed_add_untouched_iff (p : Platform) (env : Env) (h : Index) (id : Bytes)
    (vec : Vector) :
    (∀ h' err, (h.add p env id vec).outcome = .ok (h', some err) → Untouched p h h') ↔
      ¬ Refused env h id vec := by
  constructor
  · intro huntouched hrefused
    by_cases hmarker : MarkerRefused env h id
    · have hadd : (h.add p env id vec).outcome =
          .ok ((h.deleteNoLock env id).1, some .store) := by
        rw [add_eq, if_pos ((deleteNoLock_snd env h id).mpr hmarker)]
        rfl
      have hcount := (huntouched _ _ hadd).deletedCount
      rw [hmarker.deletedCount] at hcount
      omega
    · have hnode := (@nodeRefused_evicted h env id vec).mpr (hrefused.resolve_left hmarker)
      obtain ⟨err, hnolock⟩ := addNoLock_of_refused p id hnode
      have hadd : (h.add p env id vec).outcome =
          .ok ((h.evicted env id).assign id, some err) := by
        rw [add_eq, if_neg (fun hok => hmarker ((deleteNoLock_snd env h id).mp hok))]
        exact hnolock
      have hnext := (huntouched _ _ hadd).nextID
      rw [← (@evicted_fields h env id).1] at hnext
      exact nextID_assign_ne id hnext
  · intro haccepted h' err herror
    rcases add_error_cases herror with ⟨hmarker, _⟩ | ⟨hnode, _⟩
    · exact absurd (Or.inl hmarker) haccepted
    · exact absurd (Or.inr hnode) haccepted

/-! ## What is lost -/

theorem Tables.unique (htables : Tables h) {id other : Bytes} {n : Nat}
    (hother : h.idToUint32.lookup other = some n) (hid : h.idToUint32.lookup id = some n) :
    other = id := by
  have hname := (htables.inverse other n).mp hother
  rw [(htables.inverse id n).mp hid] at hname
  exact (Option.some.inj hname).symm

end Index

/-- An id is stored again with a vector of the wrong length: the call fails, and the vector that
was stored before is gone. -/
theorem failed_add_loses_vector :
    ∃ site h', Run.run lineSetting.serve (some lineSetting.start)
        [call (.add (nameOf 'a') one)] = some site ∧
      (site.index.add lineSetting.platform (call .save).env (nameOf 'a') []).outcome =
        .ok (h', some .invalidDimension) ∧
      site.index.item lineSetting.platform (nameOf 'a') = some one ∧
      h'.item lineSetting.platform (nameOf 'a') = none ∧
      ¬ Index.Untouched lineSetting.platform site.index h' := by
  obtain ⟨site, hsite, hvalue⟩ : ∃ site, Run.run lineSetting.serve (some lineSetting.start)
      [call (.add (nameOf 'a') one)] = some site ∧
      decide (site.index.item lineSetting.platform (nameOf 'a') = some one ∧
        ((site.index.add lineSetting.platform (call .save).env (nameOf 'a') []).value?.map
          fun result => (result.2, result.1.item lineSetting.platform (nameOf 'a'))) =
            some (some .invalidDimension, none)) = true := by
    have hany : (Run.run lineSetting.serve (some lineSetting.start)
        [call (.add (nameOf 'a') one)]).any (fun site =>
          decide (site.index.item lineSetting.platform (nameOf 'a') = some one ∧
            ((site.index.add lineSetting.platform (call .save).env (nameOf 'a') []).value?.map
              fun result => (result.2, result.1.item lineSetting.platform (nameOf 'a'))) =
                some (some .invalidDimension, none))) = true := by
      decide +kernel
    exact (Option.any_eq_true _ _).mp hany
  obtain ⟨hbefore, hafter⟩ := of_decide_eq_true hvalue
  obtain ⟨⟨h', error⟩, houtcome, hpair⟩ := value?_map_eq_some hafter
  obtain ⟨rfl, hitem⟩ := Prod.mk.inj hpair
  refine ⟨site, h', hsite, houtcome, hbefore, hitem, fun huntouched => ?_⟩
  have hsame := huntouched.item (nameOf 'a')
  rw [hbefore, hitem] at hsame
  cases hsame

end Vectron.Hnsw
