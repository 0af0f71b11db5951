import Vectron.Foundation.Greedy
import Vectron.Foundation.Text
import Vectron.Placement.Selection

/-! # Replicas across failure domains

The passes of `selectReplicasWithFailureDomain` go by strings that are put together from names.
They take the workers with a new string for the zone, with a new one for the rack, and then any.
How the replicas are spread out depends on what the strings merge.
-/

namespace Vectron.Placement

open Foundation

/-- The zone of a worker, with its region. -/
def zoneDomain (worker : WorkerInfo) : String × String := (worker.region, worker.zone)

/-- The rack of a worker, with its region and zone. -/
def rackDomain (worker : WorkerInfo) : String × String × String :=
  (worker.region, worker.zone, worker.rack)

section Spread

variable (workers : GoMap UInt64 WorkerInfo)

/-- The domain of a registered worker. -/
def domainOf {D : Type} (domain : WorkerInfo → D) (id : UInt64) : Option D :=
  (workers.lookup id).map domain

/-- Zones first, then racks: the replicas cover as many zones as they can, and two of them share
a rack only when no rack of a worker that is left is free. -/
structure SpreadOut (replicationFactor : Nat) (sortedWorkerIds replicas : List UInt64) : Prop where
  nodup : replicas.Nodup
  subset : ∀ id ∈ replicas, id ∈ sortedWorkerIds
  length : replicas.length = min replicationFactor sortedWorkerIds.length
  zones : keyCount (domainOf workers zoneDomain) replicas =
    min replicationFactor (keyCount (domainOf workers zoneDomain) sortedWorkerIds)
  racks : ∀ first ∈ replicas, ∀ second ∈ replicas, first ≠ second →
    domainOf workers rackDomain first = domainOf workers rackDomain second →
    keyCount (domainOf workers rackDomain) replicas < replicationFactor →
    ∀ left ∈ sortedWorkerIds, left ∉ replicas →
      domainOf workers rackDomain left ∈ replicas.map (domainOf workers rackDomain)

/-- Listed workers that `first` gives the same name, `second` does too. -/
def TellsApart {C D : Type} (first : WorkerInfo → C) (second : WorkerInfo → D)
    (sortedWorkerIds : List UInt64) : Prop :=
  ∀ id ∈ sortedWorkerIds, ∀ other ∈ sortedWorkerIds,
    domainOf workers first id = domainOf workers first other →
      domainOf workers second id = domainOf workers second other

/-- Going by the strings does no harm: the first pass fills up, or all workers are taken, or the
second pass fills up, with zones that their strings tell apart or that have one rack each, or it
does not, and the strings tell the racks apart. -/
def StringsSuffice (replicationFactor : Nat) (sortedWorkerIds : List UInt64) : Prop :=
  replicationFactor ≤ keyCount (domainOf workers zoneKey) sortedWorkerIds ∨
    sortedWorkerIds.length ≤ replicationFactor ∨
    (replicationFactor ≤ keyCount (domainOf workers rackKey) sortedWorkerIds ∧
      (TellsApart workers zoneKey zoneDomain sortedWorkerIds ∨
        TellsApart workers zoneDomain rackDomain sortedWorkerIds)) ∨
    keyCount (domainOf workers rackKey) sortedWorkerIds < replicationFactor ∧
      TellsApart workers rackKey rackDomain sortedWorkerIds

/-- The strings in use are those of the selected workers. -/
def Notes (key : WorkerInfo → String) (used : List String) (selected : List UInt64) : Prop :=
  ∀ text, text ∈ used ↔ some text ∈ selected.map (domainOf workers key)

variable {workers} {key : WorkerInfo → String} {used : List String}
  {sortedWorkerIds selected : List UInt64} {id other : UInt64} {worker : WorkerInfo}
  {replicationFactor : Nat}

theorem domainOf_of_lookup {D : Type} (domain : WorkerInfo → D)
    (hworker : workers.lookup id = some worker) :
    domainOf workers domain id = some (domain worker) := by
  rw [domainOf, hworker, Option.map_some]

theorem domainOf_eq {C D : Type} {first : WorkerInfo → C} {second : WorkerInfo → D}
    (through : C → D) (hthrough : through ∘ first = second)
    (hsame : domainOf workers first id = domainOf workers first other) :
    domainOf workers second id = domainOf workers second other := by
  have hmap := congrArg (Option.map through) hsame
  rwa [domainOf, domainOf, Option.map_map, Option.map_map, hthrough] at hmap

theorem Notes.append (hnotes : Notes workers key used selected)
    (hworker : workers.lookup id = some worker) :
    Notes workers key (key worker :: used) (selected ++ [id]) := by
  intro text
  rw [List.mem_cons, hnotes, List.map_append, List.mem_append, List.map_singleton,
    List.mem_singleton, domainOf_of_lookup key hworker, Option.some.injEq, or_comm]

/-! ## The passes -/

/-- A selection of workers and the strings of their racks. -/
structure Selection.Tracks (workers : GoMap UInt64 WorkerInfo) (selection : Selection)
    (taken : List UInt64) : Prop where
  selected : selection.selected = taken
  racks : Notes workers rackKey selection.usedRacks taken

theorem zonePass_tracks (hregistered : ∀ id ∈ sortedWorkerIds, (workers.lookup id).isSome)
    {selection : Selection} {taken : List UInt64} (hid : id ∈ sortedWorkerIds)
    (htracks : selection.Tracks workers taken)
    (hnotes : Notes workers zoneKey selection.usedZones taken) :
    (zonePass workers replicationFactor selection id).Tracks workers
        (takeNew (domainOf workers zoneKey) replicationFactor taken id) ∧
      Notes workers zoneKey (zonePass workers replicationFactor selection id).usedZones
        (takeNew (domainOf workers zoneKey) replicationFactor taken id) := by
  obtain ⟨worker, hworker⟩ := Option.isSome_iff_exists.mp (hregistered id hid)
  unfold zonePass takeNew
  rw [htracks.selected, hworker, domainOf_of_lookup zoneKey hworker]
  split
  · exact ⟨htracks, hnotes⟩
  · dsimp only
    by_cases hused : zoneKey worker ∈ selection.usedZones
    · rw [if_pos hused, if_pos ((hnotes _).mp hused)]
      exact ⟨htracks, hnotes⟩
    · rw [if_neg hused, if_neg (mt (hnotes _).mpr hused)]
      exact ⟨⟨rfl, htracks.racks.append hworker⟩, hnotes.append hworker⟩

theorem rackPass_tracks (id : UInt64) (replicationFactor : Nat)
    (hregistered : ∀ id ∈ sortedWorkerIds, (workers.lookup id).isSome) {selection : Selection}
    {taken : List UInt64} (hid : id ∈ sortedWorkerIds) (htracks : selection.Tracks workers taken) :
    (rackPass workers replicationFactor selection id).Tracks workers
      (takeNew (domainOf workers rackKey) replicationFactor taken id) := by
  obtain ⟨worker, hworker⟩ := Option.isSome_iff_exists.mp (hregistered id hid)
  have hrack := domainOf_of_lookup rackKey hworker
  unfold rackPass takeNew
  rw [htracks.selected, hworker]
  split
  · exact htracks
  · by_cases hselected : id ∈ taken
    · rw [if_pos hselected, if_pos (List.mem_map_of_mem hselected)]
      exact htracks
    · rw [if_neg hselected, hrack]
      dsimp only
      by_cases hused : rackKey worker ∈ selection.usedRacks
      · rw [if_pos hused, if_pos ((htracks.racks _).mp hused)]
        exact htracks
      · rw [if_neg hused, if_neg (mt (htracks.racks _).mpr hused)]
        exact ⟨rfl, htracks.racks.append hworker⟩

theorem fillPass_selected (selection : Selection) (workerId : UInt64) :
    (fillPass replicationFactor selection workerId).selected =
      takeNew (fun other => other) replicationFactor selection.selected workerId := by
  unfold fillPass takeNew
  rw [List.map_id']
  split
  · rfl
  · split <;> rfl

/-! ## The selected replicas -/

/-- The passes one after the other, over one list of workers. -/
theorem selectReplicas_takes (hregistered : ∀ id ∈ sortedWorkerIds, (workers.lookup id).isSome)
    (hmany : 1 < replicationFactor) :
    ∃ zones racks,
      Takes (domainOf workers zoneKey) replicationFactor [] sortedWorkerIds zones ∧
      Takes (domainOf workers rackKey) replicationFactor zones sortedWorkerIds racks ∧
      Takes (fun id => id) replicationFactor racks sortedWorkerIds
        (selectReplicasWithFailureDomain workers replicationFactor sortedWorkerIds) := by
  have hfirst : (sortedWorkerIds.foldl (zonePass workers replicationFactor) {}).Tracks workers
      (sortedWorkerIds.foldl (takeNew (domainOf workers zoneKey) replicationFactor) []) := by
    refine (List.foldl_rel (r := fun (selection : Selection) taken =>
      selection.Tracks workers taken ∧ Notes workers zoneKey selection.usedZones taken) ?_ ?_).1
    · exact ⟨⟨rfl, fun text => by simp⟩, fun text => by simp⟩
    · intro id hid selection taken htracks
      exact zonePass_tracks hregistered hid htracks.1 htracks.2
  have hsecond := List.foldl_rel (l := sortedWorkerIds)
    (r := fun (selection : Selection) taken => selection.Tracks workers taken) hfirst
    fun id hid _ _ htracks => rackPass_tracks id replicationFactor hregistered hid htracks
  have hthird := List.foldl_rel (l := sortedWorkerIds)
    (f := fillPass replicationFactor) (g := takeNew (fun other => other) replicationFactor)
    (r := fun (selection : Selection) taken => selection.selected = taken) hsecond.selected
    fun _ _ _ _ hselected => by rw [fillPass_selected, hselected]
  refine ⟨_, _, foldl_takeNew_takes _ _, foldl_takeNew_takes _ _, ?_⟩
  unfold selectReplicasWithFailureDomain
  rw [if_neg (Nat.not_le.mpr hmany)]
  dsimp only
  rw [hthird]
  exact foldl_takeNew_takes _ _

theorem zoneKey_of_zone (hzone : domainOf workers zoneDomain id = domainOf workers zoneDomain other) :
    domainOf workers zoneKey id = domainOf workers zoneKey other :=
  domainOf_eq (fun zone : String × String => zone.1 ++ "/" ++ zone.2) rfl hzone

theorem rackKey_of_rack (hrack : domainOf workers rackDomain id = domainOf workers rackDomain other) :
    domainOf workers rackKey id = domainOf workers rackKey other :=
  domainOf_eq (fun rack : String × String × String =>
    rack.1 ++ "/" ++ rack.2.1 ++ "/" ++ rack.2.2) (by funext; simp [rackKey, rackDomain]) hrack

theorem zone_of_rack (hrack : domainOf workers rackDomain id = domainOf workers rackDomain other) :
    domainOf workers zoneDomain id = domainOf workers zoneDomain other :=
  domainOf_eq (fun rack : String × String × String => (rack.1, rack.2.1)) rfl hrack

/-- The replicas are spread out if they are all different, or if no domain is left out. -/
theorem SpreadOut.of_distinct_or_all {replicas : List UInt64} (hnodup : replicas.Nodup)
    (hsubset : ∀ id ∈ replicas, id ∈ sortedWorkerIds)
    (hlength : replicas.length = min replicationFactor sortedWorkerIds.length)
    (hzones : replicationFactor ≤ replicas.length ∧
        (replicas.map (domainOf workers zoneDomain)).Nodup ∨
      ∀ id ∈ sortedWorkerIds,
        domainOf workers zoneDomain id ∈ replicas.map (domainOf workers zoneDomain))
    (hracks : (replicas.map (domainOf workers rackDomain)).Nodup ∨
      ∀ id ∈ sortedWorkerIds,
        domainOf workers rackDomain id ∈ replicas.map (domainOf workers rackDomain)) :
    SpreadOut workers replicationFactor sortedWorkerIds replicas := by
  refine ⟨hnodup, hsubset, hlength, ?_, ?_⟩
  · have hless : keyCount (domainOf workers zoneDomain) replicas ≤
        keyCount (domainOf workers zoneDomain) sortedWorkerIds :=
      keyCount_le_of_subset fun id hid => List.mem_map_of_mem (hsubset id hid)
    rcases hzones with ⟨hfull, hdistinct⟩ | hall
    · rw [keyCount_eq_length hdistinct] at hless ⊢
      omega
    · have hmore := keyCount_le_of_subset hall
      have hbound : keyCount (domainOf workers zoneDomain) replicas ≤ replicas.length :=
        keyCount_le_length replicas
      omega
  · intro first hfirst second hsecond hne hsame _ left hleft _
    rcases hracks with hdistinct | hall
    · exact absurd (List.inj_on_of_nodup_map hdistinct hfirst hsecond hsame) hne
    · exact hall left hleft

theorem spreadOut_of_suffice (hnodup : sortedWorkerIds.Nodup)
    (hregistered : ∀ id ∈ sortedWorkerIds, (workers.lookup id).isSome)
    (hmany : 1 < replicationFactor)
    (hsuffice : StringsSuffice workers replicationFactor sortedWorkerIds) :
    SpreadOut workers replicationFactor sortedWorkerIds
      (selectReplicasWithFailureDomain workers replicationFactor sortedWorkerIds) := by
  obtain ⟨zones, racks, hzones, hracks, hfill⟩ := selectReplicas_takes hregistered hmany
  obtain ⟨hreplicas, hsubset, hle⟩ := @selectReplicasWithFailureDomain_sound workers
    replicationFactor sortedWorkerIds (by omega) hnodup
  generalize selectReplicasWithFailureDomain workers replicationFactor sortedWorkerIds = replicas at *
  have hzoneNodup := hzones.nodup (domainOf workers zoneDomain)
    (fun _ _ _ _ => zoneKey_of_zone) List.nodup_nil
  have hrackNodup := hracks.nodup (domainOf workers rackDomain) (fun _ _ _ _ => rackKey_of_rack)
    ((hzoneNodup.of_map _).map_on fun _ hfirst _ hother hrack =>
      List.inj_on_of_nodup_map hzoneNodup hfirst hother (zone_of_rack hrack))
  have hzonesLe := hzones.length_le (Nat.zero_le _)
  have hlisted : ∀ id ∈ racks, id ∈ sortedWorkerIds := fun id hid =>
    (hracks.subset id hid).elim
      (fun hid => (hzones.subset id hid).resolve_left List.not_mem_nil) fun hid => hid
  have hshort := (hreplicas.subperm hsubset).length_le
  have hlength : replicas.length = min replicationFactor sortedWorkerIds.length := by
    rcases hfill.full_or_covers with hfull | hcovers
    · omega
    · have hall := (hnodup.subperm fun id hid => by simpa using hcovers id hid).length_le
      omega
  have hrest : replicationFactor ≤ racks.length → racks = replicas := fun hfull =>
    hfill.front.eq_of_length_le (by omega)
  rcases hsuffice with henough | hfew | ⟨henough, happart⟩ | ⟨hfew, happart⟩
  · -- the first pass fills up
    have hfull := hzones.full_of_le henough
    have hsame := hracks.front.eq_of_length_le (by have := hracks.length_le hzonesLe; omega)
    obtain rfl := hrest (by rw [← hsame]; exact hfull)
    exact .of_distinct_or_all hreplicas hsubset hlength
      (.inl ⟨by rw [← hsame]; exact hfull, hsame ▸ hzoneNodup⟩) (.inl hrackNodup)
  · have hperm := (hreplicas.subperm hsubset).perm_of_length_le (by omega)
    exact .of_distinct_or_all hreplicas hsubset hlength
      (.inr fun id hid => List.mem_map_of_mem (hperm.mem_iff.mpr hid))
      (.inr fun id hid => List.mem_map_of_mem (hperm.mem_iff.mpr hid))
  · have hfull := hracks.full_of_le henough
    obtain rfl := hrest hfull
    refine .of_distinct_or_all hreplicas hsubset hlength ?_ (.inl hrackNodup)
    rcases happart with hzoneNames | hracksOfZones
    · rcases hzones.full_or_covers with hfirst | hcovers
      · obtain rfl := hracks.front.eq_of_length_le (by omega)
        exact .inl ⟨hfull, hzoneNodup⟩
      · refine .inr fun id hid => ?_
        obtain ⟨other, hother, hkey⟩ := List.mem_map.mp (hcovers id hid)
        have hmem := hracks.front.subset hother
        exact List.mem_map.mpr ⟨other, hmem, hzoneNames other (hlisted other hmem) id hid hkey⟩
    · refine .inl ⟨hfull, hracks.nodup _ (fun id hid other hother hzone => ?_) hzoneNodup⟩
      exact rackKey_of_rack (hracksOfZones id (hlisted id hid) other (hlisted other hother) hzone)
  · -- a full second pass would have more strings of racks than there are
    rcases hracks.full_or_covers with hfull | hcovers
    · have hstrings : (racks.map (domainOf workers rackKey)).Nodup :=
        (hrackNodup.of_map _).map_on fun id hid other hother hkey =>
          List.inj_on_of_nodup_map hrackNodup hid hother
            (happart id (hlisted id hid) other (hlisted other hother) hkey)
      have hcount : keyCount (domainOf workers rackKey) racks ≤
          keyCount (domainOf workers rackKey) sortedWorkerIds :=
        keyCount_le_of_subset fun id hid => List.mem_map_of_mem (hlisted id hid)
      rw [keyCount_eq_length hstrings] at hcount
      omega
    · have hall : ∀ id ∈ sortedWorkerIds, ∃ other ∈ replicas,
          domainOf workers rackDomain other = domainOf workers rackDomain id := by
        intro id hid
        obtain ⟨other, hother, hkey⟩ := List.mem_map.mp (hcovers id hid)
        exact ⟨other, hfill.front.subset hother,
          happart other (hlisted other hother) id hid hkey⟩
      refine .of_distinct_or_all hreplicas hsubset hlength (.inr fun id hid => ?_)
        (.inr fun id hid => List.mem_map.mpr (hall id hid))
      obtain ⟨other, hother, hrack⟩ := hall id hid
      exact List.mem_map.mpr ⟨other, hother, zone_of_rack hrack⟩

theorem spreadOut_nil :
    SpreadOut workers replicationFactor []
      (selectReplicasWithFailureDomain workers replicationFactor []) := by
  have hselected : selectReplicasWithFailureDomain workers replicationFactor [] = [] := by
    unfold selectReplicasWithFailureDomain
    split <;> rfl
  rw [hselected]
  exact .of_distinct_or_all List.nodup_nil (by simp) (by simp) (.inr (by simp)) (.inr (by simp))

theorem spreadOut_single (hlist : sortedWorkerIds ≠ []) :
    SpreadOut workers 1 sortedWorkerIds
      (selectReplicasWithFailureDomain workers 1 sortedWorkerIds) := by
  obtain ⟨id, rest, rfl⟩ := List.exists_cons_of_ne_nil hlist
  have hselected : selectReplicasWithFailureDomain workers 1 (id :: rest) = [id] := rfl
  rw [hselected]
  exact .of_distinct_or_all (by simp) (by simp) (by simp) (.inl (by simp)) (.inl (by simp))

theorem append_slash_inj {front front' rest rest' : String} (hfront : '/' ∉ front.toList)
    (hfront' : '/' ∉ front'.toList) (h : front ++ "/" ++ rest = front' ++ "/" ++ rest') :
    front = front' ∧ rest = rest' := by
  have hchars := congrArg String.toList h
  simp only [String.toList_append, List.append_assoc] at hchars
  change front.toList ++ '/' :: rest.toList = front'.toList ++ '/' :: rest'.toList at hchars
  obtain ⟨hfronts, hrests⟩ := append_separator_inj hfront hfront' hchars
  exact ⟨String.toList_inj.mp hfronts, String.toList_inj.mp hrests⟩

theorem tellsApart_of {D : Type} {domain : WorkerInfo → D}
    (h : ∀ id ∈ sortedWorkerIds, ∀ other ∈ sortedWorkerIds, ∀ worker worker',
      workers.lookup id = some worker → workers.lookup other = some worker' →
        key worker = key worker' → domain worker = domain worker') :
    TellsApart workers key domain sortedWorkerIds := by
  intro id hid other hother hsame
  unfold domainOf at hsame ⊢
  rcases hworker : workers.lookup id with _ | worker
  · rw [hworker, Option.map_none, eq_comm, Option.map_eq_none_iff] at hsame
    rw [hsame]
  · rw [hworker, Option.map_some, eq_comm, Option.map_eq_some_iff] at hsame
    obtain ⟨worker', hworker', hkey⟩ := hsame
    rw [hworker', Option.map_some, Option.map_some,
      h id hid other hother worker worker' hworker hworker' hkey.symm]

/-- Regions and zones without the separator are told apart. -/
theorem tellsApart_of_no_slash (hnames : ∀ id ∈ sortedWorkerIds, ∀ worker,
      workers.lookup id = some worker → '/' ∉ worker.region.toList ∧ '/' ∉ worker.zone.toList) :
    TellsApart workers zoneKey zoneDomain sortedWorkerIds ∧
      TellsApart workers rackKey rackDomain sortedWorkerIds := by
  constructor
  · refine tellsApart_of fun id hid other hother worker worker' hworker hworker' hkey => ?_
    obtain ⟨hregion, hzone⟩ := append_slash_inj (hnames id hid worker hworker).1
      (hnames other hother worker' hworker').1 hkey
    rw [zoneDomain, zoneDomain, hregion, hzone]
  · refine tellsApart_of fun id hid other hother worker worker' hworker hworker' hkey => ?_
    obtain ⟨hregionFree, hzoneFree⟩ := hnames id hid worker hworker
    obtain ⟨hregionFree', hzoneFree'⟩ := hnames other hother worker' hworker'
    have hassoc : ∀ worker : WorkerInfo, rackKey worker =
        worker.region ++ "/" ++ (worker.zone ++ "/" ++ worker.rack) := by
      intro worker
      simp only [rackKey, String.append_assoc]
    rw [hassoc, hassoc] at hkey
    obtain ⟨hregion, hrest⟩ := append_slash_inj hregionFree hregionFree' hkey
    obtain ⟨hzone, hrack⟩ := append_slash_inj hzoneFree hzoneFree' hrest
    rw [rackDomain, rackDomain, hregion, hzone, hrack]

/-! ## Examples -/

def WorkerInfo.placed (region zone rack : String) : WorkerInfo where
  id := 0
  grpcAddress := ""
  raftAddress := ""
  lastHeartbeat := 0
  state := .ready
  role := ""
  cpuCores := 4
  totalMemory := 0
  totalDisk := 0
  totalCapacity := 0
  rack := rack
  zone := zone
  region := region

/-- Two zones, the first with two racks. -/
def plainNames : GoMap UInt64 WorkerInfo :=
  (((((∅ : GoMap UInt64 WorkerInfo).insert 1 (.placed "eu" "a" "r1")).insert 2
    (.placed "eu" "a" "r2")).insert 3 (.placed "eu" "b" "r1")).insert 4 (.placed "eu" "b" "r1"))

theorem plainNames_registered : ∀ id ∈ [1, 2, 3, 4], (plainNames.lookup id).isSome := by
  intro id hid
  simp only [List.mem_cons, List.not_mem_nil, or_false] at hid
  rcases hid with rfl | rfl | rfl | rfl <;> rfl

/-- Three of the four workers are taken, by three strings for racks. -/
theorem plainNames_suffice : StringsSuffice plainNames 3 [1, 2, 3, 4] := by
  have hfirst : plainNames.lookup 1 = some (.placed "eu" "a" "r1") := rfl
  have hsecond : plainNames.lookup 2 = some (.placed "eu" "a" "r2") := rfl
  have hthird : plainNames.lookup 3 = some (.placed "eu" "b" "r1") := rfl
  have hfourth : plainNames.lookup 4 = some (.placed "eu" "b" "r1") := rfl
  refine .inr (.inr (.inl ⟨?_, .inl (tellsApart_of_no_slash ?_).1⟩))
  · simp [keyCount, domainOf, hfirst, hsecond, hthird, hfourth, rackKey, WorkerInfo.placed]
  · intro id hid worker hworker
    simp only [List.mem_cons, List.not_mem_nil, or_false] at hid
    rcases hid with rfl | rfl | rfl | rfl <;>
      obtain rfl := Option.some.inj (hworker : some _ = some worker) <;> simp [WorkerInfo.placed]

/-- Zone "c" of region "a/b" and zone "b/c" of region "a". -/
def slashedNames : GoMap UInt64 WorkerInfo :=
  ((((∅ : GoMap UInt64 WorkerInfo).insert 1 (.placed "a/b" "c" "r1")).insert 2
    (.placed "a/b" "c" "r2")).insert 3 (.placed "a" "b/c" "r3"))

end Spread

end Vectron.Placement
