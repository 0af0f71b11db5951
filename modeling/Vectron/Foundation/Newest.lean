import Mathlib
import Vectron.Foundation.GoMap

/-! # The newest entry of each key

A log of stamped entries is reduced to one entry for each key by reading it from front
to back and replacing the entry of a key only by one with a larger stamp. Where the
stamps of a key are distinct, the order of the log does not matter.
-/

namespace Foundation

/-- An entry of a log. -/
structure Stamped (K V : Type) where
  key : K
  stamp : Int
  value : V
  deriving Repr, DecidableEq

namespace Stamped

variable {K V : Type} [DecidableEq K]

/-- Take one entry into account. -/
def note (latest : GoMap K (Stamped K V)) (entry : Stamped K V) : GoMap K (Stamped K V) :=
  match latest.lookup entry.key with
  | none => latest.insert entry.key entry
  | some prev => if prev.stamp < entry.stamp then latest.insert entry.key entry else latest

/-- The entries that are left of a log. -/
def newest (entries : List (Stamped K V)) : GoMap K (Stamped K V) :=
  entries.foldl note ∅

/-- Every other entry of the key has a smaller stamp. -/
def IsNewest (entries : List (Stamped K V)) (entry : Stamped K V) : Prop :=
  entry ∈ entries ∧
    ∀ other ∈ entries, other.key = entry.key → other = entry ∨ other.stamp < entry.stamp

/-- No key has two entries with one stamp. -/
def Distinct (entries : List (Stamped K V)) : Prop :=
  ∀ first ∈ entries, ∀ second ∈ entries,
    first.key = second.key → first.stamp = second.stamp → first = second

section

variable {latest : GoMap K (Stamped K V)}

theorem lookup_note_of_ne {entry : Stamped K V} {key : K} (hne : entry.key ≠ key) :
    (note latest entry).lookup key = latest.lookup key := by
  rw [note]
  split
  next _ => rw [GoMap.lookup_insert_if, if_neg (Ne.symm hne)]
  next prev _ =>
    split
    next _ => rw [GoMap.lookup_insert_if, if_neg (Ne.symm hne)]
    next _ => rfl

theorem lookup_note_self {entry : Stamped K V}
    (hnewer : ∀ prev, latest.lookup entry.key = some prev → prev = entry ∨ prev.stamp < entry.stamp) :
    (note latest entry).lookup entry.key = some entry := by
  rw [note]
  split
  next _ => rw [GoMap.lookup_insert_if, if_pos rfl]
  next prev hprev =>
    split
    next _ => rw [GoMap.lookup_insert_if, if_pos rfl]
    next hle =>
      rcases hnewer prev hprev with rfl | hlt
      · exact hprev
      · exact absurd hlt hle

theorem lookup_note_older {entry prev : Stamped K V} (hprev : latest.lookup entry.key = some prev)
    (hle : entry.stamp ≤ prev.stamp) :
    note latest entry = latest := by
  rw [note]
  simp only [hprev, if_neg (not_lt.mpr hle)]

end

/-- What one entry can do to the entry of a key. -/
theorem lookup_note_cases (latest : GoMap K (Stamped K V)) (entry : Stamped K V) (key : K) :
    (note latest entry).lookup key = latest.lookup key ∨
      entry.key = key ∧ (note latest entry).lookup key = some entry := by
  by_cases hkey : entry.key = key
  · subst hkey
    cases hprev : latest.lookup entry.key with
    | none =>
        right
        exact ⟨rfl, lookup_note_self fun prev hsome => by rw [hprev] at hsome; cases hsome⟩
    | some prev =>
        rcases lt_or_ge prev.stamp entry.stamp with hlt | hle
        · right
          refine ⟨rfl, lookup_note_self ?_⟩
          intro other hother
          rw [hprev] at hother
          cases hother
          exact Or.inr hlt
        · left
          rw [lookup_note_older hprev hle, hprev]
  · exact Or.inl (lookup_note_of_ne hkey)

section

variable {entries : List (Stamped K V)}

/-- The newest entry of its key is the one that is left. -/
theorem lookup_foldl_note {entry : Stamped K V} {latest : GoMap K (Stamped K V)}
    (hseen : latest.lookup entry.key = some entry ∨ entry ∈ entries)
    (hlatest : ∀ prev, latest.lookup entry.key = some prev → prev = entry ∨ prev.stamp < entry.stamp)
    (hnewest : ∀ other ∈ entries, other.key = entry.key → other = entry ∨ other.stamp < entry.stamp) :
    (entries.foldl note latest).lookup entry.key = some entry := by
  induction entries generalizing latest with
  | nil =>
      rcases hseen with hseen | hmem
      · exact hseen
      · cases hmem
  | cons head entries ih =>
      rw [List.foldl_cons]
      have htail : ∀ other ∈ entries, other.key = entry.key →
          other = entry ∨ other.stamp < entry.stamp :=
        fun other hother => hnewest other (List.mem_cons_of_mem _ hother)
      apply ih _ _ htail
      · rcases hseen with hseen | hmem
        · by_cases hkey : head.key = entry.key
          · left
            rcases hnewest head List.mem_cons_self hkey with rfl | hlt
            · exact lookup_note_self hlatest
            · rw [lookup_note_older (by rw [hkey]; exact hseen) hlt.le]
              exact hseen
          · left
            rw [lookup_note_of_ne hkey]
            exact hseen
        · rcases List.mem_cons.mp hmem with rfl | hmem
          · exact Or.inl (lookup_note_self hlatest)
          · exact Or.inr hmem
      · intro prev hprev
        rcases lookup_note_cases latest head entry.key with hsame | ⟨hkey, hhead⟩
        · rw [hsame] at hprev
          exact hlatest prev hprev
        · rw [hhead] at hprev
          cases hprev
          exact hnewest head List.mem_cons_self hkey

theorem IsNewest.lookup_newest {entry : Stamped K V} (hnewest : IsNewest entries entry) :
    (newest entries).lookup entry.key = some entry := by
  refine lookup_foldl_note (Or.inr hnewest.1) ?_ hnewest.2
  intro prev hprev
  cases hprev

theorem lookup_newest_of_forall_ne {key : K} (hne : ∀ entry ∈ entries, entry.key ≠ key) :
    (newest entries).lookup key = none := by
  have hfold : ∀ latest : GoMap K (Stamped K V),
      (entries.foldl note latest).lookup key = latest.lookup key := by
    induction entries with
    | nil => exact fun _ => rfl
    | cons head entries ih =>
        intro latest
        rw [List.foldl_cons, ih fun entry hentry => hne entry (List.mem_cons_of_mem _ hentry)]
        exact lookup_note_of_ne (hne head List.mem_cons_self)
  exact hfold ∅

/-- A key with an entry has a newest one. -/
theorem Distinct.exists_isNewest (hdistinct : Distinct entries) {entry : Stamped K V}
    (hentry : entry ∈ entries) :
    ∃ last, last.key = entry.key ∧ IsNewest entries last := by
  classical
  have hmem : entry ∈ (entries.filter fun other => other.key = entry.key).toFinset := by
    simp [hentry]
  obtain ⟨last, hlast, hmax⟩ := Finset.exists_max_image
    (entries.filter fun other => other.key = entry.key).toFinset Stamped.stamp ⟨entry, hmem⟩
  obtain ⟨hlast, hkey⟩ : last ∈ entries ∧ last.key = entry.key := by simpa using hlast
  refine ⟨last, hkey, hlast, ?_⟩
  intro other hother hsame
  have hle : other.stamp ≤ last.stamp := hmax other (by simp [hother, hsame, hkey])
  rcases hle.lt_or_eq with hlt | heq
  · exact Or.inr hlt
  · exact Or.inl (hdistinct other hother last hlast hsame heq)

/-- The entry with the largest stamp of its key, the first of those that share it. -/
def Wins (entries : List (Stamped K V)) (entry : Stamped K V) : Prop :=
  ∃ before after, entries = before ++ entry :: after ∧
    (∀ other ∈ before, other.key = entry.key → other.stamp < entry.stamp) ∧
      ∀ other ∈ after, other.key = entry.key → other.stamp ≤ entry.stamp

omit [DecidableEq K] in
theorem wins_concat_self {last : Stamped K V}
    (hnewer : ∀ other ∈ entries, other.key = last.key → other.stamp < last.stamp) :
    Wins (entries ++ [last]) last :=
  ⟨entries, [], rfl, hnewer, by simp⟩

omit [DecidableEq K] in
theorem Wins.mem {entry : Stamped K V} (hwins : Wins entries entry) : entry ∈ entries := by
  obtain ⟨before, after, rfl, -⟩ := hwins
  simp

omit [DecidableEq K] in
theorem Wins.le {entry : Stamped K V} (hwins : Wins entries entry) {other : Stamped K V}
    (hother : other ∈ entries) (hkey : other.key = entry.key) :
    other.stamp ≤ entry.stamp := by
  obtain ⟨before, after, rfl, hbefore, hafter⟩ := hwins
  rcases List.mem_append.mp hother with hfront | hback
  · exact (hbefore other hfront hkey).le
  · rcases List.mem_cons.mp hback with rfl | hback
    · exact le_rfl
    · exact hafter other hback hkey

omit [DecidableEq K] in
theorem Wins.concat {entry last : Stamped K V} (hwins : Wins entries entry)
    (hle : last.key = entry.key → last.stamp ≤ entry.stamp) :
    Wins (entries ++ [last]) entry := by
  obtain ⟨before, after, rfl, hbefore, hafter⟩ := hwins
  refine ⟨before, after ++ [last], by simp, hbefore, fun other hother hkey => ?_⟩
  rcases List.mem_append.mp hother with hold | hnew
  · exact hafter other hold hkey
  · obtain rfl := List.mem_singleton.mp hnew
    exact hle hkey

omit [DecidableEq K] in
/-- Of one key, one entry wins. -/
theorem Wins.unique {first second : Stamped K V} (hfirst : Wins entries first)
    (hsecond : Wins entries second) (hkey : first.key = second.key) : first = second := by
  have hstamp : first.stamp = second.stamp :=
    le_antisymm (hsecond.le hfirst.mem hkey) (hfirst.le hsecond.mem hkey.symm)
  obtain ⟨before, after, rfl, hbefore, -⟩ := hfirst
  obtain ⟨before', after', heq, hbefore', -⟩ := hsecond
  -- whichever stands first, the other one would have to be newer
  rcases List.append_eq_append_iff.mp heq with ⟨middle, hmiddle, hrest⟩ | ⟨middle, hmiddle, hrest⟩
  · cases middle with
    | nil =>
        rw [List.nil_append] at hrest
        exact (List.cons.inj hrest).1
    | cons head middle =>
        obtain ⟨rfl, -⟩ := List.cons.inj hrest
        have hlt := hbefore' first (by simp [hmiddle]) hkey
        exact absurd hstamp hlt.ne
  · cases middle with
    | nil =>
        rw [List.nil_append] at hrest
        exact (List.cons.inj hrest).1.symm
    | cons head middle =>
        obtain ⟨rfl, -⟩ := List.cons.inj hrest
        have hlt := hbefore second (by simp [hmiddle]) hkey.symm
        exact absurd hstamp hlt.ne'

end

omit [DecidableEq K] in
/-- What wins in one part of a log wins in all of it if the other parts have older entries. -/
theorem Wins.flatMap {α : Type} {f : α → List (Stamped K V)} {before after : List α} {item : α}
    {entry : Stamped K V} (hwins : Wins (f item) entry)
    (hbefore : ∀ other ∈ before, ∀ old ∈ f other, old.key = entry.key → old.stamp < entry.stamp)
    (hafter : ∀ other ∈ after, ∀ old ∈ f other, old.key = entry.key → old.stamp < entry.stamp) :
    Wins ((before ++ item :: after).flatMap f) entry := by
  obtain ⟨front, back, hsplit, hfront, hback⟩ := hwins
  refine ⟨before.flatMap f ++ front, back ++ after.flatMap f, ?_, ?_, ?_⟩
  · simp [hsplit]
  · intro other hother hkey
    rcases List.mem_append.mp hother with hold | hnew
    · obtain ⟨part, hpart, hmem⟩ := List.mem_flatMap.mp hold
      exact hbefore part hpart other hmem hkey
    · exact hfront other hnew hkey
  · intro other hother hkey
    rcases List.mem_append.mp hother with hnew | hold
    · exact hback other hnew hkey
    · obtain ⟨part, hpart, hmem⟩ := List.mem_flatMap.mp hold
      exact (hafter part hpart other hmem hkey).le

/-- What is left of a key that has entries is the one that wins. -/
theorem lookup_newest_cases (entries : List (Stamped K V)) (key : K) :
    ((newest entries).lookup key = none ∧ ∀ other ∈ entries, other.key ≠ key) ∨
      ∃ entry, (newest entries).lookup key = some entry ∧ entry.key = key ∧
        Wins entries entry := by
  induction entries using List.reverseRecOn with
  | nil => exact Or.inl ⟨rfl, by simp⟩
  | append_singleton entries last ih =>
      have hnewest : newest (entries ++ [last]) = note (newest entries) last := by
        simp [newest]
      rw [hnewest]
      by_cases hkey : last.key = key
      · subst hkey
        right
        rcases ih with ⟨hnone, habsent⟩ | ⟨entry, hsome, hentry, hwins⟩
        · refine ⟨last, lookup_note_self ?_, rfl, ?_⟩
          · intro prev hprev
            rw [hnone] at hprev
            cases hprev
          · exact wins_concat_self fun other hother hsame => absurd hsame (habsent other hother)
        · rcases lt_or_ge entry.stamp last.stamp with hlt | hle
          · refine ⟨last, lookup_note_self ?_, rfl, ?_⟩
            · intro prev hprev
              rw [hsome] at hprev
              cases hprev
              exact Or.inr hlt
            · refine wins_concat_self fun other hother hsame => ?_
              exact lt_of_le_of_lt (hwins.le hother (hsame.trans hentry.symm)) hlt
          · refine ⟨entry, ?_, hentry, hwins.concat fun _ => hle⟩
            rw [lookup_note_older hsome hle, hsome]
      · rw [lookup_note_of_ne hkey]
        rcases ih with ⟨hnone, habsent⟩ | ⟨entry, hsome, rfl, hwins⟩
        · refine Or.inl ⟨hnone, fun other hother => ?_⟩
          rcases List.mem_append.mp hother with hold | hnew
          · exact habsent other hold
          · rwa [List.mem_singleton.mp hnew]
        · exact Or.inr ⟨entry, hsome, rfl, hwins.concat fun hsame => absurd hsame hkey⟩

theorem lookup_newest_eq_some_iff {entries : List (Stamped K V)} {key : K}
    {entry : Stamped K V} :
    (newest entries).lookup key = some entry ↔ entry.key = key ∧ Wins entries entry := by
  constructor
  · intro hlookup
    rcases lookup_newest_cases entries key with ⟨hnone, -⟩ | ⟨other, hother, hkey, hwins⟩
    · rw [hlookup] at hnone
      cases hnone
    · obtain rfl := Option.some.inj (hlookup.symm.trans hother)
      exact ⟨hkey, hwins⟩
  · rintro ⟨rfl, hwins⟩
    rcases lookup_newest_cases entries entry.key with ⟨-, habsent⟩ | ⟨other, hother, hkey, hwins'⟩
    · exact absurd rfl (habsent entry hwins.mem)
    · rw [hother, hwins'.unique hwins hkey]

end Stamped

end Foundation
