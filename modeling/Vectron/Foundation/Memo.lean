import Mathlib.Data.List.Induction
import Vectron.Foundation.GoMap

/-! # Tables of answers

A table keeps the answers of a function under keys of their inputs, and loses entries at any
time. An input whose key is in the table gets the answer that lies there, whoever asked for
it. A function that fails on an input leaves nothing.
-/

namespace Foundation.Memo

variable {I K L O V : Type} [DecidableEq K] [DecidableEq L]

inductive Use (I K : Type) where
  | ask (input : I)
  | drop (k : K)
  | clear

section Table

variable (key : I → K) (f : I → Option O)

def answer (table : GoMap K O) (input : I) : Option O :=
  (table.lookup (key input)).or (f input)

def use (table : GoMap K O) : Use I K → GoMap K O
  | .ask input =>
      match table.lookup (key input) with
      | some _ => table
      | none =>
          match f input with
          | some output => table.insert (key input) output
          | none => table
  | .drop k => table.erase k
  | .clear => ∅

def run (uses : List (Use I K)) : GoMap K O := uses.foldl (use key f) ∅

theorem run_concat (uses : List (Use I K)) (last : Use I K) :
    run key f (uses ++ [last]) = use key f (run key f uses) last := by
  simp [run]

theorem lookup_use_ask (table : GoMap K O) (input : I) (k : K) :
    (use key f table (.ask input)).lookup k =
      if k = key input then answer key f table input else table.lookup k := by
  by_cases hk : k = key input
  · subst hk
    rw [if_pos rfl, answer, use]
    cases hentry : table.lookup (key input) with
    | some output => simp [hentry]
    | none => cases hf : f input <;> simp [hentry]
  · rw [if_neg hk, use]
    cases table.lookup (key input) with
    | some output => rfl
    | none => cases f input <;> simp [hk]

theorem lookup_use_drop (table : GoMap K O) (dropped k : K) :
    (use key f table (.drop dropped)).lookup k = if k = dropped then none else table.lookup k := by
  by_cases hk : k = dropped
  · subst hk
    simp [use]
  · rw [if_neg hk, use, AList.lookup_erase_ne hk]

@[simp] theorem lookup_use_clear (table : GoMap K O) (k : K) :
    (use key f table .clear).lookup k = none := by
  simp [use]

end Table

/-- An answer shows as much of the function's value as `view` does. -/
def Transparent (key : I → K) (view : O → V) (f : I → Option O) (uses : List (Use I K)) : Prop :=
  ∀ before input after, uses = before ++ .ask input :: after →
    (answer key f (run key f before) input).map view = (f input).map view

/-- The inputs that filled the table. -/
abbrev filled (key : I → K) (uses : List (Use I K)) : GoMap K I := run key some uses

/-- An input that finds an entry is the one that filled it. -/
def Matched (key : I → K) (uses : List (Use I K)) : Prop :=
  ∀ before input after, uses = before ++ .ask input :: after →
    ∀ first, (filled key before).lookup (key input) = some first → first = input

section Laws

variable {key : I → K} {uses : List (Use I K)}

theorem Matched.of_append {rest : List (Use I K)} (hmatched : Matched key (uses ++ rest)) :
    Matched key uses := by
  rintro before input after rfl
  exact hmatched before input (after ++ rest) (by simp)

/-- As long as inputs match, every entry is the function's value at the input that would have
filled it had no input failed. -/
theorem Matched.filled_of_lookup {f : I → Option O} (hmatched : Matched key uses) {k : K}
    {output : O} (hentry : (run key f uses).lookup k = some output) :
    ∃ first, (filled key uses).lookup k = some first ∧ f first = some output := by
  induction uses using List.reverseRecOn generalizing k output with
  | nil => simp [run] at hentry
  | append_singleton uses last ih =>
      have ih := fun {k} {output} => @ih hmatched.of_append k output
      rw [run_concat] at hentry
      rw [filled, run_concat]
      cases last with
      | ask input =>
          rw [lookup_use_ask] at hentry ⊢
          split at hentry
          next hk =>
            rw [if_pos hk, answer]
            cases hfirst : (filled key uses).lookup (key input) with
            | some first =>
                -- the input is the one that filled the entry
                obtain rfl := hmatched uses input [] rfl first hfirst
                refine ⟨first, rfl, ?_⟩
                rw [answer] at hentry
                cases hold : (run key f uses).lookup (key first) with
                | none => simpa [hold] using hentry
                | some old =>
                    obtain ⟨first', hfirst', hf⟩ := ih hold
                    rw [hfirst] at hfirst'
                    obtain rfl := Option.some.inj hfirst'
                    rw [hold] at hentry
                    rwa [← Option.some.inj hentry]
            | none =>
                refine ⟨input, rfl, ?_⟩
                rw [answer] at hentry
                cases hold : (run key f uses).lookup (key input) with
                | none => simpa [hold] using hentry
                | some old =>
                    obtain ⟨first, hfirst', -⟩ := ih hold
                    rw [hfirst] at hfirst'
                    contradiction
          next hk =>
            rw [if_neg hk]
            exact ih hentry
      | drop dropped =>
          rw [lookup_use_drop] at hentry ⊢
          split at hentry
          next => contradiction
          next hk =>
            rw [if_neg hk]
            exact ih hentry
      | clear => simp at hentry

theorem Matched.transparent (hmatched : Matched key uses) (view : O → V) (f : I → Option O) :
    Transparent key view f uses := by
  intro before input after huses
  have hbefore : Matched key before := by
    rw [huses] at hmatched
    exact hmatched.of_append
  rw [answer]
  cases hentry : (run key f before).lookup (key input) with
  | none => rfl
  | some output =>
      obtain ⟨first, hfirst, hf⟩ := hbefore.filled_of_lookup hentry
      obtain rfl := hmatched before input after huses first hfirst
      rw [hf]
      rfl

/-- A function without failures fills the table with its values. -/
theorem lookup_run_total (key : I → K) (value : I → O) (uses : List (Use I K)) (k : K) :
    (run key (fun input => some (value input)) uses).lookup k =
      ((filled key uses).lookup k).map value := by
  induction uses using List.reverseRecOn generalizing k with
  | nil => simp [run]
  | append_singleton uses last ih =>
      rw [run_concat, filled, run_concat]
      cases last with
      | ask input =>
          rw [lookup_use_ask, lookup_use_ask, answer, answer, ih, ih]
          split <;> cases (filled key uses).lookup (key input) <;> simp
      | drop dropped =>
          rw [lookup_use_drop, lookup_use_drop, ih]
          split <;> rfl
      | clear => simp

/-- The table can hide whose answers it holds from every function only when the inputs
match. -/
theorem matched_of_transparent {view : O → V} {left right : O} (hview : view left ≠ view right)
    (htransparent : ∀ f : I → Option O, Transparent key view f uses) : Matched key uses := by
  classical
  intro before input after huses first hfirst
  by_contra hne
  have h := htransparent (fun other => some (if other = input then left else right))
    before input after huses
  rw [answer, lookup_run_total, hfirst] at h
  simp only [Option.map_some, Option.some_or, if_neg hne, if_true, Option.some.injEq] at h
  exact hview h.symm

end Laws

/-! ## Renaming the keys -/

def Use.rename (name : K → L) : Use I K → Use I L
  | .ask input => .ask input
  | .drop k => .drop (name k)
  | .clear => .clear

section

variable {key : I → K} {name : K → L} (hname : Function.Injective name)

include hname

theorem lookup_filled_rename (uses : List (Use I K)) (k : K) :
    (filled (fun input => name (key input)) (uses.map (Use.rename name))).lookup (name k) =
      (filled key uses).lookup k := by
  induction uses using List.reverseRecOn generalizing k with
  | nil => simp [run]
  | append_singleton uses last ih =>
      rw [List.map_append, List.map_singleton, filled, filled, run_concat, run_concat]
      cases last with
      | ask input =>
          simp only [Use.rename, lookup_use_ask, answer, ih, hname.eq_iff]
      | drop dropped =>
          simp only [Use.rename, lookup_use_drop, ih, hname.eq_iff]
      | clear => simp [Use.rename]

theorem matched_rename_iff {uses : List (Use I K)} :
    Matched (fun input => name (key input)) (uses.map (Use.rename name)) ↔ Matched key uses := by
  constructor
  · rintro hmatched before input after rfl first hfirst
    apply hmatched (before.map (Use.rename name)) input (after.map (Use.rename name)) (by simp; rfl)
    rwa [lookup_filled_rename hname]
  · intro hmatched before input after huses first hfirst
    obtain ⟨front, rest, rfl, rfl, hrest⟩ := List.map_eq_append_iff.mp huses
    obtain ⟨middle, back, rfl, hmiddle, -⟩ := List.map_eq_cons_iff.mp hrest
    cases middle with
    | ask asked =>
        obtain rfl : asked = input := by injection hmiddle
        rw [lookup_filled_rename hname] at hfirst
        exact hmatched front asked back rfl first hfirst
    | drop dropped => cases hmiddle
    | clear => cases hmiddle

end

end Foundation.Memo
