import Mathlib.Data.List.Basic

/-! # Runs of a deterministic machine

A machine is a step function on states and inputs. A run feeds it a list of
inputs. The rules below lift facts about one step to whole runs, including runs
whose inputs are only known to be acceptable in the state they are applied to.
-/

namespace Foundation.Run

universe uState uInput

variable {State : Type uState} {Input : Type uInput}

/-- The state after all inputs. -/
def run (step : State → Input → State) (state : State) (inputs : List Input) : State :=
  inputs.foldl step state

/-- Every input meets the condition in the state it is applied to. -/
def Meets (step : State → Input → State) (condition : State → Input → Prop) :
    State → List Input → Prop
  | _, [] => True
  | state, input :: rest =>
      condition state input ∧ Meets step condition (step state input) rest

instance Meets.decidable (step : State → Input → State) (condition : State → Input → Prop)
    [∀ state input, Decidable (condition state input)] :
    ∀ state inputs, Decidable (Meets step condition state inputs)
  | _, [] => isTrue trivial
  | state, input :: rest =>
      @instDecidableAnd _ _ _ (Meets.decidable step condition (step state input) rest)

variable {step : State → Input → State}

@[simp] theorem run_nil (state : State) : run step state [] = state := rfl

@[simp] theorem run_cons (state : State) (input : Input) (rest : List Input) :
    run step state (input :: rest) = run step (step state input) rest := rfl

theorem run_append (state : State) (first second : List Input) :
    run step state (first ++ second) = run step (run step state first) second :=
  List.foldl_append

section

variable {condition : State → Input → Prop}

theorem Meets.of_forall (hcondition : ∀ state input, condition state input) (state : State)
    (inputs : List Input) : Meets step condition state inputs := by
  induction inputs generalizing state with
  | nil => trivial
  | cons input rest ih => exact ⟨hcondition state input, ih _⟩

theorem meets_append {state : State} {first second : List Input} :
    Meets step condition state (first ++ second) ↔
      Meets step condition state first ∧
        Meets step condition (run step state first) second := by
  induction first generalizing state with
  | nil => simp [Meets]
  | cons input rest ih => simp [Meets, ih, and_assoc]

theorem Meets.initial {state : State} {first inputs : List Input}
    (hmeets : Meets step condition state inputs) (hle : first <+: inputs) :
    Meets step condition state first := by
  obtain ⟨rest, rfl⟩ := hle
  exact (meets_append.mp hmeets).1

end

theorem Meets.imp {condition weaker : State → Input → Prop} {state : State}
    {inputs : List Input} (hmeets : Meets step condition state inputs)
    (himp : ∀ state input, condition state input → weaker state input) :
    Meets step weaker state inputs := by
  induction inputs generalizing state with
  | nil => trivial
  | cons input rest ih => exact ⟨himp state input hmeets.1, ih hmeets.2⟩

theorem Meets.and {condition other : State → Input → Prop} {state : State} {inputs : List Input}
    (hmeets : Meets step condition state inputs) (hother : Meets step other state inputs) :
    Meets step (fun state input => condition state input ∧ other state input) state inputs := by
  induction inputs generalizing state with
  | nil => trivial
  | cons input rest ih => exact ⟨⟨hmeets.1, hother.1⟩, ih hmeets.2 hother.2⟩

/-- An invariant preserved by every acceptable input holds at the end of every
acceptable run. -/
theorem run_invariant {condition : State → Input → Prop} {invariant : State → Prop}
    (hstep : ∀ state input, condition state input → invariant state →
      invariant (step state input))
    {state : State} {inputs : List Input} (hmeets : Meets step condition state inputs)
    (hstate : invariant state) : invariant (run step state inputs) := by
  induction inputs generalizing state with
  | nil => exact hstate
  | cons input rest ih => exact ih hmeets.2 (hstep state input hmeets.1 hstate)

/-- What holds of a step wherever an invariant does, holds of every step of an acceptable
run. -/
theorem Meets.of_invariant {condition property : State → Input → Prop}
    {invariant : State → Prop}
    (hstep : ∀ state input, condition state input → invariant state →
      invariant (step state input))
    (hproperty : ∀ state input, condition state input → invariant state → property state input)
    {state : State} {inputs : List Input} (hmeets : Meets step condition state inputs)
    (hstate : invariant state) : Meets step property state inputs := by
  induction inputs generalizing state with
  | nil => trivial
  | cons input rest ih =>
      exact ⟨hproperty state input hmeets.1 hstate,
        ih hmeets.2 (hstep state input hmeets.1 hstate)⟩

/-- An invariant that every input preserves. -/
theorem run_preserves (invariant : State → Prop)
    (hstep : ∀ state input, invariant state → invariant (step state input)) {state : State}
    (inputs : List Input) (hstate : invariant state) : invariant (run step state inputs) :=
  run_invariant (fun state input _ hinvariant => hstep state input hinvariant)
    (Meets.of_forall (fun _ _ => trivial) state inputs) hstate

/-- What no step undoes and does not hold in the end, holds nowhere on the way. -/
theorem Meets.of_not_run {property : State → Prop}
    (hstep : ∀ state input, property state → property (step state input)) {state : State}
    {inputs : List Input} (hend : ¬property (run step state inputs)) :
    Meets step (fun state _ => ¬property state) state inputs := by
  induction inputs generalizing state with
  | nil => trivial
  | cons input rest ih =>
      exact ⟨fun hstate => hend (run_preserves property hstep (input :: rest) hstate), ih hend⟩

/-- A property holds in every state of a run if and only if every input meets a condition, when
this is so for one step wherever an invariant holds, and the steps that meet the condition keep
the invariant. -/
theorem forall_front_iff_meets {condition : State → Input → Prop}
    (invariant property : State → Prop) (hproperty : ∀ state, invariant state → property state)
    (hstep : ∀ state input, invariant state →
      (property (step state input) ↔ condition state input) ∧
        (condition state input → invariant (step state input)))
    {state : State} {inputs : List Input} (hstate : invariant state) :
    (∀ front, front <+: inputs → property (run step state front)) ↔
      Meets step condition state inputs := by
  induction inputs generalizing state with
  | nil =>
      refine iff_of_true (fun front hfront => ?_) trivial
      rw [List.prefix_nil.mp hfront]
      exact hproperty state hstate
  | cons input rest ih =>
      obtain ⟨hiff, hkept⟩ := hstep state input hstate
      constructor
      · intro hall
        have hmet : condition state input :=
          hiff.mp (hall [input] (List.cons_prefix_cons.mpr ⟨rfl, List.nil_prefix⟩))
        refine ⟨hmet, (ih (hkept hmet)).mp fun front hfront => ?_⟩
        exact hall (input :: front) (List.cons_prefix_cons.mpr ⟨rfl, hfront⟩)
      · intro hmeets front hfront
        cases front with
        | nil => exact hproperty state hstate
        | cons first front =>
            obtain ⟨rfl, hrest⟩ := List.cons_prefix_cons.mp hfront
            exact (ih (hkept hmeets.1)).mpr hmeets.2 front hrest

/-- The number of steps of a run that have a property. -/
def countSteps (step : State → Input → State) (property : State → Input → Bool) :
    State → List Input → Nat
  | _, [] => 0
  | state, input :: rest =>
      (if property state input then 1 else 0) + countSteps step property (step state input) rest

theorem countSteps_append (property : State → Input → Bool) (state : State)
    (first second : List Input) :
    countSteps step property state (first ++ second) =
      countSteps step property state first +
        countSteps step property (run step state first) second := by
  induction first generalizing state with
  | nil => simp [countSteps]
  | cons input rest ih =>
      rw [List.cons_append, countSteps, countSteps, run_cons, ih, Nat.add_assoc]

/-- What the steps of a run emit, in order. -/
def collect {α : Type} (step : State → Input → State) (emit : State → Input → List α) :
    State → List Input → List α
  | _, [] => []
  | state, input :: rest => emit state input ++ collect step emit (step state input) rest

/-- An invariant between the state and everything emitted so far. -/
theorem collect_invariant {α : Type} {condition : State → Input → Prop}
    {emit : State → Input → List α} {invariant : State → List α → Prop}
    (hstep : ∀ state input emitted, condition state input → invariant state emitted →
      invariant (step state input) (emitted ++ emit state input))
    {state : State} {inputs : List Input} {emitted : List α}
    (hmeets : Meets step condition state inputs) (hstate : invariant state emitted) :
    invariant (run step state inputs) (emitted ++ collect step emit state inputs) := by
  induction inputs generalizing state emitted with
  | nil =>
      rw [collect, List.append_nil]
      exact hstate
  | cons input rest ih =>
      rw [run_cons, collect, ← List.append_assoc]
      exact ih hmeets.2 (hstep state input emitted hmeets.1 hstate)

end Foundation.Run
