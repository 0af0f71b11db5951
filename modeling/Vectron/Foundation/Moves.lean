import Mathlib.Data.List.Basic

/-! # Runs of a machine with moves

A move may be impossible in a state. A run is a list of moves that are possible one after the
other, a state is stalled where no move is possible, and a measure that every move decreases
bounds the length of a run.
-/

namespace Foundation.Moves

universe uState uMove

variable {State : Type uState} {Move : Type uMove} {move : State → Move → Option State}

/-- The state after all moves, if each of them is possible. -/
def run (move : State → Move → Option State) (state : State) : List Move → Option State
  | [] => some state
  | first :: rest => (move state first).bind fun next => run move next rest

@[simp] theorem run_nil (state : State) : run move state [] = some state := rfl

@[simp] theorem run_cons (state : State) (first : Move) (rest : List Move) :
    run move state (first :: rest) = (move state first).bind fun next => run move next rest := rfl

theorem run_append (state : State) (first second : List Move) :
    run move state (first ++ second) =
      (run move state first).bind fun next => run move next second := by
  induction first generalizing state with
  | nil => simp
  | cons head rest ih =>
      cases hmove : move state head with
      | none => simp [hmove]
      | some next => simp [hmove, ih]

/-- What every move keeps, every run keeps. -/
theorem run_keeps {invariant : State → Prop}
    (hmove : ∀ state step next, invariant state → move state step = some next → invariant next)
    {state last : State} {moves : List Move} (hstate : invariant state)
    (hrun : run move state moves = some last) : invariant last := by
  induction moves generalizing state with
  | nil =>
      obtain rfl := Option.some.inj hrun
      exact hstate
  | cons first rest ih =>
      obtain ⟨next, hnext, hrest⟩ := Option.bind_eq_some_iff.mp hrun
      exact ih (hmove state first next hstate hnext) hrest

/-- What the moves of a run show, in order. -/
def seen {View : Type*} (view : State → Move → List View) (move : State → Move → Option State)
    (state : State) : List Move → List View
  | [] => []
  | first :: rest =>
      view state first ++ (move state first).elim [] fun next => seen view move next rest

/-- What every move keeps together with what it shows, every run keeps. -/
theorem run_seen {View : Type*} {view : State → Move → List View}
    {invariant : State → List View → Prop}
    (hmove : ∀ state step next shown, invariant state shown → move state step = some next →
      invariant next (shown ++ view state step))
    {state last : State} {moves : List Move} {shown : List View} (hstate : invariant state shown)
    (hrun : run move state moves = some last) :
    invariant last (shown ++ seen view move state moves) := by
  induction moves generalizing state shown with
  | nil =>
      obtain rfl := Option.some.inj hrun
      rwa [seen, List.append_nil]
  | cons first rest ih =>
      obtain ⟨next, hnext, hrest⟩ := Option.bind_eq_some_iff.mp hrun
      have hlast := ih (hmove state first next shown hstate hnext) hrest
      rwa [seen, hnext, Option.elim_some, ← List.append_assoc]

/-- A measure that every move decreases bounds the length of a run. -/
theorem length_le_of_decreases {measure : State → Nat}
    (hmove : ∀ state step next, move state step = some next → measure next < measure state)
    {state last : State} {moves : List Move} (hrun : run move state moves = some last) :
    moves.length + measure last ≤ measure state := by
  induction moves generalizing state with
  | nil =>
      obtain rfl := Option.some.inj hrun
      simp
  | cons first rest ih =>
      obtain ⟨next, hnext, hrest⟩ := Option.bind_eq_some_iff.mp hrun
      have hfirst := hmove state first next hnext
      have htail := ih hrest
      simp only [List.length_cons]
      omega

/-- Where every move keeps an invariant and raises a measure, the measure of the last state bounds
the length of a run. -/
theorem length_le_of_raises {invariant : State → Prop} {measure : State → Nat}
    (hmove : ∀ state step next, invariant state → move state step = some next →
      invariant next ∧ measure state < measure next)
    {state last : State} {moves : List Move} (hstate : invariant state)
    (hrun : run move state moves = some last) :
    invariant last ∧ moves.length + measure state ≤ measure last := by
  induction moves generalizing state with
  | nil =>
      obtain rfl := Option.some.inj hrun
      exact ⟨hstate, by simp⟩
  | cons first rest ih =>
      obtain ⟨next, hnext, hrest⟩ := Option.bind_eq_some_iff.mp hrun
      obtain ⟨hinvariant, hfirst⟩ := hmove state first next hstate hnext
      obtain ⟨hlast, htail⟩ := ih hinvariant hrest
      refine ⟨hlast, ?_⟩
      simp only [List.length_cons]
      omega

/-- No move is possible. -/
def Stalled (move : State → Move → Option State) (state : State) : Prop :=
  ∀ step, move state step = none

/-- Some run leads from one state to the other. -/
def Reaches (move : State → Move → Option State) (state last : State) : Prop :=
  ∃ moves, run move state moves = some last

namespace Reaches

variable {state middle last : State}

@[refl] theorem refl (state : State) : Reaches move state state := ⟨[], rfl⟩

theorem of_move {step : Move} (hmove : move state step = some last) : Reaches move state last :=
  ⟨[step], by simp [hmove]⟩

@[trans] theorem trans (hfirst : Reaches move state middle) (hsecond : Reaches move middle last) :
    Reaches move state last := by
  obtain ⟨first, hfirst⟩ := hfirst
  obtain ⟨second, hsecond⟩ := hsecond
  exact ⟨first ++ second, by rw [run_append, hfirst, Option.bind_some, hsecond]⟩

end Reaches

end Foundation.Moves
