import Mathlib.Data.List.Basic

/-! # Computations that write a state and may fail

The state survives a failure: whatever was written before the error stays
written. That no write precedes an error is therefore a property to prove of each
computation, not one of the monad.
-/

namespace Foundation

/-- A computation over a state `σ` that may end in an error `ε`. -/
abbrev Fallible (σ ε α : Type) := ExceptT ε (StateM σ) α

namespace Fallible

variable {σ ε α β : Type}

/-- Run a computation: its result or error, and the state it leaves. -/
def exec (computation : Fallible σ ε α) (state : σ) : Except ε α × σ :=
  computation.run.run state

@[simp] theorem exec_pure (value : α) (state : σ) :
    exec (pure value : Fallible σ ε α) state = (.ok value, state) := rfl

@[simp] theorem exec_throw (err : ε) (state : σ) :
    exec (throw err : Fallible σ ε α) state = (.error err, state) := rfl

@[simp] theorem exec_get (state : σ) :
    exec (get : Fallible σ ε σ) state = (.ok state, state) := rfl

@[simp] theorem exec_modify (f : σ → σ) (state : σ) :
    exec (modify f : Fallible σ ε PUnit) state = (.ok ⟨⟩, f state) := rfl

theorem exec_bind (first : Fallible σ ε α) (next : α → Fallible σ ε β) (state : σ) :
    exec (first >>= next) state =
      match exec first state with
      | (.ok value, state) => exec (next value) state
      | (.error err, state) => (.error err, state) := by
  simp only [exec, ExceptT.run_bind, StateT.run_bind]
  change (match (first.run.run state).1 with
    | .ok value => (next value).run
    | .error err => pure (.error err)).run (first.run.run state).2 = _
  rcases first.run.run state with ⟨result, after⟩
  cases result <;> rfl

/-- The rule that peels off a first computation that succeeds. -/
theorem exec_bind_ok {first : Fallible σ ε α} {next : α → Fallible σ ε β}
    {state after : σ} {value : α} (hfirst : exec first state = (.ok value, after)) :
    exec (first >>= next) state = exec (next value) after := by
  rw [exec_bind, hfirst]

@[simp] theorem exec_get_bind (next : σ → Fallible σ ε β) (state : σ) :
    exec (get >>= next) state = exec (next state) state :=
  exec_bind_ok (exec_get state)

@[simp] theorem exec_modify_bind (f : σ → σ) (next : PUnit → Fallible σ ε β) (state : σ) :
    exec (modify f >>= next) state = exec (next ⟨⟩) (f state) :=
  exec_bind_ok (exec_modify f state)

@[simp] theorem exec_throw_bind (err : ε) (next : α → Fallible σ ε β) (state : σ) :
    exec ((throw err : Fallible σ ε α) >>= next) state = (.error err, state) := by
  rw [exec_bind, exec_throw]

@[simp] theorem exec_ite (condition : Prop) [Decidable condition]
    (first second : Fallible σ ε α) (state : σ) :
    exec (if condition then first else second) state =
      if condition then exec first state else exec second state := by
  split <;> rfl

end Fallible

end Foundation
