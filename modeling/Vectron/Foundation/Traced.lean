import Mathlib.Data.List.Basic

/-! # Computations that leave a trace and may stop with a fault

A computation records the events it caused, whether it returns a value or stops with a
fault. `Keeps` states all three at once: what every event satisfies, what a fault can be,
and what the returned value satisfies. Its rules follow the shape of the computation.
-/

namespace Foundation

/-- The events of a computation and what it ends with. -/
structure Traced (Event Fault α : Type) where
  trace : List Event
  outcome : Except Fault α

namespace Traced

variable {Event Fault α β σ : Type}

instance : Monad (Traced Event Fault) where
  pure value := ⟨[], .ok value⟩
  bind first next :=
    match first.outcome with
    | .ok value => ⟨first.trace ++ (next value).trace, (next value).outcome⟩
    | .error fault => ⟨first.trace, .error fault⟩

/-- Record one event. -/
def emit (event : Event) : Traced Event Fault Unit := ⟨[event], .ok ()⟩

/-- Stop. -/
def raise (fault : Fault) : Traced Event Fault α := ⟨[], .error fault⟩

/-- The value, if there is one. -/
def value? (computation : Traced Event Fault α) : Option α :=
  computation.outcome.toOption

/-- The fault, if the computation stops with one. -/
def fault? (computation : Traced Event Fault α) : Option Fault :=
  match computation.outcome with
  | .ok _ => none
  | .error fault => some fault

/-- Apply a computation to every element, from the first to the last. -/
def each (f : α → Traced Event Fault β) : List α → Traced Event Fault (List β)
  | [] => pure []
  | head :: rest => do
      let first ← f head
      let others ← each f rest
      pure (first :: others)

/-- Thread a state through the elements of a list. -/
def fold (f : σ → α → Traced Event Fault σ) : σ → List α → Traced Event Fault σ
  | state, [] => pure state
  | state, head :: rest => do
      let next ← f state head
      fold f next rest

/-- The events, the faults and the value of a computation are as given. -/
structure Keeps (event : Event → Prop) (fault : Fault → Prop) (post : α → Prop)
    (computation : Traced Event Fault α) : Prop where
  events : ∀ e ∈ computation.trace, event e
  faults : ∀ f, computation.outcome = .error f → fault f
  value : ∀ a, computation.outcome = .ok a → post a

namespace Keeps

variable {event : Event → Prop} {fault : Fault → Prop} {post weaker : α → Prop}
  {next : β → Prop}

protected theorem pure {a : α} (hpost : post a) :
    Keeps event fault post (pure a : Traced Event Fault α) where
  events _ hmem := absurd hmem List.not_mem_nil
  faults _ heq := nomatch heq
  value _ heq := Except.ok.inj heq ▸ hpost

theorem raise {f : Fault} (hfault : fault f) :
    Keeps event fault post (raise f : Traced Event Fault α) where
  events _ hmem := absurd hmem List.not_mem_nil
  faults _ heq := Except.error.inj heq ▸ hfault
  value _ heq := nomatch heq

theorem emit {e : Event} (hevent : event e) :
    Keeps event fault (fun _ => True) (emit e : Traced Event Fault Unit) where
  events _ hmem := List.mem_singleton.mp hmem ▸ hevent
  faults _ heq := nomatch heq
  value _ _ := trivial

protected theorem bind {first : Traced Event Fault α} {rest : α → Traced Event Fault β}
    (hfirst : Keeps event fault post first)
    (hrest : ∀ a, post a → Keeps event fault next (rest a)) :
    Keeps event fault next (first >>= rest) := by
  have hbind : first >>= rest = match first.outcome with
    | .ok value => ⟨first.trace ++ (rest value).trace, (rest value).outcome⟩
    | .error fault => ⟨first.trace, .error fault⟩ := rfl
  rw [hbind]
  cases houtcome : first.outcome with
  | error f =>
      refine ⟨hfirst.events, ?_, nofun⟩
      intro f' heq
      exact Except.error.inj heq ▸ hfirst.faults f houtcome
  | ok a =>
      have hnext := hrest a (hfirst.value a houtcome)
      refine ⟨?_, hnext.faults, hnext.value⟩
      intro e hmem
      rcases List.mem_append.mp hmem with hleft | hright
      · exact hfirst.events e hleft
      · exact hnext.events e hright

section

variable {computation : Traced Event Fault α}

theorem imp (hkeeps : Keeps event fault post computation) (himp : ∀ a, post a → weaker a) :
    Keeps event fault weaker computation where
  events := hkeeps.events
  faults := hkeeps.faults
  value a heq := himp a (hkeeps.value a heq)

/-- Two postconditions, one of which may come with its own events and faults. -/
theorem and {event' : Event → Prop} {fault' : Fault → Prop}
    (hkeeps : Keeps event fault post computation) (hother : Keeps event' fault' weaker computation) :
    Keeps event fault (fun a => post a ∧ weaker a) computation where
  events := hkeeps.events
  faults := hkeeps.faults
  value a heq := ⟨hkeeps.value a heq, hother.value a heq⟩

/-- The postcondition may name the value the computation ends with. -/
theorem with_outcome (hkeeps : Keeps event fault post computation) :
    Keeps event fault (fun a => post a ∧ computation.outcome = .ok a) computation where
  events := hkeeps.events
  faults := hkeeps.faults
  value a heq := ⟨hkeeps.value a heq, heq⟩

theorem fault?_eq_some (hkeeps : Keeps event fault post computation) {f : Fault}
    (hfault : computation.fault? = some f) : fault f := by
  unfold Traced.fault? at hfault
  cases houtcome : computation.outcome with
  | ok a =>
      rw [houtcome] at hfault
      cases hfault
  | error f' =>
      rw [houtcome] at hfault
      cases hfault
      exact hkeeps.faults f houtcome

end

/-- An invariant of the state that every element keeps. -/
theorem fold {invariant : σ → Prop} {f : σ → α → Traced Event Fault σ} {list : List α}
    (hstep : ∀ state, ∀ a ∈ list, invariant state →
      Keeps event fault invariant (f state a))
    {state : σ} (hstate : invariant state) :
    Keeps event fault invariant (Traced.fold f state list) := by
  induction list generalizing state with
  | nil => exact Keeps.pure hstate
  | cons head rest ih =>
      refine (hstep state head List.mem_cons_self hstate).bind fun after hafter => ?_
      exact ih (fun state a hmem => hstep state a (List.mem_cons_of_mem _ hmem)) hafter

/-- One result for each element, each with what its computation promises. -/
theorem each {f : α → Traced Event Fault β} {list : List α} {relate : α → β → Prop}
    (hstep : ∀ a ∈ list, Keeps event fault (relate a) (f a)) :
    Keeps event fault (fun results => List.Forall₂ relate list results)
      (Traced.each f list) := by
  induction list with
  | nil => exact Keeps.pure .nil
  | cons head rest ih =>
      refine (hstep head List.mem_cons_self).bind fun first hfirst => ?_
      refine (ih fun a hmem => hstep a (List.mem_cons_of_mem _ hmem)).bind fun others hothers => ?_
      exact Keeps.pure (.cons hfirst hothers)

theorem ite {condition : Prop} [Decidable condition] {first second : Traced Event Fault α}
    (hfirst : condition → Keeps event fault post first)
    (hsecond : ¬ condition → Keeps event fault post second) :
    Keeps event fault post (if condition then first else second) := by
  split
  next h => exact hfirst h
  next h => exact hsecond h

end Keeps

end Traced

end Foundation
