import Mathlib.Logic.Relation

/-! Deterministic transition systems with partial steps. A run is a list of
events; an event that is not enabled ends the run in `none`. Safety is proved
once per step and carried to every run by the rules below. -/

namespace Leviculum.Execution

variable {State Event : Type*}

/-- The state after a list of events, or `none` when one of them was not enabled. -/
def exec (step : State → Event → Option State) : State → List Event → Option State
  | s, [] => some s
  | s, e :: events => (step s e).bind (fun s' => exec step s' events)

theorem exec_nil (step : State → Event → Option State) (s : State) :
    exec step s [] = some s := rfl

theorem exec_cons (step : State → Event → Option State) (s s' : State) (e : Event)
    (events : List Event) :
    exec step s (e :: events) = some s' ↔
      ∃ middle, step s e = some middle ∧ exec step middle events = some s' := by
  simp only [exec, Option.bind_eq_some_iff]

theorem exec_append (step : State → Event → Option State) (s : State) (first second : List Event) :
    exec step s (first ++ second) = (exec step s first).bind (exec step · second) := by
  induction first generalizing s with
  | nil => rfl
  | cons e events ih =>
    simp only [List.cons_append, exec, Option.bind_assoc, ih]

theorem exec_invariant {step : State → Event → Option State} {Inv : State → Prop}
    (preserved : ∀ s e s', Inv s → step s e = some s' → Inv s')
    {s s' : State} {events : List Event} (start : Inv s)
    (run : exec step s events = some s') : Inv s' := by
  induction events generalizing s with
  | nil =>
    rw [exec_nil, Option.some.injEq] at run
    exact run ▸ start
  | cons e events ih =>
    obtain ⟨middle, stepped, rest⟩ := (exec_cons step s s' e events).mp run
    exact ih (preserved s e middle start stepped) rest

/-- Every event of the run met `ok` in the state it found. -/
def Along (step : State → Event → Option State) (ok : State → Event → Prop) :
    State → List Event → Prop
  | _, [] => True
  | s, e :: events => ok s e ∧ ∀ s', step s e = some s' → Along step ok s' events

instance decidableAlong (step : State → Event → Option State) (ok : State → Event → Prop)
    [∀ s e, Decidable (ok s e)] : ∀ s events, Decidable (Along step ok s events)
  | _, [] => .isTrue trivial
  | s, e :: events =>
    match stepped : step s e with
    | none => decidable_of_iff (ok s e) (by simp [Along, stepped])
    | some s' =>
      have := decidableAlong step ok s' events
      decidable_of_iff (ok s e ∧ Along step ok s' events) (by simp [Along, stepped])

theorem exec_invariant_along {step : State → Event → Option State} {ok : State → Event → Prop}
    {Inv : State → Prop}
    (preserved : ∀ s e s', Inv s → ok s e → step s e = some s' → Inv s')
    {s s' : State} {events : List Event} (start : Inv s) (along : Along step ok s events)
    (run : exec step s events = some s') : Inv s' := by
  induction events generalizing s with
  | nil =>
    rw [exec_nil, Option.some.injEq] at run
    exact run ▸ start
  | cons e events ih =>
    obtain ⟨middle, stepped, rest⟩ := (exec_cons step s s' e events).mp run
    exact ih (preserved s e middle start along.1 stepped) (along.2 middle stepped) rest

/-- The steps a run takes: state before, event, state after. -/
def transitions (step : State → Event → Option State) :
    State → List Event → List (State × Event × State)
  | _, [] => []
  | s, e :: events =>
    match step s e with
    | none => []
    | some s' => (s, e, s') :: transitions step s' events

theorem step_of_mem_transitions {step : State → Event → Option State} {s : State}
    {events : List Event} {t : State × Event × State} (member : t ∈ transitions step s events) :
    step t.1 t.2.1 = some t.2.2 := by
  induction events generalizing s with
  | nil => cases member
  | cons e events ih =>
    unfold transitions at member
    split at member
    next => cases member
    next s' stepped =>
      rcases List.mem_cons.mp member with rfl | later
      · exact stepped
      · exact ih later

theorem invariant_of_mem_transitions {step : State → Event → Option State} {Inv : State → Prop}
    (preserved : ∀ s e s', Inv s → step s e = some s' → Inv s') {s : State} {events : List Event}
    {t : State × Event × State} (start : Inv s) (member : t ∈ transitions step s events) :
    Inv t.1 := by
  induction events generalizing s with
  | nil => cases member
  | cons e events ih =>
    unfold transitions at member
    split at member
    next => cases member
    next s' stepped =>
      rcases List.mem_cons.mp member with rfl | later
      · exact start
      · exact ih (preserved s e s' start stepped) later

theorem along_of_mem_transitions {step : State → Event → Option State} {ok : State → Event → Prop}
    {s : State} {events : List Event} {t : State × Event × State}
    (along : Along step ok s events) (member : t ∈ transitions step s events) : ok t.1 t.2.1 := by
  induction events generalizing s with
  | nil => cases member
  | cons e events ih =>
    unfold transitions at member
    split at member
    next => cases member
    next s' stepped =>
      rcases List.mem_cons.mp member with rfl | later
      · exact along.1
      · exact ih (along.2 s' stepped) later

theorem invariant_along_of_mem_transitions {step : State → Event → Option State} {ok : State → Event → Prop}
    {Inv : State → Prop} (preserved : ∀ s e s', Inv s → ok s e → step s e = some s' → Inv s') {s : State}
    {events : List Event} {t : State × Event × State} (start : Inv s) (along : Along step ok s events)
    (member : t ∈ transitions step s events) : Inv t.1 := by
  induction events generalizing s with
  | nil => cases member
  | cons e events ih =>
    unfold transitions at member
    split at member
    next => cases member
    next s' stepped =>
      rcases List.mem_cons.mp member with rfl | later
      · exact start
      · exact ih (preserved s e s' start along.1 stepped) (along.2 s' stepped) later

/-- The states of a run that never ends, of a system whose every step is enabled. -/
def trace (step : State → Event → State) (start : State) (events : Nat → Event) : Nat → State
  | 0 => start
  | n + 1 => step (trace step start events n) (events n)

end Leviculum.Execution
