import Mathlib.Algebra.Group.Nat.Defs
import Mathlib.Logic.Relation

/-! Programs over a state that survives their errors. What a program does to the state is told by a step
relation: it moves along a path of steps, whether or not it fails on the way. -/

namespace Leviculum.Fallible

open Relation (ReflTransGen)

variable {State Error Value Result : Type}

abbrev Program (State Error : Type) := ExceptT Error (StateM State)

def exec (program : Program State Error Value) (state : State) : Except Error Value × State :=
  StateT.run (ExceptT.run program) state

@[simp] theorem exec_pure (value : Value) (state : State) :
    exec (pure value : Program State Error Value) state = (.ok value, state) := rfl

@[simp] theorem exec_throw (error : Error) (state : State) :
    exec (throw error : Program State Error Value) state = (.error error, state) := rfl

@[simp] theorem exec_get (state : State) : exec (get : Program State Error State) state = (.ok state, state) := rfl

@[simp] theorem exec_modify (write : State → State) (state : State) :
    exec (modify write : Program State Error Unit) state = (.ok (), write state) := rfl

@[simp] theorem exec_modifyGet (write : State → Value × State) (state : State) :
    exec (modifyGet write : Program State Error Value) state = (.ok (write state).1, (write state).2) := rfl

theorem exec_bind_ok {program : Program State Error Value} {state after : State} {value : Value}
    (ok : exec program state = (.ok value, after)) (next : Value → Program State Error Result) :
    exec (program >>= next) state = exec (next value) after := by
  have run : exec (program >>= next) state = exec (ExceptT.mk (ExceptT.bindCont next (exec program state).1))
    (exec program state).2 := rfl
  rw [run, ok]
  rfl

theorem exec_bind_error {program : Program State Error Value} {state after : State} {error : Error}
    (fails : exec program state = (.error error, after)) (next : Value → Program State Error Result) :
    exec (program >>= next) state = (.error error, after) := by
  have run : exec (program >>= next) state = exec (ExceptT.mk (ExceptT.bindCont next (exec program state).1))
    (exec program state).2 := rfl
  rw [run, fails]
  rfl

@[simp] theorem exec_get_bind (next : State → Program State Error Result) (state : State) :
    exec (get >>= next) state = exec (next state) state := exec_bind_ok rfl next

@[simp] theorem exec_modify_bind (write : State → State) (next : Unit → Program State Error Result) (state : State) :
    exec (modify write >>= next) state = exec (next ()) (write state) := exec_bind_ok rfl next

@[simp] theorem exec_modifyGet_bind (write : State → Value × State) (next : Value → Program State Error Result)
    (state : State) : exec (modifyGet write >>= next) state = exec (next (write state).1) (write state).2 :=
  exec_bind_ok rfl next

@[simp] theorem exec_pure_bind (value : Value) (next : Value → Program State Error Result) (state : State) :
    exec (pure value >>= next) state = exec (next value) state := exec_bind_ok rfl next

theorem bind_eq_ok {program : Program State Error Value} {next : Value → Program State Error Result}
    {state after : State} {result : Result} (ok : exec (program >>= next) state = (.ok result, after)) :
    ∃ value middle, exec program state = (.ok value, middle) ∧ exec (next value) middle = (.ok result, after) := by
  rcases first : exec program state with ⟨outcome, middle⟩
  cases outcome with
  | error error =>
    rw [exec_bind_error first] at ok
    cases ok
  | ok value =>
    rw [exec_bind_ok first] at ok
    exact ⟨value, middle, rfl, ok⟩

/-- From `state` the program takes a path of steps. -/
def MovesFrom (step : State → State → Prop) (program : Program State Error Value) (state : State) : Prop :=
  ReflTransGen step state (exec program state).2

namespace MovesFrom

variable {step : State → State → Prop} {state : State}

theorem ofPure (value : Value) : MovesFrom step (pure value : Program State Error Value) state := ReflTransGen.refl

theorem ofThrow (error : Error) : MovesFrom step (throw error : Program State Error Value) state :=
  ReflTransGen.refl

theorem ofModify {write : State → State} (path : ReflTransGen step state (write state)) :
    MovesFrom step (modify write : Program State Error Unit) state := path

theorem afterGet {next : State → Program State Error Result} (path : MovesFrom step (next state) state) :
    MovesFrom step (get >>= next) state := by
  unfold MovesFrom
  rw [exec_get_bind]
  exact path

theorem andThen {program : Program State Error Value} {next : Value → Program State Error Result}
    (first : MovesFrom step program state)
    (rest : ∀ value after, exec program state = (.ok value, after) → MovesFrom step (next value) after) :
    MovesFrom step (program >>= next) state := by
  unfold MovesFrom at first ⊢
  rcases outcome : exec program state with ⟨result, middle⟩
  rw [outcome] at first
  cases result with
  | error error =>
    rw [exec_bind_error outcome]
    exact first
  | ok value =>
    rw [exec_bind_ok outcome]
    exact first.trans (rest value middle outcome)

theorem mono {wider : State → State → Prop} {program : Program State Error Value}
    (path : MovesFrom step program state) (wide : ∀ a b, step a b → wider a b) : MovesFrom wider program state :=
  ReflTransGen.mono wide _ _ path

theorem afterModify {write : State → State} {next : Unit → Program State Error Result}
    (path : ReflTransGen step state (write state)) (rest : MovesFrom step (next ()) (write state)) :
    MovesFrom step (modify write >>= next) state := by
  unfold MovesFrom
  rw [exec_modify_bind]
  exact path.trans rest

theorem ofIf {condition : Prop} [Decidable condition] {program other : Program State Error Value}
    (yes : condition → MovesFrom step program state) (no : ¬condition → MovesFrom step other state) :
    MovesFrom step (if condition then program else other) state := by
  split
  next holds => exact yes holds
  next fails => exact no fails

theorem branch {condition : Prop} [Decidable condition] {write : State → State}
    {next : Unit → Program State Error Result} (path : ReflTransGen step state (write state))
    (rest : ∀ after, MovesFrom step (next ()) after) :
    MovesFrom step (if condition then modify write >>= next else next ()) state := by
  split
  · exact afterModify path (rest _)
  · exact rest state

end MovesFrom

def FailsAlong (step : State → State → Prop) (program : Program State Error Value) (state : State) : Prop :=
  ∀ error after, exec program state = (.error error, after) → ReflTransGen step state after

namespace FailsAlong

variable {step : State → State → Prop} {state : State}

theorem ofMoves {program : Program State Error Value} (path : MovesFrom step program state) :
    FailsAlong step program state := by
  intro error after failed
  have reached : ReflTransGen step state (exec program state).2 := path
  rw [failed] at reached
  exact reached

theorem ofPure (value : Value) : FailsAlong step (pure value : Program State Error Value) state := nofun

theorem ofModify (write : State → State) : FailsAlong step (modify write : Program State Error Unit) state := nofun

theorem afterGet {next : State → Program State Error Result} (rest : FailsAlong step (next state) state) :
    FailsAlong step (get >>= next) state := by
  intro error after failed
  rw [exec_get_bind] at failed
  exact rest error after failed

theorem andThen {program : Program State Error Value} {next : Value → Program State Error Result}
    (first : MovesFrom step program state)
    (rest : ∀ value after, exec program state = (.ok value, after) → FailsAlong step (next value) after) :
    FailsAlong step (program >>= next) state := by
  intro error after failed
  have reached : ReflTransGen step state (exec program state).2 := first
  rcases outcome : exec program state with ⟨result, middle⟩
  rw [outcome] at reached
  cases result with
  | error early =>
    rw [exec_bind_error outcome] at failed
    exact (Prod.mk.inj failed).2 ▸ reached
  | ok value =>
    rw [exec_bind_ok outcome] at failed
    exact reached.trans (rest value middle outcome error after failed)

theorem beforeSafe {write : State → State} {next : Unit → Program State Error Result}
    (safe : ∀ error after, exec (next ()) (write state) ≠ (.error error, after)) :
    FailsAlong step (modify write >>= next) state := by
  intro error after failed
  rw [exec_modify_bind] at failed
  exact absurd failed (safe error after)

end FailsAlong

/-- The program does not fail from `state`. -/
def Succeeds (program : Program State Error Value) (state : State) : Prop := ∃ value, (exec program state).1 = .ok value

namespace Succeeds

variable {state : State}

theorem ofPure (value : Value) : Succeeds (pure value : Program State Error Value) state := ⟨value, rfl⟩

theorem ofModify (write : State → State) : Succeeds (modify write : Program State Error Unit) state := ⟨(), rfl⟩

theorem not_throw (error : Error) : ¬Succeeds (throw error : Program State Error Value) state := by
  rintro ⟨value, ok⟩
  cases ok

theorem get_bind_iff {next : State → Program State Error Result} :
    Succeeds (get >>= next) state ↔ Succeeds (next state) state := by
  unfold Succeeds
  rw [exec_get_bind]

theorem modify_bind_iff {write : State → State} {next : Unit → Program State Error Result} :
    Succeeds (modify write >>= next) state ↔ Succeeds (next ()) (write state) := by
  unfold Succeeds
  rw [exec_modify_bind]

theorem bind_iff {program : Program State Error Value} {after : State} {value : Value}
    (ok : exec program state = (.ok value, after)) {next : Value → Program State Error Result} :
    Succeeds (program >>= next) state ↔ Succeeds (next value) after := by
  unfold Succeeds
  rw [exec_bind_ok ok]

theorem not_bind {program : Program State Error Value} {after : State} {error : Error}
    (failed : exec program state = (.error error, after)) (next : Value → Program State Error Result) :
    ¬Succeeds (program >>= next) state := by
  rintro ⟨value, ok⟩
  rw [exec_bind_error failed] at ok
  cases ok

theorem andThen {program : Program State Error Value} {next : Value → Program State Error Result}
    (first : Succeeds program state)
    (rest : ∀ value after, exec program state = (.ok value, after) → Succeeds (next value) after) :
    Succeeds (program >>= next) state := by
  obtain ⟨value, ok⟩ := first
  have ran : exec program state = (.ok value, (exec program state).2) := by rw [← ok]
  exact (bind_iff ran).mpr (rest value _ ran)

theorem no_error {program : Program State Error Value} (succeeds : Succeeds program state) (error : Error) (after : State) :
    exec program state ≠ (.error error, after) := by
  intro failed
  obtain ⟨value, ok⟩ := succeeds
  rw [failed] at ok
  cases ok

end Succeeds

end Leviculum.Fallible
