import Leviculum.Lib.Bytes
import Leviculum.Lib.Fallible

/-! Automata that read a stream and emit at most one output for each input, and writers that fill a
buffer of fixed length. -/

namespace Leviculum.Wire

section Automaton

variable {State Input Output : Type*}

/-- Feed a list of inputs; the outputs, in order, and the state after the last input. -/
def feed (step : State → Input → Option Output × State) : State → List Input → List Output × State
  | state, [] => ([], state)
  | state, input :: rest =>
    let (output, next) := step state input
    let (outputs, last) := feed step next rest
    (output.toList ++ outputs, last)

def feedAll (step : State → Input → Option Output × State) : State → List (List Input) → List Output × State
  | state, [] => ([], state)
  | state, chunk :: chunks =>
    let (outputs, next) := feed step state chunk
    let (more, last) := feedAll step next chunks
    (outputs ++ more, last)

variable {step : State → Input → Option Output × State}

theorem feed_cons (state : State) (input : Input) (rest : List Input) :
    feed step state (input :: rest) =
      ((step state input).1.toList ++ (feed step (step state input).2 rest).1,
        (feed step (step state input).2 rest).2) := rfl

theorem feed_append (state : State) (first second : List Input) :
    feed step state (first ++ second) =
      ((feed step state first).1 ++ (feed step (feed step state first).2 second).1,
        (feed step (feed step state first).2 second).2) := by
  induction first generalizing state with
  | nil => rfl
  | cons input rest ih => simp only [List.cons_append, feed_cons, ih, List.append_assoc]

theorem feedAll_eq (state : State) (chunks : List (List Input)) :
    feedAll step state chunks = feed step state chunks.flatten := by
  induction chunks generalizing state with
  | nil => rfl
  | cons chunk chunks ih => simp only [feedAll, List.flatten_cons, feed_append, ih]

theorem feed_invariant (Inv : State → Prop) (kept : ∀ state input, Inv state → Inv (step state input).2)
    {state : State} (start : Inv state) (inputs : List Input) : Inv (feed step state inputs).2 := by
  induction inputs generalizing state with
  | nil => exact start
  | cons input rest ih => exact ih (kept state input start)

theorem feed_cons_silent {state next : State} {input : Input} {rest : List Input}
    (silent : step state input = (none, next)) : feed step state (input :: rest) = feed step next rest := by
  simp only [feed_cons, silent, Option.toList_none, List.nil_append]

theorem feed_cons_emit {state next : State} {input : Input} {rest : List Input} {output : Output}
    (emits : step state input = (some output, next)) :
    feed step state (input :: rest) = (output :: (feed step next rest).1, (feed step next rest).2) := by
  simp only [feed_cons, emits, Option.toList_some, List.singleton_append]

end Automaton

/-! ### Writing into a slice -/

open Fallible

/-- A buffer and the position of the next byte to write. -/
structure Cursor where
  output : Bytes
  pos : Nat

namespace Cursor

abbrev Writing := Program Cursor Unit Unit

/-- Write one byte, or fail when the buffer is full. -/
def push (byte : UInt8) : Writing := do
  let cursor ← get
  if cursor.pos < cursor.output.length then
    modify fun cursor => ⟨cursor.output.set cursor.pos byte, cursor.pos + 1⟩
  else throw ()

/-- Run a writer on a whole slice: the number of bytes written when it went well, and the slice after it. -/
def runOn (writing : Writing) (output : Bytes) : Option Nat × Bytes :=
  match exec writing ⟨output, 0⟩ with
  | (.ok (), cursor) => (some cursor.pos, cursor.output)
  | (.error (), cursor) => (none, cursor.output)

/-- The slice with `bytes` from the position on. -/
def written (cursor : Cursor) (bytes : Bytes) : Cursor :=
  ⟨cursor.output.take cursor.pos ++ bytes ++ cursor.output.drop (cursor.pos + bytes.length),
    cursor.pos + bytes.length⟩

/-- A writer that puts these bytes, and fails exactly when they do not fit. -/
def Puts (writing : Writing) (bytes : Bytes) : Prop :=
  ∀ cursor : Cursor, cursor.pos ≤ cursor.output.length →
    (cursor.pos + bytes.length ≤ cursor.output.length → exec writing cursor = (.ok (), cursor.written bytes)) ∧
    (cursor.output.length < cursor.pos + bytes.length → ∃ after, exec writing cursor = (.error (), after))

theorem puts_pure : Puts (pure ()) [] := by
  intro cursor inside
  refine ⟨fun _ => ?_, fun full => absurd full (by simp; omega)⟩
  simp [written]

theorem puts_push (byte : UInt8) : Puts (push byte) [byte] := by
  intro cursor inside
  refine ⟨fun fits => ?_, fun full => ?_⟩
  · have room : cursor.pos < cursor.output.length := fits
    have set : cursor.output.set cursor.pos byte =
        cursor.output.take cursor.pos ++ [byte] ++ cursor.output.drop (cursor.pos + 1) := by
      rw [List.set_eq_take_append_cons_drop, if_pos room, List.append_assoc]
      rfl
    simp only [push, exec_get_bind, if_pos room, exec_modify, set, written, List.length_singleton]
  · have none_ : ¬ cursor.pos < cursor.output.length := by
      simp only [List.length_singleton] at full
      omega
    exact ⟨cursor, by simp only [push, exec_get_bind, if_neg none_, exec_throw]⟩

theorem length_written (cursor : Cursor) {bytes : Bytes} (fits : cursor.pos + bytes.length ≤ cursor.output.length) :
    (cursor.written bytes).output.length = cursor.output.length := by
  simp only [written, List.length_append, List.length_take, List.length_drop]
  omega

theorem written_written (cursor : Cursor) {first second : Bytes}
    (fits : cursor.pos + first.length ≤ cursor.output.length) :
    (cursor.written first).written second = cursor.written (first ++ second) := by
  have start : (cursor.output.take cursor.pos ++ first).length = cursor.pos + first.length := by
    rw [List.length_append, List.length_take]
    omega
  have front : (cursor.output.take cursor.pos ++ first ++ cursor.output.drop (cursor.pos + first.length)).take
      (cursor.pos + first.length) = cursor.output.take cursor.pos ++ first := by
    rw [← start, List.take_left]
  have back : (cursor.output.take cursor.pos ++ first ++ cursor.output.drop (cursor.pos + first.length)).drop
      (cursor.pos + first.length + second.length) = cursor.output.drop (cursor.pos + first.length + second.length) := by
    rw [← start, ← List.drop_drop, List.drop_left, List.drop_drop]
  unfold written
  dsimp only
  rw [front, back, List.length_append, Nat.add_assoc, List.append_assoc _ first second]

theorem Puts.andThen {first second : Writing} {bytes more : Bytes} (puts : Puts first bytes) (later : Puts second more) :
    Puts (first >>= fun _ => second) (bytes ++ more) := by
  intro cursor inside
  obtain ⟨fits, full⟩ := puts cursor inside
  by_cases room : cursor.pos + bytes.length ≤ cursor.output.length
  · have place : (cursor.written bytes).pos ≤ (cursor.written bytes).output.length := by
      rw [length_written cursor room]
      exact room
    obtain ⟨fits', full'⟩ := later (cursor.written bytes) place
    rw [length_written cursor room] at fits' full'
    rw [exec_bind_ok (fits room), List.length_append, ← Nat.add_assoc]
    refine ⟨fun all => ?_, fun all => full' all⟩
    rw [fits' all, written_written cursor room]
  · refine ⟨fun all => absurd all (by rw [List.length_append]; omega), fun _ => ?_⟩
    obtain ⟨after, failed⟩ := full (by omega)
    exact ⟨after, exec_bind_error failed _⟩

theorem Puts.runOn {writing : Writing} {bytes : Bytes} (puts : Puts writing bytes) (output : Bytes) :
    (bytes.length ≤ output.length →
      Cursor.runOn writing output = (some bytes.length, bytes ++ output.drop bytes.length)) ∧
    (output.length < bytes.length → (Cursor.runOn writing output).1 = none) := by
  obtain ⟨fits, full⟩ := puts ⟨output, 0⟩ (Nat.zero_le _)
  simp only [Nat.zero_add] at fits full
  refine ⟨fun room => ?_, fun short => ?_⟩
  · simp [Cursor.runOn, fits room, written]
  · obtain ⟨after, failed⟩ := full short
    simp [Cursor.runOn, failed]

end Cursor

end Leviculum.Wire
