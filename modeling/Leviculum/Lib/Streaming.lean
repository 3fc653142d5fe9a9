import Mathlib.Data.List.Basic

/-! Streams read a buffer at a time. What a state has still to yield is told by a relation that a read keeps: it
takes a part off the front. -/

namespace Leviculum.Streaming

variable {State Error α : Type}

/-- A read into a buffer with this much room. -/
abbrev Read (State Error α : Type) := State → Nat → Except Error (List α × State)

/-- Reads into buffers of the given sizes, one after another. -/
def reads (read : Read State Error α) : List Nat → State → Except Error (List (List α) × State)
  | [], state => .ok ([], state)
  | room :: rooms, state => do
    let (chunk, next) ← read state room
    let (chunks, after) ← reads read rooms next
    return (chunk :: chunks, after)

def passes (read : Read State Error α) (rewind : State → Except Error State) :
    List (List Nat) → State → Except Error State
  | [], state => .ok state
  | rooms :: later, state => do
    let (_, after) ← reads read rooms state
    let start ← rewind after
    passes read rewind later start

/-- A read without room does nothing; one with room takes a part off the front, and nothing only at the end. -/
structure Emits (read : Read State Error α) (Left : State → List α → Prop) : Prop where
  idle : ∀ state left, Left state left → read state 0 = .ok ([], state)
  step : ∀ state left room, 0 < room → Left state left → ∃ chunk after rest,
    read state room = .ok (chunk, after) ∧ left = chunk ++ rest ∧ Left after rest ∧ chunk.length ≤ room ∧
      (chunk = [] → rest = [])

/-- What the reads of one pass make of the stream: a part off its front, the whole of it as soon as a read with
room gives nothing or there were as many reads with room as the stream has entries. -/
structure Yields (stream : List α) (rooms : List Nat) (chunks : List (List α)) (rest : List α) : Prop where
  parts : stream = chunks.flatten ++ rest
  count : chunks.length = rooms.length
  within : ∀ pair ∈ rooms.zip chunks, pair.2.length ≤ pair.1
  ended : ∀ pair ∈ rooms.zip chunks, 0 < pair.1 → pair.2 = [] → rest = []
  whole : stream.length ≤ (rooms.filter (0 < ·)).length → rest = []

/-- On every pass, whatever the earlier ones read, the reads yield the stream. -/
def Serves (read : Read State Error α) (rewind : State → Except Error State) (start : State) (stream : List α) : Prop :=
  ∀ (earlier : List (List Nat)) (rooms : List Nat), ∃ state chunks after rest,
    passes read rewind earlier start = .ok state ∧ reads read rooms state = .ok (chunks, after) ∧
      Yields stream rooms chunks rest

theorem yields_nil (stream : List α) : Yields stream [] [] stream where
  parts := rfl
  count := rfl
  within := nofun
  ended := nofun
  whole := fun short => List.length_eq_zero_iff.mp (Nat.le_zero.mp short)

theorem Yields.cons {stream left rest : List α} {rooms : List Nat} {chunks : List (List α)} {room : Nat} {chunk : List α}
    (yields : Yields left rooms chunks rest) (parts : stream = chunk ++ left) (short : chunk.length ≤ room)
    (ended : 0 < room → chunk = [] → left = []) : Yields stream (room :: rooms) (chunk :: chunks) rest where
  parts := by rw [parts, yields.parts, List.flatten_cons, List.append_assoc]
  count := congrArg (· + 1) yields.count
  within := by
    rw [List.zip_cons_cons, List.forall_mem_cons]
    exact ⟨short, yields.within⟩
  ended := by
    rw [List.zip_cons_cons, List.forall_mem_cons]
    refine ⟨fun room empty => ?_, yields.ended⟩
    have none := yields.parts
    rw [ended room empty] at none
    exact (List.append_eq_nil_iff.mp none.symm).2
  whole := by
    intro enough
    by_cases idle : room = 0
    · subst idle
      have empty : chunk = [] := List.length_eq_zero_iff.mp (Nat.le_zero.mp short)
      rw [parts, empty, List.nil_append] at enough
      exact yields.whole enough
    · rw [List.filter_cons_of_pos (by simpa using Nat.pos_of_ne_zero idle), List.length_cons, parts,
        List.length_append] at enough
      by_cases empty : chunk = []
      · have none := yields.parts
        rw [ended (Nat.pos_of_ne_zero idle) empty] at none
        exact (List.append_eq_nil_iff.mp none.symm).2
      · have some := List.length_pos_iff.mpr empty
        exact yields.whole (by omega)

theorem Emits.reads_yield {read : Read State Error α} {Left : State → List α → Prop} (emits : Emits read Left)
    (rooms : List Nat) {state : State} {left : List α} (here : Left state left) :
    ∃ chunks after rest, reads read rooms state = .ok (chunks, after) ∧ Yields left rooms chunks rest ∧
      Left after rest := by
  induction rooms generalizing state left with
  | nil => exact ⟨[], state, left, rfl, yields_nil left, here⟩
  | cons room rooms ih =>
    unfold reads
    by_cases idle : room = 0
    · subst idle
      obtain ⟨chunks, after, rest, ran, yields, there⟩ := ih here
      refine ⟨[] :: chunks, after, rest, ?_, yields.cons rfl (Nat.le_refl _) (fun room => absurd room (Nat.lt_irrefl 0)),
        there⟩
      rw [emits.idle state left here]
      simp only [bind, Except.bind, ran, pure, Except.pure]
    · obtain ⟨chunk, next, later, went, parts, there, short, ended⟩ :=
        emits.step state left room (Nat.pos_of_ne_zero idle) here
      obtain ⟨chunks, after, rest, ran, yields, final⟩ := ih there
      refine ⟨chunk :: chunks, after, rest, ?_, yields.cons parts short (fun _ => ended), final⟩
      rw [went]
      simp only [bind, Except.bind, ran, pure, Except.pure]

theorem Emits.serves {read : Read State Error α} {Left : State → List α → Prop} (emits : Emits read Left)
    {rewind : State → Except Error State} {start : State} {stream : List α} (fresh : Left start stream)
    (rewinds : ∀ state left, Left state left → ∃ again, rewind state = .ok again ∧ Left again stream) :
    Serves read rewind start stream := by
  intro earlier
  induction earlier generalizing start with
  | nil =>
    intro rooms
    obtain ⟨chunks, after, rest, ran, yields, -⟩ := emits.reads_yield rooms fresh
    exact ⟨start, chunks, after, rest, rfl, ran, yields⟩
  | cons first later ih =>
    intro rooms
    obtain ⟨_, after, rest, ran, -, there⟩ := emits.reads_yield first fresh
    obtain ⟨again, rewound, anew⟩ := rewinds after rest there
    obtain ⟨state, chunks, last, left, went, read', yields⟩ := ih anew rooms
    refine ⟨state, chunks, last, left, ?_, read', yields⟩
    unfold passes
    simp only [bind, Except.bind, ran, rewound, went]

theorem cut {entries : List α} {pos room : Nat} (inside : pos < entries.length) (some : 0 < room) :
    entries.drop pos = (entries.drop pos).take (min room (entries.length - pos)) ++
        entries.drop (pos + min room (entries.length - pos)) ∧
      ((entries.drop pos).take (min room (entries.length - pos))).length ≤ room ∧
      (entries.drop pos).take (min room (entries.length - pos)) ≠ [] := by
  have size : ((entries.drop pos).take (min room (entries.length - pos))).length = min room (entries.length - pos) := by
    rw [List.length_take, List.length_drop]
    omega
  refine ⟨?_, ?_, ?_⟩
  · rw [← List.drop_drop, List.take_append_drop]
  · rw [size]
    exact Nat.min_le_left _ _
  · intro none
    rw [none, List.length_nil] at size
    omega

/-! ### A read that loops -/

/-- One turn of a loop: on from another state, or a chunk to return. -/
inductive Turn (State α : Type) where
  | again (state : State)
  | done (chunk : List α) (state : State)

/-- Turns until one returns. The measure tells why that happens. -/
def loop (turn : State → Except Error (Turn State α)) (measure : State → Nat)
    (shrinks : ∀ state next, turn state = .ok (.again next) → measure next < measure state) (state : State) :
    Except Error (List α × State) :=
  match went : turn state with
  | .error error => .error error
  | .ok (.done chunk after) => .ok (chunk, after)
  | .ok (.again next) => loop turn measure shrinks next
termination_by measure state
decreasing_by exact shrinks state next went

theorem loop_returns {turn : State → Except Error (Turn State α)} {measure : State → Nat}
    {shrinks : ∀ state next, turn state = .ok (.again next) → measure next < measure state} (Kept : State → Prop)
    {Given : List α → State → Prop}
    (each : ∀ state, Kept state → (∃ next, turn state = .ok (.again next) ∧ Kept next) ∨
      ∃ chunk after, turn state = .ok (.done chunk after) ∧ Given chunk after)
    (state : State) (kept : Kept state) :
    ∃ chunk after, loop turn measure shrinks state = .ok (chunk, after) ∧ Given chunk after := by
  induction size : measure state using Nat.strongRecOn generalizing state with
  | _ size ih =>
    unfold loop
    rcases each state kept with ⟨next, went, kept'⟩ | ⟨chunk, after, went, given⟩
    · obtain ⟨chunk, after, ran, given⟩ := ih (measure next) (by rw [← size]; exact shrinks state next went) next kept' rfl
      refine ⟨chunk, after, ?_, given⟩
      split
      next error failed =>
        rw [went] at failed
        cases failed
      next chunk' after' ended =>
        rw [went] at ended
        cases ended
      next next' on =>
        rw [went] at on
        cases on
        exact ran
    · refine ⟨chunk, after, ?_, given⟩
      split
      next error failed =>
        rw [went] at failed
        cases failed
      next chunk' after' ended =>
        rw [went] at ended
        cases ended
        rfl
      next next' on =>
        rw [went] at on
        cases on

end Leviculum.Streaming
