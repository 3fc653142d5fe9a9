import Leviculum.Lib.Streaming
import Leviculum.Propagation.Envelope
import Leviculum.Propagation.Get
import Leviculum.Propagation.OfferSpec
import Leviculum.Resource.Message

/-! Messages served out of the store a buffer at a time: the batch of a peer sync, and the answer to a fetch. -/

namespace Leviculum

namespace Msgpack

/-- The bytes `array_header_bytes` uses. -/
def arrayHeaderBytes (count : Nat) : Bytes :=
  if count < 16 then [0x90 ||| UInt8.ofNat count]
  else if count < 65536 then 0xdc :: Bytes.be 2 count
  else 0xdd :: Bytes.be 4 count

/-- The bytes `bin_header_bytes` uses. -/
def binHeaderBytes (length : Nat) : Bytes :=
  if length < 256 then [0xc4, UInt8.ofNat length]
  else if length < 65536 then 0xc5 :: Bytes.be 2 length
  else 0xc6 :: Bytes.be 4 length

end Msgpack

namespace Propagation

open Resource (SourceError)
open Streaming (Turn)

/-- A body from byte `offset`, as much as fits. -/
def copyFrom (body : Bytes) (offset room : Nat) : Bytes := (body.drop offset).take room

abbrev Bodies := TransientId → Option Bytes

def Bodies.readBodyAt (bodies : Bodies) (id : TransientId) (offset room : Nat) : Option Bytes :=
  (bodies id).map (fun body => copyFrom body offset room)

/-! ### A peer sync -/

structure SyncSource where
  metadata : List StoredMessage
  bodies : Bodies
  plan : OfferPlan
  wanted : WantedIds
  batch : SyncBatch
  head : Bytes

namespace SyncSource

/-- What a read changes. -/
structure State where
  headPos : Nat
  index : Nat
  started : Nat
  recordHeader : Bytes
  recordPos : Nat
  body : Option (TransientId × Nat)
  bodyPos : Nat

def new (metadata : List StoredMessage) (bodies : Bodies) (plan : OfferPlan) (wanted : WantedIds) (batch : SyncBatch)
    (timestamp : UInt64) : SyncSource where
  metadata := metadata
  bodies := bodies
  plan := plan
  wanted := wanted
  batch := batch
  head := [0x92, 0xcb] ++ Bytes.be 8 timestamp.toNat ++ Msgpack.arrayHeaderBytes batch.count

def fresh : State where
  headPos := 0
  index := 0
  started := 0
  recordHeader := []
  recordPos := 0
  body := none
  bodyPos := 0

/-- The next wanted id of the walk that the store holds, with its size, and the index behind it. -/
def scan (source : SyncSource) : List TransientId → Nat → Option ((TransientId × Nat) × Nat)
  | [], _ => none
  | id :: rest, index =>
    if source.wanted.wants id = false then source.scan rest (index + 1)
    else
      match metaOf source.metadata id with
      | none => source.scan rest (index + 1)
      | some found => some ((id, found.size), index + 1)

/-- Find the next body of the batch and frame it; nothing at the end. -/
def load (source : SyncSource) (state : State) : Except SourceError (Option State) :=
  if state.started ≥ source.batch.count then .ok none
  else
    match source.scan ((source.plan.ids.take source.batch.stop).drop state.index) state.index with
    | none => .error .lengthChanged
    | some (body, index) =>
      .ok (some { state with
        index := index
        started := state.started + 1
        recordHeader := Msgpack.binHeaderBytes body.2
        recordPos := 0
        body := some body
        bodyPos := 0 })

def totalLen (source : SyncSource) : Nat := source.batch.encodedLen

def rewind (state : State) : Except SourceError State :=
  .ok { state with
    headPos := 0
    index := 0
    started := 0
    recordHeader := []
    recordPos := 0
    body := none
    bodyPos := 0 }

/-- One turn of the loop in `read`. -/
def turn (source : SyncSource) (room : Nat) (state : State) : Except SourceError (Turn State UInt8) :=
  if state.headPos < source.head.length then
    let take := min room (source.head.length - state.headPos)
    .ok (.done ((source.head.drop state.headPos).take take) { state with headPos := state.headPos + take })
  else
    match state.body with
    | none =>
      match source.load state with
      | .error error => .error error
      | .ok none => .ok (.done [] state)
      | .ok (some loaded) => .ok (.again loaded)
    | some (id, size) =>
      if state.recordPos < state.recordHeader.length then
        let take := min room (state.recordHeader.length - state.recordPos)
        .ok (.done ((state.recordHeader.drop state.recordPos).take take)
          { state with recordPos := state.recordPos + take })
      else if state.bodyPos < size then
        let want := min room (size - state.bodyPos)
        match source.bodies.readBodyAt id state.bodyPos want with
        | none => .error .unavailable
        | some copied =>
          if copied = [] then .error .lengthChanged
          else .ok (.done copied { state with bodyPos := state.bodyPos + copied.length })
      else .ok (.again { state with body := none })

/-- Twice the ids still to walk, and one for a body under way. -/
def measure (source : SyncSource) (state : State) : Nat :=
  2 * (source.batch.stop - state.index) + if state.body.isSome then 1 else 0

theorem scan_index (source : SyncSource) (ids : List TransientId) (index : Nat) {body : TransientId × Nat} {next : Nat}
    (found : source.scan ids index = some (body, next)) : index < next ∧ next ≤ index + ids.length := by
  induction ids generalizing index with
  | nil => cases found
  | cons id rest ih =>
    have later : source.scan rest (index + 1) = some (body, next) → index < next ∧ next ≤ index + (id :: rest).length := by
      intro found
      have bounds := ih (index + 1) found
      rw [List.length_cons]
      omega
    unfold scan at found
    split at found
    · exact later found
    · split at found
      · exact later found
      · cases found
        rw [List.length_cons]
        omega

theorem turn_shrinks (source : SyncSource) (room : Nat) (state next : State)
    (went : source.turn room state = .ok (.again next)) : source.measure next < source.measure state := by
  unfold turn at went
  split at went
  · cases went
  · split at went
    next none =>
      split at went
      · cases went
      · cases went
      next loaded ok =>
        cases went
        unfold load at ok
        split at ok
        · cases ok
        · split at ok
          · cases ok
          next body index found =>
            cases ok
            have bounds := source.scan_index _ _ found
            rw [List.length_drop, List.length_take] at bounds
            unfold measure
            rw [none]
            simp only [Option.isSome_some, Option.isSome_none, if_true, Bool.false_eq_true, if_false]
            omega
    next id size some =>
      split at went
      · cases went
      · split at went
        · dsimp only at went
          split at went
          · cases went
          · split at went
            · cases went
            · cases went
        · cases went
          unfold measure
          rw [some]
          simp only [Option.isSome_some, Option.isSome_none, if_true, Bool.false_eq_true, if_false]
          omega

def read (source : SyncSource) (state : State) (room : Nat) : Except SourceError (Bytes × State) :=
  if room = 0 then .ok ([], state)
  else Streaming.loop (source.turn room) source.measure (source.turn_shrinks room) state

end SyncSource

/-! ### A fetch -/

structure FetchSource where
  bodies : Bodies
  plan : FetchPlan
  arrayHeader : Bytes

namespace FetchSource

/-- What a read changes. -/
structure State where
  arrayPos : Nat
  index : Nat
  recordHeader : Bytes
  recordPos : Nat
  bodyPos : Nat

def new (bodies : Bodies) (plan : FetchPlan) : FetchSource where
  bodies := bodies
  plan := plan
  arrayHeader := Msgpack.arrayHeaderBytes plan.served.length

def fresh : State where
  arrayPos := 0
  index := 0
  recordHeader := []
  recordPos := 0
  bodyPos := 0

/-- Check the stored length of a body before its framing goes out. -/
def load (source : FetchSource) (state : State) (id : TransientId) (servable : Nat) : Except SourceError State :=
  match source.bodies.readBodyAt id servable (stampSize + 1) with
  | none => .error .unavailable
  | some tail =>
    if tail.length ≠ stampSize then .error .lengthChanged
    else .ok { state with recordHeader := Msgpack.binHeaderBytes servable, recordPos := 0, bodyPos := 0 }

def totalLen (source : FetchSource) : Nat := source.plan.encodedLen

def rewind (_ : State) : Except SourceError State := .ok fresh

def turnLoaded (source : FetchSource) (room : Nat) (id : TransientId) (servable : Nat) (state : State) :
    Except SourceError (Turn State UInt8) :=
  if state.recordPos < state.recordHeader.length then
    let take := min room (state.recordHeader.length - state.recordPos)
    .ok (.done ((state.recordHeader.drop state.recordPos).take take) { state with recordPos := state.recordPos + take })
  else if state.bodyPos < servable then
    let want := min room (servable - state.bodyPos)
    match source.bodies.readBodyAt id state.bodyPos want with
    | none => .error .unavailable
    | some copied =>
      if copied = [] ∨ copied.length > want then .error .lengthChanged
      else .ok (.done copied { state with bodyPos := state.bodyPos + copied.length })
  else .ok (.again { state with index := state.index + 1, recordHeader := [], recordPos := 0, bodyPos := 0 })

/-- One turn of the loop in `read`. -/
def turn (source : FetchSource) (room : Nat) (state : State) : Except SourceError (Turn State UInt8) :=
  if state.arrayPos < source.arrayHeader.length then
    let take := min room (source.arrayHeader.length - state.arrayPos)
    .ok (.done ((source.arrayHeader.drop state.arrayPos).take take) { state with arrayPos := state.arrayPos + take })
  else
    match source.plan.served[state.index]? with
    | none => .ok (.done [] state)
    | some (id, servable) =>
      match if state.recordHeader = [] then source.load state id servable else .ok state with
      | .error error => .error error
      | .ok loaded => source.turnLoaded room id servable loaded

def measure (source : FetchSource) (state : State) : Nat := source.plan.served.length - state.index

theorem load_index {source : FetchSource} {state loaded : State} {id : TransientId} {servable : Nat}
    (ok : source.load state id servable = .ok loaded) : loaded.index = state.index := by
  unfold load at ok
  split at ok
  · cases ok
  · split at ok
    · cases ok
    · cases ok
      rfl

theorem turnLoaded_again {source : FetchSource} {room servable : Nat} {id : TransientId} {state next : State}
    (went : source.turnLoaded room id servable state = .ok (.again next)) : next.index = state.index + 1 := by
  unfold turnLoaded at went
  split at went
  · cases went
  · split at went
    · dsimp only at went
      split at went
      · cases went
      · split at went
        · cases went
        · cases went
    · cases went
      rfl

theorem turn_shrinks (source : FetchSource) (room : Nat) (state next : State)
    (went : source.turn room state = .ok (.again next)) : source.measure next < source.measure state := by
  unfold turn at went
  split at went
  · cases went
  · split at went
    · cases went
    next id servable here =>
      have inside : state.index < source.plan.served.length := (List.getElem?_eq_some_iff.mp here).1
      split at went
      · cases went
      next loaded ok =>
        have same : loaded.index = state.index := by
          split at ok
          · exact load_index ok
          · cases ok
            rfl
        have further := turnLoaded_again went
        unfold measure
        omega

def read (source : FetchSource) (state : State) (room : Nat) : Except SourceError (Bytes × State) :=
  if room = 0 then .ok ([], state)
  else Streaming.loop (source.turn room) source.measure (source.turn_shrinks room) state

end FetchSource

def servedBody (bodies : Bodies) (record : TransientId × Nat) : Except GetError Bytes :=
  let body := (bodies record.1).getD []
  if body.length ≠ record.2 + stampSize then .error (.store .notFound) else .ok (body.take record.2)

def encodeFetch (library : Msgpack.Lxmf.Rmp) (bodies : Bodies) (plan : FetchPlan) : Except GetError Bytes := do
  let served ← plan.served.mapM (servedBody bodies)
  return encodeBinaryList library served

end Propagation

end Leviculum
