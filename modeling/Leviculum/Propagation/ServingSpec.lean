import Leviculum.Propagation.OfferSize
import Leviculum.Propagation.Serving

/-! What is streamed out of the store is what is encoded in memory, as long as the list header of both counts the
same. -/

namespace Leviculum

namespace Propagation

open Resource (SourceError)
open Streaming (Turn Emits)

def frame (body : Bytes) : Bytes := Msgpack.binHeaderBytes body.length ++ body

def framed (bodies : Bodies) (id : TransientId) : Bytes := (bodies id).elim [] frame

namespace SyncSource

/-- The ids still to send behind an index. -/
def pending (source : SyncSource) (index : Nat) : List TransientId :=
  ((source.plan.ids.take source.batch.stop).drop index).filter (serves source.metadata source.wanted)

def Under (source : SyncSource) (state : State) (left : Bytes) : Prop :=
  match state.body with
  | none => left = []
  | some (id, size) => ∃ body, source.bodies id = some body ∧ size = body.length ∧
      left = state.recordHeader.drop state.recordPos ++ body.drop state.bodyPos

structure Left (source : SyncSource) (state : State) (left : Bytes) : Prop where
  started : state.started + (source.pending state.index).length = source.batch.count
  parts : ∃ under, source.Under state under ∧
    left = source.head.drop state.headPos ++ under ++ ((source.pending state.index).map (framed source.bodies)).flatten

/-- The store holds a body of the size in the directory under every id of it. -/
def Stored (source : SyncSource) : Prop :=
  ∀ entry ∈ source.metadata, ∃ body, source.bodies entry.transientId = some body ∧ body.length = entry.size

theorem scan_eq (source : SyncSource) (ids : List TransientId) (index : Nat) {id : TransientId} {later : List TransientId}
    (next : ids.filter (serves source.metadata source.wanted) = id :: later) :
    ∃ found k, metaOf source.metadata id = some found ∧
      source.scan ids index = some ((id, found.size), index + (k + 1)) ∧
      (ids.drop (k + 1)).filter (serves source.metadata source.wanted) = later := by
  induction ids generalizing index with
  | nil => cases next
  | cons first rest ih =>
    have passed : serves source.metadata source.wanted first = false →
        ∃ found k, metaOf source.metadata id = some found ∧
          source.scan rest (index + 1) = some ((id, found.size), index + (k + 1)) ∧
          ((first :: rest).drop (k + 1)).filter (serves source.metadata source.wanted) = later := by
      intro unserved
      rw [List.filter_cons_of_neg (by rw [unserved]; decide)] at next
      obtain ⟨found, k, held, scanned, left⟩ := ih (index + 1) next
      refine ⟨found, k + 1, held, ?_, left⟩
      rw [scanned, Nat.add_assoc, Nat.add_comm 1]
    unfold scan
    by_cases wants : source.wanted.wants first = false
    · rw [if_pos wants]
      exact passed (by rw [serves, wants, Bool.false_and])
    rw [if_neg wants]
    rw [Bool.not_eq_false] at wants
    cases held : metaOf source.metadata first with
    | none =>
      refine passed ?_
      rw [serves, held, wants]
      rfl
    | some found =>
      have served : serves source.metadata source.wanted first = true := by
        rw [serves, held, wants]
        rfl
      rw [List.filter_cons_of_pos served] at next
      obtain ⟨rfl, rfl⟩ := List.cons.inj next
      exact ⟨found, 0, held, rfl, rfl⟩

section Turns

variable {source : SyncSource} {state : State} {left : Bytes} {room : Nat}

theorem Left.load (here : source.Left state left) (stored : source.Stored) (none : state.body = none)
    (past : source.head.length ≤ state.headPos) :
    (∃ loaded, source.load state = .ok (some loaded) ∧ source.Left loaded left) ∨
      source.load state = .ok Option.none ∧ left = [] := by
  obtain ⟨started, under, isUnder, parts⟩ := here
  obtain rfl : under = [] := by
    unfold Under at isUnder
    rw [none] at isUnder
    exact isUnder
  rw [List.drop_eq_nil_of_le past, List.nil_append, List.nil_append] at parts
  cases waiting : source.pending state.index with
  | nil =>
    rw [waiting, List.length_nil, Nat.add_zero] at started
    rw [waiting] at parts
    right
    refine ⟨?_, parts⟩
    unfold SyncSource.load
    rw [if_pos (Nat.le_of_eq started.symm)]
  | cons id later =>
    rw [waiting, List.length_cons] at started
    rw [waiting, List.map_cons, List.flatten_cons] at parts
    left
    obtain ⟨found, k, held, scanned, rest⟩ := source.scan_eq _ state.index waiting
    obtain ⟨member, rfl⟩ := mem_metaOf held
    obtain ⟨body, has, size⟩ := stored found member
    have after : source.pending (state.index + (k + 1)) = later := by
      rw [pending, ← List.drop_drop]
      exact rest
    unfold SyncSource.load
    rw [if_neg (by omega), scanned]
    refine ⟨_, rfl, ?_, Msgpack.binHeaderBytes found.size ++ body, ⟨body, has, size.symm, rfl⟩, ?_⟩
    · dsimp only
      rw [after]
      omega
    · dsimp only
      rw [after, List.drop_eq_nil_of_le past, List.nil_append, parts, framed, has, ← size]
      rfl

/-- A turn goes on with the same stream left, or yields the front of it. -/
theorem Left.turn (here : source.Left state left) (stored : source.Stored) (some : 0 < room) :
    (∃ next, source.turn room state = .ok (.again next) ∧ source.Left next left) ∨
    ∃ chunk after, source.turn room state = .ok (.done chunk after) ∧
      ∃ rest, left = chunk ++ rest ∧ source.Left after rest ∧ chunk.length ≤ room ∧ (chunk = [] → rest = []) := by
  unfold SyncSource.turn
  by_cases ahead : state.headPos < source.head.length
  · obtain ⟨started, under, isUnder, parts⟩ := here
    obtain ⟨whole, short, nonempty⟩ := Streaming.cut ahead some
    rw [if_pos ahead]
    right
    refine ⟨_, _, rfl, _, ?_, ⟨started, under, isUnder, rfl⟩, short, fun empty => absurd empty nonempty⟩
    rw [parts, ← List.append_assoc, ← List.append_assoc, ← whole]
  rw [if_neg ahead]
  have past := Nat.le_of_not_lt ahead
  cases body : state.body with
  | none =>
    dsimp only
    rcases here.load stored body past with ⟨loaded, ok, there⟩ | ⟨ok, rfl⟩
    · rw [ok]
      exact .inl ⟨loaded, rfl, there⟩
    · rw [ok]
      exact .inr ⟨[], state, rfl, [], rfl, here, Nat.zero_le _, fun _ => rfl⟩
  | some current =>
    obtain ⟨id, size⟩ := current
    dsimp only
    obtain ⟨started, under, isUnder, parts⟩ := here
    unfold Under at isUnder
    rw [body] at isUnder
    obtain ⟨bytes, has, rfl, rfl⟩ := isUnder
    by_cases header : state.recordPos < state.recordHeader.length
    · obtain ⟨whole, short, nonempty⟩ := Streaming.cut header some
      rw [if_pos header]
      right
      refine ⟨_, _, rfl, _, ?_, ⟨started,
        state.recordHeader.drop (state.recordPos + min room (state.recordHeader.length - state.recordPos)) ++
          bytes.drop state.bodyPos, ?_, rfl⟩, short, fun empty => absurd empty nonempty⟩
      · rw [parts, List.drop_eq_nil_of_le past, List.nil_append, List.nil_append, ← List.append_assoc,
          ← List.append_assoc, ← whole]
      · exact ⟨bytes, has, rfl, rfl⟩
    rw [if_neg header]
    have noHeader := List.drop_eq_nil_of_le (Nat.le_of_not_lt header)
    by_cases more : state.bodyPos < bytes.length
    · obtain ⟨whole, short, nonempty⟩ := Streaming.cut more some
      have copied : source.bodies.readBodyAt id state.bodyPos (min room (bytes.length - state.bodyPos)) =
          Option.some ((bytes.drop state.bodyPos).take (min room (bytes.length - state.bodyPos))) := by
        rw [Bodies.readBodyAt, has]
        rfl
      have size : ((bytes.drop state.bodyPos).take (min room (bytes.length - state.bodyPos))).length =
          min room (bytes.length - state.bodyPos) := by
        rw [List.length_take, List.length_drop]
        omega
      rw [if_pos more, copied]
      dsimp only
      rw [if_neg nonempty]
      right
      refine ⟨_, _, rfl, _, ?_, ⟨started, bytes.drop (state.bodyPos + min room (bytes.length - state.bodyPos)), ?_, rfl⟩,
        short, fun empty => absurd empty nonempty⟩
      · rw [parts, List.drop_eq_nil_of_le past, noHeader, List.nil_append, List.nil_append, List.nil_append,
          ← List.append_assoc, ← whole]
      · refine ⟨bytes, has, rfl, ?_⟩
        dsimp only
        rw [noHeader, size, List.nil_append]
    · rw [if_neg more]
      left
      refine ⟨_, rfl, started, [], rfl, ?_⟩
      rw [parts, noHeader, List.drop_eq_nil_of_le (Nat.le_of_not_lt more)]
      rfl

end Turns

theorem emits {source : SyncSource} (stored : source.Stored) : Emits source.read source.Left where
  idle := fun _ _ _ => rfl
  step := by
    intro state left room some here
    unfold read
    rw [if_neg (Nat.pos_iff_ne_zero.mp some)]
    obtain ⟨chunk, after, ran, rest, given⟩ := Streaming.loop_returns (fun state => source.Left state left)
      (fun state kept => kept.turn stored some) state here
    exact ⟨chunk, after, rest, ran, given⟩

end SyncSource

namespace FetchSource

def servedFrame (bodies : Bodies) (record : TransientId × Nat) : Bytes :=
  Msgpack.binHeaderBytes record.2 ++ ((bodies record.1).getD []).take record.2

def behind (source : FetchSource) (index : Nat) : Bytes :=
  ((source.plan.served.drop index).map (servedFrame source.bodies)).flatten

structure Under (source : FetchSource) (state : State) (record : TransientId × Nat) (body left : Bytes) : Prop where
  here : source.plan.served[state.index]? = some record
  has : source.bodies record.1 = some body
  size : body.length = record.2 + stampSize
  loaded : state.recordHeader ≠ []
  parts : left = source.arrayHeader.drop state.arrayPos ++
    (state.recordHeader.drop state.recordPos ++ (body.take record.2).drop state.bodyPos) ++ source.behind (state.index + 1)

/-- What a state has still to yield: the record at the index is still to load, or is under way. -/
def Left (source : FetchSource) (state : State) (left : Bytes) : Prop :=
  state.recordHeader = [] ∧ left = source.arrayHeader.drop state.arrayPos ++ source.behind state.index ∨
    ∃ record body, source.Under state record body left

/-- The store holds every served record with its stamp. -/
def Stored (source : FetchSource) : Prop :=
  ∀ record ∈ source.plan.served, ∃ body, source.bodies record.1 = some body ∧ body.length = record.2 + stampSize

section Turns

variable {source : FetchSource} {state : State} {left : Bytes} {room : Nat}

theorem binHeaderBytes_ne_nil (length : Nat) : Msgpack.binHeaderBytes length ≠ [] := by
  unfold Msgpack.binHeaderBytes
  split_ifs <;> exact List.cons_ne_nil _ _

/-- A turn over the record under way. -/
theorem Under.turn {record : TransientId × Nat} {body : Bytes} (under : source.Under state record body left)
    (past : source.arrayHeader.length ≤ state.arrayPos) (some : 0 < room) :
    (∃ next, source.turnLoaded room record.1 record.2 state = .ok (.again next) ∧ source.Left next left) ∨
    ∃ chunk after, source.turnLoaded room record.1 record.2 state = .ok (.done chunk after) ∧
      ∃ rest, left = chunk ++ rest ∧ source.Left after rest ∧ chunk.length ≤ room ∧ (chunk = [] → rest = []) := by
  obtain ⟨here, has, size, loaded, parts⟩ := under
  rw [List.drop_eq_nil_of_le past, List.nil_append] at parts
  have served : (body.take record.2).length = record.2 := by
    rw [List.length_take]
    omega
  unfold turnLoaded
  by_cases header : state.recordPos < state.recordHeader.length
  · obtain ⟨whole, short, nonempty⟩ := Streaming.cut header some
    rw [if_pos header]
    right
    refine ⟨_, _, rfl, _, ?_, .inr ⟨record, body, here, has, size, loaded, rfl⟩, short,
      fun empty => absurd empty nonempty⟩
    rw [parts, List.drop_eq_nil_of_le past, List.nil_append, ← List.append_assoc, ← List.append_assoc, ← whole]
  rw [if_neg header]
  have noHeader := List.drop_eq_nil_of_le (Nat.le_of_not_lt header)
  rw [noHeader, List.nil_append] at parts
  by_cases more : state.bodyPos < record.2
  · obtain ⟨whole, short, nonempty⟩ := Streaming.cut (show state.bodyPos < (body.take record.2).length by omega) some
    rw [served] at whole short nonempty
    have copied : source.bodies.readBodyAt record.1 state.bodyPos (min room (record.2 - state.bodyPos)) =
        Option.some (((body.take record.2).drop state.bodyPos).take (min room (record.2 - state.bodyPos))) := by
      rw [Bodies.readBodyAt, has, List.drop_take, List.take_take,
        Nat.min_eq_left (Nat.min_le_right room (record.2 - state.bodyPos))]
      rfl
    have length : (((body.take record.2).drop state.bodyPos).take (min room (record.2 - state.bodyPos))).length =
        min room (record.2 - state.bodyPos) := by
      rw [List.length_take, List.length_drop, served]
      omega
    rw [if_pos more]
    dsimp only
    rw [copied]
    dsimp only
    rw [if_neg (not_or.mpr ⟨nonempty, by omega⟩)]
    right
    refine ⟨_, _, rfl, _, ?_, .inr ⟨record, body, here, has, size, loaded, rfl⟩, short,
      fun empty => absurd empty nonempty⟩
    dsimp only
    rw [parts, List.drop_eq_nil_of_le past, noHeader, length, List.nil_append, List.nil_append, ← List.append_assoc,
      ← whole]
  · rw [if_neg more]
    left
    refine ⟨_, rfl, .inl ⟨rfl, ?_⟩⟩
    rw [parts, List.drop_eq_nil_of_le (show (body.take record.2).length ≤ state.bodyPos by omega)]
    dsimp only
    rw [List.drop_eq_nil_of_le past]

theorem load_ok (source : FetchSource) (state : State) {record : TransientId × Nat} {body : Bytes}
    (has : source.bodies record.1 = some body) (size : body.length = record.2 + stampSize) :
    source.load state record.1 record.2 =
      .ok { state with recordHeader := Msgpack.binHeaderBytes record.2, recordPos := 0, bodyPos := 0 } := by
  have tail : source.bodies.readBodyAt record.1 record.2 (stampSize + 1) = some (body.drop record.2) := by
    rw [Bodies.readBodyAt, has]
    refine congrArg some (List.take_of_length_le ?_)
    rw [List.length_drop]
    omega
  have length : (body.drop record.2).length = stampSize := by
    rw [List.length_drop]
    omega
  unfold load
  rw [tail]
  dsimp only
  rw [if_neg (not_not.mpr length)]

theorem Left.turn (here : source.Left state left) (stored : source.Stored) (some : 0 < room) :
    (∃ next, source.turn room state = .ok (.again next) ∧ source.Left next left) ∨
    ∃ chunk after, source.turn room state = .ok (.done chunk after) ∧
      ∃ rest, left = chunk ++ rest ∧ source.Left after rest ∧ chunk.length ≤ room ∧ (chunk = [] → rest = []) := by
  unfold FetchSource.turn
  by_cases ahead : state.arrayPos < source.arrayHeader.length
  · obtain ⟨whole, short, nonempty⟩ := Streaming.cut ahead some
    rw [if_pos ahead]
    right
    refine ⟨_, _, rfl, ?_⟩
    rcases here with ⟨unloaded, parts⟩ | ⟨record, body, at_, has, size, loaded, parts⟩
    · refine ⟨_, ?_, .inl ⟨unloaded, rfl⟩, short, fun empty => absurd empty nonempty⟩
      rw [parts, ← List.append_assoc, ← whole]
    · refine ⟨_, ?_, .inr ⟨record, body, at_, has, size, loaded, rfl⟩, short, fun empty => absurd empty nonempty⟩
      rw [parts]
      conv_lhs => rw [whole]
      simp only [List.append_assoc]
  rw [if_neg ahead]
  have past := Nat.le_of_not_lt ahead
  cases next : source.plan.served[state.index]? with
  | none =>
    dsimp only
    rcases here with ⟨unloaded, parts⟩ | ⟨record, body, at_, -⟩
    · have ended : source.plan.served.drop state.index = [] := List.drop_eq_nil_of_le (List.getElem?_eq_none_iff.mp next)
      have none : left = [] := by
        rw [parts, List.drop_eq_nil_of_le past, behind, ended]
        rfl
      exact .inr ⟨[], state, rfl, left, rfl, .inl ⟨unloaded, parts⟩, Nat.zero_le _, fun _ => none⟩
    · rw [next] at at_
      cases at_
  | some record =>
    dsimp only
    obtain ⟨inside, same⟩ := List.getElem?_eq_some_iff.mp next
    rcases here with ⟨unloaded, parts⟩ | ⟨other, body, at_, has, size, loaded, parts⟩
    · obtain ⟨body, has, size⟩ := stored record (List.mem_of_getElem? next)
      rw [if_pos unloaded, source.load_ok state has size]
      refine Under.turn ⟨next, has, size, binHeaderBytes_ne_nil _, ?_⟩ past some
      have first : source.plan.served.drop state.index = record :: source.plan.served.drop (state.index + 1) := by
        rw [List.drop_eq_getElem_cons inside, same]
      rw [parts, behind, first, List.map_cons, List.flatten_cons, servedFrame, has]
      exact (List.append_assoc _ _ _).symm
    · obtain rfl := Option.some.inj (next.symm.trans at_)
      rw [if_neg loaded]
      exact Under.turn ⟨at_, has, size, loaded, parts⟩ past some

end Turns

theorem emits {source : FetchSource} (stored : source.Stored) : Emits source.read source.Left where
  idle := fun _ _ _ => rfl
  step := by
    intro state left room some here
    unfold read
    rw [if_neg (Nat.pos_iff_ne_zero.mp some)]
    obtain ⟨chunk, after, ran, rest, given⟩ := Streaming.loop_returns (fun state => source.Left state left)
      (fun state kept => kept.turn stored some) state here
    exact ⟨chunk, after, rest, ran, given⟩

end FetchSource

end Propagation

end Leviculum
