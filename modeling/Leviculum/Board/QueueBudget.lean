import Leviculum.Lib.Execution
import Mathlib.Algebra.Order.BigOperators.Group.List
import Mathlib.Algebra.GroupWithZero.Nat

/-! The slot and byte budget of an outbound queue, with its `reserve` and `release` calls taken
apart into the atomic steps of `fetch_update`: a load, then compare-exchanges until one stores or
the closure declines. Any number of calls are in progress at once. -/

namespace Leviculum.Board

open Execution

inductive PointerWidth where
  | bits16
  | bits32
  | bits64
deriving DecidableEq

def PointerWidth.usizeMax : PointerWidth → Nat
  | .bits16 => 2 ^ 16 - 1
  | .bits32 => 2 ^ 32 - 1
  | .bits64 => 2 ^ 64 - 1

theorem PointerWidth.usizeMax_pos (width : PointerWidth) : 0 < width.usizeMax := by
  cases width <;> decide

structure QueueBudget (width : PointerWidth) where
  maxSlots : Nat
  maxBytes : Nat
  slotsFit : maxSlots ≤ width.usizeMax
  bytesFit : maxBytes ≤ width.usizeMax

inductive QueueBound where
  | slots
  | bytes
deriving DecidableEq

/-- Which `fetch_update` a call is in. -/
inductive Stage where
  | reserveSlot
  | reserveBytes
  /-- A refused reservation hands its slot back. -/
  | handBack
  | releaseSlot
  | releaseBytes
deriving DecidableEq

def Stage.onSlots : Stage → Bool
  | .reserveSlot | .handBack | .releaseSlot => true
  | .reserveBytes | .releaseBytes => false

structure Call where
  len : Nat
  stage : Stage
  /-- What the last load, or the last compare-exchange that failed, found in the cell. -/
  loaded : Option Nat
deriving DecidableEq

inductive Turn where
  | retry (found : Nat)
  | refused
  | stored (value : Nat)

/-- The next atomic step of a `fetch_update`; a weak compare-exchange may fail for no reason. -/
def fetchUpdate (update : Nat → Option Nat) (cell : Nat) (spurious : Bool) : Option Nat → Turn
  | none => .retry cell
  | some loaded =>
    match update loaded with
    | none => .refused
    | some next => if cell = loaded ∧ spurious = false then .stored next else .retry cell

theorem fetchUpdate_eq_stored {update : Nat → Option Nat} {cell value : Nat} {spurious : Bool}
    {loaded : Option Nat} (stored : fetchUpdate update cell spurious loaded = .stored value) :
    update cell = some value ∧ loaded = some cell := by
  cases loaded with
  | none => cases stored
  | some found =>
    unfold fetchUpdate at stored
    dsimp only at stored
    split at stored
    next => cases stored
    next next updated =>
      split at stored
      next same =>
        obtain rfl := Turn.stored.inj stored
        exact ⟨same.1 ▸ updated, congrArg some same.1.symm⟩
      next => cases stored

theorem fetchUpdate_eq_refused {update : Nat → Option Nat} {cell : Nat} {spurious : Bool}
    {loaded : Option Nat} (refused : fetchUpdate update cell spurious loaded = .refused) :
    ∃ found, update found = none := by
  cases loaded with
  | none => cases refused
  | some found =>
    unfold fetchUpdate at refused
    dsimp only at refused
    split at refused
    next declined => exact ⟨found, declined⟩
    next => split at refused <;> cases refused

theorem fetchUpdate_eq_retry {update : Nat → Option Nat} {cell found : Nat} {spurious : Bool}
    {loaded : Option Nat} (retry : fetchUpdate update cell spurious loaded = .retry found) :
    found = cell := by
  cases loaded with
  | none => exact (Turn.retry.inj retry).symm
  | some before =>
    unfold fetchUpdate at retry
    dsimp only at retry
    split at retry
    next => cases retry
    next =>
      split at retry
      next => cases retry
      next => exact (Turn.retry.inj retry).symm

variable {width : PointerWidth}

/-- The closure handed to `fetch_update`. -/
def QueueBudget.update (budget : QueueBudget width) (len : Nat) : Stage → Nat → Option Nat
  | .reserveSlot, s => if s < budget.maxSlots then some (s + 1) else none
  | .reserveBytes, b =>
    let next := min (b + len) width.usizeMax
    if next ≤ budget.maxBytes then some next else none
  | .handBack, s => some (s - 1)
  | .releaseSlot, s => some (s - 1)
  | .releaseBytes, b => some (b - len)

inductive After where
  | goesOn (stage : Stage)
  /-- `reserve` returns `Ok`. -/
  | reserved
  | refused (bound : QueueBound)
  | released

def Stage.afterStored : Stage → After
  | .reserveSlot => .goesOn .reserveBytes
  | .reserveBytes => .reserved
  | .handBack => .refused .bytes
  | .releaseSlot => .goesOn .releaseBytes
  | .releaseBytes => .released

def Stage.afterRefused : Stage → After
  | .reserveSlot => .refused .slots
  | .reserveBytes => .goesOn .handBack
  -- the other closures never decline, and `.ok()` drops what they return
  | .handBack => .refused .bytes
  | .releaseSlot => .goesOn .releaseBytes
  | .releaseBytes => .released

/-- The two counters, the calls in progress, and the lengths of the reservations that returned
`Ok` and whose release has not begun. -/
structure Traffic where
  slots : Nat
  bytes : Nat
  calls : List Call
  outstanding : List Nat
deriving DecidableEq

def Traffic.idle : Traffic := ⟨0, 0, [], []⟩

inductive QueueEvent where
  | reserve (len : Nat)
  /-- `release` of the `k`-th outstanding reservation. -/
  | release (k : Nat)
  /-- The `k`-th call makes its next atomic step. -/
  | advance (k : Nat) (spurious : Bool)

def Traffic.cell (s : Traffic) (stage : Stage) : Nat :=
  if stage.onSlots then s.slots else s.bytes

def Traffic.store (s : Traffic) (stage : Stage) (value : Nat) : Traffic :=
  if stage.onSlots then { s with slots := value } else { s with bytes := value }

def Traffic.follow (s : Traffic) (call : Call) : After → Traffic
  | .goesOn stage => { s with calls := ⟨call.len, stage, none⟩ :: s.calls }
  | .reserved => { s with outstanding := call.len :: s.outstanding }
  | .refused _ => s
  | .released => s

def QueueBudget.advance (budget : QueueBudget width) (s : Traffic) (call : Call) (spurious : Bool) :
    Traffic :=
  match fetchUpdate (budget.update call.len call.stage) (s.cell call.stage) spurious call.loaded with
  | .retry found => { s with calls := { call with loaded := some found } :: s.calls }
  | .refused => s.follow call call.stage.afterRefused
  | .stored value => (s.store call.stage value).follow call call.stage.afterStored

def QueueBudget.step (budget : QueueBudget width) (s : Traffic) : QueueEvent → Option Traffic
  | .reserve len =>
    if len ≤ width.usizeMax then some { s with calls := ⟨len, .reserveSlot, none⟩ :: s.calls } else none
  | .release k =>
    s.outstanding[k]?.map (fun len =>
      { s with
        outstanding := s.outstanding.eraseIdx k
        calls := ⟨len, .releaseSlot, none⟩ :: s.calls })
  | .advance k spurious =>
    s.calls[k]?.map (fun call =>
      budget.advance { s with calls := s.calls.eraseIdx k } call spurious)

/-- What the call's closure takes from the value it is given. -/
def Call.subtracts (call : Call) : Nat :=
  match call.stage with
  | .reserveSlot | .reserveBytes => 0
  | .handBack | .releaseSlot => 1
  | .releaseBytes => call.len

structure QueueBudget.Sound (budget : QueueBudget width) (s : Traffic) : Prop where
  slotsWithin : s.slots ≤ budget.maxSlots
  bytesWithin : s.bytes ≤ budget.maxBytes
  slotsCover : s.outstanding.length ≤ s.slots
  bytesCover : s.outstanding.sum ≤ s.bytes
  /-- The closure is applied to the value loaded, whether or not the exchange then succeeds. -/
  noSaturation : ∀ call ∈ s.calls, ∀ found, call.loaded = some found → call.subtracts ≤ found
  settled : s.calls = [] → s.slots = s.outstanding.length ∧ s.bytes = s.outstanding.sum

def Call.heldSlots (call : Call) : Nat :=
  match call.stage with
  | .reserveSlot | .releaseBytes => 0
  | .reserveBytes | .handBack | .releaseSlot => 1

/-- The bytes a call in progress holds: a release holds them to its end, a reservation never does
without being done. -/
def Call.heldBytes (call : Call) : Nat :=
  match call.stage with
  | .reserveSlot | .reserveBytes | .handBack => 0
  | .releaseSlot | .releaseBytes => call.len

structure QueueBudget.Balanced (budget : QueueBudget width) (s : Traffic) : Prop where
  slotsWithin : s.slots ≤ budget.maxSlots
  bytesWithin : s.bytes ≤ budget.maxBytes
  slots : s.slots = s.outstanding.length + (s.calls.map Call.heldSlots).sum
  bytes : s.bytes = s.outstanding.sum + (s.calls.map Call.heldBytes).sum
  loaded : ∀ call ∈ s.calls, ∀ found, call.loaded = some found → call.subtracts ≤ found

theorem QueueBudget.Balanced.sound {budget : QueueBudget width} {s : Traffic}
    (balanced : budget.Balanced s) : budget.Sound s where
  slotsWithin := balanced.slotsWithin
  bytesWithin := balanced.bytesWithin
  slotsCover := by
    rw [balanced.slots]
    exact Nat.le_add_right _ _
  bytesCover := by
    rw [balanced.bytes]
    exact Nat.le_add_right _ _
  noSaturation := balanced.loaded
  settled := by
    intro quiet
    have slots := balanced.slots
    have bytes := balanced.bytes
    rw [quiet] at slots bytes
    exact ⟨slots, bytes⟩

theorem sum_map_eraseIdx {α : Type} (f : α → Nat) {l : List α} {k : Nat} {a : α}
    (found : l[k]? = some a) : (l.map f).sum = f a + ((l.eraseIdx k).map f).sum := by
  induction l generalizing k with
  | nil => cases found
  | cons b l ih =>
    cases k with
    | zero =>
      obtain rfl : b = a := Option.some.inj found
      rfl
    | succ k =>
      have rest := ih (k := k) found
      simp only [List.map_cons, List.sum_cons, List.eraseIdx_cons_succ, rest]
      omega

/-- The traffic with one call taken out of those in progress: what it holds is still counted. -/
structure QueueBudget.Aside (budget : QueueBudget width) (s : Traffic) (call : Call) : Prop where
  slotsWithin : s.slots ≤ budget.maxSlots
  bytesWithin : s.bytes ≤ budget.maxBytes
  slots : s.slots = s.outstanding.length + (s.calls.map Call.heldSlots).sum + call.heldSlots
  bytes : s.bytes = s.outstanding.sum + (s.calls.map Call.heldBytes).sum + call.heldBytes
  loaded : ∀ other ∈ s.calls, ∀ found, other.loaded = some found → other.subtracts ≤ found

theorem QueueBudget.Balanced.aside {budget : QueueBudget width} {s : Traffic} {k : Nat} {call : Call}
    (balanced : budget.Balanced s) (found : s.calls[k]? = some call) :
    budget.Aside { s with calls := s.calls.eraseIdx k } call where
  slotsWithin := balanced.slotsWithin
  bytesWithin := balanced.bytesWithin
  slots := by
    rw [balanced.slots, sum_map_eraseIdx _ found]
    dsimp only
    omega
  bytes := by
    rw [balanced.bytes, sum_map_eraseIdx _ found]
    dsimp only
    omega
  loaded := fun other member => balanced.loaded other (List.mem_of_mem_eraseIdx member)

theorem QueueBudget.Aside.balanced_cons {budget : QueueBudget width} {s : Traffic} {call : Call}
    (aside : budget.Aside s call) (loaded : ∀ found, call.loaded = some found → call.subtracts ≤ found) :
    budget.Balanced { s with calls := call :: s.calls } where
  slotsWithin := aside.slotsWithin
  bytesWithin := aside.bytesWithin
  slots := by
    rw [List.map_cons, List.sum_cons, aside.slots]
    dsimp only
    omega
  bytes := by
    rw [List.map_cons, List.sum_cons, aside.bytes]
    dsimp only
    omega
  loaded := by
    intro other member found has
    rcases List.mem_cons.mp member with rfl | earlier
    · exact loaded found has
    · exact aside.loaded other earlier found has

theorem QueueBudget.Aside.subtracts_le {budget : QueueBudget width} {s : Traffic} {call : Call}
    (aside : budget.Aside s call) : call.subtracts ≤ s.cell call.stage := by
  obtain ⟨len, stage, loaded⟩ := call
  have slots : _ ≤ s.slots := le_of_le_of_eq (Nat.le_add_left _ _) aside.slots.symm
  have bytes : _ ≤ s.bytes := le_of_le_of_eq (Nat.le_add_left _ _) aside.bytes.symm
  cases stage with
  | reserveSlot => exact Nat.zero_le _
  | reserveBytes => exact Nat.zero_le _
  | handBack => exact slots
  | releaseSlot => exact slots
  | releaseBytes => exact bytes

/-- The condition: either a sum of bytes that saturates is over the budget, or nothing is ever
reserved. -/
def QueueBudget.Exact (budget : QueueBudget width) : Prop :=
  budget.maxBytes < width.usizeMax ∨ budget.maxSlots = 0

theorem QueueBudget.Aside.advance_balanced {budget : QueueBudget width} {s : Traffic} {call : Call}
    (exact : budget.Exact) (aside : budget.Aside s call) (spurious : Bool) :
    budget.Balanced (budget.advance s call spurious) := by
  unfold QueueBudget.advance
  obtain ⟨len, stage, loaded⟩ := call
  obtain ⟨slotsWithin, bytesWithin, slots, bytes, others⟩ := aside
  split
  next found retry =>
    have aside : budget.Aside s ⟨len, stage, loaded⟩ := ⟨slotsWithin, bytesWithin, slots, bytes, others⟩
    obtain rfl := fetchUpdate_eq_retry retry
    have again : budget.Aside s ⟨len, stage, some (s.cell stage)⟩ :=
      ⟨slotsWithin, bytesWithin, slots, bytes, others⟩
    refine again.balanced_cons ?_
    intro found has
    obtain rfl := Option.some.inj has
    exact again.subtracts_le
  next refused =>
    obtain ⟨found, declined⟩ := fetchUpdate_eq_refused refused
    cases stage with
    | reserveSlot => exact ⟨slotsWithin, bytesWithin, slots, bytes, others⟩
    | reserveBytes =>
      have aside : budget.Aside s ⟨len, .handBack, none⟩ := ⟨slotsWithin, bytesWithin, slots, bytes, others⟩
      exact aside.balanced_cons (fun _ has => nomatch has)
    | handBack => cases declined
    | releaseSlot => cases declined
    | releaseBytes => cases declined
  next value stored =>
    obtain ⟨updated, -⟩ := fetchUpdate_eq_stored stored
    cases stage with
    | reserveSlot =>
      have room : s.slots < budget.maxSlots ∧ s.slots + 1 = value := by
        simpa [QueueBudget.update, Traffic.cell, Stage.onSlots] using updated
      have aside : budget.Aside { s with slots := value } ⟨len, .reserveBytes, none⟩ := by
        refine ⟨?_, bytesWithin, ?_, bytes, others⟩
        · show value ≤ budget.maxSlots
          omega
        · change s.slots = s.outstanding.length + (s.calls.map Call.heldSlots).sum + 0 at slots
          show value = s.outstanding.length + (s.calls.map Call.heldSlots).sum + 1
          omega
      exact aside.balanced_cons (fun _ has => nomatch has)
    | reserveBytes =>
      have room : min (s.bytes + len) width.usizeMax ≤ budget.maxBytes ∧
          min (s.bytes + len) width.usizeMax = value := by
        simpa [QueueBudget.update, Traffic.cell, Stage.onSlots] using updated
      change s.slots = s.outstanding.length + (s.calls.map Call.heldSlots).sum + 1 at slots
      change s.bytes = s.outstanding.sum + (s.calls.map Call.heldBytes).sum + 0 at bytes
      have whole : value = s.bytes + len := by
        rcases exact with below | none
        · omega
        · omega
      refine ⟨slotsWithin, ?_, ?_, ?_, others⟩
      · show value ≤ budget.maxBytes
        omega
      · show s.slots = s.outstanding.length + 1 + (s.calls.map Call.heldSlots).sum
        omega
      · show value = (len :: s.outstanding).sum + (s.calls.map Call.heldBytes).sum
        rw [List.sum_cons]
        omega
    | handBack =>
      have value_eq : s.slots - 1 = value := by
        simpa [QueueBudget.update, Traffic.cell, Stage.onSlots] using updated
      change s.slots = s.outstanding.length + (s.calls.map Call.heldSlots).sum + 1 at slots
      refine ⟨?_, bytesWithin, ?_, bytes, others⟩
      · show value ≤ budget.maxSlots
        omega
      · show value = s.outstanding.length + (s.calls.map Call.heldSlots).sum
        omega
    | releaseSlot =>
      have value_eq : s.slots - 1 = value := by
        simpa [QueueBudget.update, Traffic.cell, Stage.onSlots] using updated
      change s.slots = s.outstanding.length + (s.calls.map Call.heldSlots).sum + 1 at slots
      have aside : budget.Aside { s with slots := value } ⟨len, .releaseBytes, none⟩ := by
        refine ⟨?_, bytesWithin, ?_, bytes, others⟩
        · show value ≤ budget.maxSlots
          omega
        · show value = s.outstanding.length + (s.calls.map Call.heldSlots).sum + 0
          omega
      exact aside.balanced_cons (fun _ has => nomatch has)
    | releaseBytes =>
      have value_eq : s.bytes - len = value := by
        simpa [QueueBudget.update, Traffic.cell, Stage.onSlots] using updated
      change s.bytes = s.outstanding.sum + (s.calls.map Call.heldBytes).sum + len at bytes
      refine ⟨slotsWithin, ?_, slots, ?_, others⟩
      · show value ≤ budget.maxBytes
        omega
      · show value = s.outstanding.sum + (s.calls.map Call.heldBytes).sum
        omega

theorem QueueBudget.step_balanced {budget : QueueBudget width} (exact : budget.Exact) {s s' : Traffic}
    {e : QueueEvent} (balanced : budget.Balanced s) (stepped : budget.step s e = some s') :
    budget.Balanced s' := by
  cases e with
  | reserve len =>
    unfold QueueBudget.step at stepped
    dsimp only at stepped
    split at stepped
    next =>
      obtain rfl := Option.some.inj stepped
      have aside : budget.Aside s ⟨len, .reserveSlot, none⟩ :=
        ⟨balanced.slotsWithin, balanced.bytesWithin, balanced.slots, balanced.bytes, balanced.loaded⟩
      exact aside.balanced_cons (fun _ has => nomatch has)
    next => cases stepped
  | release k =>
    obtain ⟨len, found, rfl⟩ := Option.map_eq_some_iff.mp stepped
    have count : (s.outstanding.eraseIdx k).length + 1 = s.outstanding.length := by
      obtain ⟨inside, -⟩ := List.getElem?_eq_some_iff.mp found
      rw [List.length_eraseIdx_of_lt inside]
      omega
    have total := sum_map_eraseIdx id found
    rw [List.map_id, List.map_id, id] at total
    have slots := balanced.slots
    have bytes := balanced.bytes
    have aside : budget.Aside { s with outstanding := s.outstanding.eraseIdx k } ⟨len, .releaseSlot, none⟩ := by
      refine ⟨balanced.slotsWithin, balanced.bytesWithin, ?_, ?_, balanced.loaded⟩
      · show s.slots = (s.outstanding.eraseIdx k).length + (s.calls.map Call.heldSlots).sum + 1
        omega
      · show s.bytes = (s.outstanding.eraseIdx k).sum + (s.calls.map Call.heldBytes).sum + len
        omega
    exact aside.balanced_cons (fun _ has => nomatch has)
  | advance k spurious =>
    obtain ⟨call, found, rfl⟩ := Option.map_eq_some_iff.mp stepped
    exact (balanced.aside found).advance_balanced exact spurious

theorem QueueBudget.idle_balanced (budget : QueueBudget width) : budget.Balanced .idle :=
  ⟨Nat.zero_le _, Nat.zero_le _, rfl, rfl, fun _ member => nomatch member⟩

/-- The first call's closure from its load to its exchange, with nothing in between. -/
def undisturbed : List QueueEvent := [.advance 0 false, .advance 0 false]

theorem QueueBudget.exec_undisturbed (budget : QueueBudget width) (stage : Stage) {s : Traffic} {len value : Nat}
    {rest : List Call} (waits : s.calls = ⟨len, stage, none⟩ :: rest)
    (stores : budget.update len stage (s.cell stage) = some value) :
    exec budget.step s undisturbed =
      some ((({ s with calls := rest }).store stage value).follow ⟨len, stage, some (s.cell stage)⟩
        stage.afterStored) := by
  obtain ⟨slots, bytes, calls, outstanding⟩ := s
  obtain rfl : calls = _ := waits
  let loaded : Traffic :=
    ⟨slots, bytes, ⟨len, stage, some (Traffic.cell ⟨slots, bytes, [], []⟩ stage)⟩ :: rest, outstanding⟩
  have exchanged : budget.step loaded (.advance 0 false) =
      some ((Traffic.store ⟨slots, bytes, rest, outstanding⟩ stage value).follow
        ⟨len, stage, some (loaded.cell stage)⟩ stage.afterStored) := by
    show some (budget.advance ⟨slots, bytes, rest, outstanding⟩ _ false) = _
    unfold QueueBudget.advance fetchUpdate
    dsimp only
    rw [show budget.update len stage (Traffic.cell ⟨slots, bytes, [], []⟩ stage) = some value from stores]
    dsimp only
    rw [if_pos ⟨rfl, rfl⟩]
    rfl
  calc exec budget.step ⟨slots, bytes, ⟨len, stage, none⟩ :: rest, outstanding⟩ undisturbed
    _ = exec budget.step loaded [.advance 0 false] := rfl
    _ = _ := by rw [exec, exchanged, Option.bind_some, exec_nil]; rfl

/-- A reservation that no other call disturbs. -/
def reservation (len : Nat) : List QueueEvent := .reserve len :: (undisturbed ++ undisturbed)

theorem QueueBudget.exec_reservation {budget : QueueBudget width} {s : Traffic} {len : Nat}
    (fits : len ≤ width.usizeMax) (room : s.slots < budget.maxSlots)
    (under : min (s.bytes + len) width.usizeMax ≤ budget.maxBytes) :
    exec budget.step s (reservation len) =
      some { s with
        slots := s.slots + 1
        bytes := min (s.bytes + len) width.usizeMax
        outstanding := len :: s.outstanding } := by
  have called : budget.step s (.reserve len) = some { s with calls := ⟨len, .reserveSlot, none⟩ :: s.calls } :=
    if_pos fits
  have slotted : exec budget.step { s with calls := ⟨len, .reserveSlot, none⟩ :: s.calls } undisturbed =
      some { s with slots := s.slots + 1, calls := ⟨len, .reserveBytes, none⟩ :: s.calls } :=
    budget.exec_undisturbed .reserveSlot rfl (if_pos room)
  unfold reservation
  rw [exec, called, Option.bind_some, exec_append, slotted, Option.bind_some]
  exact budget.exec_undisturbed .reserveBytes rfl (if_pos under)

theorem QueueBudget.exec_release {budget : QueueBudget width} {s : Traffic} {len : Nat} {rest : List Nat}
    (holds : s.outstanding = len :: rest) :
    exec budget.step s (.release 0 :: undisturbed) =
      some { s with
        slots := s.slots - 1
        outstanding := rest
        calls := ⟨len, .releaseBytes, none⟩ :: s.calls } := by
  obtain ⟨slots, bytes, calls, outstanding⟩ := s
  obtain rfl : outstanding = _ := holds
  show exec budget.step ⟨slots, bytes, ⟨len, .releaseSlot, none⟩ :: calls, rest⟩ undisturbed = _
  exact budget.exec_undisturbed .releaseSlot rfl rfl

/-- The second packet comes between the two halves of the first one's release. -/
theorem QueueBudget.exec_loses_count {budget : QueueBudget width} (room : 0 < budget.maxSlots)
    (full : budget.maxBytes = width.usizeMax) :
    ∃ events, exec budget.step .idle events = some ⟨1, 0, [], [1]⟩ := by
  have under (bytes : Nat) : min bytes width.usizeMax ≤ budget.maxBytes := full ▸ Nat.min_le_right _ _
  obtain ⟨most, named⟩ : ∃ most, most = width.usizeMax := ⟨_, rfl⟩
  have first : exec budget.step .idle (reservation most) = some ⟨1, most, [], [most]⟩ := by
    rw [QueueBudget.exec_reservation (le_of_eq named) room (under _), ← named]
    simp [Traffic.idle]
  have second : exec budget.step ⟨1, most, [], [most]⟩ (.release 0 :: undisturbed) =
      some ⟨0, most, [⟨most, .releaseBytes, none⟩], []⟩ := QueueBudget.exec_release rfl
  have third : exec budget.step ⟨0, most, [⟨most, .releaseBytes, none⟩], []⟩ (reservation 1) =
      some ⟨1, most, [⟨most, .releaseBytes, none⟩], [1]⟩ := by
    rw [QueueBudget.exec_reservation width.usizeMax_pos room (under _), ← named]
    simp
  have fourth : exec budget.step ⟨1, most, [⟨most, .releaseBytes, none⟩], [1]⟩ undisturbed =
      some ⟨1, most - most, [], [1]⟩ := budget.exec_undisturbed .releaseBytes rfl rfl
  rw [Nat.sub_self] at fourth
  refine ⟨reservation most ++ ((.release 0 :: undisturbed) ++ (reservation 1 ++ undisturbed)), ?_⟩
  rw [exec_append, first, Option.bind_some, exec_append, second, Option.bind_some, exec_append, third,
    Option.bind_some, fourth]

/-- The budget is kept, and nothing leaks, in every interleaving, exactly when no sum of bytes can
saturate within it. -/
theorem budget_sound_iff (budget : QueueBudget width) :
    (∀ events s, exec budget.step .idle events = some s → budget.Sound s) ↔
      budget.maxBytes < width.usizeMax ∨ budget.maxSlots = 0 := by
  constructor
  · intro sound
    by_contra missed
    obtain ⟨bytes, slots⟩ := not_or.mp missed
    have full : budget.maxBytes = width.usizeMax :=
      Nat.le_antisymm budget.bytesFit (Nat.le_of_not_lt bytes)
    obtain ⟨events, ran⟩ := QueueBudget.exec_loses_count (Nat.pos_of_ne_zero slots) full
    exact absurd (sound events _ ran).bytesCover (by decide)
  · intro exact events s ran
    exact (exec_invariant (fun _ _ _ => QueueBudget.step_balanced exact) budget.idle_balanced ran).sound

/-- Sixteen slots and all the bytes a word counts: the second packet takes the queue to one byte
more than the counter says. -/
theorem unbounded_budget_loses_count :
    ∃ (budget : QueueBudget .bits32) (events : List QueueEvent) (s : Traffic),
      budget.maxSlots = 16 ∧ budget.maxBytes = 2 ^ 32 - 1 ∧
      exec budget.step .idle events = some s ∧ s.calls = [] ∧
      s.outstanding = [1, 2 ^ 32 - 1] ∧ s.bytes = 2 ^ 32 - 1 ∧ ¬ budget.Sound s := by
  refine ⟨⟨16, 2 ^ 32 - 1, by decide, by decide⟩, reservation (2 ^ 32 - 1) ++ reservation 1,
    ⟨2, 2 ^ 32 - 1, [], [1, 2 ^ 32 - 1]⟩, rfl, rfl, by decide +kernel, rfl, rfl, rfl, ?_⟩
  intro sound
  exact absurd sound.bytesCover (by decide)

end Leviculum.Board
