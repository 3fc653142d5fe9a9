import Leviculum.Framing.BleFragment

/-! Reassembly of BLE fragments: one packet at a time, its fragments in any order. -/

namespace Leviculum.Framing.Ble

open Slots

/-- The limits of one link; what `new` refuses of them plays no part below. -/
structure BleReassemblyLimits where
  packetBytes : Nat
  fragments : UInt16
  deriving DecidableEq

inductive DefragResult where
  | needMore
  | complete (packet : Bytes)
  | error
  deriving DecidableEq

structure BleDefragmenter where
  limits : BleReassemblyLimits
  fragments : List (Option Bytes)
  pending : Nat
  payloadBytes : Nat
  expectedTotal : UInt16
  lastFragmentMs : Nat
  abandoned : UInt32
  completedFragments : UInt16

/-- What the allocator answers in one call: for the slots, for the copy of a payload, for the packet. -/
structure Heap where
  spine : Bool
  copy : Bool
  packet : Bool

def Heap.ample : Heap := ⟨true, true, true⟩

/-- A subtraction that panics, or wraps, below zero. -/
def checkedSub (value less : Nat) : Option Nat := if less ≤ value then some (value - less) else none

namespace BleDefragmenter

def new (limits : BleReassemblyLimits) : BleDefragmenter where
  limits := limits
  fragments := []
  pending := 0
  payloadBytes := 0
  expectedTotal := 0
  lastFragmentMs := 0
  abandoned := 0
  completedFragments := 0

def reset (d : BleDefragmenter) : BleDefragmenter :=
  { d with fragments := [], pending := 0, payloadBytes := 0, expectedTotal := 0, lastFragmentMs := 0 }

def discardPartial (d : BleDefragmenter) : BleDefragmenter :=
  let abandoned := if d.pending ≠ 0 ∧ d.abandoned ≠ 0xFFFFFFFF then d.abandoned + 1 else d.abandoned
  reset { d with abandoned }

def abandon (d : BleDefragmenter) : BleDefragmenter := d.discardPartial

/-- The fragment in its slot, in the place of the one there before. -/
def store (d : BleDefragmenter) (slot : Nat) (old : Option Bytes) (payload : Bytes) (retained nowMs : Nat) :
    BleDefragmenter :=
  { d with
    fragments := d.fragments.set slot (some payload)
    pending := if old.isNone then d.pending + 1 else d.pending
    payloadBytes := retained + payload.length
    lastFragmentMs := nowMs }

/-- The packet, once every slot is filled. -/
def finish (d : BleDefragmenter) (heap : Heap) : DefragResult × BleDefragmenter :=
  if d.pending ≠ d.expectedTotal.toNat then (.needMore, d)
  else if heap.packet = false then (.error, d)
  else
    match assemble d.fragments with
    | none => (.error, d.reset)
    | some packet => (.complete packet, reset { d with completedFragments := d.expectedTotal })

/-- The part of `process` after the reassembly has been started; `none` where it would panic. -/
def place (d : BleDefragmenter) (seq total : UInt16) (payload : Bytes) (nowMs : Nat) (heap : Heap) :
    Option (DefragResult × BleDefragmenter) :=
  if total ≠ d.expectedTotal then some (.error, d.discardPartial)
  else do
    let old ← d.fragments[seq.toNat]?
    let retained ← checkedSub d.payloadBytes (held List.length old)
    let room ← checkedSub d.limits.packetBytes retained
    if payload.length > room then some (.error, d)
    else if heap.copy = false then some (.error, d)
    else some ((d.store seq.toNat old payload retained nowMs).finish heap)

/-- One fragment; `none` where the call would panic. -/
def process (d : BleDefragmenter) (fragment : Bytes) (nowMs : Nat) (heap : Heap) :
    Option (DefragResult × BleDefragmenter) :=
  match fragment with
  | ftype :: seqHigh :: seqLow :: totalHigh :: totalLow :: payload =>
    let seq := Bytes.ofBe16 seqHigh seqLow
    let total := Bytes.ofBe16 totalHigh totalLow
    if ftype > fragmentTypeEnd ∨ total = 0 ∨ total > d.limits.fragments ∨ seq ≥ total ∨
        payload.length > d.limits.packetBytes then
      some (.error, d)
    else if ftype = fragmentTypeLone ∨ (ftype = fragmentTypeStart ∧ seq = 0) then
      -- A new head supersedes a partial packet: the wire has no packet id.
      let d := d.discardPartial
      if ftype = fragmentTypeLone ∨ total = 1 then
        if heap.copy then some (.complete payload, { d with completedFragments := 1 })
        else some (.error, d)
      else if heap.spine then
        place { d with fragments := List.replicate total.toNat none, expectedTotal := total }
          seq total payload nowMs heap
      else some (.error, d)
    else d.place seq total payload nowMs heap
  | _ => some (.error, d)

def processOrAbandon (d : BleDefragmenter) (fragment : Bytes) (nowMs : Nat) (heap : Heap) :
    Option (DefragResult × BleDefragmenter) :=
  (d.process fragment nowMs heap).map (fun (result, after) =>
    (result, if result = .error then after.abandon else after))

/-! ### What holds in every state -/

/-- One slot for each fragment of the packet, and the counters tell what is in them. -/
structure Sound (d : BleDefragmenter) : Prop where
  slots : d.fragments.length = d.expectedTotal.toNat
  counted : d.pending = filled d.fragments
  weighed : d.payloadBytes = weight List.length d.fragments
  bounded : d.payloadBytes ≤ d.limits.packetBytes

theorem sound_reset (d : BleDefragmenter) : Sound d.reset := ⟨rfl, rfl, rfl, Nat.zero_le _⟩

theorem sound_discardPartial (d : BleDefragmenter) : Sound d.discardPartial := sound_reset _

theorem Sound.place_eq {d : BleDefragmenter} (sound : d.Sound) {seq total : UInt16} (expected : total = d.expectedTotal)
    (inside : seq < total) (payload : Bytes) (nowMs : Nat) (heap : Heap) :
    ∃ old, d.fragments[seq.toNat]? = some old ∧
      held List.length old ≤ d.payloadBytes ∧
      d.place seq total payload nowMs heap =
        if d.limits.packetBytes < d.payloadBytes - held List.length old + payload.length then some (.error, d)
        else if heap.copy = false then some (.error, d)
        else some ((d.store seq.toNat old payload (d.payloadBytes - held List.length old) nowMs).finish heap) := by
  have less : seq.toNat < d.fragments.length := by
    rw [sound.slots, ← expected]
    exact UInt16.lt_iff_toNat_lt.mp inside
  have found := List.getElem?_eq_getElem less
  have share : held List.length d.fragments[seq.toNat] ≤ d.payloadBytes := by
    rw [sound.weighed]
    exact held_le_weight found List.length
  have within := sound.bounded
  refine ⟨_, found, share, ?_⟩
  simp only [place, expected, ne_eq, not_true_eq_false, ↓reduceIte, found, checkedSub, share, Option.bind_eq_bind,
    Option.bind_some, if_pos (show d.payloadBytes - held List.length d.fragments[seq.toNat] ≤ d.limits.packetBytes by omega)]
  congr 1
  apply propext
  omega

theorem Sound.store {d : BleDefragmenter} (sound : d.Sound) {slot : Nat} {old : Option Bytes}
    (found : d.fragments[slot]? = some old) {payload : Bytes}
    (fits : d.payloadBytes - held List.length old + payload.length ≤ d.limits.packetBytes) (nowMs : Nat) :
    Sound (d.store slot old payload (d.payloadBytes - held List.length old) nowMs) where
  slots := by simp [BleDefragmenter.store, sound.slots]
  counted := by
    simp only [BleDefragmenter.store, filled_set found, sound.counted]
    cases old <;> rfl
  weighed := by
    have share := held_le_weight found List.length
    have swapped := weight_set found List.length payload
    have total := sound.weighed
    simp only [BleDefragmenter.store]
    omega
  bounded := fits

theorem Sound.finish {d : BleDefragmenter} (sound : d.Sound) (heap : Heap) :
    Sound (d.finish heap).2 ∧ (d.finish heap).2.limits = d.limits ∧
      ∀ packet, (d.finish heap).1 = .complete packet → packet.length ≤ d.limits.packetBytes := by
  unfold BleDefragmenter.finish
  split_ifs with short refused
  · exact ⟨sound, rfl, fun packet result => by cases result⟩
  · exact ⟨sound, rfl, fun packet result => by cases result⟩
  · have full : filled d.fragments = d.fragments.length := by
      rw [← sound.counted, sound.slots]
      exact not_not.mp short
    obtain ⟨whole, put, size⟩ := assemble_of_filled full
    rw [put]
    refine ⟨sound_reset _, rfl, ?_⟩
    intro packet result
    obtain rfl := DefragResult.complete.inj result
    rw [size, ← sound.weighed]
    exact sound.bounded

/-- A call that returns, leaves a sound state under the same limits and gives no packet beyond them. -/
def Safe (limits : BleReassemblyLimits) (outcome : Option (DefragResult × BleDefragmenter)) : Prop :=
  ∃ result after, outcome = some (result, after) ∧ Sound after ∧ after.limits = limits ∧
    ∀ packet, result = .complete packet → packet.length ≤ limits.packetBytes

theorem safe_error {limits : BleReassemblyLimits} {d : BleDefragmenter} (sound : d.Sound) (same : d.limits = limits) :
    Safe limits (some (.error, d)) := ⟨_, _, rfl, sound, same, fun packet result => by cases result⟩

theorem Sound.place {d : BleDefragmenter} (sound : d.Sound) {seq total : UInt16} (inside : seq < total)
    (payload : Bytes) (nowMs : Nat) (heap : Heap) : Safe d.limits (d.place seq total payload nowMs heap) := by
  by_cases expected : total = d.expectedTotal
  · obtain ⟨old, found, share, placed⟩ := sound.place_eq expected inside payload nowMs heap
    rw [placed]
    split_ifs with large refused
    · exact safe_error sound rfl
    · exact safe_error sound rfl
    · have fits : d.payloadBytes - held List.length old + payload.length ≤ d.limits.packetBytes := by omega
      obtain ⟨sound', same, small⟩ := (sound.store found fits nowMs).finish heap
      exact ⟨_, _, rfl, sound', same, small⟩
  · rw [BleDefragmenter.place, if_pos expected]
    exact safe_error (sound_discardPartial d) rfl

theorem sound_started (d : BleDefragmenter) (total : UInt16) :
    Sound { d.discardPartial with fragments := List.replicate total.toNat none, expectedTotal := total } where
  slots := List.length_replicate
  counted := (filled_replicate_none _).symm
  weighed := (weight_replicate_none _ _).symm
  bounded := Nat.zero_le _

theorem Sound.process {d : BleDefragmenter} (sound : d.Sound) (fragment : Bytes) (nowMs : Nat) (heap : Heap) :
    Safe d.limits (d.process fragment nowMs heap) := by
  unfold BleDefragmenter.process
  split
  next ftype seqHigh seqLow totalHigh totalLow payload =>
    dsimp only
    split_ifs with refused head whole copied spine
    · exact safe_error sound rfl
    · refine ⟨_, _, rfl, ⟨rfl, rfl, rfl, Nat.zero_le _⟩, rfl, ?_⟩
      intro packet result
      obtain rfl := DefragResult.complete.inj result
      simp only [not_or, Nat.not_lt] at refused
      omega
    · exact safe_error (sound_discardPartial d) rfl
    · simp only [not_or, UInt16.not_le] at refused
      exact (sound_started d _).place refused.2.2.2.1 payload nowMs heap
    · exact safe_error (sound_discardPartial d) rfl
    · simp only [not_or, UInt16.not_le] at refused
      exact sound.place refused.2.2.2.1 payload nowMs heap
  next => exact safe_error sound rfl

theorem Sound.processOrAbandon {d : BleDefragmenter} (sound : d.Sound) (fragment : Bytes) (nowMs : Nat) (heap : Heap) :
    Safe d.limits (d.processOrAbandon fragment nowMs heap) := by
  obtain ⟨result, after, processed, sound', same, small⟩ := sound.process fragment nowMs heap
  rw [BleDefragmenter.processOrAbandon, processed]
  by_cases failed : result = .error
  · refine ⟨result, after.abandon, by simp [failed], sound_discardPartial after, same, small⟩
  · exact ⟨result, after, by simp [failed], sound', same, small⟩

/-! ### Whole runs -/

inductive Call where
  | process (fragment : Bytes) (nowMs : Nat) (heap : Heap)
  | processOrAbandon (fragment : Bytes) (nowMs : Nat) (heap : Heap)
  | discardPartial
  | reset

/-- One call: its result, where it has one, and the state after it; `none` where it would panic. -/
def call (d : BleDefragmenter) : Call → Option (Option DefragResult × BleDefragmenter)
  | .process fragment nowMs heap => (d.process fragment nowMs heap).map (Prod.map some id)
  | .processOrAbandon fragment nowMs heap => (d.processOrAbandon fragment nowMs heap).map (Prod.map some id)
  | .discardPartial => some (none, d.discardPartial)
  | .reset => some (none, d.reset)

def run (d : BleDefragmenter) : List Call → Option (List DefragResult × BleDefragmenter)
  | [] => some ([], d)
  | first :: rest => do
    let (result, next) ← d.call first
    let (results, last) ← next.run rest
    some (result.toList ++ results, last)

theorem Sound.call {d : BleDefragmenter} (sound : d.Sound) (made : Call) :
    ∃ result after, d.call made = some (result, after) ∧ Sound after ∧ after.limits = d.limits ∧
      ∀ packet, result = some (.complete packet) → packet.length ≤ d.limits.packetBytes := by
  cases made with
  | process fragment nowMs heap =>
    obtain ⟨result, after, done, sound', same, small⟩ := sound.process fragment nowMs heap
    exact ⟨some result, after, by simp [BleDefragmenter.call, done], sound', same,
      fun packet equal => small packet (Option.some.inj equal)⟩
  | processOrAbandon fragment nowMs heap =>
    obtain ⟨result, after, done, sound', same, small⟩ := sound.processOrAbandon fragment nowMs heap
    exact ⟨some result, after, by simp [BleDefragmenter.call, done], sound', same,
      fun packet equal => small packet (Option.some.inj equal)⟩
  | discardPartial => exact ⟨none, _, rfl, sound_discardPartial d, rfl, fun packet equal => by cases equal⟩
  | reset => exact ⟨none, _, rfl, sound_reset d, rfl, fun packet equal => by cases equal⟩

theorem Sound.run {d : BleDefragmenter} (sound : d.Sound) (calls : List Call) :
    ∃ results after, d.run calls = some (results, after) ∧ Sound after ∧ after.limits = d.limits ∧
      ∀ packet, .complete packet ∈ results → packet.length ≤ d.limits.packetBytes := by
  induction calls generalizing d with
  | nil => exact ⟨[], d, rfl, sound, rfl, fun packet member => by cases member⟩
  | cons first rest ih =>
    obtain ⟨result, next, made, sound', same, small⟩ := sound.call first
    obtain ⟨results, last, went, sound'', same', small'⟩ := ih sound'
    refine ⟨result.toList ++ results, last, by simp [BleDefragmenter.run, made, went], sound'', same'.trans same, ?_⟩
    intro packet member
    rcases List.mem_append.mp member with now | later
    · exact small packet (Option.mem_toList.mp now)
    · rw [← same]
      exact small' packet later

/-- Whatever is received and however the allocator answers, the counters tell what the slots hold, within
the limits, and no call fails otherwise than by its result. -/
theorem ble_defragmenter_bounded (limits : BleReassemblyLimits) (calls : List Call) :
    ∃ results d, (new limits).run calls = some (results, d) ∧
      d.fragments.length = d.expectedTotal.toNat ∧
      d.pending = d.fragments.countP Option.isSome ∧
      d.payloadBytes = (d.fragments.map (fun slot => slot.elim 0 List.length)).sum ∧
      d.payloadBytes ≤ limits.packetBytes ∧
      ∀ packet, .complete packet ∈ results → packet.length ≤ limits.packetBytes := by
  have start : Sound (new limits) := ⟨rfl, rfl, rfl, Nat.zero_le _⟩
  obtain ⟨results, d, went, sound, same, small⟩ := start.run calls
  have bounded := sound.bounded
  rw [same] at bounded
  exact ⟨results, d, went, sound.slots, sound.counted, sound.weighed, bounded, small⟩

end BleDefragmenter

end Leviculum.Framing.Ble
