import Leviculum.Framing.BleReassembly

/-! A packet cut into BLE fragments comes together again, in whatever order its tail arrives. -/

namespace Leviculum.Framing.Ble

open Slots

/-- Fragment `index` of a packet. -/
def fragment (data : Bytes) (mtu index : Nat) : Bytes :=
  buildFragmentHeader index (fragmentCount data.length mtu) ++ fragmentPayload data index mtu

theorem fragmentPacket_eq (data : Bytes) (mtu : Nat) :
    fragmentPacket data mtu = (List.range (fragmentCount data.length mtu)).map (fragment data mtu) := rfl

theorem fragment_injective {data : Bytes} {mtu i j : Nat} (small : i < 65536) (small' : j < 65536)
    (same : fragment data mtu i = fragment data mtu j) : i = j := by
  simp only [fragment, buildFragmentHeader, Bytes.be16, List.cons_append, List.nil_append, List.cons.injEq] at same
  obtain ⟨-, high, low, -⟩ := same
  have number : UInt16.ofNat i = UInt16.ofNat j := by
    rw [← Bytes.ofBe16_be16 (UInt16.ofNat i), high, low, Bytes.ofBe16_be16]
  have values := congrArg UInt16.toNat number
  simp only [UInt16.toNat_ofNat'] at values
  omega

namespace BleDefragmenter

/-- The slots of a packet of which the numbers in `seen` have arrived. -/
def slotsSeen (data : Bytes) (mtu : Nat) (seen : List Nat) : List (Option Bytes) :=
  (List.range (fragmentCount data.length mtu)).map
    (fun i => if i ∈ seen then some (fragmentPayload data i mtu) else none)

structure Collecting (data : Bytes) (mtu : Nat) (seen : List Nat) (d : BleDefragmenter) : Prop where
  sound : Sound d
  total : d.expectedTotal = UInt16.ofNat (fragmentCount data.length mtu)
  slots : d.fragments = slotsSeen data mtu seen
  count : fragmentCount data.length mtu ≤ d.limits.fragments.toNat
  room : data.length ≤ d.limits.packetBytes

section

variable {data : Bytes} {mtu : Nat} {seen : List Nat} {d : BleDefragmenter}

theorem slotsSeen_set (i : Nat) :
    (slotsSeen data mtu seen).set i (some (fragmentPayload data i mtu)) = slotsSeen data mtu (i :: seen) := by
  apply List.ext_getElem
  · simp [slotsSeen]
  · intro j less less'
    by_cases same : i = j
    · subst same
      simp [slotsSeen]
    · have other : j ≠ i := Ne.symm same
      simp [slotsSeen, same, other]

theorem weight_slotsSeen_le (roomy : 13 ≤ payloadPerFragment mtu) :
    weight List.length (slotsSeen data mtu seen) ≤ data.length := by
  calc weight List.length (slotsSeen data mtu seen)
      ≤ ((List.range (fragmentCount data.length mtu)).map (fun i => (fragmentPayload data i mtu).length)).sum :=
        weight_map_le _ _ _ _
    _ = ((List.range (fragmentCount data.length mtu)).map (fun i => fragmentPayload data i mtu)).flatten.length := by
        rw [List.length_flatten, List.map_map]
        rfl
    _ = data.length := by rw [flatten_fragmentPayload roomy]

theorem filled_slotsSeen :
    filled (slotsSeen data mtu seen) = (slotsSeen data mtu seen).length ↔
      ∀ i < fragmentCount data.length mtu, i ∈ seen := by
  rw [filled_eq_length]
  simp [slotsSeen]

theorem assemble_slotsSeen (roomy : 13 ≤ payloadPerFragment mtu)
    (whole : ∀ i < fragmentCount data.length mtu, i ∈ seen) :
    assemble (slotsSeen data mtu seen) = some data := by
  have full : slotsSeen data mtu seen =
      ((List.range (fragmentCount data.length mtu)).map (fun i => fragmentPayload data i mtu)).map some := by
    rw [List.map_map]
    apply List.map_congr_left
    intro i member
    rw [if_pos (whole i (List.mem_range.mp member))]
    rfl
  rw [full, assemble_map_some, flatten_fragmentPayload roomy]

theorem Collecting.place (now : Collecting data mtu seen d) (roomy : 13 ≤ payloadPerFragment mtu)
    (counted : fragmentCount data.length mtu < 65536) {i : Nat} (inside : i < fragmentCount data.length mtu)
    (nowMs : Nat) :
    ∃ after, Collecting data mtu (i :: seen) after ∧
      d.place (UInt16.ofNat i) (UInt16.ofNat (fragmentCount data.length mtu)) (fragmentPayload data i mtu) nowMs .ample =
        some (after.finish .ample) := by
  have number : (UInt16.ofNat i).toNat = i := by
    rw [UInt16.toNat_ofNat']
    omega
  have below : UInt16.ofNat i < UInt16.ofNat (fragmentCount data.length mtu) := by
    rw [UInt16.lt_iff_toNat_lt, number, UInt16.toNat_ofNat']
    omega
  obtain ⟨old, found, share, placed⟩ := now.sound.place_eq now.total.symm below (fragmentPayload data i mtu) nowMs .ample
  rw [number] at found placed
  have swapped := weight_set found List.length (fragmentPayload data i mtu)
  have bound : weight List.length (d.fragments.set i (some (fragmentPayload data i mtu))) ≤ data.length := by
    rw [now.slots, slotsSeen_set]
    exact weight_slotsSeen_le roomy
  have total := now.sound.weighed
  have room := now.room
  have fits : d.payloadBytes - held List.length old + (fragmentPayload data i mtu).length ≤ d.limits.packetBytes := by
    omega
  rw [if_neg (by omega), if_neg (by decide)] at placed
  refine ⟨_, ?_, placed⟩
  exact ⟨now.sound.store found fits nowMs, now.total, by
    rw [BleDefragmenter.store, now.slots, slotsSeen_set], now.count, now.room⟩

theorem Collecting.finish (now : Collecting data mtu seen d) (roomy : 13 ≤ payloadPerFragment mtu) :
    ((∀ i < fragmentCount data.length mtu, i ∈ seen) → ∃ after, d.finish .ample = (.complete data, after)) ∧
      ((∃ i < fragmentCount data.length mtu, i ∉ seen) → d.finish .ample = (.needMore, d)) := by
  have full : d.pending = d.expectedTotal.toNat ↔ ∀ i < fragmentCount data.length mtu, i ∈ seen := by
    rw [now.sound.counted, ← now.sound.slots, now.slots]
    exact filled_slotsSeen
  constructor
  · intro whole
    refine ⟨reset { d with completedFragments := d.expectedTotal }, ?_⟩
    rw [BleDefragmenter.finish, if_neg (not_not.mpr (full.mpr whole)), if_neg (by decide), now.slots,
      assemble_slotsSeen roomy whole]
  · rintro ⟨i, inside, missing⟩
    rw [BleDefragmenter.finish, if_pos]
    intro counts
    exact missing (full.mp counts i inside)

/-- The bytes of a fragment, read by the receiver. -/
theorem process_header (d : BleDefragmenter) {i total : Nat} (inside : i < total) (counted : total < 65536)
    (count : total ≤ d.limits.fragments.toNat) {payload : Bytes} (room : payload.length ≤ d.limits.packetBytes)
    (nowMs : Nat) :
    d.process (buildFragmentHeader i total ++ payload) nowMs .ample =
      if i = 0 then
        if total = 1 then some (.complete payload, { d.discardPartial with completedFragments := 1 })
        else
          BleDefragmenter.place
            { d.discardPartial with
              fragments := List.replicate (UInt16.ofNat total).toNat none, expectedTotal := UInt16.ofNat total }
            (UInt16.ofNat i) (UInt16.ofNat total) payload nowMs .ample
      else d.place (UInt16.ofNat i) (UInt16.ofNat total) payload nowMs .ample := by
  have number : (UInt16.ofNat i).toNat = i := by
    rw [UInt16.toNat_ofNat']
    omega
  have totals : (UInt16.ofNat total).toNat = total := by
    rw [UInt16.toNat_ofNat']
    omega
  have zero : UInt16.ofNat i = 0 ↔ i = 0 := by
    rw [← UInt16.toNat_inj, number]
    rfl
  have one : UInt16.ofNat total = 1 ↔ total = 1 := by
    rw [← UInt16.toNat_inj, totals]
    rfl
  have some_ : ¬ UInt16.ofNat total = 0 := by
    rw [← UInt16.toNat_inj, totals]
    show ¬ total = 0
    omega
  have listed : ¬ UInt16.ofNat total > d.limits.fragments := by
    rw [gt_iff_lt, UInt16.lt_iff_toNat_lt, totals]
    omega
  have below : ¬ UInt16.ofNat i ≥ UInt16.ofNat total := by
    rw [ge_iff_le, UInt16.le_iff_toNat_le, totals, number]
    omega
  have fits : ¬ payload.length > d.limits.packetBytes := by omega
  simp only [buildFragmentHeader, Bytes.be16, List.cons_append, List.nil_append, process, Bytes.ofBe16_be16, some_,
    listed, below, fits, or_false]
  by_cases first : i = 0
  · simp only [first, ↓reduceIte]
    have known : ¬ fragmentTypeStart > fragmentTypeEnd := by decide
    have head : ¬ fragmentTypeStart = fragmentTypeLone := by decide
    simp only [known, head, one, Heap.ample, ↓reduceIte, false_or]
    rfl
  · have tail : ∀ ftype, ftype = fragmentTypeEnd ∨ ftype = fragmentTypeContinue →
        ¬ ftype > fragmentTypeEnd ∧ ¬ ftype = fragmentTypeLone ∧ ¬ ftype = fragmentTypeStart := by
      rintro ftype (rfl | rfl) <;> decide
    have known := tail (if i = total - 1 then fragmentTypeEnd else fragmentTypeContinue) (by split <;> simp)
    simp only [if_neg first, known.1, known.2.1, known.2.2, false_and, or_false, ↓reduceIte]

theorem fragmentPayload_le (roomy : 13 ≤ payloadPerFragment mtu) {i : Nat} (inside : i < fragmentCount data.length mtu) :
    (fragmentPayload data i mtu).length ≤ data.length := by
  have stop := (boundary_step roomy inside).2.1
  rw [(fragment_range roomy inside).1, length_slice stop]
  omega

theorem Collecting.process (now : Collecting data mtu seen d) (roomy : 13 ≤ payloadPerFragment mtu)
    (counted : fragmentCount data.length mtu < 65536) {i : Nat} (later : 0 < i)
    (inside : i < fragmentCount data.length mtu) (nowMs : Nat) :
    ((∀ j < fragmentCount data.length mtu, j ∈ i :: seen) →
        ∃ after, d.process (fragment data mtu i) nowMs .ample = some (.complete data, after)) ∧
      ((∃ j < fragmentCount data.length mtu, j ∉ i :: seen) →
        ∃ after, d.process (fragment data mtu i) nowMs .ample = some (.needMore, after) ∧
          Collecting data mtu (i :: seen) after) := by
  have share := (fragmentPayload_le roomy inside).trans now.room
  have read := process_header d inside counted now.count share nowMs
  rw [if_neg (by omega)] at read
  obtain ⟨after, next, placed⟩ := now.place roomy counted inside nowMs
  have processed : d.process (fragment data mtu i) nowMs .ample = some (after.finish .ample) := read.trans placed
  obtain ⟨whole, unfinished⟩ := next.finish roomy
  constructor
  · intro all
    obtain ⟨last, finished⟩ := whole all
    exact ⟨last, by rw [processed, finished]⟩
  · intro missing
    exact ⟨after, by rw [processed, unfinished missing], next⟩

theorem process_first (d : BleDefragmenter) (roomy : 13 ≤ payloadPerFragment mtu)
    (counted : fragmentCount data.length mtu < 65536) (count : fragmentCount data.length mtu ≤ d.limits.fragments.toNat)
    (room : data.length ≤ d.limits.packetBytes) (nowMs : Nat) :
    (fragmentCount data.length mtu = 1 →
        ∃ after, d.process (fragment data mtu 0) nowMs .ample = some (.complete data, after)) ∧
      (1 < fragmentCount data.length mtu →
        ∃ after, d.process (fragment data mtu 0) nowMs .ample = some (.needMore, after) ∧
          Collecting data mtu [0] after) := by
  have inside := fragmentCount_pos data.length roomy
  have read := process_header d inside counted count ((fragmentPayload_le roomy inside).trans room) nowMs
  rw [if_pos rfl] at read
  constructor
  · intro lone
    rw [if_pos lone] at read
    have whole : ((List.range (fragmentCount data.length mtu)).map (fun i => fragmentPayload data i mtu)).flatten = data :=
      flatten_fragmentPayload roomy
    rw [lone, List.range_one, List.map_singleton, List.flatten_singleton] at whole
    rw [whole] at read
    rw [fragment, whole]
    exact ⟨_, read⟩
  · intro more
    rw [if_neg (by omega)] at read
    have empty : Collecting data mtu []
        { d.discardPartial with
          fragments := List.replicate (UInt16.ofNat (fragmentCount data.length mtu)).toNat none
          expectedTotal := UInt16.ofNat (fragmentCount data.length mtu) } := by
      refine ⟨sound_started d _, rfl, ?_, count, room⟩
      rw [UInt16.toNat_ofNat', Nat.mod_eq_of_lt counted]
      simp [slotsSeen, List.map_const']
    obtain ⟨after, next, placed⟩ := empty.place roomy counted inside nowMs
    have missing : ∃ j < fragmentCount data.length mtu, j ∉ [0] := ⟨1, more, by decide⟩
    exact ⟨after, by rw [fragment, read, placed, (next.finish roomy).2 missing], next⟩

theorem Collecting.run (roomy : 13 ≤ payloadPerFragment mtu) (counted : fragmentCount data.length mtu < 65536)
    {order : List (Bytes × Nat)} (now : Collecting data mtu seen d)
    (tail : ∀ sent ∈ order, ∃ i, 0 < i ∧ i < fragmentCount data.length mtu ∧ sent.1 = fragment data mtu i)
    (missing : ∃ j < fragmentCount data.length mtu, j ∉ seen ∧ fragment data mtu j ∉ order.map Prod.fst) :
    ∃ after seen', d.run (order.map (fun sent => .process sent.1 sent.2 .ample)) =
        some (List.replicate order.length .needMore, after) ∧
      Collecting data mtu seen' after ∧
      ∀ j < fragmentCount data.length mtu, j ∈ seen ∨ fragment data mtu j ∈ order.map Prod.fst → j ∈ seen' := by
  induction order generalizing d seen with
  | nil =>
    refine ⟨d, seen, rfl, now, ?_⟩
    rintro j - (already | none_)
    · exact already
    · cases none_
  | cons sent order ih =>
    obtain ⟨i, later, inside, same⟩ := tail sent List.mem_cons_self
    obtain ⟨j, less, unseen, unsent⟩ := missing
    simp only [List.map_cons, List.mem_cons, not_or] at unsent
    have other : j ≠ i := by
      rintro rfl
      exact unsent.1 same.symm
    obtain ⟨next, processed, now'⟩ := (now.process roomy counted later inside sent.2).2 ⟨j, less, by simp [other, unseen]⟩
    obtain ⟨after, seen', went, collecting, covers⟩ := ih now' (fun sent member => tail sent (List.mem_cons_of_mem _ member))
      ⟨j, less, by simp [other, unseen], unsent.2⟩
    refine ⟨after, seen', ?_, collecting, ?_⟩
    · simp [BleDefragmenter.run, BleDefragmenter.call, same, processed, went, List.replicate_succ]
    · rintro k bound (already | arrived)
      · exact covers k bound (.inl (List.mem_cons_of_mem _ already))
      · rcases List.mem_cons.mp arrived with first | rest
        · obtain rfl := fragment_injective (by omega) (by omega) (first.trans same)
          exact covers k bound (.inl List.mem_cons_self)
        · exact covers k bound (.inr rest)

end

end BleDefragmenter

/-- The fragments are the packet cut in order, each within its frame and none taken for a handshake; a
receiver in any state that hears the first of them and then the others, in whatever order and however often,
gives the packet when the last one missing arrives and nothing before. -/
theorem ble_round_trip (packet : Bytes) (mtu : Nat) (roomy : 13 ≤ payloadPerFragment mtu)
    (counted : fragmentCount packet.length mtu < 65536) :
    ((fragmentPacket packet mtu).map (List.drop fragmentHeaderSize)).flatten = packet ∧
    (fragmentPacket packet mtu).length = fragmentCount packet.length mtu ∧
    (∀ i frame, (fragmentPacket packet mtu)[i]? = some frame →
      frame = buildFragmentHeader i (fragmentCount packet.length mtu) ++ fragmentPayload packet i mtu ∧
      frame.length = fragmentHeaderSize + fragmentPayloadLen packet.length i mtu ∧
      frame.length + attHeaderSize ≤ mtu ∧ frame.length ≠ handshakeFrameLen ∧
      (packet ≠ [] → fragmentPayload packet i mtu ≠ [])) ∧
    ∀ (d : BleDefragmenter) (start : Bytes) (rest : List Bytes), fragmentPacket packet mtu = start :: rest →
      fragmentCount packet.length mtu ≤ d.limits.fragments.toNat → packet.length ≤ d.limits.packetBytes →
      ∀ startMs,
        (rest = [] → ∃ after, d.process start startMs .ample = some (.complete packet, after)) ∧
        ∀ order : List (Bytes × Nat), (∀ sent ∈ order, sent.1 ∈ rest) →
          (∃ missing ∈ rest, missing ∉ order.map Prod.fst) →
          ∃ after, d.run (((start, startMs) :: order).map (fun sent => .process sent.1 sent.2 .ample)) =
              some (List.replicate (order.length + 1) .needMore, after) ∧
            ∀ last lastMs, (∀ frame ∈ rest, frame ∈ order.map Prod.fst ∨ frame = last) →
              ∃ final, after.process last lastMs .ample = some (.complete packet, final) := by
  have positive := fragmentCount_pos packet.length roomy
  refine ⟨?_, by simp [fragmentPacket_eq], ?_, ?_⟩
  · have payloads : (fragmentPacket packet mtu).map (List.drop fragmentHeaderSize) =
        (List.range (fragmentCount packet.length mtu)).map (fun i => fragmentPayload packet i mtu) := by
      rw [fragmentPacket_eq, List.map_map]
      rfl
    rw [payloads, flatten_fragmentPayload roomy]
  · intro i frame found
    rw [fragmentPacket_eq, List.getElem?_map, Option.map_eq_some_iff] at found
    obtain ⟨j, member, rfl⟩ := found
    obtain ⟨inside, value⟩ := List.getElem?_eq_some_iff.mp member
    rw [List.length_range] at inside
    obtain rfl : i = j := by simpa using value
    obtain ⟨-, stop, narrow, apart, filled⟩ := boundary_step roomy inside
    obtain ⟨payload, size⟩ := fragment_range roomy inside
    have length : (fragment packet mtu i).length = fragmentHeaderSize + fragmentPayloadLen packet.length i mtu := by
      rw [fragment, List.length_append, buildFragmentHeader_length, fragmentPayload_length roomy inside]
    rw [← size] at narrow apart
    refine ⟨rfl, length, ?_, ?_, ?_⟩
    · rw [length]
      unfold payloadPerFragment attHeaderSize fragmentHeaderSize at *
      omega
    · rw [length]
      unfold handshakePayload handshakeFrameLen fragmentHeaderSize at *
      omega
    · intro full empty
      have gap := filled (List.length_pos_iff.mpr full)
      have zero := fragmentPayload_length roomy inside
      rw [empty, size, List.length_nil] at zero
      omega
  · intro d start rest split count room startMs
    obtain ⟨more, total⟩ : ∃ more, fragmentCount packet.length mtu = more + 1 := ⟨_, (Nat.succ_pred positive.ne').symm⟩
    have cut : fragmentPacket packet mtu =
        fragment packet mtu 0 :: (List.range more).map (fun i => fragment packet mtu (i + 1)) := by
      rw [fragmentPacket_eq, total, List.range_succ_eq_map, List.map_cons, List.map_map]
      rfl
    obtain ⟨first, others⟩ := List.cons.inj (split.symm.trans cut)
    have tail : ∀ frame, frame ∈ rest ↔ ∃ i, 0 < i ∧ i < fragmentCount packet.length mtu ∧ frame = fragment packet mtu i := by
      intro frame
      rw [others, List.mem_map]
      constructor
      · rintro ⟨i, member, rfl⟩
        have less := List.mem_range.mp member
        exact ⟨i + 1, by omega, by omega, rfl⟩
      · rintro ⟨i, positive, less, rfl⟩
        obtain ⟨k, rfl⟩ : ∃ k, i = k + 1 := ⟨i - 1, by omega⟩
        exact ⟨k, List.mem_range.mpr (by omega), rfl⟩
    obtain ⟨lone, many⟩ := BleDefragmenter.process_first d roomy counted count room startMs
    rw [first]
    constructor
    · intro nothing
      have size := congrArg List.length others
      rw [nothing, List.length_map, List.length_range, List.length_nil] at size
      exact lone (by omega)
    · rintro order among ⟨missing, member, unsent⟩
      obtain ⟨j, later, less, rfl⟩ := (tail missing).mp member
      obtain ⟨next, begun, collecting⟩ := many (by omega)
      obtain ⟨after, seen, went, now, covers⟩ := collecting.run roomy counted
        (fun sent member => (tail sent.1).mp (among sent member)) ⟨j, less, by simp; omega, unsent⟩
      refine ⟨after, ?_, ?_⟩
      · simp [BleDefragmenter.run, BleDefragmenter.call, begun, went, List.replicate_succ]
      · intro last lastMs complete
        have same : fragment packet mtu j = last := (complete _ member).resolve_left unsent
        rw [← same]
        apply (now.process roomy counted later less lastMs).1
        intro k bound
        by_cases zero : k = 0
        · exact List.mem_cons_of_mem _ (covers k bound (.inl (by simp [zero])))
        · rcases complete _ ((tail _).mpr ⟨k, by omega, bound, rfl⟩) with arrived | final
          · exact List.mem_cons_of_mem _ (covers k bound (.inr arrived))
          · obtain rfl := fragment_injective (by omega) (by omega) (final.trans same.symm)
            exact List.mem_cons_self

/-- Thirty-two bytes in three frames of a link of 23 bytes, the last heard twice before the second. -/
theorem ble_round_trip_duplicate :
    ∃ after final : BleDefragmenter,
      (BleDefragmenter.new ⟨564, 38⟩).run
          [.process ([1, 0, 0, 0, 3] ++ List.replicate 15 7) 10 .ample,
            .process ([3, 0, 2, 0, 3] ++ List.replicate 2 7) 20 .ample,
            .process ([3, 0, 2, 0, 3] ++ List.replicate 2 7) 30 .ample] =
        some ([.needMore, .needMore, .needMore], after) ∧
      after.process ([2, 0, 1, 0, 3] ++ List.replicate 15 7) 40 .ample =
        some (.complete (List.replicate 32 7), final) := by
  have trip := (ble_round_trip (List.replicate 32 7) 23 (by decide) (by decide)).2.2.2
    (BleDefragmenter.new ⟨564, 38⟩) ([1, 0, 0, 0, 3] ++ List.replicate 15 7)
    [[2, 0, 1, 0, 3] ++ List.replicate 15 7, [3, 0, 2, 0, 3] ++ List.replicate 2 7] (by decide) (by decide) (by decide) 10
  obtain ⟨after, went, completes⟩ := trip.2
    [([3, 0, 2, 0, 3] ++ List.replicate 2 7, 20), ([3, 0, 2, 0, 3] ++ List.replicate 2 7, 30)] (by decide) (by decide)
  obtain ⟨final, whole⟩ := completes ([2, 0, 1, 0, 3] ++ List.replicate 15 7) 40 (by decide)
  exact ⟨after, final, went, whole⟩

end Leviculum.Framing.Ble
