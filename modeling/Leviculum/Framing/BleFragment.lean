import Leviculum.Lib.Slots

/-! Fragmentation of packets for the BLE interfaces: a five-byte header and a cut of the packet in each
frame, no frame of the length of an identity handshake. -/

namespace Leviculum.Framing.Ble

def fragmentHeaderSize : Nat := 5

def fragmentTypeLone : UInt8 := 0x00

def fragmentTypeStart : UInt8 := 0x01

def fragmentTypeContinue : UInt8 := 0x02

def fragmentTypeEnd : UInt8 := 0x03

def attHeaderSize : Nat := 3

def handshakeFrameLen : Nat := 16

def payloadPerFragment (mtu : Nat) : Nat := mtu - (attHeaderSize + fragmentHeaderSize)

def handshakePayload : Nat := handshakeFrameLen - fragmentHeaderSize

/-- The number of fragments, and the boundary before the last one where it is not the plain one. -/
def fragmentLayout (dataLen ppf : Nat) : Nat × Option Nat :=
  if ppf = 0 ∨ dataLen = 0 then (1, none)
  else
    let count := (dataLen + ppf - 1) / ppf
    let last := dataLen - (count - 1) * ppf
    if last ≠ handshakePayload then (count, none)
    else if count = 1 then (2, some (dataLen - 1))
    else if ppf > handshakePayload + 1 then (count, some (dataLen - (handshakePayload + 1)))
    else (count, none)

def fragmentCount (dataLen mtu : Nat) : Nat := (fragmentLayout dataLen (payloadPerFragment mtu)).1

def buildFragmentHeader (index total : Nat) : Bytes :=
  let ftype :=
    if index = 0 then fragmentTypeStart
    else if index = total - 1 then fragmentTypeEnd
    else fragmentTypeContinue
  ftype :: (Bytes.be16 (UInt16.ofNat index) ++ Bytes.be16 (UInt16.ofNat total))

def fragmentPayloadLen (dataLen index mtu : Nat) : Nat :=
  let ppf := payloadPerFragment mtu
  let (count, lastCut) := fragmentLayout dataLen ppf
  if ppf = 0 ∨ index ≥ count then 0
  else
    let start := index * ppf
    let stop := if start + ppf < dataLen then start + ppf else dataLen
    match lastCut with
    | some cut =>
      if index = count - 2 then cut - start
      else if index = count - 1 then dataLen - cut
      else stop - start
    | none => stop - start

/-- `&data[start..stop]`. -/
def slice (data : Bytes) (start stop : Nat) : Bytes := (data.take stop).drop start

def fragmentPayload (data : Bytes) (index mtu : Nat) : Bytes :=
  let ppf := payloadPerFragment mtu
  let (count, lastCut) := fragmentLayout data.length ppf
  if ppf = 0 ∨ index ≥ count then []
  else
    let start := min (index * ppf) data.length
    let stop := min (start + ppf) data.length
    match lastCut with
    | some cut =>
      if index = count - 2 then slice data start cut
      else if index = count - 1 then slice data cut data.length
      else slice data start stop
    | none => slice data start stop

def fragmentPacket (data : Bytes) (mtu : Nat) : List Bytes :=
  let total := fragmentCount data.length mtu
  (List.range total).map (fun i => buildFragmentHeader i total ++ fragmentPayload data i mtu)

/-! ### Where the packet is cut -/

/-- The start of fragment `index`; past the last one, the end of the packet. -/
def boundary (dataLen ppf index : Nat) : Nat :=
  let (count, lastCut) := fragmentLayout dataLen ppf
  if index < count then
    match lastCut with
    | some cut => if index = count - 1 then cut else index * ppf
    | none => index * ppf
  else dataLen

theorem fragmentLayout_cases (dataLen : Nat) {ppf : Nat} (roomy : 13 ≤ ppf) :
    (dataLen = 0 ∧ fragmentLayout dataLen ppf = (1, none)) ∨
      ∃ full last, dataLen = full * ppf + last ∧ 0 < last ∧ last ≤ ppf ∧
        ((last ≠ 11 ∧ fragmentLayout dataLen ppf = (full + 1, none)) ∨
          (last = 11 ∧ full = 0 ∧ fragmentLayout dataLen ppf = (2, some 10)) ∨
          (last = 11 ∧ 0 < full ∧ fragmentLayout dataLen ppf = (full + 1, some (dataLen - 12)))) := by
  by_cases empty : dataLen = 0
  · exact .inl ⟨empty, by simp [fragmentLayout, empty]⟩
  · have split := Nat.div_add_mod' (dataLen - 1) ppf
    have small := Nat.mod_lt (dataLen - 1) (show 0 < ppf by omega)
    generalize (dataLen - 1) / ppf = full at split
    generalize (dataLen - 1) % ppf = rest at split small
    have whole : dataLen = full * ppf + (rest + 1) := by omega
    have count : (dataLen + ppf - 1) / ppf = full + 1 := by
      rw [whole, show full * ppf + (rest + 1) + ppf - 1 = rest + ppf * (full + 1) by
          rw [Nat.mul_add, Nat.mul_comm full]; omega, Nat.add_mul_div_left _ _ (by omega),
        Nat.div_eq_of_lt small, Nat.zero_add]
    have last : dataLen - (full + 1 - 1) * ppf = rest + 1 := by
      rw [Nat.add_sub_cancel]
      omega
    have layout : fragmentLayout dataLen ppf =
        if rest + 1 ≠ 11 then (full + 1, none)
        else if full + 1 = 1 then (2, some (dataLen - 1))
        else if ppf > 12 then (full + 1, some (dataLen - 12))
        else (full + 1, none) := by
      simp only [fragmentLayout, if_neg (show ¬ (ppf = 0 ∨ dataLen = 0) by omega), count, last]
      rfl
    refine .inr ⟨full, rest + 1, whole, by omega, small, ?_⟩
    by_cases handshake : rest + 1 = 11
    · rw [if_neg (not_not.mpr handshake)] at layout
      by_cases lone : full = 0
      · refine .inr (.inl ⟨handshake, lone, ?_⟩)
        have eleven : dataLen = 11 := by
          rw [whole, lone, handshake]
          omega
        rw [layout, if_pos (by omega), eleven]
      · refine .inr (.inr ⟨handshake, by omega, ?_⟩)
        rw [layout, if_neg (by omega), if_pos (by omega)]
    · exact .inl ⟨handshake, by rw [layout, if_pos handshake]⟩

theorem boundary_zero (dataLen : Nat) {ppf : Nat} (roomy : 13 ≤ ppf) : boundary dataLen ppf 0 = 0 := by
  rcases fragmentLayout_cases dataLen roomy with
    ⟨-, layout⟩ | ⟨full, last, -, -, -, ⟨-, layout⟩ | ⟨-, -, layout⟩ | ⟨-, more, layout⟩⟩
  · simp [boundary, layout]
  · simp [boundary, layout]
  · simp [boundary, layout]
  · simp [boundary, layout]
    omega

theorem boundary_count (dataLen ppf : Nat) : boundary dataLen ppf (fragmentLayout dataLen ppf).1 = dataLen := by
  simp [boundary]

/-- Fragments are in order and within the packet, none longer than the payload of a frame, none of the
length of a handshake and none empty unless the packet is. -/
theorem boundary_step {dataLen ppf i : Nat} (roomy : 13 ≤ ppf) (inside : i < (fragmentLayout dataLen ppf).1) :
    boundary dataLen ppf i ≤ boundary dataLen ppf (i + 1) ∧
      boundary dataLen ppf (i + 1) ≤ dataLen ∧
      boundary dataLen ppf (i + 1) - boundary dataLen ppf i ≤ ppf ∧
      boundary dataLen ppf (i + 1) - boundary dataLen ppf i ≠ handshakePayload ∧
      (0 < dataLen → boundary dataLen ppf i < boundary dataLen ppf (i + 1)) := by
  have eleven : handshakePayload = 11 := rfl
  have next : (i + 1) * ppf = i * ppf + ppf := Nat.succ_mul i ppf
  rcases fragmentLayout_cases dataLen roomy with
    ⟨empty, layout⟩ | ⟨full, last, whole, filled, narrow, ⟨plain, layout⟩ | ⟨short, lone, layout⟩ | ⟨short, more, layout⟩⟩
  · rw [layout] at inside
    simp only [boundary, layout, show i = 0 by omega]
    simp [empty, eleven]
  · rw [layout] at inside
    have below : i * ppf ≤ full * ppf := Nat.mul_le_mul_right ppf (by omega)
    by_cases final : i = full
    · subst final
      simp only [boundary, layout, Nat.lt_succ_self, Nat.lt_irrefl, ↓reduceIte]
      omega
    · have above : (i + 1) * ppf ≤ full * ppf := Nat.mul_le_mul_right ppf (by omega)
      simp only [boundary, layout, if_pos (show i < full + 1 by omega), if_pos (show i + 1 < full + 1 by omega)]
      omega
  · rw [layout] at inside
    have size : dataLen = 11 := by
      rw [whole, lone, short]
      omega
    subst size
    obtain rfl | rfl : i = 0 ∨ i = 1 := by omega
    · simp [boundary, layout, eleven]
      omega
    · simp [boundary, layout, eleven]
      omega
  · rw [layout] at inside
    by_cases final : i = full
    · subst final
      simp only [boundary, layout, Nat.lt_succ_self, Nat.lt_irrefl, Nat.add_sub_cancel, ↓reduceIte]
      have long : ppf ≤ i * ppf := Nat.le_mul_of_pos_left ppf more
      omega
    · have above : (i + 1) * ppf ≤ full * ppf := Nat.mul_le_mul_right ppf (by omega)
      by_cases before : i + 1 = full
      · subst before
        simp only [boundary, layout, if_pos (show i < i + 1 + 1 by omega), Nat.lt_succ_self, Nat.add_sub_cancel,
          if_neg final, ↓reduceIte]
        omega
      · simp only [boundary, layout, if_pos (show i < full + 1 by omega), if_pos (show i + 1 < full + 1 by omega),
          Nat.add_sub_cancel, if_neg final, if_neg before]
        omega

/-- The three functions that place a fragment agree. -/
theorem fragment_range {data : Bytes} {mtu i : Nat} (roomy : 13 ≤ payloadPerFragment mtu)
    (inside : i < fragmentCount data.length mtu) :
    fragmentPayload data i mtu = slice data (boundary data.length (payloadPerFragment mtu) i)
        (boundary data.length (payloadPerFragment mtu) (i + 1)) ∧
      fragmentPayloadLen data.length i mtu = boundary data.length (payloadPerFragment mtu) (i + 1) -
        boundary data.length (payloadPerFragment mtu) i := by
  unfold fragmentCount at inside
  simp only [fragmentPayload, fragmentPayloadLen]
  generalize payloadPerFragment mtu = ppf at *
  have next : (i + 1) * ppf = i * ppf + ppf := Nat.succ_mul i ppf
  rcases fragmentLayout_cases data.length roomy with
    ⟨empty, layout⟩ | ⟨full, last, whole, filled, narrow, ⟨plain, layout⟩ | ⟨short, lone, layout⟩ | ⟨short, more, layout⟩⟩
  · rw [layout] at inside
    obtain rfl : i = 0 := by omega
    have outside : ¬ (ppf = 0 ∨ 0 ≥ 1) := by omega
    simp only [layout, if_neg outside, boundary]
    simp [slice, empty]
  · rw [layout] at inside
    have within : i * ppf ≤ full * ppf := Nat.mul_le_mul_right ppf (by omega)
    have outside : ¬ (ppf = 0 ∨ i ≥ full + 1) := by omega
    simp only [layout, if_neg outside, boundary, if_pos (show i < full + 1 by omega),
      Nat.min_eq_left (show i * ppf ≤ data.length by omega)]
    by_cases final : i = full
    · subst final
      rw [if_neg (Nat.lt_irrefl _), Nat.min_eq_right (by omega), if_neg (by omega)]
      exact ⟨rfl, rfl⟩
    · have above : (i + 1) * ppf ≤ full * ppf := Nat.mul_le_mul_right ppf (by omega)
      rw [if_pos (show i + 1 < full + 1 by omega), Nat.min_eq_left (by omega), if_pos (by omega), next]
      exact ⟨rfl, rfl⟩
  · rw [layout] at inside
    have size : data.length = 11 := by
      rw [whole, lone, short]
      omega
    have outside : ¬ (ppf = 0 ∨ i ≥ 2) := by
      dsimp only at inside
      omega
    simp only [layout, if_neg outside, boundary]
    obtain rfl | rfl : i = 0 ∨ i = 1 := by omega
    · simp
    · simp
  · rw [layout] at inside
    have within : i * ppf ≤ full * ppf := Nat.mul_le_mul_right ppf (by omega)
    have outside : ¬ (ppf = 0 ∨ i ≥ full + 1) := by omega
    simp only [layout, if_neg outside, boundary, if_pos (show i < full + 1 by omega), Nat.add_sub_cancel,
      Nat.min_eq_left (show i * ppf ≤ data.length by omega)]
    by_cases final : i = full
    · have later : ¬ i = full + 1 - 2 := by omega
      simp only [if_neg later, if_pos final, if_neg (show ¬ i + 1 < full + 1 by omega), and_self]
    · have above : (i + 1) * ppf ≤ full * ppf := Nat.mul_le_mul_right ppf (by omega)
      by_cases before : i + 1 = full
      · have penultimate : i = full + 1 - 2 := by omega
        simp only [if_pos penultimate, if_neg final, if_pos before, if_pos (show i + 1 < full + 1 by omega), and_self]
      · have early : ¬ i = full + 1 - 2 := by omega
        simp only [if_neg early, if_neg final, if_neg before, if_pos (show i + 1 < full + 1 by omega)]
        rw [Nat.min_eq_left (by omega), if_pos (by omega), next]
        exact ⟨rfl, rfl⟩

theorem flatten_slices (data : Bytes) {at_ : Nat → Nat} (first : at_ 0 = 0) (n : Nat)
    (rises : ∀ i < n, at_ i ≤ at_ (i + 1)) :
    ((List.range n).map (fun i => slice data (at_ i) (at_ (i + 1)))).flatten = data.take (at_ n) := by
  induction n with
  | zero => simp [first]
  | succ n ih =>
    have front := List.take_append_drop (at_ n) (data.take (at_ (n + 1)))
    rw [List.take_take, Nat.min_eq_left (rises n (Nat.lt_succ_self n))] at front
    rw [List.range_succ, List.map_append, List.flatten_append, ih (fun i less => rises i (by omega))]
    simpa [slice] using front

theorem length_slice {data : Bytes} {start stop : Nat} (inside : stop ≤ data.length) :
    (slice data start stop).length = stop - start := by
  rw [slice, List.length_drop, List.length_take, Nat.min_eq_left inside]

section Packet

variable {data : Bytes} {mtu : Nat} (roomy : 13 ≤ payloadPerFragment mtu)

include roomy

theorem fragmentPayload_length {i : Nat} (inside : i < fragmentCount data.length mtu) :
    (fragmentPayload data i mtu).length = fragmentPayloadLen data.length i mtu := by
  obtain ⟨payload, size⟩ := fragment_range roomy inside
  rw [payload, size, length_slice (boundary_step roomy inside).2.1]

theorem flatten_fragmentPayload :
    ((List.range (fragmentCount data.length mtu)).map (fun i => fragmentPayload data i mtu)).flatten = data := by
  have ranges : (List.range (fragmentCount data.length mtu)).map (fun i => fragmentPayload data i mtu) =
      (List.range (fragmentCount data.length mtu)).map (fun i =>
        slice data (boundary data.length (payloadPerFragment mtu) i)
          (boundary data.length (payloadPerFragment mtu) (i + 1))) := by
    apply List.map_congr_left
    intro i member
    exact (fragment_range roomy (List.mem_range.mp member)).1
  have cut := flatten_slices data (boundary_zero data.length roomy) (fragmentCount data.length mtu)
    (fun i less => (boundary_step roomy less).1)
  have last : boundary data.length (payloadPerFragment mtu) (fragmentCount data.length mtu) = data.length :=
    boundary_count data.length (payloadPerFragment mtu)
  rw [ranges, cut, last, List.take_length]

end Packet

theorem buildFragmentHeader_length (index total : Nat) : (buildFragmentHeader index total).length = fragmentHeaderSize := rfl

theorem fragmentCount_pos (dataLen : Nat) {mtu : Nat} (roomy : 13 ≤ payloadPerFragment mtu) :
    0 < fragmentCount dataLen mtu := by
  unfold fragmentCount
  rcases fragmentLayout_cases dataLen roomy with
    ⟨-, layout⟩ | ⟨full, last, -, -, -, ⟨-, layout⟩ | ⟨-, -, layout⟩ | ⟨-, -, layout⟩⟩
  all_goals
    rw [layout]
    simp

end Leviculum.Framing.Ble
