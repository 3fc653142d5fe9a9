import Leviculum.Transport.Packet

/-! The packet codec read both ways, and the hash that is the same at every hop. -/

namespace Leviculum

theorem FixedBytes.take?_append {n : Nat} (start : FixedBytes n) (rest : Bytes) :
    FixedBytes.take? n (start.val ++ rest) = some start := by
  have long : n ≤ (start.val ++ rest).length := by
    rw [List.length_append, start.2]
    exact Nat.le_add_right _ _
  rw [FixedBytes.take?, dif_pos long]
  congr 1
  apply Subtype.ext
  exact List.take_left' start.2

namespace Transport

namespace PacketContext

/-- The bytes `from_byte` gives a name to. -/
def named (byte : UInt8) : Bool := byte ≤ 0x0E ∨ 0xFA ≤ byte

theorem fromByte_unknown (byte : UInt8) : fromByte byte = .unknown byte ↔ named byte = false := by
  apply forall_byte (p := fun byte => fromByte byte = .unknown byte ↔ named byte = false)
  decide +kernel

theorem fromByte_toByte (context : PacketContext) :
    fromByte context.toByte = context ↔ ∀ byte, context = .unknown byte → named byte = false := by
  cases context with
  | unknown byte =>
    rw [toByte, fromByte_unknown]
    constructor
    · rintro free other same
      cases same
      exact free
    · intro free
      exact free byte rfl
  | _ => simp [toByte, fromByte]

end PacketContext

namespace PacketFlags

theorem fromByte_toByte (flags : PacketFlags) : fromByte flags.toByte = flags := by
  obtain ⟨ifac, header, context, route, dest, type⟩ := flags
  cases ifac <;> cases header <;> cases context <;> cases route <;> cases dest <;> cases type <;> rfl

theorem toByte_fromByte (byte : UInt8) : (fromByte byte).toByte = byte := by
  apply forall_byte (p := fun byte => (fromByte byte).toByte = byte)
  decide +kernel

end PacketFlags

namespace Packet

def headerSize (packet : Packet) : Nat :=
  match packet.flags.headerType with
  | .type1 => headerMinSize
  | .type2 => headerMaxSize

def packedSize (packet : Packet) : Nat := packet.headerSize + packet.data.length

/-- `pack` into a slice: the number of bytes written, and the slice after it. -/
def packInto (packet : Packet) (output : Bytes) : Except PacketError Nat × Bytes :=
  if output.length < packet.packedSize then (.error .tooShort, output)
  else
    match packet.pack with
    | some raw => (.ok raw.length, raw ++ output.drop raw.length)
    | none => (.error .invalidFlags, packet.flags.toByte :: packet.hops :: output.drop 2)

theorem parseTail_eq_ok {flags : PacketFlags} {hops : UInt8} {tid : Option TruncatedHash} {tail : Bytes} {packet : Packet}
    (parsed : parseTail flags hops tid tail = .ok packet) :
    packet.flags = flags ∧ packet.hops = hops ∧ packet.transportId = tid ∧
      packet.destinationHash.val ++ packet.context.toByte :: packet.data = tail := by
  unfold parseTail at parsed
  split at parsed
  next dest context data taken rest =>
    cases parsed
    refine ⟨rfl, rfl, rfl, ?_⟩
    have whole := FixedBytes.take?_eq_some taken
    rw [rest] at whole
    rw [PacketContext.toByte_fromByte]
    exact whole
  next => cases parsed

theorem pack_unpack {raw : Bytes} {packet : Packet} (parsed : unpack raw = .ok packet) : packet.pack = some raw := by
  unfold unpack at parsed
  split at parsed
  next flagsByte hops rest =>
    dsimp only at parsed
    split at parsed
    next => cases parsed
    next =>
    split at parsed
    next => cases parsed
    next =>
    split at parsed
    next type1 =>
      obtain ⟨flags, hops', tid, tail⟩ := parseTail_eq_ok parsed
      simp only [pack, flags, type1, hops', tail, PacketFlags.toByte_fromByte]
    next type2 =>
      split at parsed
      next => cases parsed
      next id taken =>
        obtain ⟨flags, hops', tid, tail⟩ := parseTail_eq_ok parsed
        have whole := FixedBytes.take?_eq_some taken
        simp only [pack, flags, type2, hops', tid, tail, PacketFlags.toByte_fromByte, whole]
  next => cases parsed

theorem length_pack {packet : Packet} {raw : Bytes} (packed : packet.pack = some raw) : raw.length = packet.packedSize := by
  unfold pack at packed
  dsimp only at packed
  split at packed
  next type1 =>
    cases packed
    simp only [packedSize, headerSize, type1, headerMinSize, List.length_cons, List.length_append, packet.destinationHash.2]
    omega
  next tid type2 _ =>
    cases packed
    simp only [packedSize, headerSize, type2, headerMaxSize, List.length_cons, List.length_append, packet.destinationHash.2,
      tid.2]
    omega
  next => cases packed

theorem parseTail_append (flags : PacketFlags) (hops : UInt8) (transportId : Option TruncatedHash)
    (destinationHash : TruncatedHash) (context : UInt8) (data : Bytes) :
    parseTail flags hops transportId (destinationHash.val ++ context :: data) =
      .ok ⟨flags, hops, transportId, destinationHash, .fromByte context, data⟩ := by
  have rest : (destinationHash.val ++ context :: data).drop truncatedHashBytes = context :: data :=
    List.drop_left' destinationHash.2
  have start : FixedBytes.take? truncatedHashBytes (destinationHash.val ++ context :: data) = some destinationHash :=
    FixedBytes.take?_append destinationHash _
  simp only [parseTail, start, rest]

theorem unpack_pack {packet : Packet} (present : packet.transportId.isSome ↔ packet.flags.headerType = .type2)
    (short : packet.flags.packetType = .announce → packet.packedSize ≤ mtu) :
    ∃ raw, packet.pack = some raw ∧ unpack raw = .ok { packet with context := .fromByte packet.context.toByte } := by
  obtain ⟨flags, hops, transportId, destinationHash, context, data⟩ := packet
  have size : destinationHash.val.length = 16 := destinationHash.2
  have bounded : flags.packetType = .announce →
      packedSize ⟨flags, hops, transportId, destinationHash, context, data⟩ ≤ mtu := short
  cases type : flags.headerType with
  | type1 =>
    obtain rfl : transportId = none := by
      cases transportId with
      | none => rfl
      | some tid => cases type.symm.trans (present.mp rfl)
    refine ⟨flags.toByte :: hops :: (destinationHash.val ++ context.toByte :: data), by simp only [pack, type], ?_⟩
    have length : (flags.toByte :: hops :: (destinationHash.val ++ context.toByte :: data)).length = 19 + data.length := by
      simp only [List.length_cons, List.length_append, size]
      omega
    have small : ¬ (flags.packetType = .announce ∧ 19 + data.length > mtu) := by
      rintro ⟨announce, large⟩
      have fits := bounded announce
      simp only [packedSize, headerSize, type, headerMinSize] at fits
      omega
    simp only [unpack, PacketFlags.fromByte_toByte, length, if_neg small, type, parseTail_append]
    rw [if_neg (by unfold headerMinSize; omega)]
  | type2 =>
    obtain ⟨tid, rfl⟩ := Option.isSome_iff_exists.mp (present.mpr type)
    have width : tid.val.length = 16 := tid.2
    refine ⟨flags.toByte :: hops :: (tid.val ++ (destinationHash.val ++ context.toByte :: data)), by simp only [pack, type], ?_⟩
    have length : (flags.toByte :: hops :: (tid.val ++ (destinationHash.val ++ context.toByte :: data))).length =
        35 + data.length := by
      simp only [List.length_cons, List.length_append, size, width]
      omega
    have small : ¬ (flags.packetType = .announce ∧ 35 + data.length > mtu) := by
      rintro ⟨announce, large⟩
      have fits := bounded announce
      simp only [packedSize, headerSize, type, headerMaxSize] at fits
      omega
    have rest : (tid.val ++ (destinationHash.val ++ context.toByte :: data)).drop truncatedHashBytes =
        destinationHash.val ++ context.toByte :: data := List.drop_left' tid.2
    have start : FixedBytes.take? truncatedHashBytes (tid.val ++ (destinationHash.val ++ context.toByte :: data)) =
        some tid := FixedBytes.take?_append tid _
    simp only [unpack, PacketFlags.fromByte_toByte, length, if_neg small, type, start, rest, parseTail_append]
    rw [if_neg (by unfold headerMinSize; omega)]

/-! ### The hash -/

section Hash

variable {Hash : Type} (sha256 : Bytes → Hash)

def fullHashParts (parts : List Bytes) : Hash := sha256 parts.flatten

/-- `packet_hash`: the hashable part is fed to the hash in two pieces, never copied. -/
def packetHash (raw : Bytes) : Hash :=
  match raw with
  | [] => sha256 []
  | flags :: rest =>
    let dataStart := if flags &&& 0x40 ≠ 0 then 2 + truncatedHashBytes else 2
    if dataStart ≤ (flags :: rest).length then
      fullHashParts sha256 [[flags &&& 0x0F], (flags :: rest).drop dataStart]
    else sha256 []

def packetHashWithData (packet : Packet) (data : Bytes) : Hash :=
  fullHashParts sha256
    [[packet.flags.toByte &&& 0x0F], packet.destinationHash.val, [packet.context.toByte], data]

theorem and_low (byte : UInt8) : byte &&& 0x0F = UInt8.ofNat (byte.toNat % 16) := by
  apply forall_byte (p := fun byte => byte &&& 0x0F = UInt8.ofNat (byte.toNat % 16))
  decide +kernel

theorem and_headerType (byte : UInt8) : byte &&& 0x40 ≠ 0 ↔ byte.toNat / 64 % 2 = 1 := by
  apply forall_byte (p := fun byte => byte &&& 0x40 ≠ 0 ↔ byte.toNat / 64 % 2 = 1)
  decide +kernel

theorem packetHash_eq (raw : Bytes) : packetHash sha256 raw = sha256 (hashablePart raw) := by
  rcases raw with - | ⟨flags, - | ⟨hops, rest⟩⟩
  · rfl
  · have short : ¬ (if flags &&& 0x40 ≠ 0 then 2 + truncatedHashBytes else 2) ≤ [flags].length := by
      simp only [List.length_singleton]
      split <;> omega
    simp only [packetHash, if_neg short, hashablePart]
  · by_cases type2 : flags &&& 0x40 ≠ 0
    · have bit := (and_headerType flags).mp type2
      by_cases long : truncatedHashBytes ≤ rest.length
      · have whole : 2 + truncatedHashBytes ≤ (flags :: hops :: rest).length := by
          simp only [List.length_cons]
          omega
        have tail : (flags :: hops :: rest).drop (2 + truncatedHashBytes) = rest.drop truncatedHashBytes := rfl
        have complete : ¬ rest.length < truncatedHashBytes := Nat.not_lt.mpr long
        simp only [packetHash, if_pos type2, if_pos whole, tail, fullHashParts, hashablePart, bit, complete, and_low,
          and_false, ↓reduceIte]
        simp
      · have short : ¬ 2 + truncatedHashBytes ≤ (flags :: hops :: rest).length := by
          simp only [List.length_cons]
          omega
        simp only [packetHash, if_pos type2, if_neg short, hashablePart, bit, Nat.not_le.mp long, and_self, ↓reduceIte]
    · have bit : ¬ flags.toNat / 64 % 2 = 1 := fun set => type2 ((and_headerType flags).mpr set)
      have whole : 2 ≤ (flags :: hops :: rest).length := by
        simp only [List.length_cons]
        omega
      simp only [packetHash, if_neg type2, if_pos whole, fullHashParts, hashablePart, bit, false_and, and_low, ↓reduceIte]
      simp

theorem packetHashWithData_eq (packet : Packet) :
    packetHashWithData sha256 packet packet.data = sha256 packet.hashable := by
  have low := PacketFlags.lowNibble_lt packet.flags
  have nibble : packet.flags.toByte.toNat % 16 = packet.flags.lowNibble := by
    rw [PacketFlags.toByte_toNat]
    omega
  simp [packetHashWithData, fullHashParts, and_low, nibble, hashable]

theorem packetHash_pack {packet : Packet} {raw : Bytes} (packed : packet.pack = some raw) :
    packetHash sha256 raw = sha256 packet.hashable := by
  rw [packetHash_eq, hashablePart_pack packed]

end Hash

/-- What is accepted packs to its own bytes, and what is packed comes back unless its context is an unknown one
with the byte of a named one; the hash sees neither hops nor transport id nor the upper flags, and the three
ways to compute it agree. -/
theorem packet_codec {Hash : Type} (sha256 : Bytes → Hash) :
    (∀ raw packet, unpack raw = .ok packet → ∀ output, raw.length ≤ output.length →
      packet.packInto output = (.ok raw.length, raw ++ output.drop raw.length)) ∧
    (∀ packet : Packet, (packet.transportId.isSome ↔ packet.flags.headerType = .type2) →
      (packet.flags.packetType = .announce → packet.packedSize ≤ mtu) →
      ∃ raw, packet.pack = some raw ∧
        (∀ output, packet.packedSize ≤ output.length →
          packet.packInto output = (.ok raw.length, raw ++ output.drop raw.length)) ∧
        (unpack raw = .ok packet ↔ ∀ byte, packet.context = .unknown byte → PacketContext.named byte = false)) ∧
    (∀ (packet : Packet) hops transportId ifacFlag headerType contextFlag transportType raw raw',
      packet.pack = some raw →
      pack { packet with
        hops, transportId, flags := { packet.flags with ifacFlag, headerType, contextFlag, transportType } } = some raw' →
      packetHash sha256 raw' = packetHash sha256 raw) ∧
    (∀ raw, packetHash sha256 raw = sha256 (hashablePart raw)) ∧
    (∀ (packet : Packet) raw, packet.pack = some raw →
      packetHashWithData sha256 packet packet.data = packetHash sha256 raw) ∧
    ∀ raw packet, unpack raw = .ok packet → packetHashWithData sha256 packet packet.data = packetHash sha256 raw := by
  have written : ∀ {packet : Packet} {raw output : Bytes}, packet.pack = some raw → raw.length ≤ output.length →
      packet.packInto output = (.ok raw.length, raw ++ output.drop raw.length) := by
    intro packet raw output packed room
    rw [packInto, if_neg (by rw [← length_pack packed]; omega), packed]
  refine ⟨?_, ?_, ?_, packetHash_eq sha256, ?_, ?_⟩
  · intro raw packet parsed output room
    exact written (pack_unpack parsed) room
  · intro packet present short
    obtain ⟨raw, packed, parsed⟩ := unpack_pack present short
    refine ⟨raw, packed, ?_, ?_⟩
    · intro output room
      exact written packed (by rw [length_pack packed]; exact room)
    · rw [parsed, ← PacketContext.fromByte_toByte, Except.ok.injEq]
      constructor
      · intro same
        exact congrArg Packet.context same
      · intro same
        rw [same]
  · intro packet hops transportId ifacFlag headerType contextFlag transportType raw raw' packed packed'
    rw [packetHash_pack sha256 packed, packetHash_pack sha256 packed']
    rfl
  · intro packet raw packed
    rw [packetHashWithData_eq, packetHash_pack sha256 packed]
  · intro raw packet parsed
    rw [packetHashWithData_eq, packetHash_eq, hashablePart_unpack parsed]

/-- A packet of the unknown context zero. -/
def misnamed : Packet where
  flags := ⟨false, .type1, false, .broadcast, .single, .data⟩
  hops := 0
  transportId := none
  destinationHash := FixedBytes.replicate 16 0
  context := .unknown 0
  data := []

theorem misnamed_comes_back_named :
    ¬ ∃ raw, misnamed.pack = some raw ∧ unpack raw = .ok misnamed := by
  rintro ⟨raw, packed, parsed⟩
  obtain rfl := Option.some.inj (packed.symm.trans
    (show misnamed.pack = some (List.replicate 19 0) by decide))
  exact absurd parsed (by decide)

end Packet

end Transport

end Leviculum
