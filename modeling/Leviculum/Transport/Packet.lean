import Leviculum.Transport.Tables

/-! Packets on the wire: `[flags] [hops] [transport id, type 2 only] [destination]
[context] [data]`. The packet hash leaves out what relays rewrite. -/

namespace Leviculum.Transport

def mtu : Nat := 500
def headerMinSize : Nat := 19
def headerMaxSize : Nat := 35
def truncatedHashBytes : Nat := 16

inductive PacketType where
  | data
  | announce
  | linkRequest
  | proof
  deriving DecidableEq, Repr

inductive DestinationType where
  | single
  | group
  | plain
  | link
  deriving DecidableEq, Repr

inductive TransportType where
  | broadcast
  | transport
  deriving DecidableEq, Repr

inductive HeaderType where
  | type1
  | type2
  deriving DecidableEq, Repr

inductive PacketContext where
  | none
  | resource
  | resourceAdv
  | resourceReq
  | resourceHmu
  | resourcePrf
  | resourceIcl
  | resourceRcl
  | cacheRequest
  | request
  | response
  | pathResponse
  | command
  | commandStatus
  | channel
  | keepalive
  | linkIdentify
  | linkClose
  | linkProof
  | lrrtt
  | lrproof
  | unknown (byte : UInt8)
  deriving DecidableEq, Repr

namespace PacketType

def bits : PacketType → Nat
  | .data => 0
  | .announce => 1
  | .linkRequest => 2
  | .proof => 3

/-- The two low bits of the flags byte. -/
def ofBits (n : Nat) : PacketType :=
  if n % 4 = 0 then .data else if n % 4 = 1 then .announce
  else if n % 4 = 2 then .linkRequest else .proof

end PacketType

namespace DestinationType

def bits : DestinationType → Nat
  | .single => 0
  | .group => 1
  | .plain => 2
  | .link => 3

def ofBits (n : Nat) : DestinationType :=
  if n % 4 = 0 then .single else if n % 4 = 1 then .group
  else if n % 4 = 2 then .plain else .link

end DestinationType

namespace PacketContext

/-- A byte without a meaning of its own is kept, so that the packet stays relayable. -/
def fromByte (value : UInt8) : PacketContext :=
  match value with
  | 0x00 => .none
  | 0x01 => .resource
  | 0x02 => .resourceAdv
  | 0x03 => .resourceReq
  | 0x04 => .resourceHmu
  | 0x05 => .resourcePrf
  | 0x06 => .resourceIcl
  | 0x07 => .resourceRcl
  | 0x08 => .cacheRequest
  | 0x09 => .request
  | 0x0A => .response
  | 0x0B => .pathResponse
  | 0x0C => .command
  | 0x0D => .commandStatus
  | 0x0E => .channel
  | 0xFA => .keepalive
  | 0xFB => .linkIdentify
  | 0xFC => .linkClose
  | 0xFD => .linkProof
  | 0xFE => .lrrtt
  | 0xFF => .lrproof
  | other => .unknown other

def toByte : PacketContext → UInt8
  | .none => 0x00
  | .resource => 0x01
  | .resourceAdv => 0x02
  | .resourceReq => 0x03
  | .resourceHmu => 0x04
  | .resourcePrf => 0x05
  | .resourceIcl => 0x06
  | .resourceRcl => 0x07
  | .cacheRequest => 0x08
  | .request => 0x09
  | .response => 0x0A
  | .pathResponse => 0x0B
  | .command => 0x0C
  | .commandStatus => 0x0D
  | .channel => 0x0E
  | .keepalive => 0xFA
  | .linkIdentify => 0xFB
  | .linkClose => 0xFC
  | .linkProof => 0xFD
  | .lrrtt => 0xFE
  | .lrproof => 0xFF
  | .unknown byte => byte

theorem toByte_fromByte (value : UInt8) : (fromByte value).toByte = value := by
  unfold fromByte
  split <;> rfl

end PacketContext

structure PacketFlags where
  ifacFlag : Bool
  headerType : HeaderType
  contextFlag : Bool
  transportType : TransportType
  destType : DestinationType
  packetType : PacketType
  deriving DecidableEq, Repr

namespace PacketFlags

/-- The four bits a relay may rewrite. -/
def highNibble (flags : PacketFlags) : Nat :=
  8 * flags.ifacFlag.toNat + 4 * (if flags.headerType = .type2 then 1 else 0) +
    2 * flags.contextFlag.toNat + (if flags.transportType = .transport then 1 else 0)

def lowNibble (flags : PacketFlags) : Nat := 4 * flags.destType.bits + flags.packetType.bits

def toByte (flags : PacketFlags) : UInt8 := UInt8.ofNat (16 * flags.highNibble + flags.lowNibble)

def fromByte (byte : UInt8) : PacketFlags where
  ifacFlag := byte.toNat / 128 % 2 = 1
  headerType := if byte.toNat / 64 % 2 = 1 then .type2 else .type1
  contextFlag := byte.toNat / 32 % 2 = 1
  transportType := if byte.toNat / 16 % 2 = 1 then .transport else .broadcast
  destType := .ofBits (byte.toNat / 4)
  packetType := .ofBits byte.toNat

theorem highNibble_lt (flags : PacketFlags) : flags.highNibble < 16 := by
  have ifac := Bool.toNat_lt flags.ifacFlag
  have context := Bool.toNat_lt flags.contextFlag
  unfold highNibble
  split <;> split <;> omega

theorem lowNibble_lt (flags : PacketFlags) : flags.lowNibble < 16 := by
  obtain ⟨_, _, _, _, dest, type⟩ := flags
  cases dest <;> cases type <;> simp [lowNibble, DestinationType.bits, PacketType.bits]

theorem toByte_toNat (flags : PacketFlags) :
    flags.toByte.toNat = 16 * flags.highNibble + flags.lowNibble := by
  have high := highNibble_lt flags
  have low := lowNibble_lt flags
  rw [toByte, UInt8.toNat_ofNat']
  omega

theorem lowNibble_fromByte (byte : UInt8) : (fromByte byte).lowNibble = byte.toNat % 16 := by
  simp only [lowNibble, fromByte, DestinationType.ofBits, PacketType.ofBits]
  split_ifs <;> simp only [DestinationType.bits, PacketType.bits] <;> omega

theorem lowNibble_inj {p q : PacketFlags} (same : p.lowNibble = q.lowNibble) :
    p.destType = q.destType ∧ p.packetType = q.packetType := by
  simp only [lowNibble] at same
  cases type : p.packetType <;> cases type' : q.packetType <;>
    cases dest : p.destType <;> cases dest' : q.destType <;>
    simp [type, type', dest, dest', PacketType.bits, DestinationType.bits] at same ⊢

end PacketFlags

inductive PacketError where
  | tooShort
  | tooLong
  | invalidFlags
  | payloadTooLarge
  deriving DecidableEq, Repr

structure Packet where
  flags : PacketFlags
  hops : UInt8
  transportId : Option TruncatedHash
  destinationHash : TruncatedHash
  context : PacketContext
  data : Bytes
  deriving DecidableEq

namespace Packet

/-- A type 2 header needs a transport id; `None` is the packing error. -/
def pack (packet : Packet) : Option Bytes :=
  let rest := packet.destinationHash.val ++ packet.context.toByte :: packet.data
  match packet.flags.headerType, packet.transportId with
  | .type1, _ => some (packet.flags.toByte :: packet.hops :: rest)
  | .type2, some tid => some (packet.flags.toByte :: packet.hops :: (tid.val ++ rest))
  | .type2, none => none

/-- Everything after the transport id: destination, context byte and payload. -/
def parseTail (flags : PacketFlags) (hops : UInt8) (transportId : Option TruncatedHash)
    (tail : Bytes) : Except PacketError Packet :=
  match FixedBytes.take? truncatedHashBytes tail, tail.drop truncatedHashBytes with
  | some destinationHash, context :: data =>
    .ok ⟨flags, hops, transportId, destinationHash, .fromByte context, data⟩
  | _, _ => .error .tooShort

def unpack (raw : Bytes) : Except PacketError Packet :=
  match raw with
  | flagsByte :: hops :: rest =>
    let flags := PacketFlags.fromByte flagsByte
    if raw.length < headerMinSize then .error .tooShort
    else if flags.packetType = .announce ∧ raw.length > mtu then .error .tooLong
    else
      match flags.headerType with
      | .type1 => parseTail flags hops none rest
      | .type2 =>
        match FixedBytes.take? truncatedHashBytes rest with
        | none => .error .tooShort
        | some tid => parseTail flags hops (some tid) (rest.drop truncatedHashBytes)
  | _ => .error .tooShort

/-- `get_hashable_part`. -/
def hashablePart (raw : Bytes) : Bytes :=
  match raw with
  | flags :: _ :: rest =>
    let tail := if flags.toNat / 64 % 2 = 1 then rest.drop truncatedHashBytes else rest
    if flags.toNat / 64 % 2 = 1 ∧ rest.length < truncatedHashBytes then []
    else UInt8.ofNat (flags.toNat % 16) :: tail
  | _ => []

def hashable (packet : Packet) : Bytes :=
  UInt8.ofNat packet.flags.lowNibble ::
    (packet.destinationHash.val ++ packet.context.toByte :: packet.data)

theorem parseTail_hashable {flags : PacketFlags} {hops : UInt8} {tid : Option TruncatedHash}
    {tail : Bytes} {packet : Packet} (parsed : parseTail flags hops tid tail = .ok packet) :
    packet.hashable = UInt8.ofNat flags.lowNibble :: tail := by
  unfold parseTail at parsed
  split at parsed
  next dest context data taken rest =>
    cases parsed
    have whole := FixedBytes.take?_eq_some taken
    rw [rest] at whole
    rw [← whole]
    simp only [hashable, PacketContext.toByte_fromByte]
  next => cases parsed

theorem fromByte_type2 {byte : UInt8} (type2 : (PacketFlags.fromByte byte).headerType = .type2) :
    byte.toNat / 64 % 2 = 1 := by
  simp only [PacketFlags.fromByte] at type2
  split at type2
  next bit => exact bit
  next => cases type2

theorem fromByte_type1 {byte : UInt8} (type1 : (PacketFlags.fromByte byte).headerType = .type1) :
    ¬ byte.toNat / 64 % 2 = 1 := by
  simp only [PacketFlags.fromByte] at type1
  split at type1
  next => cases type1
  next bit => exact bit

theorem hashablePart_unpack {raw : Bytes} {packet : Packet} (parsed : unpack raw = .ok packet) :
    hashablePart raw = packet.hashable := by
  unfold unpack at parsed
  split at parsed
  next flagsByte hops rest =>
    simp only at parsed
    split at parsed
    next => cases parsed
    next =>
    split at parsed
    next => cases parsed
    next =>
    split at parsed
    next type1 =>
      have bit := fromByte_type1 type1
      rw [parseTail_hashable parsed, PacketFlags.lowNibble_fromByte]
      simp only [hashablePart, bit, ↓reduceIte, false_and]
    next type2 =>
      have bit := fromByte_type2 type2
      split at parsed
      next => cases parsed
      next tid taken =>
        have long : ¬ rest.length < truncatedHashBytes := by
          have whole := congrArg List.length (FixedBytes.take?_eq_some taken)
          rw [List.length_append, tid.2] at whole
          omega
        rw [parseTail_hashable parsed, PacketFlags.lowNibble_fromByte]
        simp only [hashablePart, bit, long, ↓reduceIte, and_false]
  next => cases parsed

theorem hashablePart_pack {packet : Packet} {raw : Bytes} (packed : packet.pack = some raw) :
    hashablePart raw = packet.hashable := by
  have byte := PacketFlags.toByte_toNat packet.flags
  have low := PacketFlags.lowNibble_lt packet.flags
  have nibble : packet.flags.toByte.toNat % 16 = packet.flags.lowNibble := by omega
  have bit : packet.flags.toByte.toNat / 64 % 2 =
      if packet.flags.headerType = .type2 then 1 else 0 := by
    have ifac := Bool.toNat_lt packet.flags.ifacFlag
    have context := Bool.toNat_lt packet.flags.contextFlag
    rw [byte, PacketFlags.highNibble]
    split <;> split <;> omega
  unfold pack at packed
  simp only at packed
  split at packed
  next type1 =>
    cases packed
    rw [type1] at bit
    simp only [hashablePart, bit, nibble, hashable, reduceCtorEq, ↓reduceIte, false_and,
      Nat.zero_ne_one]
  next tid type2 some_ =>
    cases packed
    rw [type2] at bit
    have long : ¬ (tid.val ++ (packet.destinationHash.val ++
        packet.context.toByte :: packet.data)).length < truncatedHashBytes := by
      rw [List.length_append, tid.2]
      simp only [truncatedHashBytes]
      omega
    have dropped : (tid.val ++ (packet.destinationHash.val ++
        packet.context.toByte :: packet.data)).drop truncatedHashBytes =
        packet.destinationHash.val ++ packet.context.toByte :: packet.data := by
      rw [List.drop_append, List.drop_of_length_le (by rw [tid.2]; decide), tid.2]
      rfl
    simp only [hashablePart, bit, nibble, hashable, ↓reduceIte, true_and, long, dropped]
  next => cases packed

theorem hashable_rewrite (packet : Packet) (hops : UInt8) (headerType : HeaderType)
    (transportType : TransportType) (transportId : Option TruncatedHash) :
    hashable { packet with
      hops, transportId, flags := { packet.flags with headerType, transportType } } =
      packet.hashable := rfl

theorem unpack_context {raw : Bytes} {packet : Packet} (parsed : unpack raw = .ok packet) :
    packet.context = .fromByte packet.context.toByte := by
  have tail : ∀ {flags hops tid bytes}, parseTail flags hops tid bytes = .ok packet →
      packet.context = .fromByte packet.context.toByte := by
    intro flags hops tid bytes found
    unfold parseTail at found
    split at found
    · cases found
      rw [PacketContext.toByte_fromByte]
    · cases found
  unfold unpack at parsed
  split at parsed
  next =>
    dsimp only at parsed
    split at parsed
    next => cases parsed
    next =>
    split at parsed
    next => cases parsed
    next =>
    split at parsed
    next => exact tail parsed
    next =>
      split at parsed
      · cases parsed
      · exact tail parsed
  next => cases parsed

theorem hashable_inj {p q : Packet} (same : p.hashable = q.hashable) :
    p.context.toByte = q.context.toByte ∧ p.flags.destType = q.flags.destType ∧
      p.flags.packetType = q.flags.packetType := by
  obtain ⟨low, rest⟩ := List.cons.inj same
  constructor
  · have tails := (List.append_inj rest (p.destinationHash.2.trans q.destinationHash.2.symm)).2
    exact (List.cons.inj tails).1
  · have nibbles := congrArg UInt8.toNat low
    have small := PacketFlags.lowNibble_lt p.flags
    have small' := PacketFlags.lowNibble_lt q.flags
    simp only [UInt8.toNat_ofNat'] at nibbles
    rw [Nat.mod_eq_of_lt (by omega), Nat.mod_eq_of_lt (by omega)] at nibbles
    exact PacketFlags.lowNibble_inj nibbles

end Packet

end Leviculum.Transport
