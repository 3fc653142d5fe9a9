import Leviculum.Lib.OrdMap
import Leviculum.Msgpack.Lxmf
import Leviculum.Propagation.Message
import Mathlib.Data.Rat.Defs
import Mathlib.Algebra.Order.Ring.Rat

/-! LXMF messages as the router handles them: what a message carries, how it is packed, and which
carrier its size gives it. -/

namespace Leviculum.Router

open Msgpack.Lxmf (array map bin f64 int)
open Propagation (DestinationHash TransientId destinationLength stampSize)

abbrev MessageId := FixedBytes 32

abbrev LinkId := FixedBytes 16

def lxmfOverhead : Nat := 112
def encryptedPacketMaxContent : Nat := 295
def linkPacketMaxContent : Nat := 319
def opportunisticPacketMdu : Nat := encryptedPacketMaxContent + lxmfOverhead - destinationLength
def directPacketMdu : Nat := linkPacketMaxContent + lxmfOverhead
def ticketLength : Nat := 16
def fieldTicket : Int := 0x0c

/-- What the code takes from cryptography, from the msgpack library and from the float format. -/
structure Primitives where
  fullHash : Bytes → FixedBytes 32
  truncatedHash : Bytes → FixedBytes 16
  rmp : Msgpack.Lxmf.Rmp
  /-- The bits of a finite `f64`. -/
  f64Bits : Rat → UInt64
  /-- The number with these bits, when it is finite. -/
  f64Value : UInt64 → Option Rat

inductive DeliveryMethod where
  | opportunistic
  | direct
  | propagated
  | paper
  deriving DecidableEq

inductive Verification where
  | unverified
  | valid
  | invalid
  deriving DecidableEq

inductive MessageError where
  | tooShort
  | invalidFormat
  | invalidField
  | identity
  | wrongDestination
  | invalidTimestamp
  | nonFiniteTimestamp
  | invalidStamp
  deriving DecidableEq

structure Message where
  destinationHash : DestinationHash
  sourceHash : DestinationHash
  signature : FixedBytes 64
  timestamp : Rat
  title : Bytes
  content : Bytes
  fields : List (Int × Bytes)
  stamp : Option Bytes
  messageId : MessageId
  verification : Verification
  method : DeliveryMethod
  /-- The bytes it arrived as, when it came off the wire. -/
  packed : Option Bytes
  deriving DecidableEq

namespace Message

variable (prims : Primitives)

/-- Attach a delivery stamp; only the two lengths the router generates pass. -/
def setStamp (message : Message) (stamp : Bytes) : Except MessageError Message :=
  if stamp.length ≠ ticketLength ∧ stamp.length ≠ stampSize then .error .invalidFormat
  else .ok { message with stamp := some stamp, packed := none }

def encodePayload (message : Message) : Bytes :=
  array prims.rmp (if message.stamp.isSome then 5 else 4) ++ f64 prims.rmp (prims.f64Bits message.timestamp) ++
    bin prims.rmp message.title ++ bin prims.rmp message.content ++ map prims.rmp message.fields.length ++
    (message.fields.map (fun field => int prims.rmp (Int64.ofInt field.1) ++ field.2)).flatten ++
    message.stamp.elim [] (bin prims.rmp)

def pack (message : Message) : Bytes :=
  message.packed.getD (message.destinationHash.val ++ message.sourceHash.val ++ message.signature.val ++
    message.encodePayload prims)

end Message

theorem Message.setStamp_eq_ok {message stamped : Message} {stamp : Bytes}
    (ok : message.setStamp stamp = .ok stamped) :
    stamped = { message with stamp := some stamp, packed := none } := by
  unfold setStamp at ok
  split at ok
  · cases ok
  · exact (Except.ok.inj ok).symm

inductive DeliveryRepresentation where
  | opportunisticPacket
  | directPacket
  | directResource
  deriving DecidableEq

inductive ResourceError where
  | rejectedByRemote
  | cancelled
  | transferInProgress
  | linkStateChanged
  | other
  deriving DecidableEq

inductive SendError where
  | noPath
  | tooLarge
  | noLink
  | linkFailed
  | busy
  | pacingDelay (readyAtMs : Nat)
  | encryptionFailed
  deriving DecidableEq

inductive LxmfNodeError where
  | invalidDeliveryDestination
  | destination
  | message (error : MessageError)
  | unsupportedMethod
  | unknownPeer
  | directLinkUnavailable
  | deliveryLimitExceeded (size limit : Nat)
  | send (error : SendError)
  | resource (error : ResourceError)
  | proofFailed
  | identityUnavailable
  deriving DecidableEq

def representationOf (method : DeliveryMethod) (packedLen : Nat) :
    Except LxmfNodeError DeliveryRepresentation :=
  match method with
  | .opportunistic =>
    if packedLen - destinationLength ≤ opportunisticPacketMdu then .ok .opportunisticPacket
    else if packedLen ≤ directPacketMdu then .ok .directPacket
    else .ok .directResource
  | .direct => if packedLen ≤ directPacketMdu then .ok .directPacket else .ok .directResource
  | .propagated | .paper => .error .unsupportedMethod

/-- The carrier a message's packed size gives it. -/
def representation (prims : Primitives) (message : Message) : Except LxmfNodeError DeliveryRepresentation :=
  representationOf message.method (message.pack prims).length

end Leviculum.Router
