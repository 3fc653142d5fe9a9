import Leviculum.DirectLink.Signal
import Leviculum.Msgpack.Core

/-! The signals as channel messages: a msgpack map keyed by one-letter strings. -/

namespace Leviculum.DirectLink

open Fallible (exec)
open Msgpack.Core

def msgUpgradeRequest : UInt16 := 0xFE00
def msgUpgradeAccept : UInt16 := 0xFE01
def msgUpgradeReject : UInt16 := 0xFE02
def msgUpgradeReady : UInt16 := 0xFE03
def msgUpgradeComplete : UInt16 := 0xFE04

def isSignalMsgtype (msgtype : UInt16) : Bool := decide (msgUpgradeRequest ≤ msgtype ∧ msgtype ≤ msgUpgradeComplete)

def maxLocalCandidates : Nat := 4
def maxHostPayload : Nat := 16 * 1024

inductive WireError where
  | unknownMsgtype
  | malformed
  deriving DecidableEq

namespace ProbeProtocol

def wireValue : ProbeProtocol → UInt64
  | rnsp => 0
  | stun => 1

def fromWire (value : UInt64) : ProbeProtocol := if value = 1 then stun else rnsp

end ProbeProtocol

/-- The keys of the map. -/
inductive Key where
  | s
  | f
  | a
  | p
  | r
  | l
  | c
  | h
  deriving DecidableEq

namespace Key

/-- The ASCII letter. -/
def text : Key → Bytes
  | s => [0x73]
  | f => [0x66]
  | a => [0x61]
  | p => [0x70]
  | r => [0x72]
  | l => [0x6c]
  | c => [0x63]
  | h => [0x68]

def all : List Key := [s, f, a, p, r, l, c, h]

end Key

/-! ### Encoding -/

def writeSession (buf : Bytes) (session : SessionId) : Bytes := writeBin (writeFixstr buf Key.s.text) session.val

/-- An endpoint is `[addr_bytes, port]`. -/
def writeEndpoint (buf : Bytes) (address : SocketAddr) : Bytes :=
  let buf := writeFixarrayHeader buf 2
  let buf := match address.ip with
    | .v4 octets => writeBin buf octets.val
    | .v6 octets => writeBin buf octets.val
  writeUint buf address.port.toUInt64

def writeLocal (buf : Bytes) (localAddresses : List SocketAddr) : Bytes :=
  let kept := localAddresses.take maxLocalCandidates
  kept.foldl writeEndpoint (writeFixarrayHeader (writeFixstr buf Key.l.text) kept.length)

def writeExtras (buf : Bytes) (commit : Bool) (hostPayload : Option Bytes) : Bytes :=
  let buf := if commit then writeBool (writeFixstr buf Key.c.text) true else buf
  match hostPayload with
  | some payload => writeBin (writeFixstr buf Key.h.text) payload
  | none => buf

/-- `u8::from`. -/
def flagByte (flag : Bool) : UInt8 := if flag then 1 else 0

namespace Signal

def msgtype : Signal → UInt16
  | request .. => msgUpgradeRequest
  | accept _ => msgUpgradeAccept
  | reject .. => msgUpgradeReject
  | ready .. => msgUpgradeReady
  | complete _ => msgUpgradeComplete

def encode : Signal → Bytes
  | request session facilitator initiatorPublic protocol initiatorLocal commit hostPayload =>
    let stun := decide (protocol ≠ .rnsp)
    let hasLocal := !initiatorLocal.isEmpty
    let buf := writeFixmapHeader [] (3 + flagByte stun + flagByte hasLocal + flagByte commit + flagByte hostPayload.isSome)
    let buf := writeSession buf session
    let buf := writeEndpoint (writeFixstr buf Key.f.text) facilitator
    let buf := writeEndpoint (writeFixstr buf Key.a.text) initiatorPublic
    let buf := if stun then writeUint (writeFixstr buf Key.p.text) protocol.wireValue else buf
    let buf := if hasLocal then writeLocal buf initiatorLocal else buf
    writeExtras buf commit hostPayload
  | accept session | complete session => writeSession (writeFixmapHeader [] 1) session
  | reject session reason =>
    writeUint (writeFixstr (writeSession (writeFixmapHeader [] 2) session) Key.r.text) reason.toUInt64
  | ready session responderPublic responderLocal commit =>
    let hasLocal := !responderLocal.isEmpty
    let buf := writeFixmapHeader [] (2 + flagByte hasLocal + flagByte commit)
    let buf := writeSession buf session
    let buf := writeEndpoint (writeFixstr buf Key.a.text) responderPublic
    let buf := if hasLocal then writeLocal buf responderLocal else buf
    writeExtras buf commit none

end Signal

/-! ### Decoding -/

def ipFromBytes (bytes : Bytes) : Option IpAddr :=
  if four : bytes.length = 4 then some (.v4 ⟨bytes, four⟩)
  else if sixteen : bytes.length = 16 then some (.v6 ⟨bytes, sixteen⟩)
  else none

/-- `u16::try_from`. -/
def toU16 (value : UInt64) : Option UInt16 := if value.toNat < 2 ^ 16 then some value.toUInt16 else none

/-- `u8::try_from`. -/
def toU8 (value : UInt64) : Option UInt8 := if value.toNat < 2 ^ 8 then some value.toUInt8 else none

/-- `?` on an option. -/
def orFail {V : Type} (value : Option V) : Reader V := fun _ =>
  match value with
  | some value => pure value
  | none => throw ()

def readBool : Reader Bool := fun data => do
  let byte ← readByte data
  if byte = 0xc3 then return true else if byte = 0xc2 then return false else throw ()

/-- The elements of an endpoint; those past the second are skipped. -/
def endpointElements (length : Nat) : Reader SocketAddr := fun data =>
  if length < 2 then throw ()
  else do
    let bytes ← readMsgpackBin data
    let ip ← orFail (ipFromBytes bytes) data
    let value ← readMsgpackUint data
    let port ← orFail (toU16 value) data
    Parsing.times skipMsgpackValue (length - 2) data
    return SocketAddr.new ip port

def readEndpoint : Reader SocketAddr := fun data => do
  let length ← readArrayLen data
  endpointElements length data

/-- The loop of `read_local`: candidates past the limit are skipped. -/
def readCandidates : Nat → List SocketAddr → Reader (List SocketAddr)
  | 0, out => fun _ => pure out
  | count + 1, out => fun data =>
    if out.length < maxLocalCandidates then do
      let address ← readEndpoint data
      readCandidates count (out ++ [address]) data
    else do
      skipMsgpackValue data
      readCandidates count out data

def readLocal : Reader (List SocketAddr) := fun data => do
  let length ← readArrayLen data
  readCandidates length [] data

/-- The union of fields any signal may carry. -/
structure Fields where
  session : Option SessionId
  facilitator : Option SocketAddr
  address : Option SocketAddr
  protocol : Option UInt64
  reason : Option UInt64
  localAddresses : List SocketAddr
  commit : Bool
  hostPayload : Option Bytes
  deriving DecidableEq

namespace Fields

def default : Fields := ⟨none, none, none, none, none, [], false, none⟩

def readSession : Reader SessionId := fun data => do
  let bytes ← readMsgpackBin data
  if size : bytes.length = 16 then return ⟨bytes, size⟩ else throw ()

def readPayload : Reader Bytes := fun data => do
  let bytes ← readMsgpackBin data
  if bytes.length > maxHostPayload then throw () else return bytes

/-- The arms of the loop in `parse`. -/
def readValue (fields : Fields) (key : Bytes) : Reader Fields := fun data =>
  if key = Key.s.text then do return { fields with session := some (← readSession data) }
  else if key = Key.f.text then do return { fields with facilitator := some (← readEndpoint data) }
  else if key = Key.a.text then do return { fields with address := some (← readEndpoint data) }
  else if key = Key.p.text then do return { fields with protocol := some (← readMsgpackUint data) }
  else if key = Key.r.text then do return { fields with reason := some (← readMsgpackUint data) }
  else if key = Key.l.text then do return { fields with localAddresses := ← readLocal data }
  else if key = Key.c.text then do return { fields with commit := ← readBool data }
  else if key = Key.h.text then do return { fields with hostPayload := some (← readPayload data) }
  else do
    skipMsgpackValue data
    return fields

/-- `for _ in 0..count`. -/
def readEntries : Nat → Fields → Reader Fields
  | 0, fields => fun _ => pure fields
  | count + 1, fields => fun data => do
    let key ← readMsgpackStr data
    let fields ← readValue fields key data
    readEntries count fields data

def parse : Reader Fields := fun data => do
  let count ← readMapLen data
  readEntries count default data

def finish (msgtype : UInt16) (fields : Fields) : Option Signal := do
  let session ← fields.session
  if msgtype = msgUpgradeRequest then
    return .request session (← fields.facilitator) (← fields.address)
      ((fields.protocol.map ProbeProtocol.fromWire).getD .rnsp) fields.localAddresses fields.commit fields.hostPayload
  else if msgtype = msgUpgradeAccept then return .accept session
  else if msgtype = msgUpgradeReject then return .reject session (← toU8 (← fields.reason))
  else if msgtype = msgUpgradeReady then return .ready session (← fields.address) fields.localAddresses fields.commit
  else return .complete session

end Fields

def Signal.decode (msgtype : UInt16) (data : Bytes) : Except WireError Signal :=
  if isSignalMsgtype msgtype = false then .error .unknownMsgtype
  else
    match (exec (Fields.parse data) 0).1 with
    | .ok fields =>
      match fields.finish msgtype with
      | some signal => .ok signal
      | none => .error .malformed
    | .error _ => .error .malformed

end Leviculum.DirectLink
