import Leviculum.Msgpack.Lxmf
import Leviculum.Router.Message

/-! LXMF messages on the wire: how they are made, packed and unpacked, and what memory decoding reserves. -/

namespace Leviculum.Lxmf

open Fallible (Program exec)
open Msgpack (Error)
open Msgpack.Lxmf (Rmp Reader Number array map bin f64 int arrayLen mapLen readBin readInt readNumber readNil raw peekNil skip)
open Router (DeliveryMethod Verification MessageError)

/-- An extension field: its key, and its value as one msgpack value. -/
abbrev Field := Int64 × Bytes

abbrev Hash := FixedBytes 16

abbrev Signature := FixedBytes 64

/-- What is called of `Identity`. -/
structure Identity where
  sign : Bytes → Option Signature
  verify : Bytes → Signature → Option Bool

/-- `f64::is_finite`, of the bits. -/
def isFinite (bits : UInt64) : Bool := decide (bits &&& 0x7ff0000000000000 ≠ 0x7ff0000000000000)

/-- A decoded payload, with the bytes the message id and the signature cover. -/
structure Payload where
  timestamp : UInt64
  title : Bytes
  content : Bytes
  fields : List Field
  stamp : Option Bytes
  signed : Bytes
  deriving DecidableEq

structure Message where
  destinationHash : Hash
  sourceHash : Hash
  signature : Signature
  timestamp : UInt64
  title : Bytes
  content : Bytes
  fields : List Field
  stamp : Option Bytes
  messageId : FixedBytes 32
  verification : Verification
  method : DeliveryMethod
  packed : Option Bytes
  deriving DecidableEq

section Encoding

variable (library : Rmp)

def number : Number → Bytes
  | .int value => int library value
  | .float bits => f64 library bits

def encodeField (field : Field) : Bytes := int library field.1 ++ field.2

def encodePayload (timestamp : Number) (title content : Bytes) (fields : List Field) (stamp : Option Bytes) : Bytes :=
  array library (if stamp.isSome then 5 else 4) ++ number library timestamp ++ bin library title ++ bin library content ++
    map library fields.length ++ (fields.map (encodeField library)).flatten ++ stamp.elim [] (bin library)

end Encoding

/-! ### Decoding -/

/-- The position in the payload, and the capacities reserved so far in bytes. -/
structure Decoder where
  position : Nat
  reserved : List Nat
  deriving DecidableEq

abbrev Decode (V : Type) := Bytes → Program Decoder MessageError V

def within {V : Type} (onError : Error → MessageError) (reader : Reader V) : Decode V := fun data => do
  let decoder ← get
  let run := exec (reader data) decoder.position
  modify (fun decoder => { decoder with position := run.2 })
  match run.1 with
  | .ok value => return value
  | .error error => throw (onError error)

/-- `From<msgpack::Error>`. -/
def malformed (_ : Error) : MessageError := .invalidFormat

def reserve (size : Nat) : Program Decoder MessageError Unit :=
  modify (fun decoder => { decoder with reserved := decoder.reserved ++ [size] })

/-- `to_vec` of what a reader gives. -/
def owned (onError : Error → MessageError) (reader : Reader Bytes) : Decode Bytes := fun data => do
  let bytes ← within onError reader data
  reserve bytes.length
  return bytes

section Decoding

variable (library : Rmp)

/-- `for _ in 0..count`. -/
def readFields : Nat → List Field → Decode (List Field)
  | 0, fields => fun _ => pure fields
  | count + 1, fields => fun data => do
    let key ← within malformed (readInt library) data
    let value ← owned malformed (raw library) data
    readFields count (fields ++ [(key, value)]) data

/-- An error of `read_bin` at the stamp. -/
def stampError : Error → MessageError
  | .type => .invalidStamp
  | other => malformed other

def readStamp : Decode (Option Bytes) := fun data => do
  let absent ← within malformed (peekNil library) data
  if absent then do
    within malformed readNil data
    return none
  else do
    let stamp ← owned stampError (readBin library) data
    return some stamp

/-- The elements behind the fourth; those past the stamp are skipped. -/
def readExtras (n : Nat) : Decode (Option Bytes) := fun data =>
  if 4 < n then do
    let stamp ← readStamp library data
    within malformed (Parsing.times (skip library.fromU8) (n - 5)) data
    return stamp
  else pure none

/-- The field map; `fieldSize` is the size of a `Field` in memory. -/
def readFieldMap (fieldSize : Nat) : Decode (List Field) := fun data => do
  let count ← within malformed (mapLen library) data
  reserve (count * fieldSize)
  readFields library count [] data

def finishPayload (n : Nat) (timestamp : Number) (title content : Bytes) (fields : List Field) (stamp : Option Bytes) :
    Decode Payload := fun data => do
  let decoder ← get
  if decoder.position ≠ data.length then throw .invalidFormat
  else
    return {
      timestamp := timestamp.asF64, title, content, fields, stamp,
      signed := if 4 < n then encodePayload library timestamp title content fields none else data }

/-- The elements of the payload once their number is known. -/
def decodeElements (fieldSize n : Nat) : Decode Payload := fun data =>
  if n < 4 then throw .invalidFormat
  else do
    let timestamp ← within (fun _ => .invalidTimestamp) (readNumber library) data
    let title ← owned malformed (readBin library) data
    let content ← owned malformed (readBin library) data
    let fields ← readFieldMap library fieldSize data
    let stamp ← readExtras library n data
    finishPayload library n timestamp title content fields stamp data

def decodePayload (fieldSize : Nat) : Decode Payload := fun data => do
  let n ← within malformed (arrayLen library) data
  decodeElements library fieldSize n data

end Decoding

namespace Message

variable (library : Rmp) (fullHash : Bytes → FixedBytes 32) (fieldSize : Nat)

/-- The value of a field is one msgpack value and nothing behind it. -/
def validField (field : Field) : Bool :=
  match exec (skip library.fromU8 field.2) 0 with
  | (.ok _, position) => position = field.2.length
  | (.error _, _) => false

/-- What the message id is taken of. -/
def hashed (destinationHash sourceHash : Hash) (payload : Bytes) : Bytes := destinationHash.val ++ sourceHash.val ++ payload

def signedPart (hashed : Bytes) : Bytes := hashed ++ (fullHash hashed).val

def create (destinationHash sourceHash : Hash) (source : Identity) (timestamp : UInt64) (title content : Bytes)
    (fields : List Field) (method : DeliveryMethod) : Except MessageError Message :=
  if isFinite timestamp = false then .error .nonFiniteTimestamp
  else if fields.all (validField library) = false then .error .invalidField
  else
    let hashed := hashed destinationHash sourceHash (encodePayload library (.float timestamp) title content fields none)
    match source.sign (signedPart fullHash hashed) with
    | none => .error .identity
    | some signature =>
      .ok {
        destinationHash, sourceHash, signature, timestamp, title, content, fields, stamp := none,
        messageId := fullHash hashed, verification := .valid, method, packed := none }

/-- The wire form changes with the stamp, so the bytes the message came in as are dropped. -/
def withStamp (message : Message) (stamp : Option Bytes) : Message := { message with stamp, packed := none }

def pack (message : Message) : Bytes :=
  message.packed.getD (message.destinationHash.val ++ message.sourceHash.val ++ message.signature.val ++
    encodePayload library (.float message.timestamp) message.title message.content message.fields message.stamp)

/-- What the signature shows, if the sender's identity is known. -/
def verify (source : Option Identity) (signed : Bytes) (signature : Signature) : Except MessageError Verification :=
  match source with
  | none => .ok .unverified
  | some identity =>
    match identity.verify signed signature with
    | none => .error .identity
    | some true => .ok .valid
    | some false => .ok .invalid

def ofPayload (source : Option Identity) (method : DeliveryMethod) (data : Bytes) (destinationHash sourceHash : Hash)
    (signature : Signature) (payload : Payload) : Except MessageError Message := do
  let hashed := hashed destinationHash sourceHash payload.signed
  let verification ← verify source (signedPart fullHash hashed) signature
  return {
    destinationHash, sourceHash, signature, timestamp := payload.timestamp, title := payload.title,
    content := payload.content, fields := payload.fields, stamp := payload.stamp, messageId := fullHash hashed,
    verification, method, packed := some data }

/-- `unpack` of the message with its destination in front, and the capacities it reserves. -/
def unpackWhole (source : Option Identity) (method : DeliveryMethod) (data : Bytes) : Except MessageError Message × List Nat :=
  if data.length < 97 then (.error .tooShort, [])
  else
    match FixedBytes.take? 16 data, FixedBytes.take? 16 (data.drop 16), FixedBytes.take? 64 (data.drop 32) with
    | some destinationHash, some sourceHash, some signature =>
      match exec (decodePayload library fieldSize (data.drop 96)) ⟨0, []⟩ with
      | (.ok payload, decoder) =>
        (ofPayload fullHash source method data destinationHash sourceHash signature payload, decoder.reserved)
      | (.error error, decoder) => (.error error, decoder.reserved)
    | _, _, _ => (.error .tooShort, [])

def unpack (data : Bytes) (inferredDestination : Option Hash) (source : Option Identity) (method : DeliveryMethod) :
    Except MessageError Message × List Nat :=
  if method = .opportunistic then
    match inferredDestination with
    | none => (.error .wrongDestination, [])
    | some destinationHash => unpackWhole library fullHash fieldSize source method (destinationHash.val ++ data)
  else unpackWhole library fullHash fieldSize source method data

end Message

end Leviculum.Lxmf
