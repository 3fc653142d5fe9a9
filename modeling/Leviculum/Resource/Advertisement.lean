import Leviculum.Msgpack.RoundTrip
import Leviculum.Resource.Message

/-! A resource advertisement as bytes: packed as a map under one-letter keys, and read back in any order of the
keys. -/

namespace Leviculum.Resource.Wire

open Fallible (exec)
open Msgpack (WellFormed)
open Msgpack.Core
open Parsing (Parses)

/-- `TRUNCATED_HASHBYTES`. -/
def truncatedHashBytes : Nat := 16

/-- The advertisement with the widths it has on the wire. -/
structure ResourceAdvertisement where
  transferSize : UInt64
  dataSize : UInt64
  numParts : UInt32
  resourceHash : Digest
  randomHash : RandomHash
  originalHash : Digest
  segmentIndex : UInt32
  totalSegments : UInt32
  requestId : Option Bytes
  flags : ResourceFlags
  hashmapData : Bytes
  deriving DecidableEq

def flagsToU8 (flags : ResourceFlags) : UInt8 :=
  flags.encrypted.toUInt8 ||| flags.compressed.toUInt8 <<< 1 ||| flags.split.toUInt8 <<< 2 |||
    flags.isRequest.toUInt8 <<< 3 ||| flags.isResponse.toUInt8 <<< 4 ||| flags.hasMetadata.toUInt8 <<< 5

def flagsFromU8 (value : UInt8) : ResourceFlags where
  encrypted := value &&& 0x01 ≠ 0
  compressed := (value >>> 1) &&& 0x01 ≠ 0
  split := (value >>> 2) &&& 0x01 ≠ 0
  isRequest := (value >>> 3) &&& 0x01 ≠ 0
  isResponse := (value >>> 4) &&& 0x01 ≠ 0
  hasMetadata := (value >>> 5) &&& 0x01 ≠ 0

/-- The eleven entries of the map. -/
inductive Field where
  | t
  | d
  | n
  | h
  | r
  | o
  | i
  | l
  | q
  | f
  | m
  deriving DecidableEq

namespace Field

/-- The ASCII letter of the entry. -/
def key : Field → Bytes
  | t => [0x74]
  | d => [0x64]
  | n => [0x6e]
  | h => [0x68]
  | r => [0x72]
  | o => [0x6f]
  | i => [0x69]
  | l => [0x6c]
  | q => [0x71]
  | f => [0x66]
  | m => [0x6d]

/-- In the order `pack` writes them. -/
def all : List Field := [t, d, n, h, r, o, i, l, q, f, m]

end Field

namespace ResourceAdvertisement

/-- The value `pack` writes under a key. -/
def writeValue (adv : ResourceAdvertisement) (buf : Bytes) : Field → Bytes
  | .t => writeUint buf adv.transferSize
  | .d => writeUint buf adv.dataSize
  | .n => writeUint buf adv.numParts.toUInt64
  | .h => writeBin buf adv.resourceHash.val
  | .r => writeBin buf adv.randomHash.val
  | .o => writeBin buf adv.originalHash.val
  | .i => writeUint buf adv.segmentIndex.toUInt64
  | .l => writeUint buf adv.totalSegments.toUInt64
  | .q =>
    match adv.requestId with
    | some id => writeBin buf id
    | none => writeNil buf
  | .f => writeUint buf (flagsToU8 adv.flags).toUInt64
  | .m => writeBin buf adv.hashmapData

def pack (adv : ResourceAdvertisement) : Bytes :=
  Field.all.foldl (fun buf field => adv.writeValue (writeFixstr buf field.key) field) (writeFixmapHeader [] 11)

end ResourceAdvertisement

/-- What `unpack` has read so far. -/
structure Fields where
  transferSize : Option UInt64
  dataSize : Option UInt64
  numParts : Option UInt64
  resourceHash : Option Digest
  randomHash : Option RandomHash
  originalHash : Option Digest
  segmentIndex : Option UInt64
  totalSegments : Option UInt64
  requestId : Option (Option Bytes)
  flags : Option UInt8
  hashmapData : Option Bytes

def Fields.none : Fields where
  transferSize := .none
  dataSize := .none
  numParts := .none
  resourceHash := .none
  randomHash := .none
  originalHash := .none
  segmentIndex := .none
  totalSegments := .none
  requestId := .none
  flags := .none
  hashmapData := .none

/-- A byte string of exactly `n` bytes. -/
def readFixedBin (n : Nat) : Reader (FixedBytes n) := fun data => do
  let bin ← readMsgpackBin data
  if size : bin.length = n then return ⟨bin, size⟩ else throw ()

def readRequestId : Reader (Option Bytes) := fun data => do
  let id ← readMsgpackBinOrNil data
  if id.any (fun id => id.length ≠ truncatedHashBytes) then throw () else return id

/-- The arms of the loop in `unpack`. -/
def readValue (fields : Fields) (key : Bytes) : Reader Fields := fun data =>
  if key = Field.t.key then do return { fields with transferSize := some (← readMsgpackUint data) }
  else if key = Field.d.key then do return { fields with dataSize := some (← readMsgpackUint data) }
  else if key = Field.n.key then do return { fields with numParts := some (← readMsgpackUint data) }
  else if key = Field.h.key then do return { fields with resourceHash := some (← readFixedBin 32 data) }
  else if key = Field.r.key then do return { fields with randomHash := some (← readFixedBin 4 data) }
  else if key = Field.o.key then do return { fields with originalHash := some (← readFixedBin 32 data) }
  else if key = Field.i.key then do return { fields with segmentIndex := some (← readMsgpackUint data) }
  else if key = Field.l.key then do return { fields with totalSegments := some (← readMsgpackUint data) }
  else if key = Field.q.key then do return { fields with requestId := some (← readRequestId data) }
  else if key = Field.f.key then do return { fields with flags := some (← readMsgpackUint data).toUInt8 }
  else if key = Field.m.key then do return { fields with hashmapData := some (← readMsgpackBin data) }
  else do
    skipMsgpackValue data
    return fields

/-- `for _ in 0..map_len`. -/
def readEntries : Nat → Fields → Reader Fields
  | 0, fields => fun _ => pure fields
  | count + 1, fields => fun data => do
    let key ← readMsgpackStr data
    let fields ← readValue fields key data
    readEntries count fields data

/-- `u32::try_from`. -/
def toU32 (value : UInt64) : Option UInt32 := if value.toNat < 2 ^ 32 then some value.toUInt32 else none

def Fields.finish (fields : Fields) : Option ResourceAdvertisement := do
  return {
    transferSize := ← fields.transferSize
    dataSize := ← fields.dataSize
    numParts := ← toU32 (← fields.numParts)
    resourceHash := ← fields.resourceHash
    randomHash := ← fields.randomHash
    originalHash := ← fields.originalHash
    segmentIndex := ← toU32 (← fields.segmentIndex)
    totalSegments := ← toU32 (← fields.totalSegments)
    requestId := ← fields.requestId
    flags := flagsFromU8 (← fields.flags)
    hashmapData := ← fields.hashmapData }

def readFields : Reader Fields := fun data => do
  let mapLen ← readFixmapLen data
  readEntries mapLen Fields.none data

def unpack (data : Bytes) : Except ResourceError ResourceAdvertisement :=
  match (exec (readFields data) 0).1 with
  | .ok fields =>
    match fields.finish with
    | some adv => .ok adv
    | none => .error .invalidAdvertisement
  | .error _ => .error .invalidAdvertisement

end Leviculum.Resource.Wire
