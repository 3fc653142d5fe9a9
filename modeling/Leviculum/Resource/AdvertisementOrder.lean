import Leviculum.Resource.Advertisement

/-! An advertisement is read back whatever the order of its keys and whatever unknown keys stand between
them. -/

namespace Leviculum.Resource.Wire

open Fallible (exec)
open Msgpack (WellFormed)
open Msgpack.Core
open Parsing (Parses)

/-- A string and the forms `read_msgpack_str` knows for it. -/
inductive StrForm : Bytes → Bytes → Prop
  | fixstr {text : Bytes} (short : text.length < 32) : StrForm ([0xa0 ||| UInt8.ofNat text.length] ++ text) text
  | str8 {text : Bytes} (short : text.length < 256) : StrForm ([0xd9] ++ ([UInt8.ofNat text.length] ++ text)) text
  | str16 {text : Bytes} (short : text.length < 65536) : StrForm ([0xda] ++ (Bytes.be 2 text.length ++ text)) text

theorem StrForm.parses {bytes text : Bytes} (form : StrForm bytes text) : Parses readMsgpackStr bytes text := by
  cases form with
  | fixstr short => exact parses_fixstr short
  | str8 short => exact parses_str8 short
  | str16 short => exact parses_str16 short

/-- An entry under a key that is none of the eleven. -/
structure UnknownEntry where
  key : Bytes
  other : ∀ field : Field, key ≠ field.key
  keyBytes : Bytes
  written : StrForm keyBytes key
  value : Bytes
  formed : WellFormed 64 value

inductive Entry where
  | known (field : Field)
  | unknown (entry : UnknownEntry)

namespace ResourceAdvertisement

def fieldBytes (adv : ResourceAdvertisement) (field : Field) : Bytes := adv.writeValue (writeFixstr [] field.key) field

def entryBytes (adv : ResourceAdvertisement) : Entry → Bytes
  | .known field => adv.fieldBytes field
  | .unknown entry => entry.keyBytes ++ entry.value

/-- The values fit: a request id is 16 bytes, and the hashmap has a length of four bytes. -/
structure Fits (adv : ResourceAdvertisement) : Prop where
  requestId : ∀ id, adv.requestId = some id → id.length = truncatedHashBytes
  hashmapData : adv.hashmapData.length < 2 ^ 32

theorem writeValue_append (adv : ResourceAdvertisement) (buf more : Bytes) (field : Field) :
    adv.writeValue (buf ++ more) field = buf ++ adv.writeValue more field := by
  cases field with
  | q =>
    unfold writeValue
    cases adv.requestId with
    | none => exact List.append_assoc _ _ _
    | some id => simp only [writeBin_eq, List.append_assoc]
  | _ => simp only [writeValue, writeBin_eq, writeUint_eq, List.append_assoc]

def valueBytes (adv : ResourceAdvertisement) (field : Field) : Bytes := adv.writeValue [] field

theorem fieldBytes_eq (adv : ResourceAdvertisement) (field : Field) :
    adv.fieldBytes field = ([0xa0 ||| UInt8.ofNat field.key.length] ++ field.key) ++ adv.valueBytes field := by
  have key : writeFixstr [] field.key = ([0xa0 ||| UInt8.ofNat field.key.length] ++ field.key) ++ [] :=
    (List.append_nil _).symm
  rw [fieldBytes, key, writeValue_append, valueBytes]

/-- What `unpack` has read once it has read this field of the advertisement. -/
def setField (adv : ResourceAdvertisement) (fields : Fields) : Field → Fields
  | .t => { fields with transferSize := some adv.transferSize }
  | .d => { fields with dataSize := some adv.dataSize }
  | .n => { fields with numParts := some adv.numParts.toUInt64 }
  | .h => { fields with resourceHash := some adv.resourceHash }
  | .r => { fields with randomHash := some adv.randomHash }
  | .o => { fields with originalHash := some adv.originalHash }
  | .i => { fields with segmentIndex := some adv.segmentIndex.toUInt64 }
  | .l => { fields with totalSegments := some adv.totalSegments.toUInt64 }
  | .q => { fields with requestId := some adv.requestId }
  | .f => { fields with flags := some (flagsToU8 adv.flags) }
  | .m => { fields with hashmapData := some adv.hashmapData }

end ResourceAdvertisement

theorem parses_writeUint_nil (value : UInt64) : Parses readMsgpackUint (writeUint [] value) value := by
  rw [writeUint_eq, List.nil_append]
  exact parses_writeUint value

theorem parses_writeBin_nil {payload : Bytes} (short : payload.length < 2 ^ 32) :
    Parses readMsgpackBin (writeBin [] payload) payload := by
  rw [writeBin_eq, List.nil_append]
  exact parses_bin short

theorem parses_readFixedBin {n : Nat} (bytes : FixedBytes n) (short : n < 2 ^ 32) :
    Parses (readFixedBin n) (writeBin [] bytes.val) bytes := by
  have read : Parses readMsgpackBin (writeBin [] bytes.val) bytes.val :=
    parses_writeBin_nil (Nat.lt_of_le_of_lt (Nat.le_of_eq bytes.2) short)
  intro data pos rest inside here
  unfold readFixedBin
  rw [Fallible.exec_bind_ok (read data pos rest inside here), dif_pos bytes.2]
  rfl

theorem parses_readMsgpackBinOrNil_some {payload : Bytes} (short : payload.length < 256) :
    Parses readMsgpackBinOrNil (writeBin [] payload) (some payload) := by
  have read : Parses readMsgpackBin (writeBin [] payload) payload := parses_writeBin_nil (by omega)
  intro data pos rest inside here
  have tag : writeBin [] payload = [0xc4] ++ (UInt8.ofNat payload.length :: payload) := by
    rw [writeBin, if_pos (Nat.le_of_lt_succ short)]
    rfl
  have first : exec (readByte data) pos = (.ok 0xc4, pos + 1) := by
    refine parses_readByte 0xc4 data pos ((UInt8.ofNat payload.length :: payload) ++ rest) inside ?_
    rw [here, tag, List.append_assoc]
  unfold readMsgpackBinOrNil
  rw [Fallible.exec_get_bind, Fallible.exec_bind_ok first, if_neg (by decide), Fallible.exec_modify_bind,
    Fallible.exec_bind_ok (read data pos rest inside here)]
  rfl

theorem parses_readMsgpackBinOrNil_none : Parses readMsgpackBinOrNil (writeNil []) none := by
  intro data pos rest inside here
  unfold readMsgpackBinOrNil
  rw [Fallible.exec_get_bind, Fallible.exec_bind_ok (parses_readByte 0xc0 data pos rest inside here)]
  rfl

theorem parses_readRequestId {bytes : Bytes} {id : Option Bytes} (read : Parses readMsgpackBinOrNil bytes id)
    (fits : ∀ bytes, id = some bytes → bytes.length = truncatedHashBytes) : Parses readRequestId bytes id := by
  have right : id.any (fun bytes => bytes.length ≠ truncatedHashBytes) = false := by
    cases id with
    | none => rfl
    | some bytes => simp [fits bytes rfl]
  intro data pos rest inside here
  unfold readRequestId
  rw [Fallible.exec_bind_ok (read data pos rest inside here), right]
  rfl

namespace ResourceAdvertisement

theorem parses_requestId {adv : ResourceAdvertisement} (fits : adv.Fits) :
    Parses readRequestId (adv.valueBytes .q) adv.requestId := by
  refine parses_readRequestId ?_ fits.requestId
  unfold valueBytes writeValue
  cases known : adv.requestId with
  | none => exact parses_readMsgpackBinOrNil_none
  | some id =>
    have size := fits.requestId id known
    exact parses_readMsgpackBinOrNil_some (by rw [size]; decide)

theorem parses_readValue {adv : ResourceAdvertisement} (fits : adv.Fits) (fields : Fields) (field : Field) :
    Parses (readValue fields field.key) (adv.valueBytes field) (adv.setField fields field) := by
  cases field with
  | t => exact (parses_writeUint_nil _).map (fun value => { fields with transferSize := some value })
  | d => exact (parses_writeUint_nil _).map (fun value => { fields with dataSize := some value })
  | n => exact (parses_writeUint_nil _).map (fun value => { fields with numParts := some value })
  | h =>
    exact (parses_readFixedBin adv.resourceHash (by decide)).map (fun value => { fields with resourceHash := some value })
  | r =>
    exact (parses_readFixedBin adv.randomHash (by decide)).map (fun value => { fields with randomHash := some value })
  | o =>
    exact (parses_readFixedBin adv.originalHash (by decide)).map (fun value => { fields with originalHash := some value })
  | i => exact (parses_writeUint_nil _).map (fun value => { fields with segmentIndex := some value })
  | l => exact (parses_writeUint_nil _).map (fun value => { fields with totalSegments := some value })
  | q => exact (parses_requestId fits).map (fun value => { fields with requestId := some value })
  | f =>
    have read := (parses_writeUint_nil (flagsToU8 adv.flags).toUInt64).map
      (fun value => { fields with flags := some value.toUInt8 })
    rwa [UInt8.toUInt8_toUInt64] at read
  | m => exact (parses_writeBin_nil fits.hashmapData).map (fun value => { fields with hashmapData := some value })

/-- What `unpack` has read once it has read this entry. -/
def setEntry (adv : ResourceAdvertisement) (fields : Fields) : Entry → Fields
  | .known field => adv.setField fields field
  | .unknown _ => fields

end ResourceAdvertisement

theorem parses_readValue_unknown (fields : Fields) (entry : UnknownEntry) :
    Parses (readValue fields entry.key) entry.value fields := by
  have skips : readValue fields entry.key = fun data => skipMsgpackValue data >>= fun _ => pure fields := by
    funext data
    simp only [readValue, if_neg (entry.other _)]
  rw [skips]
  exact (reads_skipMsgpackValue.parses entry.value () entry.formed).map (fun _ => fields)

namespace ResourceAdvertisement

theorem parses_entry {adv : ResourceAdvertisement} (fits : adv.Fits) (fields : Fields) (entry : Entry) :
    Parses (fun data => readMsgpackStr data >>= fun key => readValue fields key data) (adv.entryBytes entry)
      (adv.setEntry fields entry) := by
  cases entry with
  | known field =>
    have short : field.key.length < 32 := by cases field <;> decide
    rw [entryBytes, fieldBytes_eq]
    exact (parses_fixstr short).andThen (parses_readValue fits fields field)
  | unknown entry => exact entry.written.parses.andThen (parses_readValue_unknown fields entry)

theorem parses_readEntries {adv : ResourceAdvertisement} (fits : adv.Fits) (order : List Entry) (fields : Fields) :
    Parses (readEntries order.length fields) (order.map adv.entryBytes).flatten (order.foldl adv.setEntry fields) := by
  induction order generalizing fields with
  | nil => exact (Parsing.Reads.ofPure fields).parses [] fields ⟨rfl, rfl⟩
  | cons entry rest ih =>
    have loop := (parses_entry fits fields entry).andThen (ih (adv.setEntry fields entry))
    simp only [bind_assoc] at loop
    exact loop

/-! ### The order does not matter -/

def Has (adv : ResourceAdvertisement) (fields : Fields) : Field → Prop
  | .t => fields.transferSize = some adv.transferSize
  | .d => fields.dataSize = some adv.dataSize
  | .n => fields.numParts = some adv.numParts.toUInt64
  | .h => fields.resourceHash = some adv.resourceHash
  | .r => fields.randomHash = some adv.randomHash
  | .o => fields.originalHash = some adv.originalHash
  | .i => fields.segmentIndex = some adv.segmentIndex.toUInt64
  | .l => fields.totalSegments = some adv.totalSegments.toUInt64
  | .q => fields.requestId = some adv.requestId
  | .f => fields.flags = some (flagsToU8 adv.flags)
  | .m => fields.hashmapData = some adv.hashmapData

theorem has_setField_self (adv : ResourceAdvertisement) (fields : Fields) (field : Field) :
    adv.Has (adv.setField fields field) field := by
  cases field <;> rfl

theorem Has.setField {adv : ResourceAdvertisement} {fields : Fields} {field : Field} (has : adv.Has fields field)
    (other : Field) : adv.Has (adv.setField fields other) field := by
  by_cases same : other = field
  · subst same
    exact has_setField_self adv fields other
  · cases field <;> cases other <;> first | exact has | exact absurd rfl same

theorem Has.setEntry {adv : ResourceAdvertisement} {fields : Fields} {field : Field} (has : adv.Has fields field)
    (entry : Entry) : adv.Has (adv.setEntry fields entry) field := by
  cases entry with
  | known other => exact has.setField other
  | unknown entry => exact has

end ResourceAdvertisement

namespace ResourceAdvertisement

/-- One part of seven bytes, asked for by a request. -/
def sample : ResourceAdvertisement where
  transferSize := 300
  dataSize := 7
  numParts := 1
  resourceHash := FixedBytes.replicate 32 1
  randomHash := FixedBytes.replicate 4 2
  originalHash := FixedBytes.replicate 32 3
  segmentIndex := 1
  totalSegments := 1
  requestId := some (List.replicate 16 4)
  flags := flagsFromU8 0x11
  hashmapData := [1, 2, 3, 4]

theorem sample_fits : sample.Fits where
  requestId := by
    intro id known
    cases known
    rfl
  hashmapData := by decide

/-- Nil under the key `x`. -/
def spare : UnknownEntry where
  key := [0x78]
  other := by
    intro field
    cases field <;> decide
  keyBytes := [0xa1, 0x78]
  written := @StrForm.fixstr [0x78] (by decide)
  value := [0xc0]
  formed := .alone (by decide)

end ResourceAdvertisement

end Leviculum.Resource.Wire
