import Leviculum.Msgpack.Format

/-! The msgpack helpers of `leviculum-core`: its writers, its readers, and the walk over values it does not
read. -/

namespace Leviculum.Msgpack.Core

open Parsing (Parser Reads)

/-- A reader that gives `None` when it fails. -/
abbrev Reader (V : Type) := Parser UInt8 Unit V

def writeFixmapHeader (buf : Bytes) (count : UInt8) : Bytes := buf ++ [0x80 ||| count]

def writeFixstr (buf text : Bytes) : Bytes := buf ++ [0xa0 ||| UInt8.ofNat text.length] ++ text

def writeStr (buf text : Bytes) : Bytes :=
  let length := text.length
  let header : Bytes :=
    if length < 32 then [0xa0 ||| UInt8.ofNat length]
    else if length < 256 then [0xd9, UInt8.ofNat length]
    else if length < 65536 then 0xda :: Bytes.be 2 length
    else 0xdb :: Bytes.be 4 length
  buf ++ header ++ text

def writeBin (buf payload : Bytes) : Bytes :=
  let length := payload.length
  let header : Bytes :=
    if length ≤ 0xff then [0xc4, UInt8.ofNat length]
    else if length ≤ 0xffff then 0xc5 :: Bytes.be 2 length
    else 0xc6 :: Bytes.be 4 length
  buf ++ header ++ payload

def writeUint (buf : Bytes) (value : UInt64) : Bytes :=
  let value := value.toNat
  if value ≤ 127 then buf ++ [UInt8.ofNat value]
  else if value ≤ 255 then buf ++ [0xcc, UInt8.ofNat value]
  else if value ≤ 65535 then buf ++ 0xcd :: Bytes.be 2 value
  else if value ≤ 4294967295 then buf ++ 0xce :: Bytes.be 4 value
  else buf ++ 0xcf :: Bytes.be 8 value

def writeNil (buf : Bytes) : Bytes := buf ++ [0xc0]

def writeFixarrayHeader (buf : Bytes) (count : Nat) : Bytes := buf ++ [0x90 ||| UInt8.ofNat count]

def writeBool (buf : Bytes) (value : Bool) : Bytes := buf ++ [if value then 0xc3 else 0xc2]

def writeFloat64 (buf : Bytes) (bits : UInt64) : Bytes := buf ++ 0xcb :: Bytes.be 8 bits.toNat

def take (n : Nat) : Reader Bytes := Parsing.take () n

def advance (n : Nat) : Reader Unit := fun data => do
  let _ ← take n data

def readByte : Reader UInt8 := Parsing.item ()

/-- `read_be_u16`, `read_be_u32` and `read_be_u64`. -/
def readBe (width : Nat) : Reader Nat := fun data => do
  let bytes ← take width data
  return Bytes.ofBe bytes

/-- `read_byte(data, pos)? as usize`. -/
def readByteLength : Reader Nat := fun data => do
  let length ← readByte data
  return length.toNat

def strLength (tag : UInt8) : Reader Nat := fun data =>
  if tag &&& 0xe0 = 0xa0 then pure (tag &&& 0x1f).toNat
  else if tag = 0xd9 then readByteLength data
  else if tag = 0xda then readBe 2 data
  else throw ()

def readMsgpackStr : Reader Bytes := fun data => do
  let tag ← readByte data
  let length ← strLength tag data
  take length data

def binLength (tag : UInt8) : Reader Nat := fun data =>
  if tag = 0xc4 then readByteLength data
  else if tag = 0xc5 then readBe 2 data
  else if tag = 0xc6 then readBe 4 data
  else throw ()

def readMsgpackBin : Reader Bytes := fun data => do
  let tag ← readByte data
  let length ← binLength tag data
  take length data

def uintValue (tag : UInt8) : Reader Nat := fun data =>
  if tag ≤ 0x7f then pure tag.toNat
  else if tag = 0xcc then readByteLength data
  else if tag = 0xcd then readBe 2 data
  else if tag = 0xce then readBe 4 data
  else if tag = 0xcf then readBe 8 data
  else throw ()

def readMsgpackUint : Reader UInt64 := fun data => do
  let tag ← readByte data
  let value ← uintValue tag data
  return UInt64.ofNat value

def readMsgpackBinOrNil : Reader (Option Bytes) := fun data => do
  let savedPos ← get
  let tag ← readByte data
  if tag = 0xc0 then return none
  else
    modify (fun _ => savedPos)
    let bytes ← readMsgpackBin data
    return some bytes

def readFixmapLen : Reader Nat := fun data => do
  let tag ← readByte data
  if tag &&& 0xf0 = 0x80 then return (tag &&& 0x0f).toNat
  else throw ()

/-- The count behind a tag of either family of containers: in the tag, in two bytes or in four. -/
def containerLen (fixed two four : UInt8) : Reader Nat := fun data => do
  let tag ← readByte data
  if tag &&& 0xf0 = fixed then return (tag &&& 0x0f).toNat
  else if tag = two then readBe 2 data
  else if tag = four then readBe 4 data
  else throw ()

def readMapLen : Reader Nat := containerLen 0x80 0xde 0xdf

def readArrayLen : Reader Nat := containerLen 0x90 0xdc 0xdd

def maxSkipDepth : Nat := 64

/-- The arms of `skip_msgpack_value_depth` after the tag; `inner` is the walk one level deeper, if there is
one. -/
def skipBody (inner : Option (Reader Unit)) (tag : UInt8) : Reader Unit := fun data =>
  if tag = 0xc0 ∨ tag = 0xc2 ∨ tag = 0xc3 then pure ()
  else if tag ≤ 0x7f then pure ()
  else if 0xe0 ≤ tag then pure ()
  else if tag = 0xcc ∨ tag = 0xd0 then advance 1 data
  else if tag = 0xcd ∨ tag = 0xd1 then advance 2 data
  else if tag = 0xce ∨ tag = 0xd2 ∨ tag = 0xca then advance 4 data
  else if tag = 0xcf ∨ tag = 0xd3 ∨ tag = 0xcb then advance 8 data
  else if tag &&& 0xe0 = 0xa0 then advance (tag &&& 0x1f).toNat data
  else if tag = 0xd9 then do advance (← readByteLength data) data
  else if tag = 0xda then do advance (← readBe 2 data) data
  else if tag = 0xdb then do advance (← readBe 4 data) data
  else if tag = 0xc4 then do advance (← readByteLength data) data
  else if tag = 0xc5 then do advance (← readBe 2 data) data
  else if tag = 0xc6 then do advance (← readBe 4 data) data
  else if 0xd4 ≤ tag ∧ tag ≤ 0xd8 then advance (1 + 1 <<< (tag - 0xd4).toNat) data
  else if 0xc7 ≤ tag ∧ tag ≤ 0xc9 then do
    let length ←
      if tag = 0xc7 then readByteLength data
      else if tag = 0xc8 then readBe 2 data
      else readBe 4 data
    advance 1 data
    advance length data
  else if tag &&& 0xf0 = 0x90 then items (tag &&& 0x0f).toNat data
  else if tag = 0xdc ∨ tag = 0xdd then do
    let count ← if tag = 0xdc then readBe 2 data else readBe 4 data
    items count data
  else if tag &&& 0xf0 = 0x80 then pairs (tag &&& 0x0f).toNat data
  else if tag = 0xde ∨ tag = 0xdf then do
    let count ← if tag = 0xde then readBe 2 data else readBe 4 data
    pairs count data
  else throw ()
where
  items (count : Nat) : Reader Unit :=
    match inner with
    | none => fun _ => throw ()
    | some skip => Parsing.times skip count
  pairs (count : Nat) : Reader Unit :=
    match inner with
    | none => fun _ => throw ()
    | some skip => Parsing.times (fun data => skip data >>= fun _ => skip data) count

def skipMsgpackValueDepth : Nat → Reader Unit
  | 0 => fun data => do skipBody none (← readByte data) data
  | depth + 1 => fun data => do skipBody (some (skipMsgpackValueDepth depth)) (← readByte data) data

def skipMsgpackValue : Reader Unit := skipMsgpackValueDepth maxSkipDepth

/-! ### The strings the readers take -/

theorem reads_advance (n : Nat) : Reads (advance n) (fun bytes _ => bytes.length = n) := reads_dropped () n

theorem reads_readByte : Reads readByte (fun bytes value => bytes = [value]) := Parsing.reads_item ()

theorem reads_readBe (width : Nat) :
    Reads (readBe width) (fun bytes value => bytes.length = width ∧ value = Bytes.ofBe bytes) := reads_be () width

/-- A length: one byte by `read_byte`, more by the big-endian readers. -/
def readLength (width : Nat) : Reader Nat :=
  if width = 1 then readByteLength else readBe width

theorem reads_readLength (width : Nat) :
    Reads (readLength width) (fun bytes value => bytes.length = width ∧ value = Bytes.ofBe bytes) := by
  unfold readLength
  split
  next one =>
    rw [one]
    exact reads_byte_number reads_readByte
  next => exact reads_readBe width

/-- The type byte, then the payload. -/
def skipExtension (n : Nat) : Reader Unit := fun data => advance 1 data >>= fun _ => advance n data

theorem reads_skipExtension (n : Nat) : Reads (skipExtension n) (fun bytes _ => bytes.length = n + 1) := by
  refine ((reads_advance 1).andThen (fun _ => reads_advance n)).congr (fun bytes _ => ?_)
  constructor
  · rintro ⟨kind, payload, _, rfl, one, size⟩
    rw [List.length_append, one, size, Nat.add_comm]
  · intro size
    refine ⟨bytes.take 1, bytes.drop 1, (), (List.take_append_drop 1 bytes).symm, ?_, ?_⟩
    · rw [List.length_take]
      omega
    · rw [List.length_drop]
      omega

/-- The readers of this crate. -/
def dialect : Dialect Unit where
  byte := readByte
  number := readLength
  payload := advance
  extension := skipExtension
  reserved := ()
  tooDeep := ()
  reads_byte := reads_readByte
  reads_number := reads_readLength
  reads_payload := reads_advance
  reads_extension := reads_skipExtension

def armShape (tag : UInt8) : Shape :=
  if tag = 0xc0 ∨ tag = 0xc2 ∨ tag = 0xc3 then .alone
  else if tag ≤ 0x7f then .alone
  else if 0xe0 ≤ tag then .alone
  else if tag = 0xcc ∨ tag = 0xd0 then .fixed 1
  else if tag = 0xcd ∨ tag = 0xd1 then .fixed 2
  else if tag = 0xce ∨ tag = 0xd2 ∨ tag = 0xca then .fixed 4
  else if tag = 0xcf ∨ tag = 0xd3 ∨ tag = 0xcb then .fixed 8
  else if tag &&& 0xe0 = 0xa0 then .fixed (tag &&& 0x1f).toNat
  else if tag = 0xd9 then .sized 1
  else if tag = 0xda then .sized 2
  else if tag = 0xdb then .sized 4
  else if tag = 0xc4 then .sized 1
  else if tag = 0xc5 then .sized 2
  else if tag = 0xc6 then .sized 4
  else if 0xd4 ≤ tag ∧ tag ≤ 0xd8 then .fixed (1 + 1 <<< (tag - 0xd4).toNat)
  else if 0xc7 ≤ tag ∧ tag ≤ 0xc9 then
    if tag = 0xc7 then .extension 1 else if tag = 0xc8 then .extension 2 else .extension 4
  else if tag &&& 0xf0 = 0x90 then .items (tag &&& 0x0f).toNat
  else if tag = 0xdc ∨ tag = 0xdd then if tag = 0xdc then .counted 2 1 else .counted 4 1
  else if tag &&& 0xf0 = 0x80 then .items (2 * (tag &&& 0x0f).toNat)
  else if tag = 0xde ∨ tag = 0xdf then if tag = 0xde then .counted 2 2 else .counted 4 2
  else .reserved

theorem armShape_eq (tag : UInt8) : armShape tag = Shape.ofTag tag := by
  apply forall_byte (p := fun tag => armShape tag = Shape.ofTag tag)
  decide +kernel

theorem items_eq (inner : Option (Reader Unit)) (count : Nat) :
    skipBody.items inner count = Dialect.body.many dialect inner count := by
  cases inner <;> rfl

theorem pairs_eq (inner : Option (Reader Unit)) (count : Nat) :
    skipBody.pairs inner count = Dialect.body.many dialect inner (2 * count) := by
  cases inner with
  | none => rfl
  | some skip => exact Parsing.times_pairs skip count

theorem arm_eq {inner : Option (Reader Unit)} {data : Bytes} {condition : Prop} [Decidable condition]
    {arm others : Fallible.Program Nat Unit Unit} {shape shapes : Shape} (here : arm = dialect.body inner shape data)
    (after : others = dialect.body inner shapes data) :
    (if condition then arm else others) = dialect.body inner (if condition then shape else shapes) data := by
  split
  · exact here
  · exact after

theorem skipBody_eq (inner : Option (Reader Unit)) (tag : UInt8) :
    skipBody inner tag = dialect.body inner (Shape.ofTag tag) := by
  rw [← armShape_eq]
  funext data
  unfold skipBody armShape
  refine arm_eq rfl (arm_eq rfl (arm_eq rfl (arm_eq rfl (arm_eq rfl (arm_eq rfl (arm_eq rfl (arm_eq rfl ?_)))))))
  refine arm_eq rfl (arm_eq rfl (arm_eq rfl (arm_eq rfl (arm_eq rfl (arm_eq rfl (arm_eq rfl ?_))))))
  refine arm_eq ?_ (arm_eq ?_ (arm_eq ?_ (arm_eq ?_ (arm_eq ?_ rfl))))
  · split_ifs <;> rfl
  · rw [items_eq]
    rfl
  · split_ifs
    · simp only [items_eq, Dialect.body, Nat.one_mul]
      rfl
    · simp only [items_eq, Dialect.body, Nat.one_mul]
      rfl
  · rw [pairs_eq]
    rfl
  · split_ifs
    · simp only [pairs_eq]
      rfl
    · simp only [pairs_eq]
      rfl

theorem skipMsgpackValueDepth_eq (depth : Nat) : skipMsgpackValueDepth depth = dialect.walk depth := by
  induction depth with
  | zero =>
    funext data
    simp only [skipMsgpackValueDepth, Dialect.walk, skipBody_eq]
    rfl
  | succ depth ih =>
    funext data
    simp only [skipMsgpackValueDepth, Dialect.walk, skipBody_eq, ih]
    rfl

theorem reads_skipMsgpackValue : Reads skipMsgpackValue (fun bytes _ => WellFormed maxSkipDepth bytes) := by
  unfold skipMsgpackValue
  rw [skipMsgpackValueDepth_eq]
  exact dialect.reads_walk maxSkipDepth

end Leviculum.Msgpack.Core
