import Leviculum.Msgpack.Core

/-! The walk of `leviculum-lxmf` over values it does not read, by the markers of another library, and that it
goes where the walk of `leviculum-core` goes. -/

namespace Leviculum.Msgpack

inductive Error where
  | truncated
  | type
  | overflow
  | trailing
  /-- Containers nested deeper than `maxSkipDepth`. -/
  | depth
  deriving DecidableEq

def maxSkipDepth : Nat := 64

end Leviculum.Msgpack

namespace Leviculum.Msgpack.Lxmf

open Fallible (exec)
open Parsing (Parser Reads)

/-- `rmp::Marker`. -/
inductive Marker where
  | fixPos (value : UInt8)
  | fixNeg (value : Int)
  | fixMap (n : UInt8)
  | fixArray (n : UInt8)
  | fixStr (n : UInt8)
  | null
  | reserved
  | false
  | true
  | bin8
  | bin16
  | bin32
  | ext8
  | ext16
  | ext32
  | f32
  | f64
  | u8
  | u16
  | u32
  | u64
  | i8
  | i16
  | i32
  | i64
  | fixExt1
  | fixExt2
  | fixExt4
  | fixExt8
  | fixExt16
  | str8
  | str16
  | str32
  | array16
  | array32
  | map16
  | map32
  deriving DecidableEq

def Marker.documented (byte : UInt8) : Marker :=
  if byte ≤ 0x7f then .fixPos byte
  else if 0xe0 ≤ byte then .fixNeg (byte.toNat - 256)
  else if byte ≤ 0x8f then .fixMap (byte &&& 0x0f)
  else if byte ≤ 0x9f then .fixArray (byte &&& 0x0f)
  else if byte ≤ 0xbf then .fixStr (byte &&& 0x1f)
  else match byte with
    | 0xc0 => .null
    | 0xc1 => .reserved
    | 0xc2 => .false
    | 0xc3 => .true
    | 0xc4 => .bin8
    | 0xc5 => .bin16
    | 0xc6 => .bin32
    | 0xc7 => .ext8
    | 0xc8 => .ext16
    | 0xc9 => .ext32
    | 0xca => .f32
    | 0xcb => .f64
    | 0xcc => .u8
    | 0xcd => .u16
    | 0xce => .u32
    | 0xcf => .u64
    | 0xd0 => .i8
    | 0xd1 => .i16
    | 0xd2 => .i32
    | 0xd3 => .i64
    | 0xd4 => .fixExt1
    | 0xd5 => .fixExt2
    | 0xd6 => .fixExt4
    | 0xd7 => .fixExt8
    | 0xd8 => .fixExt16
    | 0xd9 => .str8
    | 0xda => .str16
    | 0xdb => .str32
    | 0xdc => .array16
    | 0xdd => .array32
    | 0xde => .map16
    | _ => .map32

abbrev Reader (V : Type) := Parser UInt8 Error V

def take (n : Nat) : Reader Bytes := Parsing.take .truncated n

/-- `take(d, p, 1)?[0]`. -/
def takeByte : Reader UInt8 := fun data => do
  let bytes ← take 1 data
  return bytes.headD 0

/-- `take_u16` and `take_u32`. -/
def takeBe (width : Nat) : Reader Nat := fun data => do
  let bytes ← take width data
  return Bytes.ofBe bytes

def takeAway (n : Nat) : Reader Unit := fun data => do
  let _ ← take n data

def skipExt (payloadLength : Nat) : Reader Unit := takeAway (payloadLength + 1)

/-- The arms of `skip_depth` after the marker; `inner` is the walk one level deeper, if there is one. -/
def skipArm (inner : Option (Reader Unit)) : Marker → Reader Unit
  | .fixPos _ | .fixNeg _ | .null | .false | .true => fun _ => pure ()
  | .fixMap n => pairs n.toNat
  | .fixArray n => items n.toNat
  | .fixStr n => takeAway n.toNat
  | .bin8 | .str8 => fun data => do takeAway (← takeByte data).toNat data
  | .bin16 | .str16 => fun data => do takeAway (← takeBe 2 data) data
  | .bin32 | .str32 => fun data => do takeAway (← takeBe 4 data) data
  | .f32 | .u32 | .i32 => takeAway 4
  | .f64 | .u64 | .i64 => takeAway 8
  | .u8 | .i8 => takeAway 1
  | .u16 | .i16 => takeAway 2
  | .array16 => fun data => do items (← takeBe 2 data) data
  | .array32 => fun data => do items (← takeBe 4 data) data
  | .map16 => fun data => do pairs (← takeBe 2 data) data
  | .map32 => fun data => do pairs (← takeBe 4 data) data
  | .fixExt1 => skipExt 1
  | .fixExt2 => skipExt 2
  | .fixExt4 => skipExt 4
  | .fixExt8 => skipExt 8
  | .fixExt16 => skipExt 16
  | .ext8 => fun data => do skipExt (← takeByte data).toNat data
  | .ext16 => fun data => do skipExt (← takeBe 2 data) data
  | .ext32 => fun data => do skipExt (← takeBe 4 data) data
  | .reserved => fun _ => throw .type
where
  items (count : Nat) : Reader Unit :=
    match inner with
    | none => fun _ => throw .depth
    | some skip => Parsing.times skip count
  pairs (count : Nat) : Reader Unit :=
    match inner with
    | none => fun _ => throw .depth
    | some skip => Parsing.times (fun data => skip data >>= fun _ => skip data) count

variable (fromU8 : UInt8 → Marker)

def skipDepth : Nat → Reader Unit
  | 0 => fun data => do skipArm none (fromU8 (← takeByte data)) data
  | depth + 1 => fun data => do skipArm (some (skipDepth depth)) (fromU8 (← takeByte data)) data

def skip : Reader Unit := skipDepth fromU8 maxSkipDepth

/-! ### The strings the readers take -/

theorem reads_takeAway (n : Nat) : Reads (takeAway n) (fun bytes _ => bytes.length = n) :=
  reads_dropped Error.truncated n

theorem reads_takeByte : Reads takeByte (fun bytes value => bytes = [value]) := by
  refine ((Parsing.reads_take Error.truncated 1).map (fun bytes => bytes.headD 0)).congr (fun bytes value => ?_)
  constructor
  · rintro ⟨_, ⟨rfl, size⟩, rfl⟩
    obtain ⟨byte, rfl⟩ := List.length_eq_one_iff.mp size
    rfl
  · rintro rfl
    exact ⟨[value], ⟨rfl, rfl⟩, rfl⟩

/-- A length: one byte by `take`, more by `take_u16` and `take_u32`. -/
def takeLength (width : Nat) : Reader Nat :=
  if width = 1 then fun data => takeByte data >>= fun length => pure length.toNat else takeBe width

theorem reads_takeLength (width : Nat) :
    Reads (takeLength width) (fun bytes value => bytes.length = width ∧ value = Bytes.ofBe bytes) := by
  unfold takeLength
  split
  next one =>
    rw [one]
    exact reads_byte_number reads_takeByte
  next => exact reads_be Error.truncated width

/-- The readers of this crate. -/
def dialect : Dialect Error where
  byte := takeByte
  number := takeLength
  payload := takeAway
  extension := skipExt
  reserved := .type
  tooDeep := .depth
  reads_byte := reads_takeByte
  reads_number := reads_takeLength
  reads_payload := reads_takeAway
  reads_extension := fun n => reads_takeAway (n + 1)

def armShape : Marker → Shape
  | .fixPos _ | .fixNeg _ | .null | .false | .true => .alone
  | .fixMap n => .items (2 * n.toNat)
  | .fixArray n => .items n.toNat
  | .fixStr n => .fixed n.toNat
  | .bin8 | .str8 => .sized 1
  | .bin16 | .str16 => .sized 2
  | .bin32 | .str32 => .sized 4
  | .f32 | .u32 | .i32 => .fixed 4
  | .f64 | .u64 | .i64 => .fixed 8
  | .u8 | .i8 => .fixed 1
  | .u16 | .i16 => .fixed 2
  | .array16 => .counted 2 1
  | .array32 => .counted 4 1
  | .map16 => .counted 2 2
  | .map32 => .counted 4 2
  | .fixExt1 => .fixed 2
  | .fixExt2 => .fixed 3
  | .fixExt4 => .fixed 5
  | .fixExt8 => .fixed 9
  | .fixExt16 => .fixed 17
  | .ext8 => .extension 1
  | .ext16 => .extension 2
  | .ext32 => .extension 4
  | .reserved => .reserved

theorem armShape_documented (byte : UInt8) : armShape (Marker.documented byte) = Shape.ofTag byte := by
  apply forall_byte (p := fun byte => armShape (Marker.documented byte) = Shape.ofTag byte)
  decide +kernel

theorem items_eq (inner : Option (Reader Unit)) (count : Nat) :
    skipArm.items inner count = Dialect.body.many dialect inner count := by
  cases inner <;> rfl

theorem pairs_eq (inner : Option (Reader Unit)) (count : Nat) :
    skipArm.pairs inner count = Dialect.body.many dialect inner (2 * count) := by
  cases inner with
  | none => rfl
  | some skip => exact Parsing.times_pairs skip count

theorem length_one (next : Nat → Reader Unit) (data : Bytes) :
    (takeByte data >>= fun length => next length.toNat data) = takeLength 1 data >>= fun length => next length data := by
  simp only [takeLength, if_true, bind_assoc, pure_bind]

theorem skipArm_eq (inner : Option (Reader Unit)) (marker : Marker) :
    skipArm inner marker = dialect.body inner (armShape marker) := by
  funext data
  cases marker with
  | fixMap n => exact congrFun (pairs_eq inner n.toNat) data
  | fixArray n => exact congrFun (items_eq inner n.toNat) data
  | bin8 | str8 => exact length_one takeAway data
  | ext8 => exact length_one skipExt data
  | array16 | array32 =>
    simp only [skipArm, armShape, Dialect.body, items_eq, Nat.one_mul]
    rfl
  | map16 | map32 =>
    simp only [skipArm, armShape, Dialect.body, pairs_eq]
    rfl
  | _ => rfl

variable {fromU8} (documented : ∀ byte, fromU8 byte = Marker.documented byte)
include documented

theorem skipDepth_eq (depth : Nat) : skipDepth fromU8 depth = dialect.walk depth := by
  induction depth with
  | zero =>
    funext data
    simp only [skipDepth, Dialect.walk, skipArm_eq, documented, armShape_documented]
    rfl
  | succ depth ih =>
    funext data
    simp only [skipDepth, Dialect.walk, skipArm_eq, documented, armShape_documented, ih]
    rfl

theorem reads_skip : Reads (skip fromU8) (fun bytes _ => WellFormed maxSkipDepth bytes) := by
  unfold skip
  rw [skipDepth_eq documented]
  exact dialect.reads_walk maxSkipDepth

omit documented

theorem exec_skip_outside {data : Bytes} {pos : Nat} (outside : data.length < pos) :
    exec (skip fromU8 data) pos = (.error .truncated, pos) := by
  have none : exec (takeByte data) pos = (.error .truncated, pos) := by
    have short : exec (take 1 data) pos = (.error .truncated, pos) := by
      rw [take, Parsing.exec_take, if_neg (by omega)]
    exact Fallible.exec_bind_error short _
  exact Fallible.exec_bind_error none _

end Leviculum.Msgpack.Lxmf

namespace Leviculum.Msgpack

open Fallible (exec)

theorem Core.exec_skipMsgpackValue_outside {data : Bytes} {pos : Nat} (outside : data.length < pos) :
    exec (Core.skipMsgpackValue data) pos = (.error (), pos) :=
  Fallible.exec_bind_error (Parsing.exec_item_none () (Nat.le_of_lt outside)) _

/-- From every position of every buffer the two walks end, inside the buffer, and either both go well and end at
the same place or both fail. Over a well formed value they go well and end right behind it. -/
theorem skips_agree {fromU8 : UInt8 → Lxmf.Marker} (documented : ∀ byte, fromU8 byte = Lxmf.Marker.documented byte)
    (data : Bytes) (pos : Nat) :
    ((exec (Core.skipMsgpackValue data) pos).2 ≤ max pos data.length ∧
      (exec (Lxmf.skip fromU8 data) pos).2 ≤ max pos data.length) ∧
    ((∃ last, exec (Core.skipMsgpackValue data) pos = (.ok (), last) ∧ exec (Lxmf.skip fromU8 data) pos = (.ok (), last)) ∨
      ∃ here error there, exec (Core.skipMsgpackValue data) pos = (.error (), here) ∧
        exec (Lxmf.skip fromU8 data) pos = (.error error, there)) ∧
    ∀ value rest, WellFormed 64 value → pos ≤ data.length → data.drop pos = value ++ rest →
      exec (Core.skipMsgpackValue data) pos = (.ok (), pos + value.length) ∧
        exec (Lxmf.skip fromU8 data) pos = (.ok (), pos + value.length) := by
  have core := Core.reads_skipMsgpackValue
  have lxmf := Lxmf.reads_skip documented
  refine ⟨?_, ?_, ?_⟩
  · by_cases inside : pos ≤ data.length
    · have here := (core.confined data pos inside).2
      have there := (lxmf.confined data pos inside).2
      exact ⟨by omega, by omega⟩
    · have outside : data.length < pos := Nat.lt_of_not_le inside
      rw [Core.exec_skipMsgpackValue_outside outside, Lxmf.exec_skip_outside outside]
      exact ⟨Nat.le_max_left _ _, Nat.le_max_left _ _⟩
  · by_cases inside : pos ≤ data.length
    · rcases core.agree lxmf data pos inside with ⟨_, last, here, there⟩ | ⟨_, here, error, there, fails, fails'⟩
      · exact .inl ⟨last, here, there⟩
      · exact .inr ⟨here, error, there, fails, fails'⟩
    · have outside : data.length < pos := Nat.lt_of_not_le inside
      exact .inr ⟨pos, .truncated, pos, Core.exec_skipMsgpackValue_outside outside, Lxmf.exec_skip_outside outside⟩
  · intro value rest formed inside here
    exact ⟨core.parses value () formed data pos rest inside here, lxmf.parses value () formed data pos rest inside here⟩

/-- A map with an array under a key, after one byte and before another: the two walks stop at the last byte. -/
theorem skips_agree_nested :
    exec (Core.skipMsgpackValue [0x07, 0x81, 0xa1, 0x6b, 0x92, 0xc0, 0xcc, 0xff, 0x2a]) 1 = (.ok (), 8) ∧
      exec (Lxmf.skip Lxmf.Marker.documented [0x07, 0x81, 0xa1, 0x6b, 0x92, 0xc0, 0xcc, 0xff, 0x2a]) 1 = (.ok (), 8) := by
  have key : WellFormed 63 [0xa1, 0x6b] := @WellFormed.fixed 63 1 0xa1 [0x6b] (by decide) rfl
  have byte : WellFormed 62 [0xcc, 0xff] := @WellFormed.fixed 62 1 0xcc [0xff] (by decide) rfl
  have value : WellFormed 63 [0x92, 0xc0, 0xcc, 0xff] := by
    refine @WellFormed.items 62 2 0x92 [[0xc0], [0xcc, 0xff]] (by decide) rfl ?_
    exact List.forall_mem_cons.mpr ⟨.alone (by decide), List.forall_mem_cons.mpr ⟨byte, nofun⟩⟩
  have formed : WellFormed 64 [0x81, 0xa1, 0x6b, 0x92, 0xc0, 0xcc, 0xff] := by
    refine @WellFormed.items 63 2 0x81 [[0xa1, 0x6b], [0x92, 0xc0, 0xcc, 0xff]] (by decide) rfl ?_
    exact List.forall_mem_cons.mpr ⟨key, List.forall_mem_cons.mpr ⟨value, nofun⟩⟩
  exact (skips_agree (fun _ => rfl) [0x07, 0x81, 0xa1, 0x6b, 0x92, 0xc0, 0xcc, 0xff, 0x2a] 1).2.2 _ [0x2a] formed
    (by decide) rfl

end Leviculum.Msgpack
