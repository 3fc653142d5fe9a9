import Leviculum.Msgpack.RoundTrip
import Leviculum.Msgpack.Skip
import Mathlib.Algebra.Ring.Int.Defs

/-! The other msgpack helpers of `leviculum-lxmf`. They write and read through the library `rmp`, which is taken
as a parameter. -/

namespace Leviculum.Msgpack.Lxmf

open Fallible (exec)
open Parsing (Parses Confined)

/-- `rmp::decode::ValueReadError`; the two errors of reading are one. -/
inductive ValueReadError where
  | invalidRead
  | typeMismatch
  deriving DecidableEq

/-- `rmp::decode::NumValueReadError`. -/
inductive NumValueReadError where
  | invalidRead
  | typeMismatch
  | outOfRange
  deriving DecidableEq

/-- What is called of `rmp`. A reader takes what is left of the input and gives the value and how many bytes it
read; a float is its bits. -/
structure Rmp where
  fromU8 : UInt8 → Marker
  writeArrayLen : UInt32 → Bytes
  writeMapLen : UInt32 → Bytes
  writeBin : Bytes → Bytes
  writeUint : UInt64 → Bytes
  writeSint : Int64 → Bytes
  writeF64 : UInt64 → Bytes
  writeBool : Bool → Bytes
  writeNil : Bytes
  readArrayLen : Bytes → Except ValueReadError (UInt32 × Nat)
  readMapLen : Bytes → Except ValueReadError (UInt32 × Nat)
  readBinLen : Bytes → Except ValueReadError (UInt32 × Nat)
  readF64 : Bytes → Except ValueReadError (UInt64 × Nat)
  /-- `read_int::<u64, _>`. -/
  readUint : Bytes → Except NumValueReadError (UInt64 × Nat)
  /-- `read_int::<i64, _>`. -/
  readInt : Bytes → Except NumValueReadError (Int64 × Nat)

/-- One number, with the family the wire used for it. -/
inductive Number where
  | int (value : Int64)
  | float (bits : UInt64)
  deriving DecidableEq

def Number.asF64 : Number → UInt64
  | int value => value.toFloat.toBits
  | float bits => bits

/-- What the first byte of a value tells of it. -/
inductive Kind where
  | nil
  | false
  | true
  | array
  | float
  | map
  | str
  | other
  deriving DecidableEq

def mapValueError : ValueReadError → Error
  | .invalidRead => .truncated
  | .typeMismatch => .type

def mapNumberError : NumValueReadError → Error
  | .invalidRead => .truncated
  | .typeMismatch => .type
  | .outOfRange => .overflow

section Helpers

variable (library : Rmp)

/-! ### Writing -/

/-- The cast to `u32` is the source's. -/
def array (n : Nat) : Bytes := library.writeArrayLen (UInt32.ofNat n)

def map (n : Nat) : Bytes := library.writeMapLen (UInt32.ofNat n)

def bin (bytes : Bytes) : Bytes := library.writeBin bytes

def f64 (bits : UInt64) : Bytes := library.writeF64 bits

def uint (value : UInt64) : Bytes := library.writeUint value

def int (value : Int64) : Bytes := if 0 ≤ value then uint library value.toUInt64 else library.writeSint value

def bool (value : Bool) : Bytes := library.writeBool value

def nil : Bytes := library.writeNil

/-! ### Reading -/

def reading {E V : Type} (onError : E → Error) (read : Bytes → Except E (V × Nat)) : Reader V := fun data => do
  let position ← get
  if data.length < position then throw .truncated
  else
    match read (data.drop position) with
    | .ok (value, taken) =>
      modify (fun _ => position + taken)
      return value
    | .error error => throw (onError error)

def arrayLen : Reader Nat := fun data => do
  let n ← reading mapValueError library.readArrayLen data
  return n.toNat

def mapLen : Reader Nat := fun data => do
  let n ← reading mapValueError library.readMapLen data
  return n.toNat

def readBin : Reader Bytes := fun data => do
  let n ← reading mapValueError library.readBinLen data
  take n.toNat data

def readF64 : Reader UInt64 := reading mapValueError library.readF64

def readUint : Reader UInt64 := reading mapNumberError library.readUint

def readInt : Reader Int64 := reading mapNumberError library.readInt

/-- The arm of `read_number` for the narrow float. -/
def readF32 : Reader Number := fun data => do
  let _ ← takeByte data
  let bits ← takeBe 4 data
  return .float (Float32.ofBits (UInt32.ofNat bits)).toFloat.toBits

def readNumber : Reader Number := fun data => do
  let position ← get
  match data[position]? with
  | none => throw .truncated
  | some tag =>
    if tag = 0xca then readF32 data
    else if tag = 0xcb then do return .float (← readF64 library data)
    else do return .int (← readInt library data)

/-- The value that is skipped. -/
def raw : Reader Bytes := fun data => do
  let start ← get
  skip library.fromU8 data
  let position ← get
  return (data.drop start).take (position - start)

def kindOf : Marker → Kind
  | .null => .nil
  | .false => .false
  | .true => .true
  | .fixArray _ | .array16 | .array32 => .array
  | .f32 | .f64 => .float
  | .fixMap _ | .map16 | .map32 => .map
  | .fixStr _ | .str8 | .str16 | .str32 => .str
  | _ => .other

/-- The kind of the next value, which stays where it is. -/
def peekKind : Reader Kind := fun data => do
  let position ← get
  match data[position]? with
  | none => throw .truncated
  | some tag => return kindOf (library.fromU8 tag)

def peekNil : Reader Bool := fun data => do
  let kind ← peekKind library data
  return decide (kind = .nil)

def readNil : Reader Unit := fun data => do
  let tag ← takeByte data
  if tag = 0xc0 then return () else throw .type

end Helpers

/-! ### What the library documents -/

def Inverts {E V : Type} (write : V → Bytes) (read : Bytes → Except E (V × Nat)) (value : V) : Prop :=
  ∀ rest, read (write value ++ rest) = .ok (value, (write value).length)

namespace Rmp

/-- The byte string is read back: it stands behind a header with its length. -/
def InvertsBin (library : Rmp) (bytes : Bytes) : Prop :=
  ∃ (header : Bytes) (n : UInt32), library.writeBin bytes = header ++ bytes ∧ n.toNat = bytes.length ∧
    ∀ rest, library.readBinLen (header ++ rest) = .ok (n, header.length)

/-- Headers, integers and floats of any value are read back, and values stand behind the tags of the format. -/
structure Documented (library : Rmp) : Prop where
  markers : ∀ byte, library.fromU8 byte = Marker.documented byte
  arrays : ∀ n, Inverts library.writeArrayLen library.readArrayLen n
  maps : ∀ n, Inverts library.writeMapLen library.readMapLen n
  floats : ∀ bits, Inverts library.writeF64 library.readF64 bits
  floatTag : ∀ bits, ∃ rest, library.writeF64 bits = 0xcb :: rest
  positive : ∀ value : Int64, 0 ≤ value → ∀ rest,
    library.readInt (library.writeUint value.toUInt64 ++ rest) =
      .ok (value, (library.writeUint value.toUInt64).length)
  negative : ∀ value : Int64, value < 0 → Inverts library.writeSint library.readInt value
  binTag : ∀ bytes, ∃ tag rest, library.writeBin bytes = tag :: rest ∧ (tag = 0xc4 ∨ tag = 0xc5 ∨ tag = 0xc6)

/-- Counts, lengths and unsigned numbers are written in the shortest form there is for them, and no form of a
byte string has more than five bytes before it. -/
structure Compact (library : Rmp) : Prop where
  arrays : ∀ n, library.writeArrayLen n = Core.header 0x90 0xdc 0xdd n.toNat
  bins : ∀ bytes, bytes.length < 2 ^ 32 → library.writeBin bytes = Core.binHeader bytes.length ++ bytes
  longest : ∀ bytes, ∃ before, library.writeBin bytes = before ++ bytes ∧ before.length ≤ 5
  uints : ∀ value, library.writeUint value = Core.uintBytes value.toNat
  floats : ∀ bits, library.writeF64 bits = [0xcb] ++ Bytes.be 8 bits.toNat
  bools : ∀ value, library.writeBool value = [if value then 0xc3 else 0xc2]

end Rmp

theorem parses_reading {E V : Type} {onError : E → Error} {read : Bytes → Except E (V × Nat)} {bytes : Bytes} {value : V}
    (back : ∀ rest, read (bytes ++ rest) = .ok (value, bytes.length)) : Parses (reading onError read) bytes value := by
  intro data pos rest inside here
  unfold reading
  rw [Fallible.exec_get_bind, if_neg (Nat.not_lt.mpr inside), here, back rest]
  rfl

section Laws

variable {library : Rmp} (documented : library.Documented)

include documented

theorem parses_arrayLen {n : Nat} (small : n < 2 ^ 32) : Parses (arrayLen library) (array library n) n := by
  have read : Parses (reading mapValueError library.readArrayLen) (array library n) (UInt32.ofNat n) :=
    parses_reading (documented.arrays _)
  have parses := read.map UInt32.toNat
  rwa [UInt32.toNat_ofNat_of_lt' small] at parses

theorem parses_mapLen (n : Nat) : Parses (mapLen library) (map library n) (n % 2 ^ 32) := by
  have read : Parses (reading mapValueError library.readMapLen) (map library n) (UInt32.ofNat n) :=
    parses_reading (documented.maps _)
  exact read.map UInt32.toNat

omit documented in
theorem parses_readBin {bytes : Bytes} (back : library.InvertsBin bytes) :
    Parses (readBin library) (bin library bytes) bytes := by
  obtain ⟨header, n, written, same, back⟩ := back
  have length : Parses (reading mapValueError library.readBinLen) header n := parses_reading back
  have payload : Parses (take n.toNat) bytes bytes := by
    rw [same]
    exact (Parsing.reads_take _ _).parses bytes bytes ⟨rfl, rfl⟩
  rw [bin, written]
  exact length.andThen payload

theorem parses_readInt (value : Int64) : Parses (readInt library) (int library value) value := by
  unfold int
  split
  next positive => exact parses_reading (documented.positive value positive)
  next negative => exact parses_reading (documented.negative value (Int64.not_le.mp negative))

theorem parses_readNumber (bits : UInt64) : Parses (readNumber library) (f64 library bits) (.float bits) := by
  have parses : Parses (readF64 library) (f64 library bits) bits := parses_reading (documented.floats bits)
  obtain ⟨more, tagged⟩ := documented.floatTag bits
  intro data pos rest inside here
  have tag : data[pos]? = some 0xcb := by
    have first : (data.drop pos)[0]? = some 0xcb := by
      rw [here, f64, tagged]
      rfl
    rwa [List.getElem?_drop, Nat.add_zero] at first
  unfold readNumber
  rw [Fallible.exec_get_bind, tag]
  exact (parses.map Number.float) data pos rest inside here

theorem parses_raw {value : Bytes} (formed : WellFormed 64 value) : Parses (raw library) value value := by
  intro data pos rest inside here
  have skips := (reads_skip documented.markers).parses value () formed data pos rest inside here
  unfold raw
  rw [Fallible.exec_get_bind, Fallible.exec_bind_ok skips, Fallible.exec_get_bind, Nat.add_sub_cancel_left, here,
    List.take_left]
  rfl

theorem exec_peekNil_bin (bytes : Bytes) {data rest : Bytes} {pos : Nat} (here : data.drop pos = bin library bytes ++ rest) :
    exec (peekNil library data) pos = (.ok false, pos) := by
  obtain ⟨tag, more, written, among⟩ := documented.binTag bytes
  have shown : data[pos]? = some tag := by
    have first : (data.drop pos)[0]? = some tag := by
      rw [here, bin, written]
      rfl
    rwa [List.getElem?_drop, Nat.add_zero] at first
  have kind : exec (peekKind library data) pos = (.ok .other, pos) := by
    unfold peekKind
    rw [Fallible.exec_get_bind, shown]
    dsimp only
    rw [documented.markers]
    rcases among with rfl | rfl | rfl <;> rfl
  unfold peekNil
  rw [Fallible.exec_bind_ok kind]
  rfl

end Laws

end Leviculum.Msgpack.Lxmf
