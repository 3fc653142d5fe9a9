import Leviculum.Msgpack.Lxmf

/-! A library that writes the shortest form of every value, and reads every form. -/

namespace Leviculum.Msgpack.Lxmf

open Fallible (exec)
open Parsing (Parses)
open Leviculum.Msgpack.Core (readByte readBe uintValue uintBytes binLength header header_form)

/-- A reader over a position, started at the first byte; its failures are not told apart. -/
def fromStart {E V : Type} (error : E) (reader : Core.Reader V) (bytes : Bytes) : Except E (V × Nat) :=
  match exec (reader bytes) 0 with
  | (.ok value, position) => .ok (value, position)
  | (.error _, _) => .error error

theorem fromStart_append {E V : Type} {error : E} {reader : Core.Reader V} {bytes : Bytes} {value : V}
    (parses : Parses reader bytes value) (rest : Bytes) :
    fromStart error reader (bytes ++ rest) = .ok (value, bytes.length) := by
  unfold fromStart
  rw [parses (bytes ++ rest) 0 rest (Nat.zero_le _) rfl, Nat.zero_add]

/-! ### Integers -/

/-- A number in two's complement. -/
def readSigned (width : Nat) : Core.Reader Int := fun data => do
  let value ← readBe width data
  return if value < 2 ^ (8 * width - 1) then (value : Int) else value - 2 ^ (8 * width)

def intValue (tag : UInt8) : Core.Reader Int := fun data =>
  if 0xe0 ≤ tag then pure ((tag.toNat : Int) - 256)
  else if tag = 0xd0 then readSigned 1 data
  else if tag = 0xd1 then readSigned 2 data
  else if tag = 0xd2 then readSigned 4 data
  else if tag = 0xd3 then readSigned 8 data
  else do
    let value ← uintValue tag data
    return (value : Int)

def readAnyInt : Core.Reader Int := fun data => do
  let tag ← readByte data
  intValue tag data

/-- Only what fits `u64` is read. -/
def readU64 (bytes : Bytes) : Except NumValueReadError (UInt64 × Nat) :=
  match fromStart .invalidRead readAnyInt bytes with
  | .ok (value, taken) => if 0 ≤ value then .ok (UInt64.ofNat value.toNat, taken) else .error .outOfRange
  | .error error => .error error

/-- Only what fits `i64` is read. -/
def readI64 (bytes : Bytes) : Except NumValueReadError (Int64 × Nat) :=
  match fromStart .invalidRead readAnyInt bytes with
  | .ok (value, taken) => if value < 2 ^ 63 then .ok (Int64.ofInt value, taken) else .error .outOfRange
  | .error error => .error error

theorem parses_readSigned {width : Nat} {value : Int} (negative : value < 0) (fits : -2 ^ (8 * width - 1) ≤ value)
    (wide : 0 < width) : Parses (readSigned width) (Bytes.be width (2 ^ (8 * width) + value).toNat) value := by
  have double : (2 : Int) ^ (8 * width) = 2 * 2 ^ (8 * width - 1) := by
    obtain ⟨bits, same⟩ : ∃ bits, 8 * width = bits + 1 := ⟨8 * width - 1, by omega⟩
    rw [same, Nat.add_sub_cancel, Int.pow_succ, Int.mul_comm]
  have same : (2 : Nat) ^ (8 * width) = 256 ^ width := by rw [Nat.pow_mul]
  have small : (2 ^ (8 * width) + value).toNat < 256 ^ width := by
    rw [← same]
    have cast : ((2 ^ (8 * width) : Nat) : Int) = 2 ^ (8 * width) := by push_cast; rfl
    omega
  have high : ¬ (2 ^ (8 * width) + value).toNat < 2 ^ (8 * width - 1) := by
    have cast : ((2 ^ (8 * width - 1) : Nat) : Int) = 2 ^ (8 * width - 1) := by push_cast; rfl
    omega
  have read := (Core.parses_readBe small).map
    (fun n : Nat => if n < 2 ^ (8 * width - 1) then (n : Int) else n - 2 ^ (8 * width))
  have back : (2 : Int) ^ (8 * width) + value - 2 ^ (8 * width) = value := by omega
  rw [if_neg high, Int.toNat_of_nonneg (by omega), back] at read
  exact read

theorem fixneg_tag (n : Fin 32) :
    (0xe0 : UInt8) ≤ UInt8.ofNat (224 + n.val) ∧ ((UInt8.ofNat (224 + n.val)).toNat : Int) - 256 = (n.val : Int) - 32 := by
  revert n
  decide

/-- The shortest form of a negative number. -/
def sintBytes (value : Int) : Bytes :=
  if -32 ≤ value then [UInt8.ofNat (256 + value).toNat]
  else if -128 ≤ value then 0xd0 :: Bytes.be 1 (2 ^ 8 + value).toNat
  else if -32768 ≤ value then 0xd1 :: Bytes.be 2 (2 ^ 16 + value).toNat
  else if -2147483648 ≤ value then 0xd2 :: Bytes.be 4 (2 ^ 32 + value).toNat
  else 0xd3 :: Bytes.be 8 (2 ^ 64 + value).toNat

theorem parses_negative {value : Int} (negative : value < 0) (fits : -2 ^ 63 ≤ value) :
    Parses readAnyInt (sintBytes value) value := by
  unfold sintBytes
  split_ifs with fix byte short long
  · obtain ⟨n, rfl⟩ : ∃ n : Fin 32, value = (n.val : Int) - 32 := ⟨⟨(value + 32).toNat, by omega⟩, by simp; omega⟩
    obtain ⟨high, low⟩ := fixneg_tag n
    have tag : (256 + ((n.val : Int) - 32)).toNat = 224 + n.val := by omega
    rw [tag]
    have done : Parses (intValue (UInt8.ofNat (224 + n.val))) [] ((n.val : Int) - 32) := by
      intro data pos rest _ _
      unfold intValue
      rw [if_pos high, low]
      rfl
    exact (Core.parses_readByte _).andThen done
  · exact (Core.parses_readByte 0xd0).andThen (@parses_readSigned 1 value negative byte (by decide))
  · exact (Core.parses_readByte 0xd1).andThen (@parses_readSigned 2 value negative short (by decide))
  · exact (Core.parses_readByte 0xd2).andThen (@parses_readSigned 4 value negative long (by decide))
  · exact (Core.parses_readByte 0xd3).andThen (@parses_readSigned 8 value negative fits (by decide))

theorem parses_positive {tag : UInt8} {size : Bytes} {value : Nat} (parses : Parses (uintValue tag) size value)
    (low : tag < 0xd0) : Parses readAnyInt ([tag] ++ size) value := by
  have unsigned : intValue tag = fun data => uintValue tag data >>= fun value => pure (value : Int) := by
    have below : tag.toNat < 0xd0 := low
    have apart : ¬ 0xe0 ≤ tag ∧ tag ≠ 0xd0 ∧ tag ≠ 0xd1 ∧ tag ≠ 0xd2 ∧ tag ≠ 0xd3 := by
      refine ⟨fun high => ?_, ?_, ?_, ?_, ?_⟩
      · have above : 0xe0 ≤ tag.toNat := high
        omega
      all_goals
        rintro rfl
        exact absurd below (by decide)
    funext data
    unfold intValue
    rw [if_neg apart.1, if_neg apart.2.1, if_neg apart.2.2.1, if_neg apart.2.2.2.1, if_neg apart.2.2.2.2]
  have later : Parses (intValue tag) size (value : Int) := by
    rw [unsigned]
    exact parses.map (fun value : Nat => (value : Int))
  exact (Core.parses_readByte tag).andThen later

theorem parses_uintBytes {value : Nat} (fits : value < 2 ^ 64) : Parses readAnyInt (uintBytes value) value := by
  unfold uintBytes
  split_ifs with fix byte short long
  · have low := (Core.fixint_tag ⟨value, Nat.lt_succ_of_le fix⟩).1
    have same : (UInt8.ofNat value).toNat = value := Core.toNat_ofNat_of_lt (by omega)
    have below : UInt8.ofNat value < 0xd0 := by
      rw [UInt8.lt_iff_toNat_lt, same]
      exact Nat.lt_of_le_of_lt fix (by decide)
    refine @parses_positive _ [] value ?_ below
    unfold uintValue
    simp only [if_pos low, same]
    exact (Parsing.Reads.ofPure value).parses [] _ ⟨rfl, rfl⟩
  · exact @parses_positive 0xcc _ value (Core.parses_readByteLength (Nat.lt_succ_of_le byte)) (by decide)
  · exact @parses_positive 0xcd _ value (Core.parses_readBe (Nat.lt_succ_of_le short)) (by decide)
  · exact @parses_positive 0xce _ value (Core.parses_readBe (Nat.lt_succ_of_le long)) (by decide)
  · exact @parses_positive 0xcf _ value (Core.parses_readBe fits) (by decide)

theorem readI64_append {bytes : Bytes} {value : Int} (parses : Parses readAnyInt bytes value) (fits : value < 2 ^ 63)
    (rest : Bytes) : readI64 (bytes ++ rest) = .ok (Int64.ofInt value, bytes.length) := by
  unfold readI64
  rw [fromStart_append parses]
  exact if_pos fits

/-! ### Headers and floats -/

def readF64Bits : Core.Reader UInt64 := fun data => do
  let tag ← readByte data
  if tag = 0xcb then
    let bits ← readBe 8 data
    return UInt64.ofNat bits
  else throw ()

def readBinHeader : Core.Reader Nat := fun data => do
  let tag ← readByte data
  binLength tag data

def asU32 (reader : Core.Reader Nat) : Core.Reader UInt32 := fun data => do
  let n ← reader data
  return UInt32.ofNat n

theorem parses_asU32 {reader : Core.Reader Nat} {bytes : Bytes} {n : UInt32} (parses : Parses reader bytes n.toNat) :
    Parses (asU32 reader) bytes n := by
  have read := parses.map UInt32.ofNat
  rwa [UInt32.ofNat_toNat] at read

theorem parses_readF64Bits (bits : UInt64) : Parses readF64Bits ([0xcb] ++ Bytes.be 8 bits.toNat) bits := by
  let finish (tag : UInt8) : Core.Reader UInt64 := fun data =>
    if tag = 0xcb then readBe 8 data >>= fun bits => pure (UInt64.ofNat bits) else throw ()
  have later : Parses (finish 0xcb) (Bytes.be 8 bits.toNat) bits := by
    have fits : bits.toNat < 256 ^ 8 := bits.toNat_lt
    have read := (Core.parses_readBe fits).map UInt64.ofNat
    rwa [UInt64.ofNat_toNat] at read
  exact (Core.parses_readByte 0xcb).andThen later

theorem parses_readBinHeader {n : Nat} (fits : n < 2 ^ 32) : Parses readBinHeader (Core.binHeader n) n := by
  unfold Core.binHeader
  split_ifs with byte short
  · exact (Core.parses_readByte 0xc4).andThen (Core.parses_readByteLength (Nat.lt_succ_of_le byte))
  · exact (Core.parses_readByte 0xc5).andThen (Core.parses_readBe (Nat.lt_succ_of_le short))
  · exact (Core.parses_readByte 0xc6).andThen (Core.parses_readBe fits)

/-- The library. -/
def shortest : Rmp where
  fromU8 := Marker.documented
  writeArrayLen := fun n => header 0x90 0xdc 0xdd n.toNat
  writeMapLen := fun n => header 0x80 0xde 0xdf n.toNat
  writeBin := fun bytes => Core.binHeader (bytes.length % 2 ^ 32) ++ bytes
  writeUint := fun value => uintBytes value.toNat
  writeSint := fun value => sintBytes value.toInt
  writeF64 := fun bits => [0xcb] ++ Bytes.be 8 bits.toNat
  writeBool := fun value => [if value then 0xc3 else 0xc2]
  writeNil := [0xc0]
  readArrayLen := fromStart .invalidRead (asU32 Core.readArrayLen)
  readMapLen := fromStart .invalidRead (asU32 Core.readMapLen)
  readBinLen := fromStart .invalidRead (asU32 readBinHeader)
  readF64 := fromStart .invalidRead readF64Bits
  readUint := readU64
  readInt := readI64

theorem shortest_documented : shortest.Documented where
  markers _ := rfl
  arrays n := fromStart_append (parses_asU32 (Core.parses_readArrayLen (header_form n.toNat_lt)))
  maps n := fromStart_append (parses_asU32 (Core.parses_readMapLen (header_form n.toNat_lt)))
  floats bits := @fromStart_append _ _ ValueReadError.invalidRead _ _ _ (parses_readF64Bits bits)
  floatTag bits := ⟨Bytes.be 8 bits.toNat, rfl⟩
  positive := by
    intro value positive rest
    have range := value.toInt_lt
    have signed : 0 ≤ value.toInt := Int64.le_iff_toInt_le.mp positive
    have same : (value.toUInt64.toNat : Int) = value.toInt := by
      have cases := BitVec.toInt_eq_toNat_cond value.toBitVec
      have whole : value.toUInt64.toNat = value.toBitVec.toNat := rfl
      have shown : value.toInt = value.toBitVec.toInt := rfl
      split at cases <;> omega
    have parses := parses_uintBytes value.toUInt64.toNat_lt
    have read := readI64_append parses (by omega) rest
    rw [same, Int64.ofInt_toInt] at read
    exact read
  negative := by
    intro value negative rest
    have signed : value.toInt < 0 := Int64.lt_iff_toInt_lt.mp negative
    have read := readI64_append (parses_negative signed value.le_toInt) (by omega) rest
    rw [Int64.ofInt_toInt] at read
    exact read
  binTag := by
    intro bytes
    unfold shortest Core.binHeader
    dsimp only
    split_ifs
    · exact ⟨0xc4, _, rfl, .inl rfl⟩
    · exact ⟨0xc5, _, rfl, .inr (.inl rfl)⟩
    · exact ⟨0xc6, _, rfl, .inr (.inr rfl)⟩

theorem shortest_compact : shortest.Compact where
  arrays _ := rfl
  bins bytes short := by
    change Core.binHeader (bytes.length % 2 ^ 32) ++ bytes = _
    rw [Nat.mod_eq_of_lt short]
  longest bytes := ⟨Core.binHeader (bytes.length % 2 ^ 32), rfl, Core.length_binHeader_le _⟩
  uints _ := rfl
  floats _ := rfl
  bools _ := rfl

theorem shortest_invertsBin {bytes : Bytes} (short : bytes.length < 2 ^ 32) : shortest.InvertsBin bytes := by
  have whole : bytes.length % 2 ^ 32 = bytes.length := Nat.mod_eq_of_lt short
  have same : (UInt32.ofNat bytes.length).toNat = bytes.length := UInt32.toNat_ofNat_of_lt' short
  refine ⟨Core.binHeader bytes.length, UInt32.ofNat bytes.length, ?_, same, ?_⟩
  · show Core.binHeader (bytes.length % 2 ^ 32) ++ bytes = _
    rw [whole]
  · refine fromStart_append (parses_asU32 ?_)
    rw [same]
    exact parses_readBinHeader short

end Leviculum.Msgpack.Lxmf
