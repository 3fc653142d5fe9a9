import Mathlib.Algebra.GroupWithZero.Nat
import Mathlib.Data.List.Basic

/-! Byte strings and the fixed-width integer encodings used on the wire. -/

namespace Leviculum

abbrev Bytes := List UInt8

theorem forall_byte {p : UInt8 → Prop} (all : ∀ n : Fin 256, p (UInt8.ofNat n.val)) (byte : UInt8) : p byte := by
  have at_ := all ⟨byte.toNat, byte.toNat_lt⟩
  rwa [UInt8.ofNat_toNat] at at_

/-- `[u8; n]`. -/
abbrev FixedBytes (n : Nat) := { bytes : Bytes // bytes.length = n }

/-- `[byte; n]`. -/
def FixedBytes.replicate (n : Nat) (byte : UInt8) : FixedBytes n := ⟨List.replicate n byte, List.length_replicate⟩

def FixedBytes.of (bytes : Bytes) : FixedBytes bytes.length := ⟨bytes, rfl⟩

theorem length_take_append_replicate (n : Nat) (bytes : Bytes) : ((bytes ++ List.replicate n 0).take n).length = n := by
  rw [List.length_take, List.length_append, List.length_replicate]
  omega

/-- Cut or filled up with zeros to `n` bytes. -/
def FixedBytes.pad (n : Nat) (bytes : Bytes) : FixedBytes n :=
  ⟨(bytes ++ List.replicate n 0).take n, length_take_append_replicate n bytes⟩

/-- The first `n` bytes, when there are that many. -/
def FixedBytes.take? (n : Nat) (bytes : Bytes) : Option (FixedBytes n) :=
  if long : n ≤ bytes.length then some ⟨bytes.take n, by rw [List.length_take]; omega⟩ else none

theorem FixedBytes.take?_eq_some {n : Nat} {bytes : Bytes} {start : FixedBytes n}
    (taken : take? n bytes = some start) : start.val ++ bytes.drop n = bytes := by
  unfold take? at taken
  split at taken
  · obtain rfl := Option.some.inj taken
    exact List.take_append_drop n bytes
  · cases taken

namespace Bytes

/-- A byte string read as one big-endian number. -/
def ofBe (bytes : Bytes) : Nat := bytes.foldl (fun value byte => 256 * value + byte.toNat) 0

theorem ofBe_lt (bytes : Bytes) : ofBe bytes < 256 ^ bytes.length := by
  have loop : ∀ (bytes : Bytes) (value : Nat),
      bytes.foldl (fun value byte => 256 * value + byte.toNat) value <
        (value + 1) * 256 ^ bytes.length := by
    intro bytes
    induction bytes with
    | nil => intro value; simp
    | cons byte rest ih =>
      intro value
      have small := byte.toNat_lt
      calc (byte :: rest).foldl (fun value byte => 256 * value + byte.toNat) value
          < (256 * value + byte.toNat + 1) * 256 ^ rest.length := ih _
        _ ≤ ((value + 1) * 256) * 256 ^ rest.length := Nat.mul_le_mul_right _ (by omega)
        _ = (value + 1) * 256 ^ (byte :: rest).length := by
          rw [List.length_cons, Nat.pow_succ, Nat.mul_comm (256 ^ rest.length), Nat.mul_assoc]
  simpa [ofBe] using loop bytes 0

/-- `u16::to_be_bytes`. -/
def be16 (value : UInt16) : Bytes :=
  [UInt8.ofNat (value.toNat / 256), UInt8.ofNat (value.toNat % 256)]

/-- `u16::from_be_bytes`. -/
def ofBe16 (high low : UInt8) : UInt16 :=
  UInt16.ofNat (256 * high.toNat + low.toNat)

theorem ofBe16_be16 (value : UInt16) :
    ofBe16 (UInt8.ofNat (value.toNat / 256)) (UInt8.ofNat (value.toNat % 256)) = value := by
  apply UInt16.toNat_inj.mp
  have bound := value.toNat_lt
  simp only [ofBe16, UInt16.toNat_ofNat', UInt8.toNat_ofNat']
  omega

/-- The low `width` bytes of a value, the lowest first. -/
def le : Nat → Nat → Bytes
  | 0, _ => []
  | width + 1, value => UInt8.ofNat (value % 256) :: le width (value / 256)

theorem length_le (width value : Nat) : (le width value).length = width := by
  induction width generalizing value with
  | zero => rfl
  | succ width ih => rw [le, List.length_cons, ih]

/-- The low `width` bytes of a value, the highest first. -/
def be (width value : Nat) : Bytes := (le width value).reverse

theorem length_be (width value : Nat) : (be width value).length = width := by
  rw [be, List.length_reverse, length_le]

theorem ofBe_concat (bytes : Bytes) (byte : UInt8) : ofBe (bytes ++ [byte]) = 256 * ofBe bytes + byte.toNat := by
  rw [ofBe, List.foldl_append]
  rfl

theorem ofBe_be (width value : Nat) : ofBe (be width value) = value % 256 ^ width := by
  induction width generalizing value with
  | zero =>
    rw [Nat.pow_zero, Nat.mod_one]
    rfl
  | succ width ih =>
    have low : (UInt8.ofNat (value % 256)).toNat = value % 256 := by
      rw [UInt8.toNat_ofNat']
      exact Nat.mod_mod _ _
    calc ofBe (be (width + 1) value)
        = 256 * ofBe (be width (value / 256)) + value % 256 := by
          rw [be, le, List.reverse_cons, ofBe_concat, low]
          rfl
      _ = value % 256 + 256 * (value / 256 % 256 ^ width) := by rw [ih, Nat.add_comm]
      _ = value % 256 ^ (width + 1) := by rw [Nat.pow_succ', Nat.mod_mul]

end Bytes

end Leviculum
