import Leviculum.Lib.OrdMap
import Mathlib.Data.Nat.Size

/-! The leading zero bits of a byte string and the number it spells. -/

namespace Leviculum

/-- `u8::leading_zeros`. -/
def leadingZeros (byte : UInt8) : Nat := 8 - byte.toNat.size

theorem size_byte_le (byte : UInt8) : byte.toNat.size ≤ 8 := Nat.size_le.mpr byte.toNat_lt

theorem le_leadingZeros_iff {byte : UInt8} {zeros : Nat} (within : zeros ≤ 8) :
    zeros ≤ leadingZeros byte ↔ byte.toNat < 2 ^ (8 - zeros) := by
  have small := size_byte_le byte
  rw [← Nat.size_le, leadingZeros]
  omega

theorem leadingZeros_eq_eight {byte : UInt8} : leadingZeros byte = 8 ↔ byte.toNat = 0 := by
  have small := size_byte_le byte
  rw [← Nat.size_eq_zero, leadingZeros]
  omega

namespace Bytes

/-- The zero bits in front of the first one. -/
def zeros : Bytes → Nat
  | [] => 0
  | byte :: rest => if leadingZeros byte = 8 then 8 + zeros rest else leadingZeros byte

theorem pow_256 (n : Nat) : 256 ^ n = 2 ^ (8 * n) := by
  rw [Nat.pow_mul]

theorem le_zeros_iff (bytes : Bytes) {count : Nat} (within : count ≤ 8 * bytes.length) :
    count ≤ zeros bytes ↔ ofBe bytes < 2 ^ (8 * bytes.length - count) := by
  induction bytes generalizing count with
  | nil =>
    obtain rfl : count = 0 := by simpa using within
    simp [zeros, ofBe]
  | cons byte rest ih =>
    have below := ofBe_lt rest
    rw [pow_256] at below
    rw [List.length_cons] at within ⊢
    rw [ofBe_cons, zeros, pow_256]
    by_cases zero : byte.toNat = 0
    · rw [if_pos (leadingZeros_eq_eight.mpr zero), zero, Nat.zero_mul, Nat.zero_add]
      by_cases few : count ≤ 8
      · have larger : 2 ^ (8 * rest.length) ≤ 2 ^ (8 * (rest.length + 1) - count) :=
          Nat.pow_le_pow_right Nat.two_pos (by omega)
        exact iff_of_true (by omega) (below.trans_le larger)
      · have shift : 8 * (rest.length + 1) - count = 8 * rest.length - (count - 8) := by omega
        rw [shift, ← ih (by omega)]
        omega
    · have some_ : leadingZeros byte ≠ 8 := fun eight => zero (leadingZeros_eq_eight.mp eight)
      rw [if_neg some_]
      by_cases few : count ≤ 8
      · have split : 2 ^ (8 * (rest.length + 1) - count) = 2 ^ (8 - count) * 2 ^ (8 * rest.length) := by
          rw [← Nat.pow_add]
          congr 1
          omega
        rw [le_leadingZeros_iff few, split]
        constructor
        · intro less
          have step := Nat.mul_le_mul_right (2 ^ (8 * rest.length)) less
          rw [Nat.succ_mul] at step
          omega
        · intro less
          exact Nat.lt_of_mul_lt_mul_right (Nat.lt_of_le_of_lt (Nat.le_add_right _ _) less)
      · have atMost : leadingZeros byte ≤ 8 := Nat.sub_le _ _
        have smaller : 2 ^ (8 * (rest.length + 1) - count) ≤ 2 ^ (8 * rest.length) :=
          Nat.pow_le_pow_right Nat.two_pos (by omega)
        have once := Nat.le_mul_of_pos_left (2 ^ (8 * rest.length)) (Nat.pos_of_ne_zero zero)
        exact iff_of_false (by omega) (by omega)

/-- Arrays compare by the first byte that differs. -/
def atMost : Bytes → Bytes → Bool
  | [], _ => true
  | _ :: _, [] => false
  | byte :: rest, other :: others =>
    if byte < other then true else if byte = other then atMost rest others else false

theorem atMost_iff {left right : Bytes} (lengths : left.length = right.length) :
    atMost left right = true ↔ ofBe left ≤ ofBe right := by
  induction left generalizing right with
  | nil =>
    obtain rfl := List.length_eq_zero_iff.mp lengths.symm
    simp [atMost]
  | cons byte rest ih =>
    cases right with
    | nil => cases lengths
    | cons other others =>
      have tails : rest.length = others.length := Nat.succ.inj lengths
      have below := ofBe_lt rest
      have beside := ofBe_lt others
      rw [← tails] at beside
      rw [atMost, ofBe_cons, ofBe_cons, ← tails]
      by_cases less : byte < other
      · have step := Nat.mul_le_mul_right (256 ^ rest.length) (UInt8.lt_iff_toNat_lt.mp less)
        rw [Nat.succ_mul] at step
        rw [if_pos less]
        exact iff_of_true rfl (by omega)
      · rw [if_neg less]
        by_cases same : byte = other
        · rw [if_pos same, same, ih tails]
          omega
        · have more : other.toNat < byte.toNat := by
            rw [UInt8.lt_iff_toNat_lt] at less
            have apart : byte.toNat ≠ other.toNat := fun equal => same (UInt8.toNat_inj.mp equal)
            omega
          have step := Nat.mul_le_mul_right (256 ^ rest.length) more
          rw [Nat.succ_mul] at step
          rw [if_neg same]
          exact iff_of_false Bool.false_ne_true (by omega)

theorem ofBe_append (left right : Bytes) : ofBe (left ++ right) = ofBe left * 256 ^ right.length + ofBe right := by
  induction left with
  | nil => simp [ofBe]
  | cons byte rest ih =>
    rw [List.cons_append, ofBe_cons, ofBe_cons, ih, List.length_append, Nat.pow_add]
    ring

theorem ofBe_replicate_zero (n : Nat) : ofBe (List.replicate n 0) = 0 := by
  induction n with
  | zero => rfl
  | succ n ih => rw [List.replicate_succ, ofBe_cons, ih, UInt8.toNat_zero, Nat.zero_mul]

theorem ofBe_set_bit (length bit : Nat) (inside : bit < 8 * length) :
    ofBe ((List.replicate length 0).set (length - 1 - bit / 8) (1 <<< UInt8.ofNat (bit % 8))) = 2 ^ bit := by
  have shifted : ∀ n : Fin 8, ((1 : UInt8) <<< UInt8.ofNat n.val).toNat = 2 ^ n.val := by decide
  have split := Nat.div_add_mod bit 8
  have digit := shifted ⟨bit % 8, Nat.mod_lt _ (by decide)⟩
  dsimp only at digit
  rw [List.set_eq_take_append_cons_drop, if_pos (by rw [List.length_replicate]; omega), List.take_replicate,
    List.drop_replicate, ofBe_append, ofBe_replicate_zero, Nat.zero_mul, Nat.zero_add, ofBe_cons, ofBe_replicate_zero,
    Nat.add_zero, List.length_replicate, digit, pow_256, ← Nat.pow_add]
  congr 1
  omega

end Bytes

end Leviculum
