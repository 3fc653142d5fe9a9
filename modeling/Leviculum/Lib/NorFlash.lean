import Leviculum.Lib.Bytes

/-! NOR flash as bytes: ranges that are read and written, slots of one size in a row, and what a
write leaves behind when the power is cut. -/

namespace Leviculum.NorFlash

def erased : UInt8 := 0xFF

def isErased (bytes : Bytes) : Bool := bytes.all (· == erased)

theorem isErased_iff {bytes : Bytes} : isErased bytes = true ↔ bytes = List.replicate bytes.length erased := by
  rw [isErased, List.all_eq_true, List.eq_replicate_iff]
  simp only [beq_iff_eq, true_and]

theorem isErased_replicate (n : Nat) : isErased (List.replicate n erased) = true := by
  rw [isErased_iff, List.length_replicate]

/-- `bytes[start..start + len]`. -/
def slice (bytes : Bytes) (start len : Nat) : Bytes := (bytes.drop start).take len

/-- The bytes with `content` programmed from `start` on. -/
def splice (bytes : Bytes) (start : Nat) (content : Bytes) : Bytes :=
  bytes.take start ++ content ++ bytes.drop (start + content.length)

theorem getElem?_slice (bytes : Bytes) (start len k : Nat) :
    (slice bytes start len)[k]? = if k < len then bytes[start + k]? else none := by
  rw [slice, List.getElem?_take]
  split
  · rw [List.getElem?_drop]
  · rfl

theorem length_splice {bytes content : Bytes} {start : Nat} (inside : start + content.length ≤ bytes.length) :
    (splice bytes start content).length = bytes.length := by
  rw [splice, List.length_append, List.length_append, List.length_take, List.length_drop]
  omega

theorem getElem?_splice {bytes content : Bytes} {start : Nat} (inside : start + content.length ≤ bytes.length)
    (k : Nat) : (splice bytes start content)[k]? =
      if k < start then bytes[k]? else if k < start + content.length then content[k - start]? else bytes[k]? := by
  have front : (bytes.take start).length = start := by
    rw [List.length_take]
    omega
  rw [splice, List.append_assoc]
  by_cases before : k < start
  · rw [if_pos before, List.getElem?_append_left (by omega), List.getElem?_take_of_lt before]
  · rw [if_neg before, List.getElem?_append_right (by omega), front]
    by_cases within : k < start + content.length
    · rw [if_pos within, List.getElem?_append_left (by omega)]
    · rw [if_neg within, List.getElem?_append_right (by omega), List.getElem?_drop]
      congr 1
      omega

theorem slice_splice_self {bytes content : Bytes} {start : Nat}
    (inside : start + content.length ≤ bytes.length) :
    slice (splice bytes start content) start content.length = content := by
  apply List.ext_getElem?
  intro k
  rw [getElem?_slice, getElem?_splice inside]
  split
  · rw [if_neg (by omega), if_pos (by omega)]
    congr 1
    omega
  · rw [List.getElem?_eq_none (by omega)]

theorem slice_splice_apart {bytes content : Bytes} {start other len : Nat}
    (inside : start + content.length ≤ bytes.length)
    (apart : other + len ≤ start ∨ start + content.length ≤ other) :
    slice (splice bytes start content) other len = slice bytes other len := by
  apply List.ext_getElem?
  intro k
  rw [getElem?_slice, getElem?_slice, getElem?_splice inside]
  split
  · by_cases before : other + k < start
    · rw [if_pos before]
    · rw [if_neg before, if_neg (by omega)]
  · rfl

theorem slice_slice {bytes : Bytes} {start len inner innerLen : Nat} (inside : inner + innerLen ≤ len) :
    slice (slice bytes start len) inner innerLen = slice bytes (start + inner) innerLen := by
  apply List.ext_getElem?
  intro k
  rw [getElem?_slice, getElem?_slice, getElem?_slice]
  split
  · rw [if_pos (by omega)]
    congr 1
    omega
  · rfl

/-- The first `n` slots of `size` bytes. -/
def slots (size n : Nat) (bytes : Bytes) : List Bytes :=
  (List.range n).map (fun i => slice bytes (i * size) size)

theorem length_slots (size n : Nat) (bytes : Bytes) : (slots size n bytes).length = n := by
  rw [slots, List.length_map, List.length_range]

theorem slots_apart {size i j : Nat} (other : i ≠ j) : j * size + size ≤ i * size ∨ i * size + size ≤ j * size := by
  rcases Nat.lt_or_gt_of_ne other with below | above
  · refine .inr ?_
    calc i * size + size = (i + 1) * size := (Nat.succ_mul i size).symm
      _ ≤ j * size := Nat.mul_le_mul_right _ below
  · refine .inl ?_
    calc j * size + size = (j + 1) * size := (Nat.succ_mul j size).symm
      _ ≤ i * size := Nat.mul_le_mul_right _ above

theorem slot_end_le {size n i : Nat} (below : i < n) : i * size + size ≤ n * size := by
  calc i * size + size = (i + 1) * size := (Nat.succ_mul i size).symm
    _ ≤ n * size := Nat.mul_le_mul_right _ below

theorem slots_splice {size n i : Nat} {bytes content : Bytes} (whole : content.length = size)
    (below : i < n) (room : n * size ≤ bytes.length) :
    slots size n (splice bytes (i * size) content) = (slots size n bytes).set i content := by
  have inside : i * size + content.length ≤ bytes.length := by
    have := @slot_end_le size n i below
    omega
  apply List.ext_getElem?
  intro j
  rw [List.getElem?_set, length_slots]
  by_cases same : i = j
  · subst same
    rw [if_pos rfl, if_pos below, slots, List.getElem?_map, List.getElem?_range below]
    have self := slice_splice_self inside
    rw [whole] at self
    exact congrArg some self
  · rw [if_neg same]
    unfold slots
    rw [List.getElem?_map, List.getElem?_map]
    by_cases inRange : j < n
    · rw [List.getElem?_range inRange]
      exact congrArg some (slice_splice_apart inside (by rw [whole]; exact slots_apart same))
    · rw [List.getElem?_eq_none (by rw [List.length_range]; omega)]
      rfl

theorem slice_replicate {len start size : Nat} (inside : start + size ≤ len) (byte : UInt8) :
    slice (List.replicate len byte) start size = List.replicate size byte := by
  rw [slice, List.drop_replicate, List.take_replicate]
  congr 1
  omega

theorem slots_replicate {size n len : Nat} (room : n * size ≤ len) (byte : UInt8) :
    slots size n (List.replicate len byte) = List.replicate n (List.replicate size byte) := by
  rw [List.eq_replicate_iff]
  refine ⟨length_slots .., ?_⟩
  intro slot member
  obtain ⟨i, below, rfl⟩ := List.mem_map.mp member
  have fits := @slot_end_le size n i (List.mem_range.mp below)
  exact slice_replicate (by omega) byte

/-- What a power cut leaves of a write: the words before it, one word half programmed, the rest as
it was. -/
def torn (content : Bytes) (words : Nat) (half : FixedBytes 4) : Bytes :=
  content.take (4 * words) ++ half.val ++ List.replicate (content.length - (4 * words + 4)) erased

theorem length_torn {content : Bytes} {words : Nat} {half : FixedBytes 4}
    (inside : 4 * words + 4 ≤ content.length) : (torn content words half).length = content.length := by
  have four := half.property
  rw [torn, List.length_append, List.length_append, List.length_take, List.length_replicate]
  omega

def crcBit (crc : UInt16) : UInt16 :=
  if crc &&& 0x8000 ≠ 0 then (crc <<< 1) ^^^ 0x1021 else crc <<< 1

def crc16 (data : Bytes) : UInt16 :=
  data.foldl (fun crc byte => Nat.repeat crcBit 8 (crc ^^^ (byte.toUInt16 <<< (8 : UInt16)))) 0xFFFF

set_option maxRecDepth 8192 in
example : crc16 [0x31, 0x32, 0x33, 0x34, 0x35, 0x36, 0x37, 0x38, 0x39] = 0x29B1 := by decide

/-- A byte string read as one little-endian number. -/
def ofLe (bytes : Bytes) : Nat := Bytes.ofBe bytes.reverse

theorem ofLe_le (width value : Nat) : ofLe (Bytes.le width value) = value % 256 ^ width :=
  Bytes.ofBe_be width value

end Leviculum.NorFlash
