import Leviculum.Lib.Bytes

/-! Block chaining over byte strings: fixed blocks, their bytewise sum, and encryption of a list of blocks in
which every block is added to the one before. -/

namespace Leviculum

namespace FixedBytes

variable {n : Nat}

theorem pad_of_length {bytes : Bytes} (fits : bytes.length = n) : pad n bytes = ⟨bytes, fits⟩ := by
  apply Subtype.ext
  exact List.take_left' fits

theorem length_zipWith_xor (left right : FixedBytes n) : (List.zipWith (· ^^^ ·) left.val right.val).length = n := by
  rw [List.length_zipWith, left.property, right.property, Nat.min_self]

def xor (left right : FixedBytes n) : FixedBytes n :=
  ⟨List.zipWith (· ^^^ ·) left.val right.val, length_zipWith_xor left right⟩

theorem xor_xor (left right : FixedBytes n) : xor (xor left right) right = left := by
  have loop : ∀ left right : Bytes, left.length = right.length →
      List.zipWith (· ^^^ ·) (List.zipWith (· ^^^ ·) left right) right = left := by
    intro left
    induction left with
    | nil => intro right _; rfl
    | cons byte rest ih =>
      intro right same
      cases right with
      | nil => cases same
      | cons other others =>
        simp only [List.zipWith_cons_cons, UInt8.xor_assoc, UInt8.xor_self, UInt8.xor_zero]
        rw [ih others (Nat.succ.inj same)]
  apply Subtype.ext
  exact loop left.val right.val (left.property.trans right.property.symm)

end FixedBytes

namespace BlockChain

variable {size : Nat}

/-- The first `count` blocks of a byte string. -/
def blocks (size : Nat) : Nat → Bytes → List (FixedBytes size)
  | 0, _ => []
  | count + 1, bytes => FixedBytes.pad size (bytes.take size) :: blocks size count (bytes.drop size)

def joined (blocks : List (FixedBytes size)) : Bytes := (blocks.map Subtype.val).flatten

@[simp] theorem joined_nil : joined ([] : List (FixedBytes size)) = [] := rfl

@[simp] theorem joined_cons (block : FixedBytes size) (rest : List (FixedBytes size)) :
    joined (block :: rest) = block.val ++ joined rest := rfl

theorem length_joined (blocks : List (FixedBytes size)) : (joined blocks).length = size * blocks.length := by
  induction blocks with
  | nil => rfl
  | cons block rest ih =>
    rw [joined_cons, List.length_append, ih, block.property, List.length_cons, Nat.mul_succ, Nat.add_comm]

theorem length_blocks (count : Nat) (bytes : Bytes) : (blocks size count bytes).length = count := by
  induction count generalizing bytes with
  | zero => rfl
  | succ count ih => rw [blocks, List.length_cons, ih]

theorem blocks_append {front rest : Bytes} (count : Nat) (fits : front.length = size) :
    blocks size (count + 1) (front ++ rest) = ⟨front, fits⟩ :: blocks size count rest := by
  rw [blocks, List.take_left' fits, List.drop_left' fits, FixedBytes.pad_of_length fits]

theorem joined_blocks {count : Nat} {bytes : Bytes} (whole : bytes.length = size * count) :
    joined (blocks size count bytes) = bytes := by
  induction count generalizing bytes with
  | zero =>
    rw [Nat.mul_zero] at whole
    rw [List.length_eq_zero_iff.mp whole]
    rfl
  | succ count ih =>
    rw [Nat.mul_succ] at whole
    have front : (bytes.take size).length = size := by
      rw [List.length_take]
      omega
    have rest : (bytes.drop size).length = size * count := by
      rw [List.length_drop]
      omega
    rw [blocks, joined_cons, ih rest, FixedBytes.pad_of_length front]
    exact List.take_append_drop size bytes

theorem blocks_joined (list : List (FixedBytes size)) : blocks size list.length (joined list) = list := by
  induction list with
  | nil => rfl
  | cons block rest ih => rw [List.length_cons, joined_cons, blocks_append rest.length block.property, ih]

structure Cipher (Key : Type) (size : Nat) where
  encrypt : Key → FixedBytes size → FixedBytes size
  decrypt : Key → FixedBytes size → FixedBytes size
  inverse : ∀ key block, decrypt key (encrypt key block) = block

namespace Cipher

variable {Key : Type} (cipher : Cipher Key size) (key : Key)

def encryptBlock (last block : FixedBytes size) : FixedBytes size := cipher.encrypt key (block.xor last)

def encryptChain : FixedBytes size → List (FixedBytes size) → List (FixedBytes size)
  | _, [] => []
  | last, block :: rest =>
    cipher.encryptBlock key last block :: encryptChain (cipher.encryptBlock key last block) rest

def decryptChain : FixedBytes size → List (FixedBytes size) → List (FixedBytes size)
  | _, [] => []
  | last, block :: rest => (cipher.decrypt key block).xor last :: decryptChain block rest

theorem decryptChain_encryptChain (last : FixedBytes size) (list : List (FixedBytes size)) :
    cipher.decryptChain key last (cipher.encryptChain key last list) = list := by
  induction list generalizing last with
  | nil => rfl
  | cons block rest ih =>
    rw [encryptChain, decryptChain, ih, encryptBlock, cipher.inverse, FixedBytes.xor_xor]

theorem length_encryptChain (last : FixedBytes size) (list : List (FixedBytes size)) :
    (cipher.encryptChain key last list).length = list.length := by
  induction list generalizing last with
  | nil => rfl
  | cons block rest ih => rw [encryptChain, List.length_cons, List.length_cons, ih]

end Cipher

end BlockChain

end Leviculum
