import Leviculum.Lib.Wire
import Leviculum.Resource.Parts

/-! The token as a stream. The encryptor holds less than one block of plaintext, so what it puts into its sink
does not depend on how the plaintext was cut. -/

namespace Leviculum.Resource

open Leviculum.Wire

/-- AES-256 in CBC mode and HMAC-SHA256, as their crates run them. -/
structure TokenCiphers where
  Cipher : Type
  Mac : Type
  newCipher : FixedBytes 32 → FixedBytes 16 → Cipher
  encryptBlock : Cipher → FixedBytes 16 → FixedBytes 16 × Cipher
  newMac : FixedBytes 32 → Mac
  updateMac : Mac → Bytes → Mac
  finalizeMac : Mac → FixedBytes 32

def aesBlockSize : Nat := 16

structure TokenEncryptor (C : TokenCiphers) where
  cipher : C.Cipher
  mac : C.Mac
  /-- Plaintext not yet part of a whole block. -/
  block : Bytes

namespace TokenEncryptor

variable {C : TokenCiphers}

/-- The first 32 bytes of the key are for the MAC. The second component is put into the sink. -/
def new (C : TokenCiphers) (key : TokenKey) (iv : FixedBytes 16) : TokenEncryptor C × Bytes :=
  ({ cipher := C.newCipher (FixedBytes.pad 32 (key.val.drop 32)) iv
     mac := C.updateMac (C.newMac (FixedBytes.pad 32 (key.val.take 32))) iv.val
     block := [] },
    iv.val)

def emitBlock (encryptor : TokenEncryptor C) : TokenEncryptor C × Bytes :=
  let (block, cipher) := C.encryptBlock encryptor.cipher (FixedBytes.pad 16 encryptor.block)
  ({ cipher := cipher, mac := C.updateMac encryptor.mac block.val, block := [] }, block.val)

/-- The `while` loop of `update`; every turn takes at least one byte. -/
def updateLoop : Nat → TokenEncryptor C → Bytes → List Bytes × TokenEncryptor C
  | 0, encryptor, _ => ([], encryptor)
  | fuel + 1, encryptor, rest =>
    if rest.isEmpty then ([], encryptor)
    else
      let take := min (aesBlockSize - encryptor.block.length) rest.length
      let filled := { encryptor with block := encryptor.block ++ rest.take take }
      if filled.block.length = aesBlockSize then
        let (emptied, block) := filled.emitBlock
        let (blocks, last) := updateLoop fuel emptied (rest.drop take)
        (block :: blocks, last)
      else updateLoop fuel filled (rest.drop take)

def update (encryptor : TokenEncryptor C) (plaintext : Bytes) : List Bytes × TokenEncryptor C :=
  updateLoop plaintext.length encryptor plaintext

/-- Padding to a whole block, always at least one byte of it, and the MAC. -/
def finish (encryptor : TokenEncryptor C) : List Bytes :=
  let padding := aesBlockSize - encryptor.block.length
  let (emptied, block) := emitBlock
    { encryptor with block := encryptor.block ++ List.replicate padding (UInt8.ofNat padding) }
  [block, (C.finalizeMac emptied.mac).val]

/-- The encryptor as an automaton that reads one byte at a time. -/
def push (encryptor : TokenEncryptor C) (byte : UInt8) : Option Bytes × TokenEncryptor C :=
  let filled := { encryptor with block := encryptor.block ++ [byte] }
  if filled.block.length = aesBlockSize then (some filled.emitBlock.2, filled.emitBlock.1) else (none, filled)

theorem feed_short (encryptor : TokenEncryptor C) (bytes : Bytes)
    (short : encryptor.block.length + bytes.length < aesBlockSize) :
    feed push encryptor bytes = ([], { encryptor with block := encryptor.block ++ bytes }) := by
  induction bytes generalizing encryptor with
  | nil => simp [feed]
  | cons byte rest ih =>
    rw [List.length_cons] at short
    have silent : push encryptor byte = (none, { encryptor with block := encryptor.block ++ [byte] }) := by
      unfold push
      rw [if_neg]
      simp only [List.length_append, List.length_singleton]
      omega
    rw [feed_cons_silent silent, ih]
    · simp
    · simp only [List.length_append, List.length_singleton]
      omega

theorem feed_whole (encryptor : TokenEncryptor C) (bytes : Bytes) (nonempty : bytes ≠ [])
    (whole : encryptor.block.length + bytes.length = aesBlockSize) :
    feed push encryptor bytes =
      ([(emitBlock { encryptor with block := encryptor.block ++ bytes }).2],
        (emitBlock { encryptor with block := encryptor.block ++ bytes }).1) := by
  obtain ⟨front, last, rfl⟩ := List.eq_nil_or_concat' bytes |>.resolve_left nonempty
  rw [List.length_append, List.length_singleton] at whole
  have full : push { encryptor with block := encryptor.block ++ front } last =
      (some (emitBlock { encryptor with block := encryptor.block ++ front ++ [last] }).2,
        (emitBlock { encryptor with block := encryptor.block ++ front ++ [last] }).1) := by
    unfold push
    rw [if_pos]
    simp only [List.length_append, List.length_singleton]
    omega
  rw [feed_append, feed_short encryptor front (by omega), feed_cons_emit full, List.append_assoc]
  simp [feed]

theorem updateLoop_eq_feed (fuel : Nat) (encryptor : TokenEncryptor C) (rest : Bytes)
    (enough : rest.length ≤ fuel) (room : encryptor.block.length < aesBlockSize) :
    updateLoop fuel encryptor rest = feed push encryptor rest := by
  induction fuel generalizing encryptor rest with
  | zero =>
    have empty : rest = [] := List.length_eq_zero_iff.mp (by omega)
    subst empty
    rfl
  | succ fuel ih =>
    unfold updateLoop
    by_cases empty : rest.isEmpty
    · rw [if_pos empty, List.isEmpty_iff.mp empty]
      rfl
    · rw [if_neg empty]
      have nonempty : 0 < rest.length := by
        rw [List.isEmpty_iff] at empty
        exact List.length_pos_iff.mpr empty
      dsimp only
      generalize taken : min (aesBlockSize - encryptor.block.length) rest.length = take
      have size : (rest.take take).length = take := by
        rw [List.length_take]
        omega
      have split : feed push encryptor rest = feed push encryptor (rest.take take ++ rest.drop take) := by
        rw [List.take_append_drop]
      have shorter : (rest.drop take).length ≤ fuel := by
        rw [List.length_drop]
        omega
      rw [split, feed_append, List.length_append, size]
      by_cases full : encryptor.block.length + take = aesBlockSize
      · have some_ : rest.take take ≠ [] := by
          intro none_
          rw [none_, List.length_nil] at size
          omega
        rw [if_pos full, feed_whole encryptor _ some_ (by rw [size]; exact full), ih _ _ shorter]
        · rfl
        · exact Nat.zero_lt_succ _
      · have fits : encryptor.block.length + take < aesBlockSize := by omega
        rw [if_neg full, feed_short encryptor _ (by rw [size]; exact fits), ih _ _ shorter]
        · rfl
        · rw [List.length_append, size]
          exact fits

theorem update_eq_feed {encryptor : TokenEncryptor C} (room : encryptor.block.length < aesBlockSize)
    (plaintext : Bytes) : encryptor.update plaintext = feed push encryptor plaintext :=
  updateLoop_eq_feed plaintext.length encryptor plaintext (Nat.le_refl _) room

theorem push_room (encryptor : TokenEncryptor C) (byte : UInt8) (room : encryptor.block.length < aesBlockSize) :
    (push encryptor byte).2.block.length < aesBlockSize := by
  unfold push
  dsimp only
  split_ifs with full
  · exact Nat.zero_lt_succ _
  · simp only [List.length_append, List.length_singleton] at full ⊢
    omega

def updateAll (encryptor : TokenEncryptor C) : List Bytes → List Bytes × TokenEncryptor C
  | [] => ([], encryptor)
  | piece :: pieces =>
    let (blocks, next) := encryptor.update piece
    let (more, last) := next.updateAll pieces
    (blocks ++ more, last)

theorem updateAll_eq_feed {encryptor : TokenEncryptor C} (room : encryptor.block.length < aesBlockSize)
    (pieces : List Bytes) : encryptor.updateAll pieces = feed push encryptor pieces.flatten := by
  induction pieces generalizing encryptor with
  | nil => rfl
  | cons piece pieces ih =>
    have kept := feed_invariant (fun encryptor : TokenEncryptor C => encryptor.block.length < aesBlockSize) push_room room piece
    unfold updateAll
    rw [update_eq_feed room, List.flatten_cons, feed_append]
    dsimp only
    rw [ih kept]

end TokenEncryptor

/-- What the encryptor puts into its sink for these pieces of plaintext. -/
def encryptStream (C : TokenCiphers) (key : TokenKey) (iv : FixedBytes 16) (pieces : List Bytes) : List Bytes :=
  let (encryptor, head) := TokenEncryptor.new C key iv
  let (blocks, last) := encryptor.updateAll pieces
  head :: blocks ++ last.finish

theorem encryptStream_congr (C : TokenCiphers) (key : TokenKey) (iv : FixedBytes 16) {pieces others : List Bytes}
    (same : pieces.flatten = others.flatten) : encryptStream C key iv pieces = encryptStream C key iv others := by
  have fresh : (TokenEncryptor.new C key iv).1.block.length < aesBlockSize := Nat.zero_lt_succ _
  unfold encryptStream
  dsimp only
  rw [TokenEncryptor.updateAll_eq_feed fresh, TokenEncryptor.updateAll_eq_feed fresh, same]

/-- The primitives with the streaming encryption in the place of their token. -/
def Primitives.withTokens (P : Primitives) (C : TokenCiphers) : Primitives :=
  { P with encryptToken := encryptStream C }

theorem Primitives.withTokens_encryptToken (P : Primitives) (C : TokenCiphers) :
    (P.withTokens C).encryptToken = encryptStream C := rfl

end Leviculum.Resource
