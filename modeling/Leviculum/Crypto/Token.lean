import Leviculum.Lib.BlockChain
import Leviculum.Resource.TokenStream

/-! Token encryption: the initialisation vector, the padded plaintext in AES-256-CBC, and an HMAC-SHA256 over
both. The one-shot functions write into a buffer of the caller; the streaming one hands out the same bytes. -/

namespace Leviculum.Crypto

open BlockChain Leviculum.Wire
open Resource (TokenCiphers TokenEncryptor TokenKey aesBlockSize encryptStream tokenLen)

def aes256KeySize : Nat := 32
def hmacSize : Nat := 32
def tokenHmacKeySize : Nat := 32
def tokenKeySize : Nat := 64
def minTokenSize : Nat := aesBlockSize + aesBlockSize + hmacSize

/-- AES-256 on one block, and HMAC-SHA256. -/
structure TokenPrimitives where
  aes : Cipher (FixedBytes 32) 16
  hmacSha256 : FixedBytes 32 → Bytes → FixedBytes 32

inductive AesError where
  | invalidKeyLength
  | invalidIvLength
  | bufferTooSmall
  | decryptionFailed
  deriving DecidableEq

inductive TokenError where
  | invalidKeyLength
  | tokenTooShort
  | hmacVerificationFailed
  | decryptionFailed
  | bufferTooSmall
  deriving DecidableEq

variable (P : TokenPrimitives)

def pkcs7Pad (data : Bytes) : Bytes :=
  let padding := aesBlockSize - data.length % aesBlockSize
  data ++ List.replicate padding (UInt8.ofNat padding)

/-- The length without padding; only the last byte of the padding is looked at. -/
def pkcs7Unpad (data : Bytes) : Except AesError Nat :=
  match data.getLast? with
  | none => .error .decryptionFailed
  | some last =>
    if aesBlockSize < last.toNat ∨ data.length < last.toNat then .error .decryptionFailed
    else .ok (data.length - last.toNat)

/-- The number of bytes written, and the buffer after it. -/
def aes256CbcEncrypt (key iv plaintext output : Bytes) : Except AesError (Nat × Bytes) :=
  if key.length ≠ aes256KeySize then .error .invalidKeyLength
  else if iv.length ≠ aesBlockSize then .error .invalidIvLength
  else
    let paddedLen := (plaintext.length / aesBlockSize + 1) * aesBlockSize
    if output.length < paddedLen then .error .bufferTooSmall
    else
      let padded := pkcs7Pad plaintext
      let encrypted := P.aes.encryptChain (FixedBytes.pad 32 key) (FixedBytes.pad 16 iv)
        (blocks 16 (padded.length / aesBlockSize) padded)
      .ok (padded.length, joined encrypted ++ output.drop padded.length)

def aes256CbcDecrypt (key iv ciphertext output : Bytes) : Except AesError (Nat × Bytes) :=
  if key.length ≠ aes256KeySize then .error .invalidKeyLength
  else if iv.length ≠ aesBlockSize then .error .invalidIvLength
  else if ciphertext.length % aesBlockSize ≠ 0 ∨ ciphertext = [] then .error .decryptionFailed
  else if output.length < ciphertext.length then .error .bufferTooSmall
  else
    let decrypted := joined (P.aes.decryptChain (FixedBytes.pad 32 key) (FixedBytes.pad 16 iv)
      (blocks 16 (ciphertext.length / aesBlockSize) ciphertext))
    (pkcs7Unpad decrypted).map (fun length => (length, decrypted ++ output.drop ciphertext.length))

/-- Every pair of bytes is compared, whatever the others showed. -/
def constantTimeEq (a b : Bytes) : Bool :=
  if a.length ≠ b.length then false
  else (List.zip a b).foldl (fun result pair => result ||| (pair.1 ^^^ pair.2)) 0 = 0

def verifyHmac (key : FixedBytes 32) (data expected : Bytes) : Bool :=
  constantTimeEq (P.hmacSha256 key data).val expected

def hmacKey (key : Bytes) : FixedBytes 32 := FixedBytes.pad 32 (key.take tokenHmacKeySize)

def aesKey (key : Bytes) : Bytes := key.drop tokenHmacKeySize

def encryptToken (key iv plaintext output : Bytes) : Except TokenError (Nat × Bytes) :=
  if key.length ≠ tokenKeySize then .error .invalidKeyLength
  else if iv.length ≠ aesBlockSize then .error .decryptionFailed
  else
    let paddedLen := (plaintext.length / aesBlockSize + 1) * aesBlockSize
    let length := aesBlockSize + paddedLen + hmacSize
    if output.length < length then .error .bufferTooSmall
    else
      match aes256CbcEncrypt P (aesKey key) iv plaintext (output.drop aesBlockSize) with
      | .error .invalidKeyLength => .error .invalidKeyLength
      | .error .bufferTooSmall => .error .bufferTooSmall
      | .error .invalidIvLength | .error .decryptionFailed => .error .decryptionFailed
      | .ok (encLen, tail) =>
        let written := iv ++ tail
        let hmacInputLen := aesBlockSize + encLen
        let hmac := P.hmacSha256 (hmacKey key) (written.take hmacInputLen)
        .ok (hmacInputLen + hmacSize, written.take hmacInputLen ++ hmac.val ++ written.drop (hmacInputLen + hmacSize))

def decryptToken (key token output : Bytes) : Except TokenError (Nat × Bytes) :=
  if key.length ≠ tokenKeySize then .error .invalidKeyLength
  else if token.length < minTokenSize then .error .tokenTooShort
  else
    let iv := token.take aesBlockSize
    let hmacStart := token.length - hmacSize
    let ciphertext := (token.take hmacStart).drop aesBlockSize
    let receivedHmac := token.drop hmacStart
    if verifyHmac P (hmacKey key) (token.take hmacStart) receivedHmac = false then .error .hmacVerificationFailed
    else
      match aes256CbcDecrypt P (aesKey key) iv ciphertext output with
      | .error _ => .error .decryptionFailed
      | .ok result => .ok result

/-- The two primitives as the streaming encryption runs them: the cipher keeps the last block it made, the
MAC what it was given. -/
def TokenPrimitives.ciphers : TokenCiphers where
  Cipher := FixedBytes 32 × FixedBytes 16
  Mac := FixedBytes 32 × Bytes
  newCipher key iv := (key, iv)
  encryptBlock state block :=
    (P.aes.encryptBlock state.1 state.2 block, (state.1, P.aes.encryptBlock state.1 state.2 block))
  newMac key := (key, [])
  updateMac mac data := (mac.1, mac.2 ++ data)
  finalizeMac mac := P.hmacSha256 mac.1 mac.2

/-! ### Padding -/

theorem length_pkcs7Pad (data : Bytes) : (pkcs7Pad data).length = 16 * (data.length / 16 + 1) := by
  rw [pkcs7Pad, List.length_append, List.length_replicate, aesBlockSize]
  omega

theorem pkcs7Unpad_pkcs7Pad (data : Bytes) : pkcs7Unpad (pkcs7Pad data) = .ok data.length := by
  have small : 16 - data.length % 16 ≤ 16 := Nat.sub_le _ _
  obtain ⟨padding, count⟩ : ∃ padding, 16 - data.length % 16 = padding + 1 := ⟨15 - data.length % 16, by omega⟩
  have value : (UInt8.ofNat (padding + 1)).toNat = padding + 1 := by
    rw [UInt8.toNat_ofNat', Nat.mod_eq_of_lt]
    omega
  have padded : pkcs7Pad data =
      data ++ List.replicate padding (UInt8.ofNat (padding + 1)) ++ [UInt8.ofNat (padding + 1)] := by
    rw [pkcs7Pad, aesBlockSize, count, List.replicate_succ', List.append_assoc]
  rw [pkcs7Unpad, padded, List.getLast?_concat]
  dsimp only
  rw [value, aesBlockSize, List.length_append, List.length_append, List.length_replicate, List.length_singleton]
  rw [if_neg (by omega)]
  congr 1
  omega

theorem pkcs7Pad_append {front rest : Bytes} (fits : front.length = 16) :
    pkcs7Pad (front ++ rest) = front ++ pkcs7Pad rest := by
  have same : (front ++ rest).length % 16 = rest.length % 16 := by
    rw [List.length_append, fits, Nat.add_mod_left]
  rw [pkcs7Pad, pkcs7Pad, aesBlockSize, same, List.append_assoc]

/-! ### Comparing -/

theorem fold_or_eq_zero (pairs : List (UInt8 × UInt8)) (start : UInt8) :
    pairs.foldl (fun result pair => result ||| (pair.1 ^^^ pair.2)) start = 0 ↔
      start = 0 ∧ ∀ pair ∈ pairs, pair.1 = pair.2 := by
  induction pairs generalizing start with
  | nil => simp
  | cons pair rest ih =>
    rw [List.foldl_cons, ih, UInt8.or_eq_zero_iff, UInt8.xor_eq_zero_iff, List.forall_mem_cons, and_assoc]

theorem constantTimeEq_iff (a b : Bytes) : constantTimeEq a b = true ↔ a = b := by
  unfold constantTimeEq
  split
  next other =>
    refine ⟨nofun, fun same => ?_⟩
    rw [same] at other
    exact absurd rfl other
  next same =>
    rw [decide_eq_true_iff, fold_or_eq_zero]
    rw [not_not] at same
    constructor
    · rintro ⟨-, equal⟩
      refine List.ext_getElem same (fun i inside inside' => ?_)
      have here : i < (List.zip a b).length := by
        rw [List.length_zip]
        omega
      have pair := equal (List.zip a b)[i] (List.getElem_mem here)
      rwa [List.getElem_zip] at pair
    · intro equal
      subst equal
      refine ⟨rfl, fun pair member => ?_⟩
      rw [List.zip_eq_zipWith, List.zipWith_self, List.mem_map] at member
      obtain ⟨_, -, rfl⟩ := member
      rfl

/-! ### The stream -/

def ciphertextOf (key : FixedBytes 32) (last : FixedBytes 16) (plaintext : Bytes) : Bytes :=
  joined (P.aes.encryptChain key last (blocks 16 (plaintext.length / 16 + 1) (pkcs7Pad plaintext)))

theorem length_ciphertextOf (key : FixedBytes 32) (last : FixedBytes 16) (plaintext : Bytes) :
    (ciphertextOf P key last plaintext).length = 16 * (plaintext.length / 16 + 1) := by
  rw [ciphertextOf, length_joined, Cipher.length_encryptChain, length_blocks]

theorem ciphertextOf_append (key : FixedBytes 32) (last : FixedBytes 16) {front rest : Bytes} (fits : front.length = 16) :
    ciphertextOf P key last (front ++ rest) =
      (P.aes.encryptBlock key last ⟨front, fits⟩).val ++
        ciphertextOf P key (P.aes.encryptBlock key last ⟨front, fits⟩) rest := by
  have count : (front ++ rest).length / 16 = rest.length / 16 + 1 := by
    rw [List.length_append, fits, Nat.add_comm, Nat.add_div_right _ (by decide)]
  rw [ciphertextOf, pkcs7Pad_append fits, count, blocks_append _ fits, Cipher.encryptChain, joined_cons]
  rfl

theorem ciphertextOf_short (key : FixedBytes 32) (last : FixedBytes 16) {plaintext : Bytes} (short : plaintext.length < 16) :
    ciphertextOf P key last plaintext =
      (P.aes.encryptBlock key last (FixedBytes.pad 16 (pkcs7Pad plaintext))).val := by
  have whole : (pkcs7Pad plaintext).length = 16 := by
    rw [length_pkcs7Pad, Nat.div_eq_of_lt short]
  rw [ciphertextOf, Nat.div_eq_of_lt short, blocks, blocks, List.take_of_length_le (Nat.le_of_eq whole),
    Cipher.encryptChain, Cipher.encryptChain, joined_cons, joined_nil, List.append_nil]

def between (key : FixedBytes 32) (last : FixedBytes 16) (macKey : FixedBytes 32) (seen : Bytes) :
    TokenEncryptor P.ciphers := ⟨(key, last), (macKey, seen), []⟩

theorem feed_finish (key : FixedBytes 32) (last : FixedBytes 16) (macKey : FixedBytes 32) (seen plaintext : Bytes) :
    ((feed TokenEncryptor.push (between P key last macKey seen) plaintext).1 ++
        (feed TokenEncryptor.push (between P key last macKey seen) plaintext).2.finish).flatten =
      ciphertextOf P key last plaintext ++
        (P.hmacSha256 macKey (seen ++ ciphertextOf P key last plaintext)).val := by
  -- Block by block; the chain and what the MAC has seen move on with every one.
  generalize number : plaintext.length / 16 = count
  induction count generalizing last seen plaintext with
  | zero =>
    have short : plaintext.length < 16 := by omega
    have room : (between P key last macKey seen).block.length + plaintext.length < aesBlockSize := by
      rw [between, List.length_nil, Nat.zero_add]
      exact short
    rw [TokenEncryptor.feed_short _ _ room, ciphertextOf_short P key last short]
    have padding : 16 - plaintext.length % 16 = 16 - plaintext.length := by rw [Nat.mod_eq_of_lt short]
    rw [pkcs7Pad, aesBlockSize, padding]
    simp only [List.nil_append, TokenEncryptor.finish, TokenEncryptor.emitBlock, between, aesBlockSize,
      List.flatten_cons, List.flatten_nil, List.append_nil]
    rfl
  | succ count ih =>
    have long : 16 ≤ plaintext.length := by omega
    have front : (plaintext.take 16).length = 16 := by
      rw [List.length_take]
      omega
    have rest : (plaintext.drop 16).length / 16 = count := by
      rw [List.length_drop]
      omega
    have emitted : feed TokenEncryptor.push (between P key last macKey seen) (plaintext.take 16) =
        ([(P.aes.encryptBlock key last ⟨plaintext.take 16, front⟩).val],
          between P key (P.aes.encryptBlock key last ⟨plaintext.take 16, front⟩) macKey
            (seen ++ (P.aes.encryptBlock key last ⟨plaintext.take 16, front⟩).val)) := by
      have some_ : plaintext.take 16 ≠ [] := by
        intro none_
        rw [none_] at front
        cases front
      have full : (between P key last macKey seen).block.length + (plaintext.take 16).length = aesBlockSize := by
        rw [between, List.length_nil, Nat.zero_add, front, aesBlockSize]
      rw [TokenEncryptor.feed_whole _ _ some_ full]
      simp only [TokenEncryptor.emitBlock, between, List.nil_append, FixedBytes.pad_of_length front]
      rfl
    have whole : plaintext = plaintext.take 16 ++ plaintext.drop 16 := (List.take_append_drop 16 plaintext).symm
    rw [whole, feed_append, emitted, ciphertextOf_append P key last front]
    dsimp only
    rw [List.append_assoc, List.flatten_append, ih _ _ _ rest, List.flatten_singleton, List.append_assoc,
      List.append_assoc]

def tokenOf (key : TokenKey) (iv : FixedBytes 16) (plaintext : Bytes) : Bytes :=
  iv.val ++ ciphertextOf P (FixedBytes.pad 32 (aesKey key.val)) iv plaintext ++
    (P.hmacSha256 (hmacKey key.val) (iv.val ++ ciphertextOf P (FixedBytes.pad 32 (aesKey key.val)) iv plaintext)).val

theorem length_tokenOf (key : TokenKey) (iv : FixedBytes 16) (plaintext : Bytes) :
    (tokenOf P key iv plaintext).length = tokenLen plaintext.length := by
  rw [tokenOf, List.length_append, List.length_append, iv.property, length_ciphertextOf,
    (P.hmacSha256 _ _).property, tokenLen, Nat.mul_comm]

theorem encryptStream_flatten (key : TokenKey) (iv : FixedBytes 16) (pieces : List Bytes) :
    (encryptStream P.ciphers key iv pieces).flatten = tokenOf P key iv pieces.flatten := by
  have fresh : (TokenEncryptor.new P.ciphers key iv).1.block.length < aesBlockSize := Nat.zero_lt_succ _
  have fed := feed_finish P (FixedBytes.pad 32 (aesKey key.val)) iv (hmacKey key.val) iv.val pieces.flatten
  unfold encryptStream
  dsimp only
  rw [TokenEncryptor.updateAll_eq_feed fresh, List.cons_append, List.flatten_cons, tokenOf, List.append_assoc]
  exact congrArg (iv.val ++ ·) fed

/-! ### One shot -/

theorem length_aesKey (key : TokenKey) : (aesKey key.val).length = 32 := by
  rw [aesKey, List.length_drop, key.property]
  rfl

theorem aes256CbcEncrypt_eq {key : Bytes} (iv : FixedBytes 16) (plaintext output : Bytes) (fits : key.length = 32)
    (room : 16 * (plaintext.length / 16 + 1) ≤ output.length) :
    aes256CbcEncrypt P key iv.val plaintext output =
      .ok (16 * (plaintext.length / 16 + 1), ciphertextOf P (FixedBytes.pad 32 key) iv plaintext ++
        output.drop (16 * (plaintext.length / 16 + 1))) := by
  have count : 16 * (plaintext.length / 16 + 1) / aesBlockSize = plaintext.length / 16 + 1 :=
    Nat.mul_div_cancel_left _ (by decide)
  have keyed : ¬key.length ≠ aes256KeySize := not_not.mpr fits
  have vector : ¬iv.val.length ≠ aesBlockSize := not_not.mpr iv.property
  have space : ¬output.length < (plaintext.length / aesBlockSize + 1) * aesBlockSize := by
    rw [aesBlockSize]
    omega
  unfold aes256CbcEncrypt
  dsimp only
  rw [if_neg keyed, if_neg vector, if_neg space, length_pkcs7Pad, count, FixedBytes.pad_of_length iv.property, ciphertextOf]

theorem encryptToken_eq (key : TokenKey) (iv : FixedBytes 16) (plaintext output : Bytes)
    (room : tokenLen plaintext.length ≤ output.length) :
    encryptToken P key.val iv.val plaintext output =
      .ok (tokenLen plaintext.length, tokenOf P key iv plaintext ++ output.drop (tokenLen plaintext.length)) := by
  have size : tokenLen plaintext.length = 16 + 16 * (plaintext.length / 16 + 1) + 32 := by
    rw [tokenLen, Nat.mul_comm]
  rw [size] at room ⊢
  have inner : 16 * (plaintext.length / 16 + 1) ≤ (output.drop 16).length := by
    rw [List.length_drop]
    omega
  have start : (iv.val ++ ciphertextOf P (FixedBytes.pad 32 (aesKey key.val)) iv plaintext).length =
      16 + 16 * (plaintext.length / 16 + 1) := by
    rw [List.length_append, iv.property, length_ciphertextOf]
  have keyed : ¬key.val.length ≠ tokenKeySize := not_not.mpr key.property
  have vector : ¬iv.val.length ≠ aesBlockSize := not_not.mpr iv.property
  have space : ¬output.length < aesBlockSize + (plaintext.length / aesBlockSize + 1) * aesBlockSize + hmacSize := by
    rw [aesBlockSize, hmacSize]
    omega
  unfold encryptToken
  dsimp only
  rw [if_neg keyed, if_neg vector, if_neg space, aesBlockSize, hmacSize,
    aes256CbcEncrypt_eq P iv plaintext _ (length_aesKey key) inner]
  dsimp only
  rw [← List.append_assoc, List.take_left' start, ← List.drop_drop, List.drop_left' start, List.drop_drop,
    List.drop_drop, tokenOf, Nat.add_assoc 16 _ 32]

/-! ### Decryption -/

theorem aes256CbcDecrypt_eq {key : Bytes} (iv : FixedBytes 16) (plaintext output : Bytes) (fits : key.length = 32)
    (room : 16 * (plaintext.length / 16 + 1) ≤ output.length) :
    aes256CbcDecrypt P key iv.val (ciphertextOf P (FixedBytes.pad 32 key) iv plaintext) output =
      .ok (plaintext.length, pkcs7Pad plaintext ++ output.drop (16 * (plaintext.length / 16 + 1))) := by
  have size := length_ciphertextOf P (FixedBytes.pad 32 key) iv plaintext
  have count : 16 * (plaintext.length / 16 + 1) / aesBlockSize = plaintext.length / 16 + 1 :=
    Nat.mul_div_cancel_left _ (by decide)
  have whole : 16 * (plaintext.length / 16 + 1) % aesBlockSize = 0 := Nat.mul_mod_right _ _
  have some_ : ciphertextOf P (FixedBytes.pad 32 key) iv plaintext ≠ [] := by
    intro none_
    rw [none_, List.length_nil] at size
    omega
  have number : plaintext.length / 16 + 1 = (P.aes.encryptChain (FixedBytes.pad 32 key) iv
      (blocks 16 (plaintext.length / 16 + 1) (pkcs7Pad plaintext))).length := by
    rw [Cipher.length_encryptChain, length_blocks]
  have decrypted : joined (P.aes.decryptChain (FixedBytes.pad 32 key) iv
      (blocks 16 (plaintext.length / 16 + 1) (ciphertextOf P (FixedBytes.pad 32 key) iv plaintext))) =
      pkcs7Pad plaintext := by
    have back := blocks_joined (P.aes.encryptChain (FixedBytes.pad 32 key) iv
      (blocks 16 (plaintext.length / 16 + 1) (pkcs7Pad plaintext)))
    rw [← number] at back
    rw [ciphertextOf, back, Cipher.decryptChain_encryptChain, joined_blocks (length_pkcs7Pad plaintext)]
  have keyed : ¬key.length ≠ aes256KeySize := not_not.mpr fits
  have vector : ¬iv.val.length ≠ aesBlockSize := not_not.mpr iv.property
  unfold aes256CbcDecrypt
  dsimp only
  rw [if_neg keyed, if_neg vector, size, whole, if_neg (not_or.mpr ⟨not_not.mpr rfl, some_⟩), if_neg (Nat.not_lt.mpr room),
    count, FixedBytes.pad_of_length iv.property, decrypted, pkcs7Unpad_pkcs7Pad]
  rfl

theorem decryptToken_eq (key : TokenKey) (iv : FixedBytes 16) (plaintext output : Bytes)
    (room : 16 * (plaintext.length / 16 + 1) ≤ output.length) :
    decryptToken P key.val (tokenOf P key iv plaintext) output =
      .ok (plaintext.length, pkcs7Pad plaintext ++ output.drop (16 * (plaintext.length / 16 + 1))) := by
  have start : (iv.val ++ ciphertextOf P (FixedBytes.pad 32 (aesKey key.val)) iv plaintext).length =
      16 + 16 * (plaintext.length / 16 + 1) := by
    rw [List.length_append, iv.property, length_ciphertextOf]
  have size : (tokenOf P key iv plaintext).length = 16 + 16 * (plaintext.length / 16 + 1) + 32 := by
    rw [tokenOf, List.length_append, start, (P.hmacSha256 _ _).property]
  have front : (tokenOf P key iv plaintext).take (16 + 16 * (plaintext.length / 16 + 1)) =
      iv.val ++ ciphertextOf P (FixedBytes.pad 32 (aesKey key.val)) iv plaintext := by
    rw [tokenOf, List.take_left' start]
  have back : (tokenOf P key iv plaintext).drop (16 + 16 * (plaintext.length / 16 + 1)) =
      (P.hmacSha256 (hmacKey key.val)
        (iv.val ++ ciphertextOf P (FixedBytes.pad 32 (aesKey key.val)) iv plaintext)).val := by
    rw [tokenOf, List.drop_left' start]
  have first : (tokenOf P key iv plaintext).take 16 = iv.val := by
    rw [tokenOf, List.append_assoc, List.take_left' iv.property]
  have keyed : ¬key.val.length ≠ tokenKeySize := not_not.mpr key.property
  have long : ¬16 + 16 * (plaintext.length / 16 + 1) + 32 < minTokenSize := by
    rw [minTokenSize, aesBlockSize, hmacSize]
    omega
  unfold decryptToken verifyHmac
  dsimp only
  rw [if_neg keyed, size, if_neg long, hmacSize, aesBlockSize, Nat.add_sub_cancel, front, back,
    (constantTimeEq_iff _ _).mpr rfl, if_neg nofun, first, List.drop_left' iv.property,
    aes256CbcDecrypt_eq P iv plaintext output (length_aesKey key) room]

theorem decryptToken_checked {key token output : Bytes} {result : Nat × Bytes}
    (ok : decryptToken P key token output = .ok result) :
    (P.hmacSha256 (hmacKey key) (token.take (token.length - hmacSize))).val = token.drop (token.length - hmacSize) := by
  unfold decryptToken at ok
  split at ok
  · cases ok
  · split at ok
    · cases ok
    · dsimp only at ok
      split at ok
      · cases ok
      next checked => exact (constantTimeEq_iff _ _).mp (Bool.not_eq_false _ ▸ checked)

/-- However the plaintext is cut, the stream is the token of one shot, of the announced length, and gives the
plaintext back; and no token is decrypted whose HMAC does not match. -/
theorem token_stream_is_one_shot :
    (∀ (key : TokenKey) (iv : FixedBytes 16) (pieces : List Bytes),
      ((encryptStream P.ciphers key iv pieces).flatten.length = tokenLen pieces.flatten.length) ∧
      (∀ output : Bytes, tokenLen pieces.flatten.length ≤ output.length →
        encryptToken P key.val iv.val pieces.flatten output =
          .ok (tokenLen pieces.flatten.length, (encryptStream P.ciphers key iv pieces).flatten ++
            output.drop (tokenLen pieces.flatten.length))) ∧
      (∀ output : Bytes, (encryptStream P.ciphers key iv pieces).flatten.length - 48 ≤ output.length →
        ∃ written, decryptToken P key.val (encryptStream P.ciphers key iv pieces).flatten output =
            .ok (pieces.flatten.length, written) ∧
          written.take pieces.flatten.length = pieces.flatten)) ∧
    (∀ (key token output : Bytes) (result : Nat × Bytes), decryptToken P key token output = .ok result →
      (P.hmacSha256 (hmacKey key) (token.take (token.length - hmacSize))).val =
        token.drop (token.length - hmacSize)) := by
  refine ⟨fun key iv pieces => ?_, fun key token output result ok => decryptToken_checked P ok⟩
  rw [encryptStream_flatten, length_tokenOf]
  refine ⟨rfl, fun output room => encryptToken_eq P key iv _ output room, fun output room => ?_⟩
  have padded : 16 * (pieces.flatten.length / 16 + 1) ≤ output.length := by
    rw [tokenLen] at room
    omega
  refine ⟨_, decryptToken_eq P key iv pieces.flatten output padded, ?_⟩
  rw [pkcs7Pad, List.append_assoc, List.take_left]

/-- A cipher that adds its key to the block, and a digest of the length. -/
def plainTokens : TokenPrimitives where
  aes := ⟨fun key block => block.xor (FixedBytes.pad 16 key.val), fun key block => block.xor (FixedBytes.pad 16 key.val),
    fun _ _ => FixedBytes.xor_xor _ _⟩
  hmacSha256 key data := FixedBytes.pad 32 (UInt8.ofNat data.length :: key.val)

/-- Eighteen bytes in three pieces, one of them empty. -/
theorem token_stream_is_one_shot_eighteen :
    encryptToken plainTokens (List.replicate 64 7) (List.replicate 16 9) (List.replicate 18 1) (List.replicate 80 0) =
      .ok (80, (encryptStream plainTokens.ciphers (FixedBytes.replicate 64 7) (FixedBytes.replicate 16 9)
        [List.replicate 15 1, [], [1, 1, 1]]).flatten ++ []) :=
  ((token_stream_is_one_shot plainTokens).1 (FixedBytes.replicate 64 7) (FixedBytes.replicate 16 9)
    [List.replicate 15 1, [], [1, 1, 1]]).2.1 (List.replicate 80 0) (by decide)

end Leviculum.Crypto
