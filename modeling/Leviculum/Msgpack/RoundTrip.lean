import Leviculum.Msgpack.Core
import Mathlib.Algebra.GroupWithZero.Nat

/-! What the writers of `leviculum-core` append, read back by its readers. -/

namespace Leviculum.Msgpack.Core

open Fallible (exec)
open Parsing (Parses)

/-- The reader gets back the value the writer appended to whatever stood before it, whatever follows, and stops
where the writer stopped; so does the walk over values. -/
def Inverts {V : Type} (writer : Bytes → V → Bytes) (reader : Reader V) (value : V) : Prop :=
  ∀ buf rest,
    exec (reader (writer buf value ++ rest)) buf.length = (.ok value, (writer buf value).length) ∧
    exec (skipMsgpackValue (writer buf value ++ rest)) buf.length = (.ok (), (writer buf value).length)

theorem inverts_of_parses {V : Type} {writer : Bytes → V → Bytes} {reader : Reader V} {value : V} {written : Bytes}
    (appends : ∀ buf, writer buf value = buf ++ written) (parses : Parses reader written value)
    (formed : WellFormed maxSkipDepth written) : Inverts writer reader value := by
  intro buf rest
  have inside : buf.length ≤ (writer buf value ++ rest).length := by
    rw [appends, List.append_assoc, List.length_append]
    exact Nat.le_add_right _ _
  have here : (writer buf value ++ rest).drop buf.length = written ++ rest := by
    rw [appends, List.append_assoc, List.drop_left]
  have size : (writer buf value).length = buf.length + written.length := by rw [appends, List.length_append]
  rw [size]
  exact ⟨parses _ _ rest inside here, reads_skipMsgpackValue.parses written () formed _ _ rest inside here⟩

theorem parses_readByte (byte : UInt8) : Parses readByte [byte] byte := reads_readByte.parses [byte] byte rfl

theorem parses_take (bytes : Bytes) : Parses (take bytes.length) bytes bytes :=
  (Parsing.reads_take () bytes.length).parses bytes bytes ⟨rfl, rfl⟩

theorem parses_readBe {width value : Nat} (fits : value < 256 ^ width) : Parses (readBe width) (Bytes.be width value) value := by
  refine (reads_readBe width).parses _ value ⟨Bytes.length_be width value, ?_⟩
  rw [Bytes.ofBe_be, Nat.mod_eq_of_lt fits]

theorem toNat_ofNat_of_lt {value : Nat} (fits : value < 256) : (UInt8.ofNat value).toNat = value := by
  rw [UInt8.toNat_ofNat']
  exact Nat.mod_eq_of_lt fits

theorem parses_readByteLength {value : Nat} (fits : value < 256) :
    Parses readByteLength [UInt8.ofNat value] value :=
  (reads_readByte.map UInt8.toNat).parses _ _ ⟨_, rfl, (toNat_ofNat_of_lt fits).symm⟩

theorem parses_sized {length : Reader Nat} {size payload : Bytes} (parses : Parses length size payload.length) :
    Parses (fun data => length data >>= fun n => take n data) (size ++ payload) payload :=
  parses.andThen (parses_take payload)

theorem fixstr_tag (n : Fin 32) :
    (0xa0 ||| UInt8.ofNat n.val) &&& 0xe0 = 0xa0 ∧ ((0xa0 ||| UInt8.ofNat n.val) &&& 0x1f).toNat = n.val ∧
      Shape.ofTag (0xa0 ||| UInt8.ofNat n.val) = .fixed n.val := by
  revert n
  decide

/-! ### Strings -/

/-- What `write_str` puts before the text. -/
def strHeader (length : Nat) : Bytes :=
  if length < 32 then [0xa0 ||| UInt8.ofNat length]
  else if length < 256 then [0xd9, UInt8.ofNat length]
  else if length < 65536 then 0xda :: Bytes.be 2 length
  else 0xdb :: Bytes.be 4 length

theorem writeStr_eq (buf text : Bytes) : writeStr buf text = buf ++ (strHeader text.length ++ text) :=
  List.append_assoc _ _ _

theorem parses_fixstr {text : Bytes} (short : text.length < 32) :
    Parses readMsgpackStr ([0xa0 ||| UInt8.ofNat text.length] ++ text) text := by
  obtain ⟨tagged, low, -⟩ := fixstr_tag ⟨text.length, short⟩
  refine (parses_readByte _).andThen ?_
  simp only [strLength, if_pos tagged, low, pure_bind]
  exact parses_take text

theorem parses_str8 {text : Bytes} (short : text.length < 256) :
    Parses readMsgpackStr ([0xd9] ++ ([UInt8.ofNat text.length] ++ text)) text :=
  (parses_readByte 0xd9).andThen (parses_sized (parses_readByteLength short))

theorem parses_str16 {text : Bytes} (short : text.length < 65536) :
    Parses readMsgpackStr ([0xda] ++ (Bytes.be 2 text.length ++ text)) text :=
  (parses_readByte 0xda).andThen (parses_sized (parses_readBe short))

theorem inverts_writeStr {text : Bytes} (short : text.length < 65536) : Inverts writeStr readMsgpackStr text := by
  refine inverts_of_parses (fun buf => writeStr_eq buf text) ?_ ?_
  · unfold strHeader
    split_ifs with fix small
    · exact parses_fixstr fix
    · exact parses_str8 small
    · exact parses_str16 short
  · unfold strHeader
    split_ifs with fix small
    · exact .fixed (fixstr_tag ⟨text.length, fix⟩).2.2 rfl
    · refine @WellFormed.sized _ 1 0xd9 [UInt8.ofNat text.length] text (by decide) rfl ?_
      rw [ofBe_singleton, toNat_ofNat_of_lt small]
    · refine @WellFormed.sized _ 2 0xda (Bytes.be 2 text.length) text (by decide) (Bytes.length_be _ _) ?_
      rw [Bytes.ofBe_be]
      exact (Nat.mod_eq_of_lt short).symm

theorem readMsgpackStr_str32 {text : Bytes} (long : 65536 ≤ text.length) :
    exec (readMsgpackStr (writeStr [] text)) 0 = (.error (), 1) := by
  have header : strHeader text.length = 0xdb :: Bytes.be 4 text.length := by
    unfold strHeader
    rw [if_neg (by omega), if_neg (by omega), if_neg (by omega)]
  have first : (writeStr [] text)[0]? = some 0xdb := by
    rw [writeStr_eq, header]
    rfl
  unfold readMsgpackStr
  rw [Fallible.exec_bind_ok (show exec (readByte _) 0 = (.ok 0xdb, 1) from Parsing.exec_item_some () first)]
  rfl

theorem inverts_writeStr_iff (text : Bytes) : Inverts writeStr readMsgpackStr text ↔ text.length < 65536 := by
  constructor
  · intro inverts
    by_contra long
    have fails := (inverts [] []).1
    rw [List.append_nil] at fails
    have unread := readMsgpackStr_str32 (Nat.le_of_not_lt long)
    rw [show ([] : Bytes).length = 0 from rfl, unread] at fails
    cases fails
  · exact inverts_writeStr

/-! ### The header of a map or a list -/

/-- A count and the forms the readers of one family know for it. -/
inductive HeaderForm (fixed two four : UInt8) : Nat → Bytes → Prop
  | fixed {n : Nat} (few : n < 16) : HeaderForm fixed two four n [fixed ||| UInt8.ofNat n]
  | two {n : Nat} (few : n < 65536) : HeaderForm fixed two four n ([two] ++ Bytes.be 2 n)
  | four {n : Nat} (few : n < 2 ^ 32) : HeaderForm fixed two four n ([four] ++ Bytes.be 4 n)

def header (fixed two four : UInt8) (n : Nat) : Bytes :=
  if n < 16 then [fixed ||| UInt8.ofNat n]
  else if n < 65536 then [two] ++ Bytes.be 2 n
  else [four] ++ Bytes.be 4 n

theorem header_form {fixed two four : UInt8} {n : Nat} (fits : n < 2 ^ 32) :
    HeaderForm fixed two four n (header fixed two four n) := by
  unfold header
  split_ifs with few short
  · exact .fixed few
  · exact .two short
  · exact .four fits

abbrev MapHeader : Nat → Bytes → Prop := HeaderForm 0x80 0xde 0xdf

abbrev ArrayHeader : Nat → Bytes → Prop := HeaderForm 0x90 0xdc 0xdd

theorem fixed_tags (n : Fin 16) :
    ((0x80 : UInt8) ||| UInt8.ofNat n.val) &&& 0xf0 = 0x80 ∧ (((0x80 : UInt8) ||| UInt8.ofNat n.val) &&& 0x0f).toNat = n.val ∧
    ((0x90 : UInt8) ||| UInt8.ofNat n.val) &&& 0xf0 = 0x90 ∧ (((0x90 : UInt8) ||| UInt8.ofNat n.val) &&& 0x0f).toNat = n.val := by
  revert n
  decide

theorem parses_containerLen {fixed two four : UInt8} {n : Nat} {bytes : Bytes}
    (tags : ∀ n : Fin 16, (fixed ||| UInt8.ofNat n.val) &&& 0xf0 = fixed ∧ ((fixed ||| UInt8.ofNat n.val) &&& 0x0f).toNat = n.val)
    (apart : two &&& 0xf0 ≠ fixed ∧ four &&& 0xf0 ≠ fixed ∧ four ≠ two) (form : HeaderForm fixed two four n bytes) :
    Parses (containerLen fixed two four) bytes n := by
  intro data pos rest inside here
  unfold containerLen
  cases form with
  | fixed few =>
    obtain ⟨tagged, low⟩ := tags ⟨n, few⟩
    rw [Fallible.exec_bind_ok (parses_readByte _ data pos rest inside here), if_pos tagged, low]
    rfl
  | two few =>
    rw [List.append_assoc] at here
    obtain ⟨inside', there⟩ := Parsing.drop_of_append inside here
    rw [Fallible.exec_bind_ok (parses_readByte _ data pos _ inside here), if_neg apart.1, if_pos rfl,
      List.length_append, ← Nat.add_assoc]
    exact parses_readBe few data _ rest inside' there
  | four few =>
    rw [List.append_assoc] at here
    obtain ⟨inside', there⟩ := Parsing.drop_of_append inside here
    rw [Fallible.exec_bind_ok (parses_readByte _ data pos _ inside here), if_neg apart.2.1, if_neg apart.2.2, if_pos rfl,
      List.length_append, ← Nat.add_assoc]
    exact parses_readBe few data _ rest inside' there

theorem parses_readMapLen {n : Nat} {bytes : Bytes} (form : MapHeader n bytes) : Parses readMapLen bytes n :=
  parses_containerLen (fun n => ⟨(fixed_tags n).1, (fixed_tags n).2.1⟩) (by decide) form

theorem parses_readArrayLen {n : Nat} {bytes : Bytes} (form : ArrayHeader n bytes) : Parses readArrayLen bytes n :=
  parses_containerLen (fun n => (fixed_tags n).2.2) (by decide) form

/-! ### Byte strings -/

/-- What `write_bin` puts before the payload. -/
def binHeader (length : Nat) : Bytes :=
  if length ≤ 0xff then [0xc4, UInt8.ofNat length]
  else if length ≤ 0xffff then 0xc5 :: Bytes.be 2 length
  else 0xc6 :: Bytes.be 4 length

theorem length_binHeader_le (length : Nat) : (binHeader length).length ≤ 5 := by
  unfold binHeader
  split_ifs
  · exact Nat.le_of_ble_eq_true rfl
  · have width := Bytes.length_be 2 length
    rw [List.length_cons]
    omega
  · have width := Bytes.length_be 4 length
    rw [List.length_cons]
    omega

theorem writeBin_eq (buf payload : Bytes) : writeBin buf payload = buf ++ (binHeader payload.length ++ payload) :=
  List.append_assoc _ _ _

theorem parses_bin8 {payload : Bytes} (short : payload.length < 256) :
    Parses readMsgpackBin ([0xc4] ++ ([UInt8.ofNat payload.length] ++ payload)) payload :=
  (parses_readByte 0xc4).andThen (parses_sized (parses_readByteLength short))

theorem parses_bin16 {payload : Bytes} (short : payload.length < 65536) :
    Parses readMsgpackBin ([0xc5] ++ (Bytes.be 2 payload.length ++ payload)) payload :=
  (parses_readByte 0xc5).andThen (parses_sized (parses_readBe short))

theorem parses_bin32 {payload : Bytes} (short : payload.length < 2 ^ 32) :
    Parses readMsgpackBin ([0xc6] ++ (Bytes.be 4 payload.length ++ payload)) payload :=
  (parses_readByte 0xc6).andThen (parses_sized (parses_readBe short))

theorem parses_bin {payload : Bytes} (short : payload.length < 2 ^ 32) :
    Parses readMsgpackBin (binHeader payload.length ++ payload) payload := by
  unfold binHeader
  split_ifs with small medium
  · exact parses_bin8 (Nat.lt_succ_of_le small)
  · exact parses_bin16 (Nat.lt_succ_of_le medium)
  · exact parses_bin32 short

theorem wellFormed_bin {payload : Bytes} (short : payload.length < 2 ^ 32) (depth : Nat) :
    WellFormed depth (binHeader payload.length ++ payload) := by
  unfold binHeader
  split_ifs with small medium
  · refine @WellFormed.sized _ 1 0xc4 [UInt8.ofNat payload.length] payload (by decide) rfl ?_
    rw [ofBe_singleton, toNat_ofNat_of_lt (Nat.lt_succ_of_le small)]
  · refine @WellFormed.sized _ 2 0xc5 (Bytes.be 2 payload.length) payload (by decide) (Bytes.length_be _ _) ?_
    rw [Bytes.ofBe_be]
    exact (Nat.mod_eq_of_lt (Nat.lt_succ_of_le medium)).symm
  · refine @WellFormed.sized _ 4 0xc6 (Bytes.be 4 payload.length) payload (by decide) (Bytes.length_be _ _) ?_
    rw [Bytes.ofBe_be]
    exact (Nat.mod_eq_of_lt short).symm

theorem readMsgpackBin_wrapped {payload : Bytes} (long : 2 ^ 32 ≤ payload.length) :
    exec (readMsgpackBin (writeBin [] payload)) 0 =
      (.ok (payload.take (payload.length % 2 ^ 32)), 5 + payload.length % 2 ^ 32) := by
  have header : binHeader payload.length = 0xc6 :: Bytes.be 4 payload.length := by
    unfold binHeader
    rw [if_neg (by omega), if_neg (by omega)]
  have size : (payload.take (payload.length % 2 ^ 32)).length = payload.length % 2 ^ 32 := by
    rw [List.length_take]
    exact Nat.min_eq_left (Nat.mod_le _ _)
  have read : Parses (readBe 4) (Bytes.be 4 payload.length) (payload.take (payload.length % 2 ^ 32)).length := by
    refine (reads_readBe 4).parses _ _ ⟨Bytes.length_be _ _, ?_⟩
    rw [Bytes.ofBe_be, size]
    exact congrArg (payload.length % ·) (by decide)
  have parses : Parses readMsgpackBin ([0xc6] ++ (Bytes.be 4 payload.length ++ payload.take (payload.length % 2 ^ 32)))
      (payload.take (payload.length % 2 ^ 32)) :=
    (parses_readByte 0xc6).andThen (parses_sized read)
  have here : (writeBin [] payload).drop 0 =
      [0xc6] ++ (Bytes.be 4 payload.length ++ payload.take (payload.length % 2 ^ 32)) ++
        payload.drop (payload.length % 2 ^ 32) := by
    rw [writeBin_eq, header, List.append_assoc, List.append_assoc, List.take_append_drop]
    rfl
  rw [parses _ 0 _ (Nat.zero_le _) here]
  rw [List.length_append, List.length_append, Bytes.length_be, size]
  congr 1
  simp only [List.length_singleton]
  omega

theorem inverts_writeBin_iff (payload : Bytes) : Inverts writeBin readMsgpackBin payload ↔ payload.length < 2 ^ 32 := by
  constructor
  · intro inverts
    by_contra long
    have whole := (inverts [] []).1
    rw [List.append_nil] at whole
    have part := readMsgpackBin_wrapped (Nat.le_of_not_lt long)
    rw [show ([] : Bytes).length = 0 from rfl, part] at whole
    have same := congrArg List.length (Except.ok.inj (Prod.mk.inj whole).1)
    rw [List.length_take] at same
    have wraps := Nat.mod_lt payload.length (show 0 < 2 ^ 32 by decide)
    omega
  · intro short
    exact inverts_of_parses (fun buf => writeBin_eq buf payload) (parses_bin short) (wellFormed_bin short _)

/-! ### Unsigned numbers -/

/-- What `write_uint` appends. -/
def uintBytes (value : Nat) : Bytes :=
  if value ≤ 127 then [UInt8.ofNat value]
  else if value ≤ 255 then [0xcc, UInt8.ofNat value]
  else if value ≤ 65535 then 0xcd :: Bytes.be 2 value
  else if value ≤ 4294967295 then 0xce :: Bytes.be 4 value
  else 0xcf :: Bytes.be 8 value

theorem writeUint_eq (buf : Bytes) (value : UInt64) : writeUint buf value = buf ++ uintBytes value.toNat := by
  unfold writeUint uintBytes
  dsimp only
  split_ifs <;> rfl

theorem fixint_tag (n : Fin 128) : UInt8.ofNat n.val ≤ 0x7f ∧ Shape.ofTag (UInt8.ofNat n.val) = .alone := by
  revert n
  decide

theorem parses_uint {tag : UInt8} {size : Bytes} {value : UInt64} (parses : Parses (uintValue tag) size value.toNat) :
    Parses readMsgpackUint ([tag] ++ size) value := by
  refine (parses_readByte tag).andThen ?_
  let finish (n : Nat) : Reader UInt64 := fun _ => pure (UInt64.ofNat n)
  have done : Parses (finish value.toNat) [] value :=
    (Parsing.Reads.ofPure _).parses [] value ⟨rfl, UInt64.ofNat_toNat.symm⟩
  have whole := parses.andThen done
  rwa [List.append_nil] at whole

theorem parses_writeUint (value : UInt64) : Parses readMsgpackUint (uintBytes value.toNat) value := by
  have range := value.toNat_lt
  unfold uintBytes
  split_ifs with fix byte short long
  · have low := (fixint_tag ⟨value.toNat, Nat.lt_succ_of_le fix⟩).1
    refine @parses_uint _ [] value ?_
    unfold uintValue
    simp only [if_pos low, toNat_ofNat_of_lt (show value.toNat < 256 by omega)]
    exact (Parsing.Reads.ofPure value.toNat).parses [] _ ⟨rfl, rfl⟩
  · exact parses_uint (parses_readByteLength (Nat.lt_succ_of_le byte))
  · exact @parses_uint 0xcd _ value (parses_readBe (Nat.lt_succ_of_le short))
  · exact @parses_uint 0xce _ value (parses_readBe (Nat.lt_succ_of_le long))
  · exact @parses_uint 0xcf _ value (parses_readBe range)

theorem wellFormed_uint (value : Nat) (depth : Nat) : WellFormed depth (uintBytes value) := by
  unfold uintBytes
  split_ifs with fix
  · exact .alone (fixint_tag ⟨value, Nat.lt_succ_of_le fix⟩).2
  · exact @WellFormed.fixed _ 1 0xcc [UInt8.ofNat value] (by decide) rfl
  · exact @WellFormed.fixed _ 2 0xcd (Bytes.be 2 value) (by decide) (Bytes.length_be _ _)
  · exact @WellFormed.fixed _ 4 0xce (Bytes.be 4 value) (by decide) (Bytes.length_be _ _)
  · exact @WellFormed.fixed _ 8 0xcf (Bytes.be 8 value) (by decide) (Bytes.length_be _ _)

theorem inverts_writeUint (value : UInt64) : Inverts writeUint readMsgpackUint value :=
  inverts_of_parses (fun buf => writeUint_eq buf value) (parses_writeUint value) (wellFormed_uint _ _)

/-- Each reader gets back what its writer appended exactly up to the lengths it knows: strings up to two bytes
of length, byte strings up to four, numbers always. -/
theorem core_writers_inverted (text payload : Bytes) (value : UInt64) :
    (Inverts writeStr readMsgpackStr text ↔ text.length < 65536) ∧
    (Inverts writeBin readMsgpackBin payload ↔ payload.length < 2 ^ 32) ∧
    Inverts writeUint readMsgpackUint value :=
  ⟨inverts_writeStr_iff text, inverts_writeBin_iff payload, inverts_writeUint value⟩

/-- The letter `a`, 65536 times, is written and not read back. -/
theorem writeStr_not_inverted : ¬Inverts writeStr readMsgpackStr (List.replicate 65536 0x61) := by
  rw [inverts_writeStr_iff, List.length_replicate]
  exact Nat.lt_irrefl _

end Leviculum.Msgpack.Core
