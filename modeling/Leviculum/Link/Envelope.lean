import Leviculum.Lib.Bytes

/-! Channel envelopes: `[msgtype: 2 BE] [sequence: 2 BE] [length: 2 BE] [data]`. -/

namespace Leviculum.Link

/-- `CHANNEL_ENVELOPE_HEADER_SIZE`. -/
def envelopeHeaderSize : Nat := 6

/-- `CHANNEL_SEQ_MODULUS`. -/
def seqModulus : Nat := 0x10000

inductive ChannelError where
  | invalidMsgType
  | tooLarge
  | envelopeTooShort
  | envelopeTruncated
  | invalidStreamId
  | busy
  | pacingDelay (readyAtMs : Nat)
  | rxRingFull
  deriving DecidableEq, Repr

structure Envelope where
  msgtype : UInt16
  sequence : UInt16
  data : Bytes
  deriving DecidableEq, Repr

namespace Envelope

/-- `None` when the data does not fit the `u16` length field. -/
def tryNew (msgtype sequence : UInt16) (data : Bytes) : Option Envelope :=
  if data.length > 65535 then none else some ⟨msgtype, sequence, data⟩

def pack (envelope : Envelope) : Bytes :=
  Bytes.be16 envelope.msgtype ++ Bytes.be16 envelope.sequence ++
    Bytes.be16 (UInt16.ofNat envelope.data.length) ++ envelope.data

def unpack (raw : Bytes) : Except ChannelError Envelope :=
  match raw with
  | t₁ :: t₀ :: s₁ :: s₀ :: l₁ :: l₀ :: rest =>
    let length := (Bytes.ofBe16 l₁ l₀).toNat
    if raw.length < envelopeHeaderSize + length then .error .envelopeTruncated
    else .ok ⟨Bytes.ofBe16 t₁ t₀, Bytes.ofBe16 s₁ s₀, rest.take length⟩
  | _ => .error .envelopeTooShort

def packedSize (envelope : Envelope) : Nat := envelopeHeaderSize + envelope.data.length

theorem pack_length (envelope : Envelope) : envelope.pack.length = envelope.packedSize := by
  simp only [pack, packedSize, envelopeHeaderSize, Bytes.be16, List.length_append,
    List.length_cons, List.length_nil]

theorem unpack_pack (envelope : Envelope) (fits : envelope.data.length ≤ 65535) :
    unpack envelope.pack = .ok envelope := by
  have stored : (UInt16.ofNat envelope.data.length).toNat = envelope.data.length := by
    rw [UInt16.toNat_ofNat']
    omega
  have long : ¬ envelope.pack.length < envelopeHeaderSize + envelope.data.length := by
    rw [pack_length, packedSize]
    omega
  simp only [pack, Bytes.be16, List.cons_append, List.nil_append] at long ⊢
  simp only [unpack, Bytes.ofBe16_be16]
  simp only [stored] at long ⊢
  rw [if_neg long, List.take_length]

end Envelope

end Leviculum.Link
