import Leviculum.Link.Envelope

/-! Byte streams over a channel: a writer buffers what it is given, cuts it into messages, and marks the
message that ends the stream. -/

namespace Leviculum.Link

def streamIdMax : UInt16 := 0x3fff

def maxChunkLen : Nat := 16 * 1024

def compressionMinSize : Nat := 32

def compressionTries : Nat := 4

def maxDecompressSize : Nat := 1024 * 1024

structure StreamDataMessage where
  streamId : UInt16
  compressed : Bool
  eof : Bool
  data : Bytes
  deriving DecidableEq

namespace StreamDataMessage

/-- `none` where the constructor panics on the stream id. -/
def new (streamId : UInt16) (data : Bytes) (eof compressed : Bool) : Option StreamDataMessage :=
  if streamId > streamIdMax then none else some ⟨streamId, compressed, eof, data⟩

/-- The id in fourteen bits, the two flags above it. -/
def header (message : StreamDataMessage) : Nat :=
  message.streamId.toNat % 2 ^ 14 + 2 ^ 14 * message.compressed.toNat + 2 ^ 15 * message.eof.toNat

def pack (message : StreamDataMessage) : Bytes := Bytes.be16 (UInt16.ofNat message.header) ++ message.data

/-- `none` for bytes too short to hold the header. -/
def unpack (data : Bytes) : Option StreamDataMessage :=
  match data with
  | high :: low :: payload =>
    let header := (Bytes.ofBe16 high low).toNat
    some ⟨UInt16.ofNat (header % 2 ^ 14), header / 2 ^ 14 % 2 = 1, header / 2 ^ 15 % 2 = 1, payload⟩
  | _ => none

theorem unpack_pack {message : StreamDataMessage} (valid : message.streamId ≤ streamIdMax) :
    unpack message.pack = some message := by
  obtain ⟨streamId, compressed, eof, data⟩ := message
  have small : streamId.toNat ≤ 16383 := UInt16.le_iff_toNat_le.mp valid
  have value : (UInt16.ofNat (header ⟨streamId, compressed, eof, data⟩)).toNat =
      streamId.toNat + 2 ^ 14 * compressed.toNat + 2 ^ 15 * eof.toNat := by
    have c := Bool.toNat_lt compressed
    have e := Bool.toNat_lt eof
    simp only [header, UInt16.toNat_ofNat']
    omega
  simp only [pack, Bytes.be16, List.cons_append, List.nil_append, unpack, Bytes.ofBe16_be16]
  rw [value]
  have id : UInt16.ofNat ((streamId.toNat + 2 ^ 14 * compressed.toNat + 2 ^ 15 * eof.toNat) % 2 ^ 14) = streamId := by
    apply UInt16.toNat_inj.mp
    simp only [UInt16.toNat_ofNat']
    omega
  have packed : decide ((streamId.toNat + 2 ^ 14 * compressed.toNat + 2 ^ 15 * eof.toNat) / 2 ^ 14 % 2 = 1) = compressed := by
    cases compressed <;> simp <;> omega
  have ends : decide ((streamId.toNat + 2 ^ 14 * compressed.toNat + 2 ^ 15 * eof.toNat) / 2 ^ 15 % 2 = 1) = eof := by
    have c := Bool.toNat_lt compressed
    cases eof <;> simp <;> omega
  rw [id, packed, ends]

def content (decompress : Bytes → Nat → Option Bytes) (message : StreamDataMessage) : Option Bytes :=
  if message.compressed then decompress message.data maxDecompressSize else some message.data

end StreamDataMessage

structure RawChannelWriter where
  streamId : UInt16
  maxDataLen : Nat

namespace RawChannelWriter

def prepareChunk (raw : RawChannelWriter) (data : Bytes) (eof : Bool) : Option (StreamDataMessage × Nat) :=
  let chunkLen := min (min data.length maxChunkLen) raw.maxDataLen
  (StreamDataMessage.new raw.streamId (data.take chunkLen) eof false).map (fun message => (message, chunkLen))

def prepareCompressedChunk (raw : RawChannelWriter) (compressedData : Bytes) (eof : Bool) : Option StreamDataMessage :=
  StreamDataMessage.new raw.streamId compressedData eof true

def prepareEof (raw : RawChannelWriter) : Option StreamDataMessage := StreamDataMessage.new raw.streamId [] true false

/-- The tries of `prepare_chunk_compressed`: the first part of the data, ever shorter, that compresses into
a message. -/
def tryCompress (raw : RawChannelWriter) (compress : Bytes → Option Bytes) (data : Bytes) (chunkLen : Nat) :
    List Nat → Option (Bytes × Nat)
  | [] => none
  | tryNum :: rest =>
    let segmentLen := chunkLen / tryNum
    if segmentLen ≤ compressionMinSize then none
    else
      match compress (data.take segmentLen) with
      | some compressed =>
        if compressed.length < segmentLen ∧ compressed.length ≤ raw.maxDataLen then some (compressed, segmentLen)
        else raw.tryCompress compress data chunkLen rest
      | none => raw.tryCompress compress data chunkLen rest

def prepareChunkCompressed (raw : RawChannelWriter) (compress : Bytes → Option Bytes) (data : Bytes) (eof : Bool) :
    Option (StreamDataMessage × Nat) :=
  let chunkLen := min data.length maxChunkLen
  let found :=
    if chunkLen > compressionMinSize then
      raw.tryCompress compress data chunkLen ((List.range compressionTries).map (· + 1))
    else none
  match found with
  | some (compressed, segmentLen) =>
    (raw.prepareCompressedChunk compressed eof).map (fun message => (message, segmentLen))
  | none => raw.prepareChunk (data.take chunkLen) eof

/-- The loop of `take_pending`; `none` where it would go on for ever or panic. -/
def takeChunks (raw : RawChannelWriter) (eof : Bool) : Nat → Bytes → Option (List StreamDataMessage)
  | _, [] => some []
  | 0, _ :: _ => none
  | fuel + 1, buffer => do
    let isLast := eof && decide (buffer.length ≤ raw.maxDataLen)
    let (message, consumed) ← raw.prepareChunk buffer isLast
    let rest ← raw.takeChunks eof fuel (buffer.drop consumed)
    some (message :: rest)

end RawChannelWriter

structure BufferedChannelWriter where
  raw : RawChannelWriter
  buffer : Bytes
  eof : Bool

namespace BufferedChannelWriter

def new (streamId : UInt16) (maxDataLen : Nat) : BufferedChannelWriter := ⟨⟨streamId, maxDataLen⟩, [], false⟩

def write (writer : BufferedChannelWriter) (data : Bytes) : BufferedChannelWriter :=
  { writer with buffer := writer.buffer ++ data }

def finish (writer : BufferedChannelWriter) : BufferedChannelWriter := { writer with eof := true }

def takePending (writer : BufferedChannelWriter) : Option (List StreamDataMessage × BufferedChannelWriter) := do
  let chunks ← writer.raw.takeChunks writer.eof writer.buffer.length writer.buffer
  let messages ← if writer.eof ∧ chunks = [] then writer.raw.prepareEof.map (fun message => [message]) else some chunks
  let eof := if writer.eof ∧ messages ≠ [] then false else writer.eof
  some (messages, { writer with buffer := [], eof })

end BufferedChannelWriter

/-! ### What the messages carry -/

/-- The flag is on the last message and on no other. -/
def EndsOnce (messages : List StreamDataMessage) : Prop :=
  ∃ front last, messages = front ++ [last] ∧ last.eof = true ∧ ∀ message ∈ front, message.eof = false

theorem endsOnce_singleton (message : StreamDataMessage) : EndsOnce [message] ↔ message.eof = true := by
  constructor
  · rintro ⟨front, last, split, flagged, -⟩
    obtain ⟨rfl, rfl⟩ : front = [] ∧ message = last := by
      have sizes := congrArg List.length split
      rw [List.length_append, List.length_singleton, List.length_singleton] at sizes
      have empty : front = [] := List.eq_nil_of_length_eq_zero (by omega)
      subst empty
      exact ⟨rfl, List.singleton_inj.mp split⟩
    exact flagged
  · intro flagged
    exact ⟨[], message, rfl, flagged, fun _ member => absurd member List.not_mem_nil⟩

theorem endsOnce_append {early late : List StreamDataMessage} (more : late ≠ []) :
    EndsOnce (early ++ late) ↔ (∀ message ∈ early, message.eof = false) ∧ EndsOnce late := by
  constructor
  · rintro ⟨front, last, split, flagged, plain⟩
    obtain ⟨rest, final, rfl⟩ : ∃ rest final, late = rest ++ [final] :=
      ⟨_, _, (List.dropLast_append_getLast more).symm⟩
    rw [← List.append_assoc] at split
    obtain ⟨rfl, same⟩ := List.append_inj' split rfl
    obtain rfl := List.singleton_inj.mp same
    exact ⟨fun message member => plain message (List.mem_append_left _ member), rest, final, rfl, flagged,
      fun message member => plain message (List.mem_append_right _ member)⟩
  · rintro ⟨plain, front, last, rfl, flagged, plain'⟩
    refine ⟨early ++ front, last, (List.append_assoc _ _ _).symm, flagged, ?_⟩
    intro message member
    rcases List.mem_append.mp member with left | right
    · exact plain message left
    · exact plain' message right

namespace RawChannelWriter

/-- How much one message of the loop carries when there is more. -/
def stride (raw : RawChannelWriter) : Nat := min maxChunkLen raw.maxDataLen

structure Carries (raw : RawChannelWriter) (message : StreamDataMessage) : Prop where
  id : message.streamId = raw.streamId
  plain : message.compressed = false
  fits : message.data.length ≤ raw.maxDataLen

/-- No message but the last leaves a rest that would fit one message. -/
def Clean (raw : RawChannelWriter) (length : Nat) : Prop :=
  length ≤ raw.stride ∨ raw.maxDataLen < (length - 1) % raw.stride + 1 + raw.stride

theorem clean_iff (raw : RawChannelWriter) (length : Nat) :
    raw.Clean length ↔ raw.maxDataLen ≤ maxChunkLen ∨ length ≤ maxChunkLen ∨
      raw.maxDataLen < (length - 1) % maxChunkLen + 1 + maxChunkLen := by
  unfold Clean stride
  by_cases small : raw.maxDataLen ≤ maxChunkLen
  · rw [Nat.min_eq_right small]
    omega
  · rw [Nat.min_eq_left (by omega)]
    omega

theorem clean_step {raw : RawChannelWriter} (positive : 0 < raw.stride) {length : Nat} (more : raw.stride < length) :
    raw.Clean length ↔ raw.maxDataLen < length ∧ raw.Clean (length - raw.stride) := by
  have same : (length - 1) % raw.stride = (length - raw.stride - 1) % raw.stride := by
    rw [← Nat.add_mod_right (length - raw.stride - 1) raw.stride]
    congr 1
    omega
  have below := Nat.mod_lt (length - raw.stride - 1) positive
  unfold Clean
  rw [same]
  by_cases last : length - raw.stride ≤ raw.stride
  · rw [Nat.mod_eq_of_lt (by omega)]
    omega
  · omega

theorem prepareChunk_eq {raw : RawChannelWriter} (valid : raw.streamId ≤ streamIdMax) (data : Bytes) (eof : Bool) :
    raw.prepareChunk data eof =
      some (⟨raw.streamId, false, eof, data.take (min data.length raw.stride)⟩, min data.length raw.stride) := by
  rw [prepareChunk, StreamDataMessage.new, if_neg (UInt16.not_lt.mpr valid), Nat.min_assoc]
  rfl

theorem takeChunks_nil (raw : RawChannelWriter) (eof : Bool) (fuel : Nat) : raw.takeChunks eof fuel [] = some [] := by
  cases fuel <;> rfl

/-- The loop cuts the whole buffer; with the flag up, it is on the last message only exactly when every rest
before it is longer than a message. -/
theorem takeChunks_spec {raw : RawChannelWriter} (valid : raw.streamId ≤ streamIdMax) (positive : 1 ≤ raw.maxDataLen)
    (eof : Bool) {fuel : Nat} {buffer : Bytes} (enough : buffer.length ≤ fuel) :
    ∃ messages, raw.takeChunks eof fuel buffer = some messages ∧
      (messages.map StreamDataMessage.data).flatten = buffer ∧
      (∀ message ∈ messages, raw.Carries message) ∧
      (messages = [] ↔ buffer = []) ∧
      (eof = false → ∀ message ∈ messages, message.eof = false) ∧
      (eof = true → buffer ≠ [] → (EndsOnce messages ↔ raw.Clean buffer.length)) := by
  have stride : 0 < raw.stride := by
    unfold RawChannelWriter.stride maxChunkLen
    omega
  have narrow : raw.stride ≤ raw.maxDataLen := Nat.min_le_right _ _
  induction fuel generalizing buffer with
  | zero =>
    obtain rfl := List.eq_nil_of_length_eq_zero (Nat.le_zero.mp enough)
    exact ⟨[], rfl, rfl, fun _ member => absurd member List.not_mem_nil, by simp, fun _ _ member => absurd member List.not_mem_nil,
      fun _ filled => absurd rfl filled⟩
  | succ fuel ih =>
    by_cases empty : buffer = []
    · subst empty
      exact ⟨[], takeChunks_nil raw eof _, rfl, fun _ member => absurd member List.not_mem_nil, by simp,
        fun _ _ member => absurd member List.not_mem_nil, fun _ filled => absurd rfl filled⟩
    · have some_ := List.length_pos_iff.mpr empty
      obtain ⟨rest, cut, whole, carried, end_, unflagged, once⟩ :=
        ih (show (buffer.drop (min buffer.length raw.stride)).length ≤ fuel by rw [List.length_drop]; omega)
      let message : StreamDataMessage :=
        ⟨raw.streamId, false, eof && decide (buffer.length ≤ raw.maxDataLen), buffer.take (min buffer.length raw.stride)⟩
      have taken : raw.takeChunks eof (fuel + 1) buffer = some (message :: rest) := by
        obtain ⟨byte, bytes, rfl⟩ := List.exists_cons_of_ne_nil empty
        rw [takeChunks]
        · simp only [prepareChunk_eq valid, Option.bind_eq_bind, Option.bind_some, cut, message]
        · exact List.cons_ne_nil byte bytes
      refine ⟨message :: rest, taken, ?_, ?_, ?_, ?_, ?_⟩
      · rw [List.map_cons, List.flatten_cons, whole]
        exact List.take_append_drop _ _
      · intro other member
        rcases List.mem_cons.mp member with rfl | later
        · refine ⟨rfl, rfl, ?_⟩
          show (buffer.take _).length ≤ _
          rw [List.length_take]
          omega
        · exact carried other later
      · simp [empty]
      · intro open_ other member
        rcases List.mem_cons.mp member with rfl | later
        · simp [message, open_]
        · exact unflagged open_ other later
      · intro closing _
        have flag : message.eof = decide (buffer.length ≤ raw.maxDataLen) := by simp [message, closing]
        by_cases final : buffer.length ≤ raw.stride
        · have nothing : rest = [] := end_.mpr (by rw [Nat.min_eq_left final, List.drop_length])
          rw [nothing, endsOnce_singleton, flag]
          simp only [decide_eq_true_eq, Clean]
          constructor
          · intro _
            exact .inl final
          · intro _
            omega
        · have left : buffer.drop (min buffer.length raw.stride) ≠ [] := by
            rw [← List.length_pos_iff, List.length_drop]
            omega
          have rest_ : rest ≠ [] := fun nothing => left (end_.mp nothing)
          have size : (buffer.drop (min buffer.length raw.stride)).length = buffer.length - raw.stride := by
            rw [List.length_drop, Nat.min_eq_right (by omega)]
          rw [clean_step stride (Nat.not_le.mp final), ← List.singleton_append, endsOnce_append rest_,
            once closing left, size]
          simp [flag]

/-- A chunk with its data compressed, when that pays, still stands for the first part of the data. -/
theorem prepareChunkCompressed_spec (raw : RawChannelWriter) (valid : raw.streamId ≤ streamIdMax)
    (positive : 1 ≤ raw.maxDataLen) {compress : Bytes → Option Bytes} {decompress : Bytes → Nat → Option Bytes}
    (inverse : ∀ data packed, compress data = some packed → data.length ≤ maxDecompressSize →
      decompress packed maxDecompressSize = some data) (data : Bytes) (eof : Bool) :
    ∃ message consumed, raw.prepareChunkCompressed compress data eof = some (message, consumed) ∧
      message.streamId = raw.streamId ∧ message.eof = eof ∧ message.data.length ≤ raw.maxDataLen ∧
      consumed ≤ data.length ∧ (data ≠ [] → 0 < consumed) ∧
      message.content decompress = some (data.take consumed) := by
  have tries : ∀ numbers packed length,
      raw.tryCompress compress data (min data.length maxChunkLen) numbers = some (packed, length) →
        compress (data.take length) = some packed ∧ packed.length ≤ raw.maxDataLen ∧ compressionMinSize < length ∧
          length ≤ min data.length maxChunkLen := by
    intro numbers
    induction numbers with
    | nil =>
      intro packed length found
      cases found
    | cons number numbers ih =>
      intro packed length found
      rw [tryCompress] at found
      split at found
      next => cases found
      next long =>
        split at found
        next compressed shrunk =>
          split at found
          next fits =>
            obtain ⟨rfl, rfl⟩ := Prod.mk.inj (Option.some.inj found)
            exact ⟨shrunk, fits.2, Nat.not_le.mp long, Nat.div_le_self _ _⟩
          next => exact ih packed length found
        next => exact ih packed length found
  unfold prepareChunkCompressed
  dsimp only
  split
  next packed length found =>
    split at found
    next =>
      obtain ⟨shrunk, fits, long, short⟩ := tries _ packed length found
      refine ⟨⟨raw.streamId, true, eof, packed⟩, length, ?_, rfl, rfl, fits, by omega, fun _ => by omega, ?_⟩
      · rw [prepareCompressedChunk, StreamDataMessage.new, if_neg (UInt16.not_lt.mpr valid)]
        rfl
      · have within : (data.take length).length ≤ maxDecompressSize := by
          rw [List.length_take]
          unfold maxChunkLen maxDecompressSize at *
          omega
        simp [StreamDataMessage.content, inverse _ _ shrunk within]
    next => cases found
  next =>
    have stride : 0 < raw.stride := by
      unfold RawChannelWriter.stride maxChunkLen
      omega
    have narrow : raw.stride ≤ raw.maxDataLen := Nat.min_le_right _ _
    have wide : raw.stride ≤ maxChunkLen := Nat.min_le_left _ _
    refine ⟨_, _, prepareChunk_eq valid _ eof, rfl, rfl, ?_, ?_, ?_, ?_⟩
    · simp only [List.length_take]
      omega
    · simp only [List.length_take]
      omega
    · intro filled
      have some_ := List.length_pos_iff.mpr filled
      unfold maxChunkLen at *
      simp only [List.length_take]
      omega
    · simp only [StreamDataMessage.content, List.length_take, List.take_take, Bool.false_eq_true, ↓reduceIte]
      congr 2
      omega

end RawChannelWriter

/-! ### Whole streams -/

inductive StreamOp where
  | write (data : Bytes)
  | take

def written (ops : List StreamOp) : Bytes :=
  (ops.map (fun op => match op with
    | .write data => data
    | .take => [])).flatten

namespace BufferedChannelWriter

def run (writer : BufferedChannelWriter) : List StreamOp → Option (List StreamDataMessage × BufferedChannelWriter)
  | [] => some ([], writer)
  | .write data :: ops => (writer.write data).run ops
  | .take :: ops => do
    let (messages, next) ← writer.takePending
    let (more, last) ← next.run ops
    some (messages ++ more, last)

theorem takePending_open {writer : BufferedChannelWriter} (valid : writer.raw.streamId ≤ streamIdMax)
    (positive : 1 ≤ writer.raw.maxDataLen) (opened : writer.eof = false) :
    ∃ messages, writer.takePending = some (messages, { writer with buffer := [] }) ∧
      (messages.map StreamDataMessage.data).flatten = writer.buffer ∧
      (∀ message ∈ messages, writer.raw.Carries message) ∧ ∀ message ∈ messages, message.eof = false := by
  obtain ⟨messages, cut, whole, carried, -, unflagged, -⟩ :=
    RawChannelWriter.takeChunks_spec valid positive writer.eof (Nat.le_refl writer.buffer.length)
  refine ⟨messages, ?_, whole, carried, unflagged opened⟩
  rw [opened] at cut
  simp [takePending, cut, opened]

theorem takePending_closing (writer : BufferedChannelWriter) (valid : writer.raw.streamId ≤ streamIdMax)
    (positive : 1 ≤ writer.raw.maxDataLen) :
    ∃ messages, writer.finish.takePending = some (messages, { writer with buffer := [], eof := false }) ∧
      (messages.map StreamDataMessage.data).flatten = writer.buffer ∧
      (∀ message ∈ messages, writer.raw.Carries message) ∧ messages ≠ [] ∧
      (EndsOnce messages ↔ writer.raw.Clean writer.buffer.length) := by
  obtain ⟨messages, cut, whole, carried, end_, -, once⟩ :=
    RawChannelWriter.takeChunks_spec valid positive true (Nat.le_refl writer.buffer.length)
  by_cases empty : writer.buffer = []
  · have nothing := end_.mpr empty
    refine ⟨[⟨writer.raw.streamId, false, true, []⟩], ?_, ?_, ?_, by simp, ?_⟩
    · have marker : writer.raw.prepareEof = some ⟨writer.raw.streamId, false, true, []⟩ := by
        rw [RawChannelWriter.prepareEof, StreamDataMessage.new, if_neg (UInt16.not_lt.mpr valid)]
      simp [takePending, finish, empty, RawChannelWriter.takeChunks_nil, marker]
    · simp [empty]
    · intro message member
      obtain rfl := List.mem_singleton.mp member
      exact ⟨rfl, rfl, Nat.zero_le _⟩
    · rw [endsOnce_singleton, empty]
      exact iff_of_true rfl (.inl (Nat.zero_le _))
  · have some_ : messages ≠ [] := fun nothing => empty (end_.mp nothing)
    refine ⟨messages, ?_, whole, carried, some_, once rfl empty⟩
    simp [takePending, finish, cut, some_]

theorem run_spec (writer : BufferedChannelWriter) (valid : writer.raw.streamId ≤ streamIdMax)
    (positive : 1 ≤ writer.raw.maxDataLen) (opened : writer.eof = false) (ops : List StreamOp) :
    ∃ messages last, writer.run ops = some (messages, last) ∧ last.raw = writer.raw ∧ last.eof = false ∧
      (messages.map StreamDataMessage.data).flatten ++ last.buffer = writer.buffer ++ written ops ∧
      (∀ message ∈ messages, writer.raw.Carries message) ∧ ∀ message ∈ messages, message.eof = false := by
  induction ops generalizing writer with
  | nil =>
    refine ⟨[], writer, rfl, rfl, opened, ?_, fun _ member => absurd member List.not_mem_nil, fun _ member => absurd member List.not_mem_nil⟩
    simp [written]
  | cons op ops ih =>
    cases op with
    | write data =>
      obtain ⟨messages, last, went, raw, open_, whole, carried, unflagged⟩ :=
        ih (writer.write data) valid positive opened
      refine ⟨messages, last, went, raw, open_, ?_, carried, unflagged⟩
      rw [whole]
      simp [write, written]
    | take =>
      obtain ⟨first, taken, whole, carried, unflagged⟩ := takePending_open valid positive opened
      obtain ⟨messages, last, went, raw, open_, whole', carried', unflagged'⟩ :=
        ih { writer with buffer := [] } valid positive opened
      refine ⟨first ++ messages, last, by simp [run, taken, went], raw, open_, ?_, ?_, ?_⟩
      · rw [List.map_append, List.flatten_append, List.append_assoc, whole', whole]
        simp [written]
      · intro message member
        rcases List.mem_append.mp member with early | late
        · exact carried message early
        · exact carried' message late
      · intro message member
        rcases List.mem_append.mp member with early | late
        · exact unflagged message early
        · exact unflagged' message late

end BufferedChannelWriter

/-- Nothing written is lost or reordered, whatever the takes between the writes, and each message fits; a
closed stream is flagged once, on its last message, exactly when no message before it was cut short of a rest
that would have fit. A compressed chunk stands for the bytes it consumed. -/
theorem stream_writer_ends_once (compress : Bytes → Option Bytes) (decompress : Bytes → Nat → Option Bytes)
    (inverse : ∀ data packed, compress data = some packed → data.length ≤ maxDecompressSize →
      decompress packed maxDecompressSize = some data)
    (streamId : UInt16) (valid : streamId ≤ streamIdMax) (maxDataLen : Nat) (positive : 1 ≤ maxDataLen) :
    (∀ ops : List StreamOp, ∃ sent writer closing closed,
      (BufferedChannelWriter.new streamId maxDataLen).run ops = some (sent, writer) ∧
      writer.finish.takePending = some (closing, closed) ∧ closed.takePending = some ([], closed) ∧
      ((sent ++ closing).map StreamDataMessage.data).flatten = written ops ∧
      (∀ message ∈ sent ++ closing, message.content decompress = some message.data ∧
        message.data.length ≤ maxDataLen ∧ StreamDataMessage.unpack message.pack = some message) ∧
      (∀ message ∈ sent, message.eof = false) ∧
      (EndsOnce (sent ++ closing) ↔ maxDataLen ≤ maxChunkLen ∨ writer.buffer.length ≤ maxChunkLen ∨
        maxDataLen < (writer.buffer.length - 1) % maxChunkLen + 1 + maxChunkLen)) ∧
    ∀ data eof, ∃ message consumed,
      (RawChannelWriter.mk streamId maxDataLen).prepareChunkCompressed compress data eof = some (message, consumed) ∧
      message.eof = eof ∧ message.data.length ≤ maxDataLen ∧ consumed ≤ data.length ∧ (data ≠ [] → 0 < consumed) ∧
      message.content decompress = some (data.take consumed) ∧
      StreamDataMessage.unpack message.pack = some message := by
  constructor
  · intro ops
    obtain ⟨sent, writer, went, raw, opened, whole, carried, unflagged⟩ :=
      BufferedChannelWriter.run_spec (.new streamId maxDataLen) valid positive rfl ops
    have valid' : writer.raw.streamId ≤ streamIdMax := raw ▸ valid
    have positive' : 1 ≤ writer.raw.maxDataLen := raw ▸ positive
    obtain ⟨closing, taken, whole', carried', some_, once⟩ := BufferedChannelWriter.takePending_closing writer valid' positive'
    have carries : ∀ message ∈ sent ++ closing, (RawChannelWriter.mk streamId maxDataLen).Carries message := by
      intro message member
      rcases List.mem_append.mp member with early | late
      · exact carried message early
      · rw [raw] at carried'
        exact carried' message late
    refine ⟨sent, writer, closing, _, went, taken, ?_, ?_, ?_, unflagged, ?_⟩
    · simp [BufferedChannelWriter.takePending, RawChannelWriter.takeChunks_nil]
    · rw [List.map_append, List.flatten_append, whole', whole]
      rfl
    · intro message member
      obtain ⟨id, plain, fits⟩ := carries message member
      refine ⟨by simp [StreamDataMessage.content, plain], fits, StreamDataMessage.unpack_pack ?_⟩
      rw [id]
      exact valid
    · rw [endsOnce_append some_, once, RawChannelWriter.clean_iff, raw]
      simp only [BufferedChannelWriter.new, and_iff_right_iff_imp]
      exact fun _ => unflagged
  · intro data eof
    obtain ⟨message, consumed, prepared, id, flag, fits, within, forward, carried⟩ :=
      RawChannelWriter.prepareChunkCompressed_spec ⟨streamId, maxDataLen⟩ valid positive inverse data eof
    refine ⟨message, consumed, prepared, flag, fits, within, forward, carried, StreamDataMessage.unpack_pack ?_⟩
    rw [id]
    exact valid

/-- Seventeen bytes written in two parts over messages of eight, nothing compressed. -/
theorem stream_writer_ends_once_small :
    ∃ sent writer closing closed,
      (BufferedChannelWriter.new 7 8).run [.write [1, 2, 3], .take, .write (List.replicate 14 9)] = some (sent, writer) ∧
      writer.finish.takePending = some (closing, closed) ∧ EndsOnce (sent ++ closing) := by
  have whole := stream_writer_ends_once (fun _ => none) (fun _ _ => none) (fun _ _ packed _ => by cases packed) 7 (by decide) 8
    (by decide)
  obtain ⟨sent, writer, closing, closed, went, taken, -, -, -, -, once⟩ :=
    whole.1 [.write [1, 2, 3], .take, .write (List.replicate 14 9)]
  exact ⟨sent, writer, closing, closed, went, taken, once.mpr (.inl (by decide))⟩

/-- One byte more than a chunk, in messages that could hold it whole: both messages end the stream. -/
theorem stream_writer_ends_twice :
    ¬ ∃ sent writer closing closed,
      (BufferedChannelWriter.new 0 16385).run [.write (List.replicate 16385 0)] = some (sent, writer) ∧
      writer.finish.takePending = some (closing, closed) ∧ EndsOnce (sent ++ closing) := by
  rintro ⟨sent, writer, closing, closed, went, taken, once⟩
  obtain ⟨rfl, rfl⟩ := Prod.mk.inj (Option.some.inj went)
  obtain ⟨messages, taken', -, -, -, clean⟩ := BufferedChannelWriter.takePending_closing
    ((BufferedChannelWriter.new 0 16385).write (List.replicate 16385 0)) (by decide) (by decide)
  obtain ⟨rfl, -⟩ := Prod.mk.inj (Option.some.inj (taken.symm.trans taken'))
  have size : ((BufferedChannelWriter.new 0 16385).write (List.replicate 16385 0)).buffer.length = 16385 := by
    rw [BufferedChannelWriter.write, BufferedChannelWriter.new, List.nil_append, List.length_replicate]
  have most : ((BufferedChannelWriter.new 0 16385).write (List.replicate 16385 0)).raw.maxDataLen = 16385 := rfl
  rw [List.nil_append, clean, RawChannelWriter.clean_iff, size, most] at once
  unfold maxChunkLen at once
  omega

end Leviculum.Link
