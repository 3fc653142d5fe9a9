import Leviculum.Lib.Wire

/-! HDLC framing of the stream interfaces: flag, escaped payload, flag. -/

namespace Leviculum.Framing.Hdlc

open Wire

def flag : UInt8 := 0x7E

def escape : UInt8 := 0x7D

def escapeXor : UInt8 := 0x20

def needsEscape (byte : UInt8) : Bool := byte == flag || byte == escape

/-! ### Framing -/

def escaped : Bytes → Bytes
  | [] => []
  | byte :: rest => if needsEscape byte then escape :: (byte ^^^ escapeXor) :: escaped rest else byte :: escaped rest

def frame (data : Bytes) : Bytes := flag :: (escaped data ++ [flag])

/-- The loop of `frame_to_slice`. -/
def writeEscaped : Bytes → Cursor.Writing
  | [] => pure ()
  | byte :: rest => do
    if needsEscape byte then
      Cursor.push escape
      Cursor.push (byte ^^^ escapeXor)
    else Cursor.push byte
    writeEscaped rest

/-- The number of bytes written, when the slice is long enough, and the slice afterwards. -/
def frameToSlice (data output : Bytes) : Option Nat × Bytes :=
  Cursor.runOn (do
    Cursor.push flag
    writeEscaped data
    Cursor.push flag) output

theorem puts_writeEscaped (data : Bytes) : Cursor.Puts (writeEscaped data) (escaped data) := by
  induction data with
  | nil => exact Cursor.puts_pure
  | cons byte rest ih =>
    unfold writeEscaped escaped
    by_cases special : needsEscape byte = true
    · simp only [special, ↓reduceIte]
      exact (Cursor.puts_push escape).andThen ((Cursor.puts_push (byte ^^^ escapeXor)).andThen ih)
    · simp only [special]
      exact (Cursor.puts_push byte).andThen ih

theorem frameToSlice_spec (data output : Bytes) :
    ((frame data).length ≤ output.length →
      frameToSlice data output = (some (frame data).length, frame data ++ output.drop (frame data).length)) ∧
    (output.length < (frame data).length → (frameToSlice data output).1 = none) := by
  have puts := (Cursor.puts_push flag).andThen ((puts_writeEscaped data).andThen (Cursor.puts_push flag))
  exact puts.runOn output

/-! ### Deframing -/

inductive DeframeResult where
  | needMore
  | frame (payload : Bytes)
  | tooShort
  | oversized
  deriving DecidableEq

structure Deframer where
  buffer : Bytes
  inFrame : Bool
  escapeNext : Bool
  maxFrame : Nat
  deriving DecidableEq

namespace Deframer

def withMaxFrame (maxFrame : Nat) : Deframer := ⟨[], false, false, maxFrame⟩

def reset (d : Deframer) : Deframer := { d with buffer := [], inFrame := false, escapeNext := false }

/-- Buffer one byte, or drop the whole frame when it would grow past the limit. -/
def push (d : Deframer) (byte : UInt8) : Option DeframeResult × Deframer :=
  if d.buffer.length ≥ d.maxFrame then (some .oversized, d.reset)
  else (none, { d with buffer := d.buffer ++ [byte] })

def finalizeFrame (d : Deframer) : DeframeResult := if d.buffer.isEmpty then .tooShort else .frame d.buffer

def processByte (d : Deframer) (byte : UInt8) : Option DeframeResult × Deframer :=
  if byte = flag then
    if d.inFrame && !d.buffer.isEmpty then (some d.finalizeFrame, d.reset)
    else (none, { d with inFrame := true, buffer := [], escapeNext := false })
  else if d.inFrame then
    if d.escapeNext then { d with escapeNext := false }.push (byte ^^^ escapeXor)
    else if byte = escape then (none, { d with escapeNext := true })
    else d.push byte
  else (none, d)

def process (d : Deframer) (data : Bytes) : List DeframeResult × Deframer := feed processByte d data

/-- One call of `process` for each chunk. -/
def processAll (d : Deframer) (chunks : List Bytes) : List DeframeResult × Deframer := feedAll processByte d chunks

/-- Inside a frame of which something has arrived. -/
def stale (d : Deframer) : Bool := d.inFrame && !d.buffer.isEmpty

def emitted (maxFrame : Nat) (payload : Bytes) : DeframeResult :=
  if payload.length ≤ maxFrame then .frame payload else .oversized

/-- What comes of frames: of the first one, the frame that was under way when there was one. -/
def results (d : Deframer) : List Bytes → List DeframeResult
  | [] => []
  | first :: rest =>
    (if d.stale then .frame d.buffer else emitted d.maxFrame first) :: rest.map (emitted d.maxFrame)

/-! ### One frame -/

def opened (maxFrame : Nat) (buffer : Bytes) : Deframer := ⟨buffer, true, false, maxFrame⟩

def idle (maxFrame : Nat) : Deframer := ⟨[], false, false, maxFrame⟩

theorem flag_stale {d : Deframer} (stale : d.stale = true) :
    d.processByte flag = (some (.frame d.buffer), idle d.maxFrame) := by
  unfold Deframer.stale at stale
  have filled : d.buffer.isEmpty = false := by
    rw [Bool.and_eq_true, Bool.not_eq_true'] at stale
    exact stale.2
  rw [processByte, if_pos rfl, if_pos stale, finalizeFrame, filled]
  rfl

theorem flag_fresh {d : Deframer} (fresh : d.stale = false) : d.processByte flag = (none, opened d.maxFrame []) := by
  unfold Deframer.stale at fresh
  simp only [processByte, ↓reduceIte, fresh, Bool.false_eq_true, opened]

theorem push_opened (maxFrame : Nat) (buffer : Bytes) (byte : UInt8) :
    (opened maxFrame buffer).push byte =
      if buffer.length < maxFrame then (none, opened maxFrame (buffer ++ [byte])) else (some .oversized, idle maxFrame) := by
  unfold push opened
  by_cases room : buffer.length < maxFrame
  · simp only [if_pos room, if_neg (Nat.not_le.mpr room), ge_iff_le]
  · simp only [if_neg room, if_pos (Nat.not_lt.mp room), ge_iff_le, reset, idle]

theorem feed_idle (maxFrame : Nat) (payload : Bytes) :
    feed processByte (idle maxFrame) (escaped payload) = ([], idle maxFrame) := by
  have ignored : ∀ byte, byte ≠ flag → (idle maxFrame).processByte byte = (none, idle maxFrame) := by
    intro byte plain
    simp only [processByte, if_neg plain, idle, Bool.false_eq_true, ↓reduceIte]
  induction payload with
  | nil => rfl
  | cons byte rest ih =>
    unfold escaped
    split
    next special =>
      have plain : byte ^^^ escapeXor ≠ flag := by
        unfold needsEscape at special
        rcases (Bool.or_eq_true _ _).mp special with isFlag | isEscape
        · rw [eq_of_beq isFlag]
          decide
        · rw [eq_of_beq isEscape]
          decide
      rw [feed_cons_silent (ignored escape (by decide)), feed_cons_silent (ignored _ plain)]
      exact ih
    next ordinary =>
      have plain : byte ≠ flag := by
        rintro rfl
        exact ordinary rfl
      rw [feed_cons_silent (ignored byte plain)]
      exact ih

theorem feed_byte (maxFrame : Nat) (buffer : Bytes) (byte : UInt8) (rest : Bytes) :
    feed processByte (opened maxFrame buffer) (escaped (byte :: rest)) =
      (((opened maxFrame buffer).push byte).1.toList ++
          (feed processByte ((opened maxFrame buffer).push byte).2 (escaped rest)).1,
        (feed processByte ((opened maxFrame buffer).push byte).2 (escaped rest)).2) := by
  rw [escaped]
  by_cases special : needsEscape byte = true
  · have first : (opened maxFrame buffer).processByte escape = (none, { opened maxFrame buffer with escapeNext := true }) := by
      simp only [processByte, opened, ↓reduceIte, show escape ≠ flag by decide, Bool.false_eq_true]
    have second : processByte { opened maxFrame buffer with escapeNext := true } (byte ^^^ escapeXor) =
        (opened maxFrame buffer).push byte := by
      unfold needsEscape at special
      rcases (Bool.or_eq_true _ _).mp special with isFlag | isEscape
      · rw [eq_of_beq isFlag]
        rfl
      · rw [eq_of_beq isEscape]
        rfl
    rw [if_pos special, feed_cons_silent first, feed_cons, second]
  · have plain : byte ≠ flag ∧ byte ≠ escape := by
      unfold needsEscape at special
      simpa using special
    have only : (opened maxFrame buffer).processByte byte = (opened maxFrame buffer).push byte := by
      simp only [processByte, if_neg plain.1, opened, ↓reduceIte, Bool.false_eq_true, if_neg plain.2]
    rw [if_neg special, feed_cons, only]

theorem feed_payload {maxFrame : Nat} {buffer : Bytes} (payload : Bytes) (room : buffer.length ≤ maxFrame) :
    feed processByte (opened maxFrame buffer) (escaped payload) =
      if buffer.length + payload.length ≤ maxFrame then ([], opened maxFrame (buffer ++ payload))
      else ([.oversized], idle maxFrame) := by
  induction payload generalizing buffer with
  | nil => simp [escaped, feed, room]
  | cons byte rest ih =>
    rw [feed_byte, push_opened]
    by_cases more : buffer.length < maxFrame
    · rw [if_pos more]
      dsimp only
      have length : (buffer ++ [byte]).length + rest.length = buffer.length + (byte :: rest).length := by
        simp only [List.length_append, List.length_cons, List.length_nil]
        omega
      rw [ih (by rw [List.length_append]; exact more), length, List.append_assoc]
      split_ifs
      · rfl
      · rfl
    · rw [if_neg more, if_neg (by rw [List.length_cons]; omega)]
      dsimp only
      rw [feed_idle]
      rfl

theorem feed_frame {d : Deframer} (fresh : d.stale = false) {payload : Bytes} (filled : payload ≠ []) :
    ∃ after, feed processByte d (frame payload) = ([emitted d.maxFrame payload], after) ∧
      after.stale = false ∧ after.maxFrame = d.maxFrame := by
  rw [frame, feed_cons_silent (flag_fresh fresh), feed_append, feed_payload payload (Nat.zero_le _)]
  simp only [List.length_nil, Nat.zero_add, List.nil_append, emitted]
  by_cases fits : payload.length ≤ d.maxFrame
  · have inside : (opened d.maxFrame payload).stale = true := by
      simp only [stale, opened, Bool.true_and, Bool.not_eq_true', List.isEmpty_eq_false_iff]
      exact filled
    refine ⟨idle d.maxFrame, ?_, rfl, rfl⟩
    simp only [if_pos fits, feed_cons_emit (flag_stale inside)]
    rfl
  · refine ⟨opened d.maxFrame [], ?_, rfl, rfl⟩
    simp only [if_neg fits]
    rw [feed_cons_silent (flag_fresh rfl)]
    rfl

theorem feed_frame_stale {d : Deframer} (stale : d.stale = true) (payload : Bytes) :
    feed processByte d (frame payload) = ([.frame d.buffer], opened d.maxFrame []) := by
  rw [frame, feed_cons_emit (flag_stale stale), feed_append, feed_idle]
  rw [feed_cons_silent (flag_fresh rfl)]
  rfl

/-! ### Streams -/

theorem feed_frames {d : Deframer} (fresh : d.stale = false) {payloads : List Bytes}
    (filled : ∀ payload ∈ payloads, payload ≠ []) :
    (feed processByte d (payloads.map frame).flatten).1 = payloads.map (emitted d.maxFrame) := by
  induction payloads generalizing d with
  | nil => rfl
  | cons first rest ih =>
    obtain ⟨after, frame_, fresh', limit⟩ := feed_frame fresh (filled first List.mem_cons_self)
    rw [List.map_cons, List.flatten_cons, feed_append, frame_, List.map_cons]
    dsimp only
    rw [ih fresh' fun payload member => filled payload (List.mem_cons_of_mem _ member), limit]
    rfl

theorem processAll_frames (d : Deframer) {payloads : List Bytes} (filled : ∀ payload ∈ payloads, payload ≠ [])
    {chunks : List Bytes} (stream : chunks.flatten = (payloads.map frame).flatten) :
    (d.processAll chunks).1 = d.results payloads := by
  rw [processAll, feedAll_eq, stream]
  cases payloads with
  | nil => rfl
  | cons first rest =>
    have later : ∀ payload ∈ rest, payload ≠ [] := fun payload member => filled payload (List.mem_cons_of_mem _ member)
    rw [results]
    by_cases stale : d.stale = true
    · rw [List.map_cons, List.flatten_cons, feed_append, feed_frame_stale stale, if_pos stale]
      dsimp only
      rw [feed_frames rfl later]
      rfl
    · have all := feed_frames (Bool.eq_false_iff.mpr stale) filled
      rw [all, if_neg stale, List.map_cons]

theorem processByte_bounded {d : Deframer} (bounded : d.buffer.length ≤ d.maxFrame) (byte : UInt8) :
    (d.processByte byte).2.buffer.length ≤ d.maxFrame ∧ (d.processByte byte).2.maxFrame = d.maxFrame := by
  have pushed : ∀ (d : Deframer) (byte : UInt8), d.buffer.length ≤ d.maxFrame →
      (d.push byte).2.buffer.length ≤ d.maxFrame ∧ (d.push byte).2.maxFrame = d.maxFrame := by
    intro d byte bounded
    unfold push
    split
    · exact ⟨Nat.zero_le _, rfl⟩
    next room =>
      refine ⟨?_, rfl⟩
      rw [List.length_append, List.length_singleton]
      omega
  unfold processByte
  split_ifs
  · exact ⟨Nat.zero_le _, rfl⟩
  · exact ⟨Nat.zero_le _, rfl⟩
  · exact pushed { d with escapeNext := false } _ bounded
  · exact ⟨bounded, rfl⟩
  · exact pushed d byte bounded
  · exact ⟨bounded, rfl⟩

theorem process_bounded {d : Deframer} (bounded : d.buffer.length ≤ d.maxFrame) (data : Bytes) :
    (d.process data).2.buffer.length ≤ d.maxFrame := by
  have kept : (d.process data).2.buffer.length ≤ (d.process data).2.maxFrame ∧
      (d.process data).2.maxFrame = d.maxFrame := by
    apply feed_invariant (fun state : Deframer => state.buffer.length ≤ state.maxFrame ∧ state.maxFrame = d.maxFrame)
    · intro state byte now
      obtain ⟨small, same⟩ := processByte_bounded now.1 byte
      exact ⟨same ▸ small, same.trans now.2⟩
    · exact ⟨bounded, rfl⟩
  exact kept.2 ▸ kept.1

end Deframer

/-- However the frames are cut, every one of them comes out whole and in order, but for the first when it
arrives inside a frame; one past the limit is reported once. -/
theorem hdlc_transparent (d : Deframer) (payloads : List Bytes) (filled : ∀ payload ∈ payloads, payload ≠ [])
    (chunks : List Bytes) (stream : chunks.flatten = (payloads.map frame).flatten) :
    (d.processAll chunks).1 = d.results payloads ∧
    (∀ maxFrame data, ((Deframer.withMaxFrame maxFrame).process data).2.buffer.length ≤ maxFrame) ∧
    (d.buffer.length ≤ d.maxFrame → ∀ data, (d.process data).2.buffer.length ≤ d.maxFrame) ∧
    ∀ data output,
      ((frame data).length ≤ output.length →
        frameToSlice data output = (some (frame data).length, frame data ++ output.drop (frame data).length)) ∧
      (output.length < (frame data).length → (frameToSlice data output).1 = none) := by
  refine ⟨d.processAll_frames filled stream, ?_, fun bounded data => Deframer.process_bounded bounded data,
    frameToSlice_spec⟩
  intro maxFrame data
  exact Deframer.process_bounded (d := Deframer.withMaxFrame maxFrame) (Nat.zero_le _) data

theorem hdlc_transparent_oversized :
    ((Deframer.withMaxFrame 4).processAll
        [[0x7E, 0x7D], [0x5E, 0x7E, 0x7E, 1, 2, 3], [4, 5, 6, 0x7E], [0x7E, 9, 0x7E]]).1 =
      [.frame [0x7E], .oversized, .frame [9]] :=
  (hdlc_transparent (Deframer.withMaxFrame 4) [[0x7E], [1, 2, 3, 4, 5, 6], [9]] (by decide)
    [[0x7E, 0x7D], [0x5E, 0x7E, 0x7E, 1, 2, 3], [4, 5, 6, 0x7E], [0x7E, 9, 0x7E]] (by decide)).1

end Leviculum.Framing.Hdlc
