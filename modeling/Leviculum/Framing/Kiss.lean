import Leviculum.Lib.Wire

/-! KISS framing of the serial interfaces: delimiter, command, escaped payload, delimiter. -/

namespace Leviculum.Framing.Kiss

open Wire

def fend : UInt8 := 0xC0

def fesc : UInt8 := 0xDB

def tfend : UInt8 := 0xDC

def tfesc : UInt8 := 0xDD

/-! ### Framing -/

def escaped : Bytes → Bytes
  | [] => []
  | byte :: rest =>
    if byte = fend then fesc :: tfend :: escaped rest
    else if byte = fesc then fesc :: tfesc :: escaped rest
    else byte :: escaped rest

def frame (command : UInt8) (payload : Bytes) : Bytes := fend :: command :: (escaped payload ++ [fend])

/-- The loop of `frame_to_slice`. -/
def writeEscaped : Bytes → Cursor.Writing
  | [] => pure ()
  | byte :: rest => do
    if byte = fend then
      Cursor.push fesc
      Cursor.push tfend
    else if byte = fesc then
      Cursor.push fesc
      Cursor.push tfesc
    else Cursor.push byte
    writeEscaped rest

/-- The number of bytes written, when the slice is long enough, and the slice afterwards. -/
def frameToSlice (command : UInt8) (payload output : Bytes) : Option Nat × Bytes :=
  Cursor.runOn (do
    Cursor.push fend
    Cursor.push command
    writeEscaped payload
    Cursor.push fend) output

theorem puts_writeEscaped (payload : Bytes) : Cursor.Puts (writeEscaped payload) (escaped payload) := by
  induction payload with
  | nil => exact Cursor.puts_pure
  | cons byte rest ih =>
    unfold writeEscaped escaped
    by_cases isFend : byte = fend
    · simp only [isFend, ↓reduceIte]
      exact (Cursor.puts_push fesc).andThen ((Cursor.puts_push tfend).andThen ih)
    · by_cases isFesc : byte = fesc
      · simp only [if_neg isFend, if_pos isFesc]
        exact (Cursor.puts_push fesc).andThen ((Cursor.puts_push tfesc).andThen ih)
      · simp only [if_neg isFend, if_neg isFesc]
        exact (Cursor.puts_push byte).andThen ih

theorem frameToSlice_spec (command : UInt8) (payload output : Bytes) :
    ((frame command payload).length ≤ output.length →
      frameToSlice command payload output =
        (some (frame command payload).length, frame command payload ++ output.drop (frame command payload).length)) ∧
    (output.length < (frame command payload).length → (frameToSlice command payload output).1 = none) := by
  have puts := (Cursor.puts_push fend).andThen ((Cursor.puts_push command).andThen
    ((puts_writeEscaped payload).andThen (Cursor.puts_push fend)))
  exact puts.runOn output

/-! ### Deframing -/

inductive KissDeframeResult where
  | needMore
  | frame (command : UInt8) (payload : Bytes)
  | missingCommand
  deriving DecidableEq

structure KissDeframer where
  buffer : Bytes
  inFrame : Bool
  escapeNext : Bool
  command : Option UInt8
  maxPayload : Nat
  deriving DecidableEq

namespace KissDeframer

def withMaxPayload (maxPayload : Nat) : KissDeframer := ⟨[], false, false, none, maxPayload⟩

def finalizeFrame (d : KissDeframer) : KissDeframeResult :=
  match d.command with
  | some command => .frame command d.buffer
  | none => .missingCommand

/-- A byte past the limit is dropped. -/
def push (d : KissDeframer) (byte : UInt8) : KissDeframer :=
  if d.buffer.length < d.maxPayload then { d with buffer := d.buffer ++ [byte] } else d

def resolve (byte : UInt8) : UInt8 := if byte = tfend then fend else if byte = tfesc then fesc else byte

/-- Inside a frame, at its start: a delimiter also opens the next frame. -/
def begin (d : KissDeframer) : KissDeframer :=
  { d with inFrame := true, command := none, buffer := [], escapeNext := false }

def processByte (d : KissDeframer) (byte : UInt8) : Option KissDeframeResult × KissDeframer :=
  if byte = fend then
    if d.inFrame && d.command.isSome then (some d.finalizeFrame, d.begin) else (none, d.begin)
  else if d.inFrame then
    if d.command.isNone then (none, { d with command := some byte })
    else if d.escapeNext then (none, { d with escapeNext := false }.push (resolve byte))
    else if byte = fesc then (none, { d with escapeNext := true })
    else (none, d.push byte)
  else (none, d)

def process (d : KissDeframer) (data : Bytes) : List KissDeframeResult × KissDeframer := feed processByte d data

/-- One call of `process` for each chunk. -/
def processAll (d : KissDeframer) (chunks : List Bytes) : List KissDeframeResult × KissDeframer :=
  feedAll processByte d chunks

/-- The frame that was under way, which the next delimiter ends. -/
def underWay (d : KissDeframer) : Option KissDeframeResult :=
  if d.inFrame then d.command.map fun command => .frame command d.buffer else none

def delivered (maxPayload : Nat) (frame : UInt8 × Bytes) : KissDeframeResult :=
  .frame frame.1 (frame.2.take maxPayload)

def results (d : KissDeframer) : List (UInt8 × Bytes) → List KissDeframeResult
  | [] => []
  | frames => d.underWay.toList ++ frames.map (delivered d.maxPayload)

/-! ### One frame -/

def opened (maxPayload : Nat) (command : UInt8) (buffer : Bytes) : KissDeframer :=
  ⟨buffer, true, false, some command, maxPayload⟩

def started (maxPayload : Nat) : KissDeframer := ⟨[], true, false, none, maxPayload⟩

theorem processByte_fend (d : KissDeframer) : d.processByte fend = (d.underWay, started d.maxPayload) := by
  unfold processByte underWay finalizeFrame
  rw [if_pos rfl]
  cases d.inFrame with
  | false => rfl
  | true =>
    cases d.command with
    | none => rfl
    | some command => rfl

theorem feed_byte (maxPayload : Nat) (command : UInt8) (buffer : Bytes) (byte : UInt8) (rest : Bytes) :
    feed processByte (opened maxPayload command buffer) (escaped (byte :: rest)) =
      feed processByte ((opened maxPayload command buffer).push byte) (escaped rest) := by
  have first : (opened maxPayload command buffer).processByte fesc =
      (none, { opened maxPayload command buffer with escapeNext := true }) := rfl
  rw [escaped]
  by_cases isFend : byte = fend
  · subst isFend
    rw [if_pos rfl, feed_cons_silent first]
    exact feed_cons_silent rfl
  · rw [if_neg isFend]
    by_cases isFesc : byte = fesc
    · subst isFesc
      rw [if_pos rfl, feed_cons_silent first]
      exact feed_cons_silent rfl
    · have only : (opened maxPayload command buffer).processByte byte =
          (none, (opened maxPayload command buffer).push byte) := by
        simp only [processByte, if_neg isFend, opened, ↓reduceIte, Option.isNone_some, Bool.false_eq_true, if_neg isFesc]
      rw [if_neg isFesc, feed_cons_silent only]

theorem feed_payload {maxPayload : Nat} {buffer : Bytes} (command : UInt8) (payload : Bytes)
    (room : buffer.length ≤ maxPayload) :
    feed processByte (opened maxPayload command buffer) (escaped payload) =
      ([], opened maxPayload command ((buffer ++ payload).take maxPayload)) := by
  induction payload generalizing buffer with
  | nil =>
    rw [List.append_nil, List.take_of_length_le room]
    rfl
  | cons byte rest ih =>
    rw [feed_byte, push]
    by_cases more : buffer.length < maxPayload
    · have pushed : (if (opened maxPayload command buffer).buffer.length < (opened maxPayload command buffer).maxPayload
          then { opened maxPayload command buffer with buffer := (opened maxPayload command buffer).buffer ++ [byte] }
          else opened maxPayload command buffer) = opened maxPayload command (buffer ++ [byte]) := if_pos more
      rw [pushed, ih (by rw [List.length_append]; exact more), List.append_assoc]
      rfl
    · have full : buffer.length = maxPayload := by omega
      have dropped : (if (opened maxPayload command buffer).buffer.length < (opened maxPayload command buffer).maxPayload
          then { opened maxPayload command buffer with buffer := (opened maxPayload command buffer).buffer ++ [byte] }
          else opened maxPayload command buffer) = opened maxPayload command buffer := if_neg more
      rw [dropped, ih room, ← full, List.take_left, List.take_left]

theorem feed_frame (d : KissDeframer) {command : UInt8} (ordinary : command ≠ fend) (payload : Bytes) :
    feed processByte d (frame command payload) =
      (d.underWay.toList ++ [delivered d.maxPayload (command, payload)], started d.maxPayload) := by
  have second : (started d.maxPayload).processByte command = (none, opened d.maxPayload command []) := by
    simp only [processByte, if_neg ordinary, started, ↓reduceIte, Option.isNone_none, opened]
  rw [frame, feed_cons, processByte_fend]
  dsimp only
  rw [feed_cons_silent second, feed_append, feed_payload command payload (Nat.zero_le _), List.nil_append, feed_cons,
    processByte_fend]
  rfl

/-! ### Streams -/

theorem feed_frames (maxPayload : Nat) {frames : List (UInt8 × Bytes)} (ordinary : ∀ frame ∈ frames, frame.1 ≠ fend) :
    (feed processByte (started maxPayload) (frames.map fun f => frame f.1 f.2).flatten).1 =
      frames.map (delivered maxPayload) := by
  induction frames with
  | nil => rfl
  | cons first rest ih =>
    rw [List.map_cons, List.flatten_cons, feed_append, feed_frame _ (ordinary first List.mem_cons_self)]
    have later := ih fun frame member => ordinary frame (List.mem_cons_of_mem _ member)
    rw [List.map_cons, ← later]
    rfl

theorem processAll_frames (d : KissDeframer) {frames : List (UInt8 × Bytes)}
    (ordinary : ∀ frame ∈ frames, frame.1 ≠ fend) {chunks : List Bytes}
    (stream : chunks.flatten = (frames.map fun f => frame f.1 f.2).flatten) :
    (d.processAll chunks).1 = d.results frames := by
  rw [processAll, feedAll_eq, stream]
  cases frames with
  | nil => rfl
  | cons first rest =>
    have later : ∀ frame ∈ rest, frame.1 ≠ fend := fun frame member => ordinary frame (List.mem_cons_of_mem _ member)
    rw [List.map_cons, List.flatten_cons, feed_append, feed_frame d (ordinary first List.mem_cons_self), results]
    · dsimp only
      rw [feed_frames d.maxPayload later, List.append_assoc]
      rfl
    · exact List.cons_ne_nil _ _

end KissDeframer

/-- However the frames are cut, every one of them comes out in order, after the one that was under way; of
a payload past the limit the front comes out. -/
theorem kiss_transparent (d : KissDeframer) (frames : List (UInt8 × Bytes)) (ordinary : ∀ frame ∈ frames, frame.1 ≠ fend)
    (chunks : List Bytes) (stream : chunks.flatten = (frames.map fun f => frame f.1 f.2).flatten) :
    (d.processAll chunks).1 = d.results frames ∧
    ∀ command payload output,
      ((frame command payload).length ≤ output.length →
        frameToSlice command payload output =
          (some (frame command payload).length, frame command payload ++ output.drop (frame command payload).length)) ∧
      (output.length < (frame command payload).length → (frameToSlice command payload output).1 = none) :=
  ⟨d.processAll_frames ordinary stream, frameToSlice_spec⟩

theorem kiss_transparent_mid_frame :
    (KissDeframer.processAll ⟨[7], true, true, some 1, 2⟩ [[0xC0, 0, 0xDB], [0xDC, 1, 2, 0xC0], [0xC0, 5, 0xC0]]).1 =
      [.frame 1 [7], .frame 0 [0xC0, 1], .frame 5 []] :=
  (kiss_transparent ⟨[7], true, true, some 1, 2⟩ [(0, [0xC0, 1, 2]), (5, [])] (by decide)
    [[0xC0, 0, 0xDB], [0xDC, 1, 2, 0xC0], [0xC0, 5, 0xC0]] (by decide)).1

end Leviculum.Framing.Kiss
