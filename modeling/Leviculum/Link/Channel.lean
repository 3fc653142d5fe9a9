import Leviculum.Link.Envelope
import Mathlib.Logic.Function.Iterate

/-! The channel state machine of `link/channel/mod.rs`. The proof hash kept
beside a buffered envelope is opaque to the channel, so its type is a parameter.
Round-trip estimates are `f64` in the source and `Float` here. -/

namespace Leviculum.Link

def windowInitial : Nat := 2
def windowMinSlow : Nat := 2
def windowMinFast : Nat := 16
def windowMinVerySlow : Nat := 1
def windowMaxSlow : Nat := 5
def windowMaxVerySlow : Nat := 3
def windowMaxMedium : Nat := 12
def windowMaxFast : Nat := 48
def rxRingMax : Nat := 512
def channelMaxTries : Nat := 5
def rttFastMs : Nat := 180
def rttMediumMs : Nat := 750
def rttVerySlowMs : Nat := 2000
def msgtypeReserved : UInt16 := 0xf000
def minTimeoutBaseMs : Float := 100.0
def rttTimeoutMultiplier : Float := 2.5
def backoffBase : Float := 1.5

/-- `timed::MSG_EXPIRED`. -/
def msgExpired : UInt16 := 0xFD00

def u64Max : Nat := 2 ^ 64 - 1

def saturatingAdd (a b : Nat) : Nat := min (a + b) u64Max

def powF64 (base : Float) : Nat → Float
  | 0 => 1.0
  | exp + 1 => powF64 base exp * base

def f64Max (a b : Float) : Float := if a < b then b else a

def calculateTimeout (tries rttMs queueLen window : Nat) : Nat :=
  let baseRto := f64Max (Float.ofNat rttMs * rttTimeoutMultiplier) minTimeoutBaseMs
  let retryFactor := powF64 backoffBase (tries - 1)
  let w := f64Max (Float.ofNat window) 1.0
  let queueDelay := Float.ofNat queueLen * (Float.ofNat rttMs / w)
  ((baseRto + queueDelay) * retryFactor).toUInt64.toNat

inductive MessageState where
  | new
  | sent
  | delivered
  | failed
  deriving DecidableEq, Repr

structure OutboundEnvelope where
  envelope : Envelope
  state : MessageState := .new
  tries : Nat := 0
  sentAtMs : Nat := 0
  queueLenAtSend : Nat := 0
  deadlineMs : Option Nat := none

inductive ChannelAction where
  | retransmit (sequence : UInt16) (data : Bytes) (tries : Nat)
  | tearDownLink
  | expired (sequence : UInt16)
  deriving DecidableEq, Repr

inductive ReceiveOutcome where
  | delivered (envelope : Envelope)
  | buffered
  | alreadyDelivered
  | duplicateBuffered
  deriving DecidableEq, Repr

structure Channel (Hash : Type) where
  nextTxSequence : UInt16
  nextRxSequence : UInt16
  txRing : List OutboundEnvelope
  rxRing : List (Option (Envelope × Hash))
  window : Nat
  windowMin : Nat
  windowMax : Nat
  maxTries : Nat
  pacingIntervalMs : Nat
  nextSendAtMs : Nat
  srttMs : Float
  rttvarMs : Float
  minRttMs : Option Nat
  deliveredBytes : Nat
  busyRejections : Nat
  pacingRejections : Nat

variable {Hash : Type}

def Channel.new : Channel Hash where
  nextTxSequence := 0
  nextRxSequence := 0
  txRing := []
  rxRing := []
  window := windowInitial
  windowMin := windowMinSlow
  windowMax := windowMaxSlow
  maxTries := channelMaxTries
  pacingIntervalMs := 0
  nextSendAtMs := 0
  srttMs := 0.0
  rttvarMs := 0.0
  minRttMs := none
  deliveredBytes := 0
  busyRejections := 0
  pacingRejections := 0

namespace Channel

def isReadyToSend (ch : Channel Hash) : Bool := ch.txRing.length < ch.window

/-- The envelope's length field is a `u16`, so no link makes a payload longer. -/
def mdu (linkMdu : Nat) : Nat := min (linkMdu - envelopeHeaderSize) 65535

/-- The successor of a sequence number, modulo `CHANNEL_SEQ_MODULUS`. -/
def sequenceAfter (sequence : UInt16) : UInt16 :=
  UInt16.ofNat ((sequence.toNat + 1) % seqModulus)

def validateMsgtype (msgtype : UInt16) : Except ChannelError Unit :=
  if msgtype ≥ msgtypeReserved then .error .invalidMsgType else .ok ()

def sendRaw (ch : Channel Hash) (msgtype : UInt16) (data : Bytes) (linkMdu nowMs : Nat) :
    Except ChannelError Bytes × Channel Hash :=
  if data.length > mdu linkMdu then (.error .tooLarge, ch)
  else if ¬ ch.isReadyToSend then
    (.error .busy, { ch with busyRejections := saturatingAdd ch.busyRejections 1 })
  else if nowMs < ch.nextSendAtMs then
    (.error (.pacingDelay ch.nextSendAtMs),
      { ch with pacingRejections := saturatingAdd ch.pacingRejections 1 })
  else
    let sequence := ch.nextTxSequence
    let advanced := { ch with nextTxSequence := sequenceAfter ch.nextTxSequence }
    match Envelope.tryNew msgtype sequence data with
    | none => (.error .tooLarge, advanced)
    | some envelope =>
      let outbound : OutboundEnvelope :=
        { envelope, state := .sent, tries := 1, sentAtMs := nowMs,
          queueLenAtSend := ch.txRing.length + 1 }
      (.ok envelope.pack,
        { advanced with
          txRing := ch.txRing ++ [outbound]
          nextSendAtMs := saturatingAdd nowMs ch.pacingIntervalMs })

/-- `send`: reserved message types are refused before anything is touched. -/
def send (ch : Channel Hash) (msgtype : UInt16) (data : Bytes) (linkMdu nowMs : Nat) :
    Except ChannelError Bytes × Channel Hash :=
  match validateMsgtype msgtype with
  | .error e => (.error e, ch)
  | .ok () => ch.sendRaw msgtype data linkMdu nowMs

def sendSystem (ch : Channel Hash) (msgtype : UInt16) (data : Bytes) (linkMdu nowMs : Nat) :
    Except ChannelError Bytes × Channel Hash :=
  ch.sendRaw msgtype data linkMdu nowMs

def sequenceOffset (ch : Channel Hash) (sequence : UInt16) : Nat :=
  let expected := ch.nextRxSequence.toNat
  let received := sequence.toNat
  if received ≥ expected then received - expected else seqModulus - expected + received

/-- Store an envelope at `offset`, padding the ring with placeholders first. -/
def bufferAt (ring : List (Option (Envelope × Hash))) (offset : Nat) (entry : Envelope × Hash) :
    List (Option (Envelope × Hash)) :=
  (ring ++ List.replicate (offset + 1 - ring.length) none).set offset (some entry)

def receiveInner (ch : Channel Hash) (data : Bytes) (proofHash : Hash) (deliverInOrder : Bool) :
    Except ChannelError ReceiveOutcome × Channel Hash :=
  match Envelope.unpack data with
  | .error e => (.error e, ch)
  | .ok envelope =>
    if deliverInOrder ∧ envelope.sequence = ch.nextRxSequence then
      -- the front slot, filled or a placeholder, belongs to this sequence number
      (.ok (.delivered envelope),
        { ch with
          nextRxSequence := sequenceAfter ch.nextRxSequence
          rxRing := ch.rxRing.tail })
    else
      let offset := ch.sequenceOffset envelope.sequence
      if offset ≥ seqModulus / 2 then (.ok .alreadyDelivered, ch)
      else if offset ≥ rxRingMax then (.error .rxRingFull, ch)
      else
        let isDuplicate := (ch.rxRing[offset]?.join).isSome
        (.ok (if isDuplicate then .duplicateBuffered else .buffered),
          { ch with rxRing := bufferAt ch.rxRing offset (envelope, proofHash) })

def receive (ch : Channel Hash) (data : Bytes) (proofHash : Hash) :
    Except ChannelError ReceiveOutcome × Channel Hash :=
  ch.receiveInner data proofHash true

def receiveHeld (ch : Channel Hash) (data : Bytes) (proofHash : Hash) :
    Except ChannelError ReceiveOutcome × Channel Hash :=
  ch.receiveInner data proofHash false

/-- What a drain takes off the ring, what it leaves and the next sequence number. -/
structure Drained (Hash : Type) where
  ready : List (Envelope × Hash)
  rxRing : List (Option (Envelope × Hash))
  nextRxSequence : UInt16

/-- The loop of both drains: `room` is what is left of the limit, and an envelope
whose type `free` accepts does not count against it. -/
def drainLoop (free : UInt16 → Bool) :
    Nat → List (Option (Envelope × Hash)) → UInt16 → Drained Hash
  | _, [], next => ⟨[], [], next⟩
  | _, none :: rest, next => ⟨[], none :: rest, next⟩
  | room, some (envelope, hash) :: rest, next =>
    let costs := ¬ free envelope.msgtype
    if envelope.sequence ≠ next ∨ (costs ∧ room = 0) then
      ⟨[], some (envelope, hash) :: rest, next⟩
    else
      let drained := drainLoop free (if costs then room - 1 else room) rest (sequenceAfter next)
      { drained with ready := (envelope, hash) :: drained.ready }

def drainReceivedBudgeted (ch : Channel Hash) (limit : Nat) (free : UInt16 → Bool) :
    List (Envelope × Hash) × Channel Hash :=
  let drained := drainLoop free limit ch.rxRing ch.nextRxSequence
  (drained.ready,
    { ch with rxRing := drained.rxRing, nextRxSequence := drained.nextRxSequence })

/-- Draining at most `limit` messages is the budgeted drain in which each one counts. -/
def drainReceivedLimit (ch : Channel Hash) (limit : Nat) :
    List (Envelope × Hash) × Channel Hash :=
  ch.drainReceivedBudgeted limit (fun _ => false)

def updateSrtt (ch : Channel Hash) (sampleMs : Nat) : Channel Hash :=
  let sample := Float.ofNat sampleMs
  if ch.srttMs == 0.0 then { ch with srttMs := sample, rttvarMs := sample / 2.0 }
  else
    { ch with
      rttvarMs := 0.75 * ch.rttvarMs + 0.25 * (ch.srttMs - sample).abs
      srttMs := 0.875 * ch.srttMs + 0.125 * sample }

def effectiveRttMs (ch : Channel Hash) (fallbackRttMs : Nat) : Nat :=
  if ch.srttMs > 0.0 then ch.srttMs.toUInt64.toNat else fallbackRttMs

/-- The window limits of the tier a round-trip time falls into: `(min, max)`. -/
def windowTier (rttMs : Nat) : Nat × Nat :=
  if rttMs < rttFastMs then (windowMinFast, windowMaxFast)
  else if rttMs < rttMediumMs then (windowMinSlow, windowMaxMedium)
  else if rttMs < rttVerySlowMs then (windowMinSlow, windowMaxSlow)
  else (windowMinVerySlow, windowMaxVerySlow)

def updateWindowForRtt (ch : Channel Hash) (rttMs : Nat) : Channel Hash :=
  let tier := windowTier rttMs
  { ch with
    windowMin := tier.1
    windowMax := tier.2
    window := min (max ch.window tier.1) tier.2 }

def recalculatePacing (ch : Channel Hash) (rttMs : Nat) : Channel Hash :=
  if ch.window = 0 ∨ rttMs = 0 then ch
  else { ch with pacingIntervalMs := min (max (rttMs / ch.window) 1) rttMs }

def adjustWindow (ch : Channel Hash) (success : Bool) (rttMs : Nat) : Channel Hash :=
  let limited := ch.updateWindowForRtt rttMs
  let window :=
    if success then
      if limited.window < limited.windowMax then limited.window + 1 else limited.window
    else
      if limited.window > limited.windowMin then limited.window - 1 else limited.window
  { limited with window := window }.recalculatePacing rttMs

/-- Karn's rule: a round trip is measured only on a message sent once. -/
def sampleRtt (ch : Channel Hash) (outbound : OutboundEnvelope) (nowMs : Nat) : Channel Hash :=
  let sample := nowMs - outbound.sentAtMs
  if outbound.tries = 1 ∧ sample > 0 then
    { ch.updateSrtt sample with
      minRttMs := some (match ch.minRttMs with | some m => min m sample | none => sample) }
  else ch

def markDelivered (ch : Channel Hash) (sequence : UInt16) (nowMs rttMs : Nat) :
    Bool × Channel Hash :=
  match ch.txRing.findIdx? (fun e => e.envelope.sequence == sequence) with
  | none => (false, ch)
  | some pos =>
    match ch.txRing[pos]? with
    | none => (false, ch)
    | some outbound =>
      let sampled := ch.sampleRtt outbound nowMs
      let removed : Channel Hash :=
        { sampled with
          deliveredBytes := saturatingAdd ch.deliveredBytes outbound.envelope.packedSize
          txRing := ch.txRing.eraseIdx pos }
      let adjusted := removed.adjustWindow true rttMs
      (true, adjusted.recalculatePacing (adjusted.effectiveRttMs rttMs))

def retransmitDueMs (ch : Channel Hash) (outbound : OutboundEnvelope) (effRtt : Nat) :
    Option Nat :=
  if outbound.state ≠ .sent then none
  else some (saturatingAdd outbound.sentAtMs
    (calculateTimeout outbound.tries effRtt outbound.queueLenAtSend ch.window))

/-- Swap one frame past its deadline for an expired marker of the same sequence. -/
def expireEntry (nowMs : Nat) (out : OutboundEnvelope) : OutboundEnvelope × List ChannelAction :=
  match out.deadlineMs with
  | none => (out, [])
  | some deadline =>
    if nowMs ≥ deadline then
      match Envelope.tryNew msgExpired out.envelope.sequence [] with
      | some marker =>
        ({ out with deadlineMs := none, envelope := marker }, [.expired out.envelope.sequence])
      | none => ({ out with deadlineMs := none }, [])
    else (out, [])

def expireDue (ch : Channel Hash) (nowMs : Nat) : List ChannelAction × Channel Hash :=
  let swapped := ch.txRing.map (expireEntry nowMs)
  ((swapped.map Prod.snd).flatten, { ch with txRing := swapped.map Prod.fst })

/-- First pass of `poll`: the ring positions that timed out, with their tries. -/
def timedOut (ch : Channel Hash) (nowMs effRtt : Nat) : List (Nat × Nat) :=
  (ch.txRing.zipIdx.filterMap fun (outbound, i) =>
    match ch.retransmitDueMs outbound effRtt with
    | some due => if nowMs ≥ due then some (i, outbound.tries) else none
    | none => none)

/-- What the second pass of `poll` accumulates. -/
structure PollPass where
  txRing : List OutboundEnvelope
  actions : List ChannelAction
  windowDecrements : Nat
  pacingDoublings : Nat

/-- Second pass of `poll`: it stops at the first envelope out of tries. -/
def retransmitPass (maxTries nowMs : Nat) : List (Nat × Nat) → PollPass → PollPass
  | [], pass => pass
  | (i, tries) :: rest, pass =>
    match pass.txRing[i]? with
    | none => retransmitPass maxTries nowMs rest pass
    | some outbound =>
      if tries ≥ maxTries then
        { pass with
          txRing := pass.txRing.set i { outbound with state := .failed }
          actions := pass.actions ++ [.tearDownLink]
          windowDecrements := pass.windowDecrements + 1 }
      else
        retransmitPass maxTries nowMs rest
          { txRing := pass.txRing.set i { outbound with tries := tries + 1, sentAtMs := nowMs }
            actions := pass.actions ++
              [.retransmit outbound.envelope.sequence outbound.envelope.pack (tries + 1)]
            windowDecrements := pass.windowDecrements + 1
            pacingDoublings := pass.pacingDoublings + if tries ≥ 2 then 1 else 0 }

def backOffPacing (ch : Channel Hash) (pacingDoublings effRtt : Nat) : Channel Hash :=
  if pacingDoublings > 0 ∧ ch.pacingIntervalMs > 0 then
    { ch with
      pacingIntervalMs :=
        min (min (ch.pacingIntervalMs * 2 ^ min pacingDoublings 10) u64Max) (max effRtt 1) }
  else ch

def poll (ch : Channel Hash) (nowMs rttMs : Nat) : List ChannelAction × Channel Hash :=
  let (expired, ch) := ch.expireDue nowMs
  let effRtt := ch.effectiveRttMs rttMs
  let pass := retransmitPass ch.maxTries nowMs (ch.timedOut nowMs effRtt)
    ⟨ch.txRing, expired, 0, 0⟩
  let ch := { ch with txRing := pass.txRing }
  let ch := (fun c : Channel Hash => c.adjustWindow false rttMs)^[pass.windowDecrements] ch
  let ch := if pass.windowDecrements > 0 then ch.recalculatePacing effRtt else ch
  (pass.actions, ch.backOffPacing pass.pacingDoublings effRtt)

end Channel

end Leviculum.Link
