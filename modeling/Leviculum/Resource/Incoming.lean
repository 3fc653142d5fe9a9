import Leviculum.Resource.Outgoing
import Mathlib.Data.List.Sort

/-! The receiver of a resource: its requests, the parts and hashmap updates it takes in, its
timer. -/

namespace Leviculum.Resource

open Blocks

def partGapSamples : Nat := 4

/-- What a receiver keeps from the advertisement to the end of the transfer. -/
structure Inbound where
  flags : ResourceFlags
  resourceHash : Digest
  randomHash : RandomHash
  transferSize : Nat
  dataSize : Nat
  numParts : Nat
  segmentIndex : Nat
  windowPolicy : WindowPolicy
  deriving DecidableEq

structure IncomingResource extends Inbound where
  status : ResourceStatus
  parts : List (Option Bytes)
  hashmap : List (Option MapHash)
  hashmapHeight : Nat
  consecutiveCompletedHeight : Nat
  windowState : WindowState
  outstandingParts : Nat
  lastActivityMs : Nat
  reqSentMs : Option Nat
  /-- The clock's low 32 bits when the last part came in. -/
  lastPartMs : Nat
  partGaps : List Nat
  partGapsRecorded : Nat
  eifr : Nat
  dataReceived : Bool
  retries : Nat
  waitingForHmu : Bool
  sdu : Nat
  smallerSdu : Option Nat
  proofHash : Option Digest
  deriving DecidableEq

inductive PartResult where
  | continue
  | sendRequest (req : PartRequest)
  | assembling
  | invalidPart
  deriving DecidableEq

inductive IncomingPoll where
  | nothing
  | retransmit (req : PartRequest)
  | timedOut (error : ResourceError)
  deriving DecidableEq

/-- Which of two part sizes an advertisement was cut for, by its own part count; when both fit it, the larger
and the smaller one still open. -/
def resolvePartSize (adv : ResourceAdvertisement) (sdu : Nat) (other : Option Nat) : Nat × Option Nat :=
  let fits (size : Nat) : Bool := size ≠ 0 ∧ divCeil adv.transferSize size = adv.numParts
  match other.filter fits with
  | none => (sdu, none)
  | some size => if fits sdu then (max sdu size, some (min sdu size)) else (size, none)

namespace IncomingResource

/-- The `while` loop that moves `consecutive_completed_height` over stored parts. -/
def advanceHeight : List (Option Bytes) → Nat → Nat
  | some _ :: rest, height => advanceHeight rest (height + 1)
  | _, height => height

/-- Stored part and hash of the positions from `first` to before `last`, with their index. -/
def slots (r : IncomingResource) (first last : Nat) : List ((Option Bytes × Option MapHash) × Nat) :=
  ((r.parts.zip r.hashmap).zipIdx.drop first).take (last - first)

/-- The scan of `build_request`: the missing parts with their hash up to the first without a
known one, and whether such a one was met. -/
def scanWindow : List ((Option Bytes × Option MapHash) × Nat) → List (Nat × MapHash) × Bool
  | [] => ([], false)
  | ((some _, _), _) :: rest => scanWindow rest
  | ((none, none), _) :: _ => ([], true)
  | ((none, some mh), pn) :: rest =>
    match scanWindow rest with
    | (asked, exhausted) => ((pn, mh) :: asked, exhausted)

/-- The scan over the window from `consecutive_completed_height` on. -/
def asking (r : IncomingResource) : List (Nat × MapHash) × Bool :=
  scanWindow (r.slots r.consecutiveCompletedHeight
    (min (r.consecutiveCompletedHeight + r.windowState.window) r.numParts))

def lastKnownHash (r : IncomingResource) : MapHash :=
  if r.hashmapHeight > 0 then ((r.hashmap[r.hashmapHeight - 1]?).getD none).getD 0 else 0

/-- The REQ for the window as it stands. -/
def requestOf (r : IncomingResource) : PartRequest where
  lastMapHash := if r.asking.2 then some r.lastKnownHash else none
  resourceHash := r.resourceHash
  requestedHashes := r.asking.1.map (fun entry => entry.2)

def buildRequest (r : IncomingResource) : PartRequest × IncomingResource :=
  let r := { r with
    consecutiveCompletedHeight := advanceHeight (r.parts.drop r.consecutiveCompletedHeight)
      r.consecutiveCompletedHeight }
  (r.requestOf,
    { r with
      outstandingParts := r.asking.1.length
      waitingForHmu := r.asking.2 || r.waitingForHmu
      windowState := r.windowState.startRound })

def fromAdvertisement (adv : ResourceAdvertisement) (sdu nowMs maxSize : Nat)
    (windowPolicy : WindowPolicy) : Except ResourceError (IncomingResource × PartRequest) :=
  if adv.transferSize > maxSize then .error .resourceTooLarge
  else if adv.dataSize > saturatingMul (max adv.totalSegments 1) maxEfficientSize then
    .error .invalidAdvertisement
  else if sdu = 0 then .error .invalidRequest
  else if divCeil adv.transferSize sdu ≥ 2 ^ 32 then .error .invalidAdvertisement
  else if adv.numParts > divCeil adv.transferSize sdu then .error .invalidAdvertisement
  else
    let numParts := divCeil adv.transferSize sdu
    let known := adv.hashmapData.take numParts
    let incoming : IncomingResource :=
      { flags := adv.flags
        resourceHash := adv.resourceHash
        randomHash := adv.randomHash
        transferSize := adv.transferSize
        dataSize := adv.dataSize
        numParts := numParts
        segmentIndex := adv.segmentIndex
        windowPolicy := windowPolicy
        status := .transferring
        parts := List.replicate numParts none
        hashmap := known.map some ++ List.replicate (numParts - known.length) none
        hashmapHeight := known.length
        consecutiveCompletedHeight := 0
        windowState := .new
        outstandingParts := 0
        lastActivityMs := nowMs
        reqSentMs := none
        lastPartMs := 0
        partGaps := List.replicate partGapSamples 0
        partGapsRecorded := 0
        eifr := 0
        dataReceived := false
        retries := 0
        waitingForHmu := false
        sdu := sdu
        smallerSdu := none
        proofHash := none }
    let (req, incoming) := incoming.buildRequest
    .ok ({ incoming with lastActivityMs := nowMs, reqSentMs := some nowMs }, req)

/-- At the part sizes of `resolvePartSize`: the second one stays open until a part settles which of the two
the sender cut for. -/
def fromAdvertisementSized (adv : ResourceAdvertisement) (sizes : Nat × Option Nat) (nowMs maxSize : Nat)
    (windowPolicy : WindowPolicy) : Except ResourceError (IncomingResource × PartRequest) :=
  (fromAdvertisement adv sizes.1 nowMs maxSize windowPolicy).map
    (fun (incoming, req) => ({ incoming with smallerSdu := sizes.2 }, req))

def requestAgainForReadvertisement (r : IncomingResource) (resourceHash : Digest) (nowMs : Nat) :
    Option PartRequest × IncomingResource :=
  if r.status ≠ .transferring ∨ r.dataReceived ∨ resourceHash ≠ r.resourceHash then (none, r)
  else
    let (req, r) := r.buildRequest
    (some req, { r with lastActivityMs := nowMs, reqSentMs := some nowMs })

/-- The missing part with this hash, in the window and the flexibility margin after it. -/
def matchPart (r : IncomingResource) (mh : MapHash) : Option Nat :=
  ((r.slots r.consecutiveCompletedHeight
    (min (r.consecutiveCompletedHeight + r.windowState.window + windowFlexibility) r.numParts)).find?
    (fun slot => slot.1.1 = none ∧ slot.1.2 = some mh)).map (fun slot => slot.2)

def partFitsSize (r : IncomingResource) (index bytes size : Nat) : Bool :=
  bytes ≤ min (r.transferSize - saturatingMul index size) size

def partFits (r : IncomingResource) (index bytes : Nat) : Bool :=
  r.partFitsSize index bytes r.sdu || r.smallerSdu.any (fun size => r.partFitsSize index bytes size)

def claimsPart (P : Primitives) (r : IncomingResource) (partData : Bytes) : Bool :=
  r.status = .transferring ∧ partData.length ≤ r.sdu ∧
    (r.matchPart (P.mapHash partData r.randomHash)).any (fun index => r.partFits index partData.length)

def settlePartSize (r : IncomingResource) (index bytes : Nat) : IncomingResource :=
  match r.smallerSdu with
  | none => r
  | some smaller =>
    if bytes > smaller then { r with smallerSdu := none }
    else if bytes = smaller ∧ index + 1 < r.numParts then { r with sdu := smaller, smallerSdu := none }
    else r

def recordPartGap (r : IncomingResource) (gapMs : Nat) : IncomingResource :=
  { r with
    partGaps := r.partGaps.set (r.partGapsRecorded % partGapSamples) (min gapMs 65535)
    partGapsRecorded :=
      if r.partGapsRecorded + 1 < 2 * partGapSamples then r.partGapsRecorded + 1 else partGapSamples }

/-- The bookkeeping of `receive_part` around a stored part. -/
def storePart (r : IncomingResource) (index : Nat) (partData : Bytes) (nowMs : Nat) : IncomingResource :=
  let r := r.settlePartSize index partData.length
  let r := { r with
    parts := r.parts.set index (some partData)
    outstandingParts := r.outstandingParts - 1
    windowState := r.windowState.recordPart partData.length
    lastActivityMs := nowMs }
  let r := if r.dataReceived then
    r.recordPartGap ((nowMs % 2 ^ 32 + 2 ^ 32 - r.lastPartMs) % 2 ^ 32) else r
  { r with lastPartMs := nowMs % 2 ^ 32, dataReceived := true, retries := 0 }

/-- Rate to the first part of a window. -/
def updateEifr (r : IncomingResource) (nowMs : Nat) : IncomingResource :=
  match r.reqSentMs with
  | none => r
  | some reqSent =>
    if nowMs - reqSent > 0 ∧ r.windowState.partsReceivedThisWindow = 1 then
      let bytesPerPart := if r.numParts > 0 then r.transferSize / r.numParts else r.sdu
      { r with eifr := saturatingMul bytesPerPart 1000 / (nowMs - reqSent) }
    else r

def completeRound (r : IncomingResource) (nowMs : Nat) : IncomingResource :=
  let roundElapsedMs := (r.reqSentMs.map (fun reqSent => nowMs - reqSent)).getD 0
  { r with
    windowState := r.windowState.onRoundComplete r.windowPolicy
      { firstPartRate := r.eifr
        roundRate := saturatingMul r.windowState.bytesReceivedThisWindow 1000 / max roundElapsedMs 1 } }

def missingParts (r : IncomingResource) : Nat := r.parts.count none

def afterPart (r : IncomingResource) (nowMs : Nat) : PartResult × IncomingResource :=
  let r := r.updateEifr nowMs
  if r.outstandingParts = 0 then
    let r := r.completeRound nowMs
    if r.missingParts = 0 then (.assembling, { r with status := .assembling })
    else if !r.waitingForHmu then
      let (req, r) := r.buildRequest
      (.sendRequest req, { r with reqSentMs := some nowMs })
    else (.continue, r)
  else (.continue, r)

def receivePart (P : Primitives) (r : IncomingResource) (partData : Bytes) (nowMs : Nat) :
    PartResult × IncomingResource :=
  if r.status ≠ .transferring then (.invalidPart, r)
  else if partData.length > r.sdu then (.invalidPart, r)
  else
    match r.matchPart (P.mapHash partData r.randomHash) with
    | none => (.invalidPart, r)
    | some index =>
      if !r.partFits index partData.length then (.invalidPart, r)
      else (r.storePart index partData nowMs).afterPart nowMs

/-- The loop of `handle_hashmap_update` over the entries of a segment. -/
def fillHashmap : List MapHash → Nat → List (Option MapHash) × Nat → List (Option MapHash) × Nat
  | [], _, filled => filled
  | entry :: entries, idx, (hashmap, height) =>
    match hashmap[idx]? with
    | none => (hashmap, height)
    | some slot =>
      fillHashmap entries (idx + 1)
        (hashmap.set idx (some entry), if slot.isNone then height + 1 else height)

def usizeMax : Nat := 2 ^ 64 - 1

def handleHashmapUpdate (r : IncomingResource) (nowMs : Nat) (update : HashmapUpdate) :
    Except ResourceError PartRequest × IncomingResource :=
  if r.status = .failed then (.error .cancelled, r)
  else if update.resourceHash ≠ r.resourceHash then (.error .invalidHashmap, r)
  else if update.segment * hashmapMaxLen > usizeMax then (.error .invalidHashmap, r)
  else
    let filled := fillHashmap update.entries (update.segment * hashmapMaxLen) (r.hashmap, r.hashmapHeight)
    let r := { r with
      hashmap := filled.1
      hashmapHeight := filled.2
      waitingForHmu := false
      retries := 0 }
    let (req, r) := r.buildRequest
    (.ok req, { r with reqSentMs := some nowMs })

/-- Lower median of the latest gaps between parts. -/
def observedPartGapMs (r : IncomingResource) : Option Nat :=
  let n := min (min r.partGapsRecorded partGapSamples) (max r.windowState.window 1)
  if n = 0 then none
  else
    let latest := (List.range n).map (fun age =>
      r.partGaps.getD ((r.partGapsRecorded + partGapSamples - 1 - age) % partGapSamples) 0)
    some ((latest.insertionSort (· ≤ ·)).getD ((n - 1) / 2) 0)

def partTimeoutMs (r : IncomingResource) (rttMs turnaroundMs acquisitionMs : Nat) : Nat :=
  let rttMs := max rttMs 1
  let timeoutFactor := if r.dataReceived then partTimeoutFactorAfterRtt else partTimeoutFactorInitial
  let eifrTof :=
    if r.numParts > 0 ∧ r.eifr > 0 then saturatingMul r.transferSize 1000 / r.numParts / r.eifr else rttMs
  let policyTimeout := partPolicyWaitMs (min eifrTof rttMs) r.outstandingParts timeoutFactor r.retries
  let senderPace :=
    saturatingAdd (saturatingAdd (saturatingMul r.windowState.window turnaroundMs) acquisitionMs) rttMs
  let observedPace := (r.observedPartGapMs.map (fun gapMs =>
    min (saturatingMul r.windowState.window gapMs) (senderPartBudgetMs rttMs))).getD 0
  max (max policyTimeout senderPace) observedPace

def poll (r : IncomingResource) (nowMs rttMs turnaroundMs acquisitionMs : Nat) :
    IncomingPoll × IncomingResource :=
  if r.status = .transferring then
    if nowMs - r.lastActivityMs ≥ r.partTimeoutMs rttMs turnaroundMs acquisitionMs then
      let r := { r with retries := r.retries + 1 }
      if r.retries ≥ maxRetries then (.timedOut .timeout, { r with status := .failed })
      else
        let r := { r with
          windowState := r.windowState.onTimeout r.windowPolicy
          lastActivityMs := nowMs }
        let (req, r) := r.buildRequest
        (.retransmit req, { r with reqSentMs := some nowMs })
    else (.nothing, r)
  else (.nothing, r)

end IncomingResource

end Leviculum.Resource
