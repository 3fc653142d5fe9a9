import Leviculum.Resource.Parts
import Leviculum.Resource.Window

/-! The sender of a resource: how it is built, and how it answers requests, proofs and its own
timers. -/

namespace Leviculum.Resource

open Blocks Spacing

/-- What a link lends to the build of a resource. -/
structure ResourceCryptParams where
  active : Bool
  negotiatedMtu : Nat
  tokenKey : Option TokenKey

structure SegmentParams where
  segmentIndex : Nat
  totalSegments : Nat
  originalHash : Option Digest
  totalDataSize : Option Nat
  forceHasMetadata : Bool

def SegmentParams.single : SegmentParams where
  segmentIndex := 1
  totalSegments := 1
  originalHash := none
  totalDataSize := none
  forceHasMetadata := false

/-- Application data and how it is to be sent. -/
structure SendOptions where
  data : Bytes
  metadata : Option Bytes
  requestId : Option Bytes
  autoCompress : Bool
  isResponse : Bool
  advertisementTimeoutMs : Option Nat
  segment : SegmentParams

/-- The draws a build makes, in order. The salts after the first are used on collisions. -/
structure Draws where
  wireRandom : RandomHash
  iv : FixedBytes 16
  salts : List RandomHash

/-- What a sender keeps from its build to the end of the transfer. -/
structure Outbound where
  resourceHash : Digest
  expectedProof : Digest
  parts : List Bytes
  hashmap : List MapHash
  advertisement : ResourceAdvertisement
  advertisementTimeoutMs : Option Nat
  deriving DecidableEq

structure OutgoingResource extends Outbound where
  status : ResourceStatus
  sentMask : List Bool
  receiverMinConsecutiveHeight : Nat
  retries : Nat
  advRetries : Nat
  lastActivityMs : Nat
  deriving DecidableEq

inductive OutgoingPoll where
  | nothing
  | retransmitAdv (advertisement : ResourceAdvertisement)
  | requestProof (proofData : Bytes)
  | timedOut (error : ResourceError)
  deriving DecidableEq

section Build

variable (P : Primitives)

/-- The three low bytes of a length, high byte first. -/
def metadataLength (length : Nat) : Bytes :=
  [UInt8.ofNat (length / 65536), UInt8.ofNat (length / 256), UInt8.ofNat length]

def combine (metadata : Option Bytes) (data : Bytes) : Bytes :=
  match metadata with
  | some metadata => metadataLength metadata.length ++ metadata ++ data
  | none => data

def squeeze (autoCompress : Bool) (combined : Bytes) : Option Bytes :=
  if P.compression ∧ autoCompress ∧ combined.length ≤ autoCompressMax then
    (P.bz2Compress combined).filter (fun squeezed => squeezed.length < combined.length)
  else none

/-- `full_hash_parts` over two pieces. -/
def fullHashParts (first second : Bytes) : Digest := P.fullHash (first ++ second)

/-- The loop that draws salts until the hashmap has no near collision. -/
def mapWithSalts (parts : List Bytes) : List RandomHash → Option (RandomHash × List MapHash)
  | [] => none
  | salt :: salts =>
    match mapParts P parts salt with
    | some entries => some (salt, entries)
    | none => mapWithSalts parts salts

def advertise (options : SendOptions) (combined payload : Bytes) (compressed : Bool)
    (parts : List Bytes) (salt : RandomHash) (entries : List MapHash) : ResourceAdvertisement :=
  let resourceHash := fullHashParts P combined salt.val
  { transferSize := tokenLen (randomHashSize + payload.length)
    dataSize := options.segment.totalDataSize.getD combined.length
    numParts := parts.length % 2 ^ 32
    resourceHash := resourceHash
    randomHash := salt
    originalHash := options.segment.originalHash.getD resourceHash
    segmentIndex := options.segment.segmentIndex
    totalSegments := options.segment.totalSegments
    requestId := options.requestId
    flags :=
      { encrypted := true
        compressed := compressed
        split := decide (options.segment.totalSegments > 1)
        isRequest := options.requestId.isSome && !options.isResponse
        isResponse := options.isResponse
        hasMetadata := options.metadata.isSome || options.segment.forceHasMetadata }
    hashmapData := entries.take hashmapMaxLen }

/-- `none` stands for a build still drawing salts. -/
def newWithFlags (options : SendOptions) (crypt : ResourceCryptParams) (draws : Draws) (nowMs : Nat) :
    Except ResourceError (Option OutgoingResource) :=
  if !crypt.active then .error .linkNotActive
  else
    match crypt.tokenKey with
    | none => .error .linkNotActive
    | some tokenKey =>
      let combined := combine options.metadata options.data
      let squeezed := squeeze P options.autoCompress combined
      let payload := squeezed.getD combined
      let chunks := P.encryptToken tokenKey draws.iv [draws.wireRandom.val, payload]
      let parts := (chunks.foldl PartCutter.put (.new (resourceSdu crypt.negotiatedMtu))).parts
      .ok ((mapWithSalts P parts draws.salts).map fun mapped =>
        let resourceHash := fullHashParts P combined mapped.1.val
        { resourceHash := resourceHash
          expectedProof := fullHashParts P combined resourceHash.val
          parts := parts
          hashmap := mapped.2
          advertisement := advertise P options combined payload squeezed.isSome parts mapped.1 mapped.2
          advertisementTimeoutMs := options.advertisementTimeoutMs
          status := .advertised
          sentMask := List.replicate parts.length false
          receiverMinConsecutiveHeight := 0
          retries := 0
          advRetries := 0
          lastActivityMs := nowMs })

end Build

namespace OutgoingResource

/-- The search scope of a REQ, as hashmap entries with their index. -/
def scope (s : OutgoingResource) : List (MapHash × Nat) :=
  (s.hashmap.zipIdx.drop s.receiverMinConsecutiveHeight).take collisionGuardSize

def matching (s : OutgoingResource) (req : PartRequest) : List Nat :=
  (s.scope.filter (fun entry => req.requestedHashes.contains entry.1)).map (fun entry => entry.2)

/-- Index after the entry the receiver knows last; the end of the scan when it is not found. -/
def partIndex (s : OutgoingResource) (lastMapHash : MapHash) : Nat :=
  scanPast lastMapHash ((s.hashmap.drop s.receiverMinConsecutiveHeight).take collisionGuardSize)
    s.receiverMinConsecutiveHeight

def hashmapSegment (s : OutgoingResource) (segment : Nat) : HashmapUpdate where
  resourceHash := s.resourceHash
  segment := segment
  entries := (s.hashmap.drop (segment * hashmapMaxLen)).take hashmapMaxLen

def distinctPartsSent (s : OutgoingResource) : Nat := s.sentMask.count true

def markSent (mask : List Bool) (indices : List Nat) : List Bool :=
  indices.foldl (fun mask i => mask.set i true) mask

/-- The state every well-formed REQ leaves, before anything is answered. -/
def noteRequest (s : OutgoingResource) (nowMs : Nat) : OutgoingResource :=
  { s with
    status := if s.status = .advertised then .transferring else s.status
    retries := 0
    lastActivityMs := nowMs }

/-- All distinct parts sent: what is left is the proof. -/
def checkAllSent (s : OutgoingResource) : OutgoingResource :=
  if s.distinctPartsSent = s.parts.length then { s with status := .awaitingProof, retries := 0 } else s

/-- `linkActive` is what `Link::build_raw_data_packet` and its encrypted sibling require. -/
def handleRequest (s : OutgoingResource) (req : PartRequest) (linkActive : Bool) (nowMs : Nat) :
    Except ResourceError (List Packet) × OutgoingResource :=
  if s.status = .failed then (.error .cancelled, s)
  else if req.resourceHash ≠ s.resourceHash then (.error .invalidRequest, s)
  else
    let noted := s.noteRequest nowMs
    let indices := s.matching req
    if !linkActive ∧ indices ≠ [] then (.error .linkNotActive, noted)
    else
      let answered := { noted with sentMask := markSent s.sentMask indices }
      let parts := indices.map (fun i => Packet.resource (s.parts.getD i []))
      match req.lastMapHash with
      | none => (.ok parts, answered.checkAllSent)
      | some lastMapHash =>
        let partIndex := s.partIndex lastMapHash
        let moved := { answered with
          receiverMinConsecutiveHeight := partIndex - (1 + windowMaxFast) }
        if !linkActive then (.error .linkNotActive, moved)
        else
          (.ok (parts ++ [.resourceHmu (s.hashmapSegment (partIndex / hashmapMaxLen))]),
            moved.checkAllSent)

def handleProof (s : OutgoingResource) (proofData : Bytes) :
    Except ResourceError ResourceStatus × OutgoingResource :=
  if s.status = .failed then (.error .cancelled, s)
  else if proofData.length ≠ 64 then (.error .invalidProof, s)
  else if proofData.take 32 ≠ s.resourceHash.val then (.error .invalidProof, s)
  else if proofData.drop 32 ≠ s.expectedProof.val then (.error .invalidProof, s)
  else (.ok .complete, { s with status := .complete })

def advertisementWindowMs (s : OutgoingResource) (rttMs : Nat) : Nat :=
  saturatingAdd (s.advertisementTimeoutMs.getD (saturatingMul rttMs 6)) processingGraceMs

/-- Time until the receiver's second retry of its first request. -/
def senderAdvertisementBudgetMs (rttMs numParts : Nat) : Nat :=
  let rttMs := max rttMs 1
  let window := min windowInitial (max numParts 1)
  saturatingAdd (saturatingAdd rttMs (partPolicyWaitMs rttMs window partTimeoutFactorInitial 0))
    (partPolicyWaitMs rttMs window partTimeoutFactorInitial 1)

def advertisementWindows (s : OutgoingResource) (rttMs : Nat) : Nat :=
  max maxAdvRetries
    (divCeil (senderAdvertisementBudgetMs rttMs s.advertisement.numParts)
      (max (s.advertisementWindowMs rttMs) 1))

def proofRoundMs (rttMs : Nat) : Nat :=
  saturatingAdd (saturatingMul rttMs proofTimeoutFactor) senderGraceTimeMs

def poll (s : OutgoingResource) (nowMs rttMs : Nat) : OutgoingPoll × OutgoingResource :=
  let rttMs := max rttMs 1
  match s.status with
  | .advertised =>
    if nowMs - s.lastActivityMs ≥ s.advertisementWindowMs rttMs then
      let s := { s with advRetries := s.advRetries + 1 }
      if s.advRetries < s.advertisementWindows rttMs then
        (.retransmitAdv s.advertisement, { s with lastActivityMs := nowMs })
      else (.timedOut .timeout, { s with status := .failed })
    else (.nothing, s)
  | .transferring =>
    if nowMs - s.lastActivityMs ≥ senderPartBudgetMs rttMs then
      (.timedOut .partRequestTimeout, { s with status := .failed })
    else (.nothing, s)
  | .awaitingProof =>
    if nowMs - s.lastActivityMs ≥ proofRoundMs rttMs then
      let s := { s with retries := s.retries + 1, lastActivityMs := nowMs }
      if s.retries > maxProofRetries then (.timedOut .proofTimeout, { s with status := .failed })
      else (.requestProof (s.resourceHash.val ++ s.expectedProof.val), s)
    else (.nothing, s)
  | _ => (.nothing, s)

end OutgoingResource

end Leviculum.Resource
