import Leviculum.Lib.Fallible
import Leviculum.Router.Outbound
import Mathlib.Data.Finset.Card

/-! The state of the router, what it says to the application and to the node, and what it asks of the
node, of the delivery adapter and of the propagation transport below it. -/

namespace Leviculum.Router

open Msgpack.Lxmf (array bin f64)
open Propagation (DestinationHash TransientId)

def maxDeliveryAttempts : Nat := 5
def processingIntervalMs : Nat := 4000
def deliveryRetryWaitMs : Nat := 10000
def pathRequestWaitMs : Nat := 7000
def maxPathlessTries : Nat := 1
def messageExpirySecs : Rat := 30 * 24 * 60 * 60
def stampCostExpiry : Rat := 45 * 24 * 60 * 60
def timebaseJumpSecs : Rat := 60

/-- `u64::saturating_add`. -/
def satAdd (a b : Nat) : Nat := min (a + b) (2 ^ 64 - 1)

structure RouterConfig where
  maxOutbound : Nat
  maxDeliveredIds : Nat
  maxProcessedIds : Nat
  maxStampCosts : Nat
  maxTickets : Nat
  maxPolicyEntries : Nat
  maxSnapshotBytes : Nat
  enforceStamps : Bool
  inboundStampCost : Option UInt8
  deferResourceBuilds : Bool
  deriving DecidableEq

def RouterConfig.default : RouterConfig :=
  ⟨256, 4096, 4096, 4096, 4096, 4096, 32 * 1024 * 1024, false, none, false⟩

/-- Stamps are demanded of inbound messages. -/
def RouterConfig.enforcing (config : RouterConfig) : Bool :=
  config.enforceStamps ∧ 0 < config.inboundStampCost.getD 0

inductive PropagationTransportError where
  | invalidDestination
  | destination
  | unknownNode
  | linkUnavailable
  | uploadInProgress
  | request
  | resource (error : ResourceError)
  | send (error : SendError)
  deriving DecidableEq

inductive PropagationError where
  | invalidLength
  | wrongDestination
  | decryptionFailed
  deriving DecidableEq

inductive RouterError where
  | queueFull
  | duplicate
  | notFound
  | identityMismatch
  | unsupportedMethod
  | propagationNodeUnavailable
  | propagationStampUnavailable
  | staleStampRequest
  | staleBuild
  | noWallClock
  | node (error : LxmfNodeError)
  | message (error : MessageError)
  | propagation (error : PropagationError)
  | propagationTransport (error : PropagationTransportError)
  | paper
  | storage
  | corruptSnapshot
  deriving DecidableEq

/-! ### The mailbox client -/

structure PropagationClientConfig where
  /-- Never tell the node to purge. -/
  retainSyncedOnNode : Bool
  deliveryTransferLimitKb : Nat
  pathTimeoutMs : Nat
  deriving DecidableEq

inductive PropagationClientState where
  | idle
  | pathRequested
  | linkEstablishing
  | linkEstablished
  | requestSent
  | receiving
  | responseReceived
  | complete
  | noPath
  | linkFailed
  | transferFailed
  | noIdentity
  | noAccess
  | failed
  deriving DecidableEq

structure MailboxSync where
  state : PropagationClientState
  maxMessages : Option Nat
  progress : Rat
  transferSize : Option Nat
  received : Nat
  duplicates : Nat
  pathDeadlineMs : Option Nat
  nextPathRequestMs : Option Nat
  pathRequests : Nat
  pathStartedMs : Option Nat
  pathEndedMs : Option Nat
  deriving DecidableEq

def MailboxSync.fresh : MailboxSync := ⟨.idle, none, 0, none, 0, 0, none, none, 0, none, none⟩

structure PropagationRuntime where
  config : PropagationClientConfig
  outboundNode : Option DestinationHash
  client : MailboxSync
  deriving DecidableEq

inductive PropagationRequestKind where
  | list
  | get
  | acknowledge
  deriving DecidableEq

structure MessageGetRequest where
  wants : Option (List TransientId)
  haves : Option (List TransientId)
  transferLimitKb : Option Nat
  deriving DecidableEq

/-- The errors a propagation node answers with. -/
inductive PeerError where
  | noIdentity
  | noAccess
  | other
  deriving DecidableEq

inductive PropagationUploadFailure where
  | packetTimeout
  | resource (error : ResourceError)
  | linkClosed
  deriving DecidableEq

structure PropagationUpload where
  timestamp : Rat
  unstampedLxmf : Bytes
  propagationStamp : FixedBytes 32
  deriving DecidableEq

def PropagationUpload.encode (prims : Primitives) (upload : PropagationUpload) : Bytes :=
  array prims.rmp 2 ++ f64 prims.rmp (prims.f64Bits upload.timestamp) ++ array prims.rmp 1 ++
    bin prims.rmp (upload.unstampedLxmf ++ upload.propagationStamp.val)

structure KnownPropagationNode where
  destination : DestinationHash
  enabled : Bool
  stampCost : Nat
  peeringCost : Nat
  deriving DecidableEq

/-- What the propagation transport reports. A response comes decoded; `none` when it does not decode. -/
inductive PropagationTransportEvent where
  | nodeAnnounced (destination : DestinationHash)
  | linkEstablished (destination : DestinationHash) (link : LinkId)
  | listResponse (reply : Option (Except PeerError (List TransientId)))
  | getResponse (reply : Option (Except PeerError (List Bytes)))
  | acknowledgeResponse
  | requestTimedOut (kind : PropagationRequestKind)
  | requestProgress (kind : PropagationRequestKind) (progress : Rat) (transferSize : Nat)
  | uploadSubmitted (id : MessageId)
  | uploadProgress (id : MessageId) (progress : Rat)
  | uploadCompleted (id : MessageId)
  | uploadFailed (link : LinkId) (id : MessageId) (reason : PropagationUploadFailure)
  | uploadRejected (link : LinkId) (id : MessageId)
  | linkClosed (destination : DestinationHash)

/-! ### The delivery adapter -/

inductive DirectLinkState where
  | ready (link : LinkId)
  | started (link : LinkId)
  | connecting (link : LinkId)
  | pathRequested
  deriving DecidableEq

inductive DeliveryFailure where
  | opportunistic
  | directPacketTimeout
  | linkClosed
  | resource (error : ResourceError)
  deriving DecidableEq

inductive LxmfNodeEvent where
  | directLinkEstablished (destination : Option DestinationHash) (link : LinkId) (isInitiator : Bool)
  | submitted (id : MessageId) (method : DeliveryMethod)
  | deliveryMethodFallback (id : MessageId) (requested chosen : DeliveryMethod) (packedLen : Nat)
  | progress (id : MessageId) (progress : Progress)
  | delivered (id : MessageId)
  | deliveryFailed (id : MessageId) (reason : DeliveryFailure)
  | messageReceived (message : Message)
  | inboundRejected (method : DeliveryMethod)
  | peerAnnounced (destination : DestinationHash)
  | pathRequested (destination : DestinationHash)

structure DeliveryAnnounce where
  stampCost : Option UInt8
  compressionSupported : Bool
  deriving DecidableEq

/-- What an announce is about: a delivery destination with its decoded data, whether it carried any, or
another aspect. -/
inductive AnnounceAspect where
  | delivery (announce : Option DeliveryAnnounce) (hasData : Bool)
  | propagation
  | other
  deriving DecidableEq

/-- The node's own events, as far as the router and its adapters read them. -/
inductive NodeEvent where
  | announceReceived (destination : DestinationHash) (aspect : AnnounceAspect)
  | pathFound (destination : DestinationHash)
  | linkEstablished (link : LinkId) (isInitiator : Bool)
  | linkIdentified (link : LinkId) (identityHash : FixedBytes 16)
  | packetProofRequested (packet : FixedBytes 32) (destination : DestinationHash)
  | linkProofRequested (link : LinkId) (packet : FixedBytes 32)
  | packetReceived (destination : DestinationHash) (data : Bytes)
  | linkDataReceived (link : LinkId) (data : Bytes)
  | resourceAdvertised (link : LinkId) (resource : FixedBytes 32) (dataSize : Nat)
  | resourceProgress (link : LinkId) (resource : FixedBytes 32) (progress : Rat) (transferSize dataSize : Nat)
      (isSender : Bool)
  | resourceCompleted (link : LinkId) (resource : FixedBytes 32) (data : Bytes) (isSender : Bool)
      (segmentIndex totalSegments : Nat)
  | resourceFailed (link : LinkId) (resource : FixedBytes 32) (error : ResourceError) (isSender : Bool)
  | packetDeliveryConfirmed (packet : FixedBytes 16)
  | deliveryFailed (packet : FixedBytes 16)
  | linkDeliveryConfirmed (link : LinkId) (packet : FixedBytes 32)
  | linkDeliveryFailed (link : LinkId) (packet : FixedBytes 32)
  | responseReceived (link : LinkId) (request : FixedBytes 16) (data : Bytes)
  | requestTimedOut (link : LinkId) (request : FixedBytes 16)
  | linkClosed (link : LinkId) (destination : DestinationHash) (isInitiator : Bool)
  /-- Events neither the router nor an adapter reads. -/
  | other
  deriving DecidableEq

/-- What became of a segment of an incoming resource. -/
inductive SegmentOutcome where
  | rejected
  | waiting
  | complete (data : Bytes)

/-! ### Work handed out and output -/

inductive BuildKind where
  | delivery (link : LinkId) (message : Message)
  | upload (link : LinkId) (upload : PropagationUpload)
  deriving DecidableEq

/-- A resource build handed to the caller, and the built transfer it brings back. -/
structure PendingResourceBuild where
  messageId : MessageId
  restoreGeneration : UInt64
  buildEpoch : UInt64
  kind : BuildKind
  deriving DecidableEq

structure PropagationStampRequest where
  messageId : MessageId
  transientId : TransientId
  targetCost : UInt8
  deriving DecidableEq

structure DeliveryStampRequest where
  messageId : MessageId
  targetCost : UInt8
  deriving DecidableEq

structure InboundStampRequest where
  messageId : MessageId
  stamp : FixedBytes 32
  targetCost : UInt8
  deriving DecidableEq

structure PropagationSyncStatus where
  state : PropagationClientState
  progress : Rat
  transferSize : Option Nat
  deriving DecidableEq

inductive RouterEvent where
  | messageQueued (id : MessageId)
  | messageState (id : MessageId) (state : MessageState)
  | messageReceived (message : Message)
  | inboundRejected (method : DeliveryMethod)
  | directLinkEstablished (destination : Option DestinationHash) (link : LinkId) (isInitiator : Bool)
  | duplicate (id : MessageId)
  | deliveryMethodFallback (id : MessageId) (requested chosen : DeliveryMethod) (packedLen : Nat)
  | peerAnnounced (destination : DestinationHash) (announce : DeliveryAnnounce)
  | invalidSignature (id : MessageId)
  | invalidStamp (id : MessageId)
  | resourceBuildPending (id : MessageId)
  | stampPending (request : DeliveryStampRequest)
  | inboundStampPending (request : InboundStampRequest)
  | propagationStampPending (request : PropagationStampRequest)
  | propagationSyncState (status : PropagationSyncStatus)
  | propagationSyncComplete (received duplicates : Nat)
  | persistenceRequested
  deriving DecidableEq

/-- What was handed to the node, as the operation that made its packets; on whose behalf, where that is
one message. -/
inductive Action where
  | pathRequest (destination : DestinationHash) (onBehalf : Option MessageId)
  | linkRequest (destination : DestinationHash) (onBehalf : MessageId)
  /-- The propagation transport was asked for a link to a node. -/
  | ensureLink (destination : DestinationHash)
  /-- A message's packet, or the advertisement of its resource. -/
  | delivery (id : MessageId)
  | upload (id : MessageId)
  | mailboxRequest (link : LinkId) (request : MessageGetRequest) (kind : PropagationRequestKind)
  | identify (link : LinkId)
  | close (link : LinkId)
  | cancelLink (destination : DestinationHash)
  | cancelOutbound (id : MessageId)
  deriving DecidableEq

structure RouterOutput where
  actions : List Action
  events : List RouterEvent
  deriving DecidableEq

/-! ### State -/

/-- When a stamp cost was seen, the cost, and whether the peer takes compressed resources. -/
abbrev StampCostEntry := Rat × Option UInt8 × Bool

structure LxmfRouter where
  config : RouterConfig
  identityHash : FixedBytes 16
  deliveryDestination : DestinationHash
  maxOutgoingDeliverySize : Option Nat
  outbound : OrdMap MessageId OutboundEntry
  pendingBuilds : List PendingResourceBuild
  buildsOutstanding : Finset MessageId
  /-- How often a snapshot was restored; the code keeps the low 64 bits. -/
  restores : Nat
  buildEpochs : BuildEpochs
  outboundStampCosts : OrdMap DestinationHash StampCostEntry
  deliveredIds : OrdMap MessageId Rat
  processedIds : OrdMap MessageId Rat
  timebaseAnchor : Option (Rat × Nat)
  tickets : TicketStore
  ignored : Finset DestinationHash
  preemptivePathRequests : Finset MessageId
  nextJobMs : Nat
  persistenceDirty : Bool
  pendingInboundStamps : List (Message × Rat)
  propagation : Option PropagationRuntime
  deriving DecidableEq

namespace LxmfRouter

def restoreGeneration (router : LxmfRouter) : UInt64 := UInt64.ofNat router.restores

def new (config : RouterConfig) (identityHash : FixedBytes 16) (deliveryDestination : DestinationHash)
    (maxOutgoingDeliverySize : Option Nat) : LxmfRouter where
  config
  identityHash
  deliveryDestination
  maxOutgoingDeliverySize
  outbound := ∅
  pendingBuilds := []
  buildsOutstanding := ∅
  restores := 0
  buildEpochs := ⟨0⟩
  outboundStampCosts := ∅
  deliveredIds := ∅
  processedIds := ∅
  timebaseAnchor := none
  tickets := .empty
  ignored := ∅
  preemptivePathRequests := ∅
  nextJobMs := 0
  persistenceDirty := false
  pendingInboundStamps := []
  propagation := none

def hasMessage (router : LxmfRouter) (id : MessageId) : Bool := router.deliveredIds.contains id

/-- The unexpired stamp cost a peer announced, within the range a peer may announce. -/
def outboundStampCostAt (router : LxmfRouter) (destination : DestinationHash) (nowUnix : Rat) : Option UInt8 :=
  ((router.outboundStampCosts.get? destination).filter (fun entry => nowUnix - entry.1 ≤ stampCostExpiry)).bind
    (fun entry => entry.2.1.filter (fun cost => 0 < cost ∧ cost < 255))

end LxmfRouter

/-! ### Below the router -/

/-- What the router asks of the layers below it during one call: the node, the delivery adapter with its
correlation tables, and the propagation transport. All of them are one environment. -/
structure NodeOps (Env : Type) where
  nowMs : Env → UInt64
  emissionSecs : Env → Rat
  hasPlausibleWallClock : Env → Bool
  hasPath : Env → DestinationHash → Bool
  hopsTo : Env → DestinationHash → Option UInt8
  requestPath : DestinationHash → Env → Env
  removePath : DestinationHash → Env → Env
  encryptForDestination : DestinationHash → Bytes → Env → Except SendError Bytes × Env
  /-- Decrypt and unpack a message encrypted to the own delivery destination. -/
  openLocal : Env → DeliveryMethod → Bytes → Except RouterError Message
  /-- Whether an identity is known for a destination. -/
  knowsIdentity : Env → DestinationHash → Bool
  /-- The active direct link of a peer; one found dead is forgotten. -/
  activeDirectLink : DestinationHash → Env → Option LinkId × Env
  pendingLink : Env → DestinationHash → Option LinkId
  /-- Start a link, unless the node has no room for one. -/
  connect : DestinationHash → Env → Option LinkId × Env
  sendSinglePacket : Message → Env → Except SendError Unit × Env
  sendPacketOnLink : LinkId → Message → Env → Except SendError Unit × Env
  sendResource : LinkId → Message → Env → Except ResourceError Unit × Env
  resourceSendParams : LinkId → Env → Except ResourceError Unit
  commitResourceSend : LinkId → Message → Env → Except ResourceError Unit × Env
  cancelOutbound : MessageId → Env → Env
  /-- Start the direct link the adapter was waiting for a path to, if it was. -/
  startWantedLink : DestinationHash → Env → Except LxmfNodeError Unit × Env
  /-- Take an established link for deliveries, with the peer it leads to; `none` when it is another's. -/
  adoptLink : LinkId → Bool → Env → Except LxmfNodeError (Option (Option DestinationHash)) × Env
  /-- The delivery destination of the identity that a delivery link turned out to have. -/
  identifyPeer : LinkId → FixedBytes 16 → Env → Option DestinationHash × Env
  provePacket : FixedBytes 32 → Env → Except LxmfNodeError Unit × Env
  proveOnLink : LinkId → FixedBytes 32 → Env → Except LxmfNodeError Unit × Env
  /-- Whether a link carries deliveries. -/
  ownsLink : Env → LinkId → Bool
  /-- Unpack what arrived; `none` when it does not unpack or is for another destination. -/
  unpackInbound : Env → DeliveryMethod → Bytes → Option Message
  /-- Answer an advertised resource; whether it was accepted. -/
  answerResource : LinkId → FixedBytes 32 → Nat → Env → Except LxmfNodeError Bool × Env
  assembleSegment : LinkId → Bytes → Nat → Nat → Env → SegmentOutcome × Env
  /-- The message whose resource moved on, with its share. -/
  resourceMoved : LinkId → FixedBytes 32 → Rat → Nat → Env → Option (MessageId × Progress) × Env
  /-- The message whose resource ended on a link, out of the table. -/
  takeResource : LinkId → Env → Option MessageId × Env
  dropIncoming : LinkId → FixedBytes 32 → Env → Env
  takePacketReceipt : FixedBytes 16 → Env → Option MessageId × Env
  takeLinkReceipt : LinkId → FixedBytes 32 → Env → Option MessageId × Env
  /-- Forget a closed link; the messages that were under way on it. -/
  dropLink : LinkId → Env → List MessageId × Env
  /-- Remember the announce of a propagation node; whether it is one. -/
  rememberAnnounce : DestinationHash → Env → Bool × Env
  /-- Connect to a node the transport was waiting for a path to, if it was. -/
  connectWanted : DestinationHash → Env → Except PropagationTransportError Unit × Env
  adoptNodeLink : LinkId → Env → Option DestinationHash × Env
  takeRequest : LinkId → FixedBytes 16 → Env → Option PropagationRequestKind × Env
  decodeListResponse : Bytes → Option (Except PeerError (List TransientId))
  decodeGetResponse : Bytes → Option (Except PeerError (List Bytes))
  takePacketUpload : LinkId → FixedBytes 32 → Env → Option MessageId × Env
  /-- The upload a propagation signal on a link is about. -/
  takeSignalledUpload : LinkId → Bytes → Env → Option MessageId × Env
  resourceUpload : Env → LinkId → Option MessageId
  takeResourceUpload : LinkId → Env → Option MessageId × Env
  /-- The kind of the request under way on a link, acknowledgements aside. -/
  openRequest : Env → LinkId → Option PropagationRequestKind
  /-- The request resource went through: the response is waited for now. -/
  requestUploaded : LinkId → FixedBytes 32 → Env → Env
  takeFailedRequest : LinkId → FixedBytes 32 → Env → Option PropagationRequestKind × Env
  /-- Forget a closed link to a node, with the upload that was under way on it. -/
  dropNodeLink : LinkId → Env → Option (DestinationHash × Option MessageId) × Env
  knownNodes : Env → List KnownPropagationNode
  /-- A known node whose identity or announce the node no longer holds. -/
  isOrphaned : Env → DestinationHash → Bool
  forgetKnownNode : DestinationHash → Env → Env
  linkActive : Env → LinkId → Bool
  activeLink : Env → DestinationHash → Option LinkId
  activeUpload : Env → LinkId → Option MessageId
  hasActiveUpload : Env → MessageId → Bool
  ensureLink : DestinationHash → Env → Except PropagationTransportError Unit × Env
  identify : LinkId → Env → Except PropagationTransportError Unit × Env
  submitMailboxRequest : LinkId → MessageGetRequest → PropagationRequestKind → Env →
    Except PropagationTransportError Unit × Env
  cancel : DestinationHash → Env → Env
  close : LinkId → Env → Env
  uploadSendParams : LinkId → MessageId → Nat → Env → Except PropagationTransportError Unit
  submitUpload : LinkId → MessageId → PropagationUpload → Env → Except PropagationTransportError Unit × Env
  commitUpload : LinkId → MessageId → PropagationUpload → Env → Except PropagationTransportError Unit × Env

/-- The router in its environment, with the output of the call under way. An error returned by a call
drops the output and keeps the rest. -/
structure World (Env : Type) where
  router : LxmfRouter
  env : Env
  out : RouterOutput

namespace World

variable {Env : Type}

def emit (event : RouterEvent) (world : World Env) : World Env :=
  { world with out.events := world.out.events ++ [event] }

def act (action : Action) (world : World Env) : World Env :=
  { world with out.actions := world.out.actions ++ [action] }

def markDirty (world : World Env) : World Env := { world with router.persistenceDirty := true }

def markDirtyIf (changed : Bool) (world : World Env) : World Env :=
  { world with router.persistenceDirty := world.router.persistenceDirty || changed }

/-- Rewrite the entry of `id`, if it is queued. -/
def revise (id : MessageId) (write : OutboundEntry → BuildEpochs → OutboundEntry × BuildEpochs)
    (world : World Env) : World Env :=
  match world.router.outbound.get? id with
  | none => world
  | some entry =>
    let written := write entry world.router.buildEpochs
    { world with
      router.outbound := world.router.outbound.insert id written.1
      router.buildEpochs := written.2 }

/-- Take an entry out of the queue, with the mark of a build under way for it. -/
def removeOutbound (id : MessageId) (world : World Env) : World Env :=
  { world with
    router.outbound := world.router.outbound.erase id
    router.buildsOutstanding := world.router.buildsOutstanding.erase id }

end World

abbrev Proc (Env : Type) := Fallible.Program (World Env) RouterError

/-- Ask the layers below. -/
def perform {Env Value : Type} (operation : Env → Value × Env) : Proc Env Value :=
  modifyGet (fun world => ((operation world.env).1, { world with env := (operation world.env).2 }))

/-- Ask the layers below for something that may fail. -/
def attempt {Env Value Error : Type} (wrap : Error → RouterError)
    (operation : Env → Except Error Value × Env) : Proc Env Value := do
  match ← perform operation with
  | .ok value => pure value
  | .error error => throw (wrap error)

end Leviculum.Router
