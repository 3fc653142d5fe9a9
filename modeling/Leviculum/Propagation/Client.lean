import Leviculum.Propagation.Message
import Leviculum.Lib.OrdMap
import Mathlib.Data.Rat.Defs

/-! The client's side of the links to propagation nodes, `propagation_client.rs`: which links it keeps, and
the requests and uploads it waits on. -/

namespace Leviculum.Propagation

abbrev LinkId := FixedBytes 16
abbrev MessageId := FixedBytes 32
abbrev PacketHash := FixedBytes 32
abbrev ResourceHash := FixedBytes 32
abbrev RequestId := FixedBytes 16

inductive PropagationRequestKind where
  | list
  | get
  | acknowledge
  deriving DecidableEq, Repr

inductive PropagationUploadRepresentation where
  | packet
  | resource
  deriving DecidableEq, Repr

inductive LinkCloseReason where
  | normal
  | timeout
  | invalidProof
  | peerClosed
  | stale
  | channelExhausted
  | blackholed
  | interfaceRemoved
  deriving DecidableEq, Repr

inductive PropagationSignal where
  | invalidStamp
  deriving DecidableEq, Repr

inductive PropagationTransportError where
  | unknownNode
  | linkUnavailable
  | uploadInProgress
  | request
  | resource
  | send
  deriving DecidableEq, Repr

inductive PropagationUploadFailure where
  | packetTimeout
  | resource
  | linkClosed (reason : LinkCloseReason)
  deriving DecidableEq, Repr

inductive PropagationTransportEvent where
  | linkEstablished (destination : DestinationHash) (link : LinkId)
  | responseReceived (link : LinkId) (kind : PropagationRequestKind) (data : Bytes)
  | requestTimedOut (link : LinkId) (kind : PropagationRequestKind)
  | requestProgress (link : LinkId) (kind : PropagationRequestKind) (progress : Rat) (transferSize : Nat)
  | uploadSubmitted (link : LinkId) (id : MessageId) (representation : PropagationUploadRepresentation)
  | uploadProgress (link : LinkId) (id : MessageId) (progress : Rat)
  | uploadCompleted (link : LinkId) (id : MessageId)
  | uploadFailed (link : LinkId) (id : MessageId) (reason : PropagationUploadFailure)
  | uploadRejected (link : LinkId) (id : MessageId) (signal : PropagationSignal)
  | linkClosed (link : LinkId) (destination : DestinationHash) (reason : LinkCloseReason)
  deriving DecidableEq

/-- What the node reports that concerns these links. -/
inductive NodeEvent where
  /-- An announce of a propagation node. -/
  | announceReceived (destination : DestinationHash)
  | pathFound (destination : DestinationHash)
  | linkEstablished (link : LinkId) (isInitiator : Bool)
  | responseReceived (link : LinkId) (request : RequestId) (data : Bytes)
  | requestTimedOut (link : LinkId) (request : RequestId)
  | linkDeliveryConfirmed (link : LinkId) (packet : PacketHash)
  | linkDeliveryFailed (link : LinkId) (packet : PacketHash)
  /-- With the signal the data decodes to. -/
  | linkDataReceived (link : LinkId) (signal : Option PropagationSignal)
  | resourceProgress (link : LinkId) (progress : Rat) (transferSize : Nat) (isSender : Bool)
  | resourceCompleted (link : LinkId) (resource : ResourceHash) (isSender : Bool) (segmentIndex totalSegments : Nat)
  | resourceFailed (link : LinkId) (resource : ResourceHash) (isSender : Bool)
  | linkClosed (link : LinkId) (reason : LinkCloseReason)
  | other

structure PendingRequest where
  kind : PropagationRequestKind
  link : LinkId
  /-- The resource an oversized request body is being uploaded with. -/
  requestResourceHash : Option ResourceHash
  deriving DecidableEq

inductive PendingUploadTransfer where
  | packet (packetHash : PacketHash)
  | resource
  deriving DecidableEq

structure PendingUpload where
  id : MessageId
  transfer : PendingUploadTransfer
  deriving DecidableEq

/-- What the node answers while one call is made. -/
structure NodeView where
  linkActive : LinkId → Bool
  linkDestination : LinkId → Option DestinationHash
  hasPath : DestinationHash → Bool
  connect : DestinationHash → Except PropagationTransportError LinkId
  sendPacketOnLink : LinkId → Except PropagationTransportError PacketHash
  sendResource : LinkId → Except PropagationTransportError Unit
  sendRequest : LinkId → Except PropagationTransportError (RequestId × Option ResourceHash)

structure PropagationTransport where
  wantedLinks : OrdMap DestinationHash Unit
  pendingLinks : OrdMap DestinationHash LinkId
  linkDestinations : OrdMap LinkId DestinationHash
  activeLinks : OrdMap DestinationHash LinkId
  pendingRequests : OrdMap RequestId PendingRequest
  pendingUploads : OrdMap LinkId PendingUpload

/-- `LINK_PACKET_MAX_CONTENT`. -/
def linkPacketMaxContent : Nat := 319

def uploadRepresentation (dataLen : Nat) : PropagationUploadRepresentation :=
  if dataLen ≤ linkPacketMaxContent then .packet else .resource

namespace PropagationTransport

abbrev Outcome := Except PropagationTransportError (List PropagationTransportEvent)

def new : PropagationTransport := ⟨∅, ∅, ∅, ∅, ∅, ∅⟩

def hasActiveUpload (t : PropagationTransport) (id : MessageId) : Bool :=
  t.pendingUploads.values.any (fun pending => pending.id = id)

def connect (t : PropagationTransport) (node : NodeView) (destination : DestinationHash) :
    Outcome × PropagationTransport :=
  match node.connect destination with
  | .error error => (.error error, t)
  | .ok link =>
    (.ok [],
      { t with
        pendingLinks := t.pendingLinks.insert destination link
        linkDestinations := t.linkDestinations.insert link destination })

/-- The rest of `ensure_link` once no active link is left. -/
def startLink (t : PropagationTransport) (node : NodeView) (destination : DestinationHash) :
    Outcome × PropagationTransport :=
  if t.pendingLinks.contains destination then (.ok [], t)
  else
    let t := { t with wantedLinks := t.wantedLinks.insert destination () }
    if !node.hasPath destination then (.ok [], t) else t.connect node destination

def ensureLink (t : PropagationTransport) (node : NodeView) (destination : DestinationHash) :
    Outcome × PropagationTransport :=
  match t.activeLinks.get? destination with
  | some link =>
    if node.linkActive link then (.ok [], t)
    else
      startLink
        { t with
          activeLinks := t.activeLinks.erase destination
          linkDestinations := t.linkDestinations.erase link } node destination
  | none => t.startLink node destination

def recordUpload (t : PropagationTransport) (link : LinkId) (id : MessageId)
    (representation : PropagationUploadRepresentation) (transfer : PendingUploadTransfer) :
    Outcome × PropagationTransport :=
  (.ok [.uploadSubmitted link id representation],
    { t with pendingUploads := t.pendingUploads.insert link ⟨id, transfer⟩ })

def send (t : PropagationTransport) (node : NodeView) (link : LinkId) (id : MessageId)
    (representation : PropagationUploadRepresentation) : Outcome × PropagationTransport :=
  match representation with
  | .packet =>
    match node.sendPacketOnLink link with
    | .ok packetHash => t.recordUpload link id representation (.packet packetHash)
    | .error error => (.error error, t)
  | .resource =>
    match node.sendResource link with
    | .ok _ => t.recordUpload link id representation .resource
    | .error error => (.error error, t)

def admitUpload (t : PropagationTransport) (node : NodeView) (link : LinkId) (id : MessageId) :
    Except PropagationTransportError Unit :=
  if !t.linkDestinations.contains link || !node.linkActive link then .error .linkUnavailable
  else if t.pendingUploads.contains link || t.hasActiveUpload id then .error .uploadInProgress
  else .ok ()

def submitUpload (t : PropagationTransport) (node : NodeView) (link : LinkId) (id : MessageId) (dataLen : Nat) :
    Outcome × PropagationTransport :=
  match t.admitUpload node link id with
  | .error error => (.error error, t)
  | .ok _ => t.send node link id (uploadRepresentation dataLen)

/-- An upload that is built off the lock, and how it will travel. -/
structure PreparedUpload where
  link : LinkId
  id : MessageId
  representation : PropagationUploadRepresentation
  deriving DecidableEq

def commitUpload (t : PropagationTransport) (node : NodeView) (prepared : PreparedUpload) :
    Outcome × PropagationTransport :=
  t.send node prepared.link prepared.id prepared.representation

def submitMailboxRequest (t : PropagationTransport) (node : NodeView) (link : LinkId) (kind : PropagationRequestKind) :
    Outcome × PropagationTransport :=
  if !t.linkDestinations.contains link || !node.linkActive link then (.error .linkUnavailable, t)
  else
    match node.sendRequest link with
    | .error error => (.error error, t)
    | .ok (request, requestResourceHash) =>
      (.ok [], { t with pendingRequests := t.pendingRequests.insert request ⟨kind, link, requestResourceHash⟩ })

def close (t : PropagationTransport) (link : LinkId) : PropagationTransport :=
  match t.linkDestinations.get? link with
  | some destination => { t with wantedLinks := t.wantedLinks.erase destination }
  | none => t

def cancel (t : PropagationTransport) (destination : DestinationHash) : PropagationTransport :=
  { t with wantedLinks := t.wantedLinks.erase destination }

/-- The destination an established link is for: one of ours, or one that is wanted. -/
def adoptedDestination (t : PropagationTransport) (node : NodeView) (link : LinkId) : Option DestinationHash :=
  (t.linkDestinations.get? link).or ((node.linkDestination link).filter (fun d => t.wantedLinks.contains d))

def adoptLink (t : PropagationTransport) (link : LinkId) (destination : DestinationHash) : PropagationTransport :=
  { t with
    pendingLinks := t.pendingLinks.erase destination
    wantedLinks := t.wantedLinks.erase destination
    activeLinks := t.activeLinks.insert destination link
    linkDestinations :=
      (t.linkDestinations.retain (fun known knownDestination =>
        known = link ∨ knownDestination ≠ destination)).insert link destination }

def requestOn (t : PropagationTransport) (link : LinkId) (request : RequestId) : Option PendingRequest :=
  (t.pendingRequests.get? request).filter (fun pending => pending.link = link)

/-- Take the upload of a link that satisfies `p`. -/
def takeUpload (t : PropagationTransport) (link : LinkId) (p : PendingUpload → Bool)
    (outcome : MessageId → PropagationTransportEvent) : List PropagationTransportEvent × PropagationTransport :=
  match (t.pendingUploads.get? link).filter p with
  | some pending => ([outcome pending.id], { t with pendingUploads := t.pendingUploads.erase link })
  | none => ([], t)

def PendingUpload.isPacket (packetHash : PacketHash) (pending : PendingUpload) : Bool :=
  pending.transfer = .packet packetHash

def PendingUpload.isResource (pending : PendingUpload) : Bool := pending.transfer = .resource

def requestUploading (t : PropagationTransport) (link : LinkId) (resource : ResourceHash) :
    Option (RequestId × PendingRequest) :=
  t.pendingRequests.entries.find? (fun e => e.2.link = link ∧ e.2.requestResourceHash = some resource)

def handleEvent (t : PropagationTransport) (node : NodeView) (event : NodeEvent) : Outcome × PropagationTransport :=
  match event with
  | .announceReceived destination =>
    if t.wantedLinks.contains destination && !t.pendingLinks.contains destination && node.hasPath destination then
      t.connect node destination
    else (.ok [], t)
  | .pathFound destination =>
    if t.wantedLinks.contains destination && !t.pendingLinks.contains destination then t.connect node destination
    else (.ok [], t)
  | .linkEstablished link true =>
    match t.adoptedDestination node link with
    | some destination => (.ok [.linkEstablished destination link], t.adoptLink link destination)
    | none => (.ok [], t)
  | .responseReceived link request data =>
    match t.requestOn link request with
    | some pending =>
      (.ok [.responseReceived link pending.kind data],
        { t with pendingRequests := t.pendingRequests.erase request })
    | none => (.ok [], t)
  | .requestTimedOut link request =>
    match t.requestOn link request with
    | some pending =>
      (.ok [.requestTimedOut link pending.kind], { t with pendingRequests := t.pendingRequests.erase request })
    | none => (.ok [], t)
  | .linkDeliveryConfirmed link packet =>
    let (events, t) := t.takeUpload link (PendingUpload.isPacket packet) (.uploadCompleted link)
    (.ok events, t)
  | .linkDeliveryFailed link packet =>
    let (events, t) := t.takeUpload link (PendingUpload.isPacket packet) (fun id => .uploadFailed link id .packetTimeout)
    (.ok events, t)
  | .linkDataReceived link (some signal) =>
    let (events, t) := t.takeUpload link (fun _ => true) (fun id => .uploadRejected link id signal)
    (.ok events, t)
  | .resourceProgress link progress _ true =>
    (.ok (((t.pendingUploads.get? link).filter PendingUpload.isResource).map
      (fun pending => .uploadProgress link pending.id progress)).toList, t)
  | .resourceProgress link progress transferSize false =>
    (.ok ((t.pendingRequests.values.find? (fun pending => pending.link = link ∧ pending.kind ≠ .acknowledge)).map
      (fun pending => .requestProgress link pending.kind progress transferSize)).toList, t)
  | .resourceCompleted link resource true segmentIndex totalSegments =>
    let (events, t) := t.takeUpload link
      (fun pending => segmentIndex = totalSegments && PendingUpload.isResource pending) (.uploadCompleted link)
    (.ok events,
      { t with
        pendingRequests :=
          match t.requestUploading link resource with
          | some (request, pending) => t.pendingRequests.insert request { pending with requestResourceHash := none }
          | none => t.pendingRequests })
  | .resourceFailed link resource true =>
    let (events, t) := t.takeUpload link PendingUpload.isResource (fun id => .uploadFailed link id .resource)
    match t.requestUploading link resource with
    | some (request, pending) =>
      (.ok (events ++ [.requestTimedOut link pending.kind]),
        { t with pendingRequests := t.pendingRequests.erase request })
    | none => (.ok events, t)
  | .linkClosed link reason =>
    match t.linkDestinations.get? link with
    | some destination =>
      let t := { t with
        linkDestinations := t.linkDestinations.erase link
        wantedLinks := t.wantedLinks.erase destination
        pendingLinks := t.pendingLinks.retain (fun _ pending => pending ≠ link)
        activeLinks := t.activeLinks.retain (fun _ active => active ≠ link)
        pendingRequests := t.pendingRequests.retain (fun _ pending => pending.link ≠ link) }
      let (events, t) := t.takeUpload link (fun _ => true) (fun id => .uploadFailed link id (.linkClosed reason))
      (.ok (events ++ [.linkClosed link destination reason]), t)
    | none => (.ok [], t)
  | _ => (.ok [], t)

end PropagationTransport

end Leviculum.Propagation
