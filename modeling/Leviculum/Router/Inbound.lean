import Leviculum.Router.State

/-! The adapters between the node and the router: what the delivery adapter and the propagation transport
make of one event of the node. Their correlation tables are below. -/

namespace Leviculum.Router

open Propagation (DestinationHash TransientId)

variable {Env : Type} (ops : NodeOps Env)

def emitInbound (env : Env) (method : DeliveryMethod) (data : Bytes) : List LxmfNodeEvent :=
  match ops.unpackInbound env method data with
  | some message => [.messageReceived message]
  | none => [.inboundRejected method]

/-- `LxmfNode::handle_event`, for the delivery destination `own`. -/
def adapterHandleEvent (own : DestinationHash) (event : NodeEvent) (env : Env) :
    Except LxmfNodeError (List LxmfNodeEvent) × Env :=
  match event with
  | .announceReceived destination (.delivery _ _) =>
    match ops.startWantedLink destination env with
    | (.ok _, env) => (.ok [.peerAnnounced destination], env)
    | (.error error, env) => (.error error, env)
  | .pathFound destination =>
    match ops.startWantedLink destination env with
    | (.ok _, env) => (.ok [], env)
    | (.error error, env) => (.error error, env)
  | .linkEstablished link isInitiator =>
    match ops.adoptLink link isInitiator env with
    | (.ok (some destination), env) => (.ok [.directLinkEstablished destination link isInitiator], env)
    | (.ok none, env) => (.ok [], env)
    | (.error error, env) => (.error error, env)
  | .linkIdentified link identityHash =>
    match ops.identifyPeer link identityHash env with
    | (some destination, env) => (.ok [.directLinkEstablished (some destination) link false], env)
    | (none, env) => (.ok [], env)
  | .packetProofRequested packet destination =>
    if destination = own then
      match ops.provePacket packet env with
      | (.ok _, env) => (.ok [], env)
      | (.error error, env) => (.error error, env)
    else (.ok [], env)
  | .linkProofRequested link packet =>
    if ops.ownsLink env link then
      match ops.proveOnLink link packet env with
      | (.ok _, env) => (.ok [], env)
      | (.error error, env) => (.error error, env)
    else (.ok [], env)
  | .packetReceived destination data =>
    if destination = own then (.ok (emitInbound ops env .opportunistic data), env) else (.ok [], env)
  | .linkDataReceived link data =>
    if ops.ownsLink env link then (.ok (emitInbound ops env .direct data), env) else (.ok [], env)
  | .resourceAdvertised link resource dataSize =>
    if ops.ownsLink env link then
      match ops.answerResource link resource dataSize env with
      | (.ok true, env) => (.ok [], env)
      | (.ok false, env) => (.ok [.inboundRejected .direct], env)
      | (.error error, env) => (.error error, env)
    else (.ok [], env)
  | .resourceProgress link resource progress _ dataSize true =>
    match ops.resourceMoved link resource progress dataSize env with
    | (some moved, env) => (.ok [.progress moved.1 moved.2], env)
    | (none, env) => (.ok [], env)
  | .resourceCompleted link _ _ true _ _ =>
    match ops.takeResource link env with
    | (some id, env) => (.ok [.delivered id], env)
    | (none, env) => (.ok [], env)
  | .resourceCompleted link _ data false segmentIndex totalSegments =>
    if ops.ownsLink env link then
      match ops.assembleSegment link data segmentIndex totalSegments env with
      | (.rejected, env) => (.ok [.inboundRejected .direct], env)
      | (.waiting, env) => (.ok [], env)
      | (.complete data, env) => (.ok (emitInbound ops env .direct data), env)
    else (.ok [], env)
  | .resourceFailed link resource error isSender =>
    if isSender then
      match ops.takeResource link env with
      | (some id, env) => (.ok [.deliveryFailed id (.resource error)], env)
      | (none, env) => (.ok [], env)
    else if ops.ownsLink env link then (.ok [.inboundRejected .direct], ops.dropIncoming link resource env)
    else (.ok [], env)
  | .packetDeliveryConfirmed packet =>
    match ops.takePacketReceipt packet env with
    | (some id, env) => (.ok [.delivered id], env)
    | (none, env) => (.ok [], env)
  | .deliveryFailed packet =>
    match ops.takePacketReceipt packet env with
    | (some id, env) => (.ok [.deliveryFailed id .opportunistic], env)
    | (none, env) => (.ok [], env)
  | .linkDeliveryConfirmed link packet =>
    match ops.takeLinkReceipt link packet env with
    | (some id, env) => (.ok [.delivered id], env)
    | (none, env) => (.ok [], env)
  | .linkDeliveryFailed link packet =>
    match ops.takeLinkReceipt link packet env with
    | (some id, env) => (.ok [.deliveryFailed id .directPacketTimeout], env)
    | (none, env) => (.ok [], env)
  | .linkClosed link _ _ =>
    let (ids, env) := ops.dropLink link env
    (.ok (ids.map (fun id => .deliveryFailed id .linkClosed)), env)
  | _ => (.ok [], env)

def responseEvents (kind : PropagationRequestKind) (data : Bytes) : List PropagationTransportEvent :=
  match kind with
  | .list => [.listResponse (ops.decodeListResponse data)]
  | .get => [.getResponse (ops.decodeGetResponse data)]
  | .acknowledge => [.acknowledgeResponse]

def failedTransfer (link : LinkId) (resource : FixedBytes 32) (error : ResourceError) (env : Env) :
    List PropagationTransportEvent × Env :=
  let (upload, env) := ops.takeResourceUpload link env
  let (request, env) := ops.takeFailedRequest link resource env
  ((upload.map (fun id => .uploadFailed link id (.resource error))).toList ++ (request.map .requestTimedOut).toList, env)

/-- `PropagationTransport::handle_event`. -/
def transportHandleEvent (event : NodeEvent) (env : Env) :
    Except PropagationTransportError (List PropagationTransportEvent) × Env :=
  match event with
  | .announceReceived destination .propagation =>
    let (known, env) := ops.rememberAnnounce destination env
    match ops.connectWanted destination env with
    | (.ok _, env) => (.ok (if known then [.nodeAnnounced destination] else []), env)
    | (.error error, env) => (.error error, env)
  | .pathFound destination =>
    match ops.connectWanted destination env with
    | (.ok _, env) => (.ok [], env)
    | (.error error, env) => (.error error, env)
  | .linkEstablished link true =>
    match ops.adoptNodeLink link env with
    | (some destination, env) => (.ok [.linkEstablished destination link], env)
    | (none, env) => (.ok [], env)
  | .responseReceived link request data =>
    match ops.takeRequest link request env with
    | (some kind, env) => (.ok (responseEvents ops kind data), env)
    | (none, env) => (.ok [], env)
  | .requestTimedOut link request =>
    match ops.takeRequest link request env with
    | (some kind, env) => (.ok [.requestTimedOut kind], env)
    | (none, env) => (.ok [], env)
  | .linkDeliveryConfirmed link packet =>
    match ops.takePacketUpload link packet env with
    | (some id, env) => (.ok [.uploadCompleted id], env)
    | (none, env) => (.ok [], env)
  | .linkDeliveryFailed link packet =>
    match ops.takePacketUpload link packet env with
    | (some id, env) => (.ok [.uploadFailed link id .packetTimeout], env)
    | (none, env) => (.ok [], env)
  | .linkDataReceived link data =>
    match ops.takeSignalledUpload link data env with
    | (some id, env) => (.ok [.uploadRejected link id], env)
    | (none, env) => (.ok [], env)
  | .resourceProgress link _ progress _ _ true =>
    (.ok ((ops.resourceUpload env link).map (fun id => .uploadProgress id progress)).toList, env)
  | .resourceProgress link _ progress transferSize _ false =>
    (.ok ((ops.openRequest env link).map (fun kind => .requestProgress kind progress transferSize)).toList, env)
  | .resourceCompleted link resource _ true segmentIndex totalSegments =>
    let (upload, env) := if segmentIndex = totalSegments then ops.takeResourceUpload link env else (none, env)
    (.ok (upload.map .uploadCompleted).toList, ops.requestUploaded link resource env)
  | .resourceFailed link resource error true =>
    let (events, env) := failedTransfer ops link resource error env
    (.ok events, env)
  | .linkClosed link _ _ =>
    match ops.dropNodeLink link env with
    | (some (destination, upload), env) =>
      (.ok ((upload.map (fun id => .uploadFailed link id .linkClosed)).toList ++ [.linkClosed destination]), env)
    | (none, env) => (.ok [], env)
  | _ => (.ok [], env)

end Leviculum.Router

/-! What becomes of an inbound message: the ticket it brings, the stamp demanded of it, and the record
that keeps a second copy away from the application. -/

namespace Leviculum.Router

open Propagation (DestinationHash TransientId stampSize)

section Bounded

variable {K V : Type} [LinearOrder K]

/-- The entry seen first, the first of several in the order of the keys. -/
def oldestEntry (seen : V → Rat) : List (K × V) → Option (K × V)
  | [] => none
  | e :: rest =>
    match oldestEntry seen rest with
    | none => some e
    | some best => if seen best.2 < seen e.2 then some best else some e

/-- The map with room for one more key: at its capacity, a key it lacks displaces the oldest. -/
def makeRoom (seen : V → Rat) (cap : Nat) (map : OrdMap K V) (key : K) : OrdMap K V :=
  if map.contains key = false ∧ cap ≤ map.size then
    match oldestEntry seen map.entries with
    | some oldest => map.erase oldest.1
    | none => map
  else map

/-- Record `value` in a map of at most `cap` entries. -/
def insertBounded (seen : V → Rat) (cap : Nat) (map : OrdMap K V) (key : K) (value : V) : OrdMap K V :=
  if cap = 0 then map else (makeRoom seen cap map key).insert key value

def boundedChanges [DecidableEq V] (seen : V → Rat) (cap : Nat) (map : OrdMap K V) (key : K) (value : V) : Bool :=
  cap ≠ 0 ∧
    ((map.contains key = false ∧ cap ≤ map.size ∧ (oldestEntry seen map.entries).isSome) ∨
      (makeRoom seen cap map key).get? key ≠ some value)

end Bounded

namespace World

variable {Env : Type} (prims : Primitives)

def insertDeliveredId (id : MessageId) (time : Rat) (world : World Env) : World Env :=
  let changed := boundedChanges (fun seen => seen) world.router.config.maxDeliveredIds world.router.deliveredIds id time
  { world with
    router.deliveredIds :=
      insertBounded (fun seen => seen) world.router.config.maxDeliveredIds world.router.deliveredIds id time
    router.persistenceDirty := world.router.persistenceDirty || changed }

def insertProcessedId (id : MessageId) (time : Rat) (world : World Env) : World Env :=
  let changed := boundedChanges (fun seen => seen) world.router.config.maxProcessedIds world.router.processedIds id time
  { world with
    router.processedIds :=
      insertBounded (fun seen => seen) world.router.config.maxProcessedIds world.router.processedIds id time
    router.persistenceDirty := world.router.persistenceDirty || changed }

def insertStampCost (destination : DestinationHash) (entry : StampCostEntry) (world : World Env) : World Env :=
  let changed :=
    boundedChanges Prod.fst world.router.config.maxStampCosts world.router.outboundStampCosts destination entry
  { world with
    router.outboundStampCosts :=
      insertBounded Prod.fst world.router.config.maxStampCosts world.router.outboundStampCosts destination entry
    router.persistenceDirty := world.router.persistenceDirty || changed }

def ticketOf (message : Message) : Option Ticket :=
  (message.fields.find? (fun field => field.1 = fieldTicket)).bind
    (fun field => (Ticket.fromFieldValue prims field.2).toOption)

/-- Keep the reply ticket of a message whose signature was checked. -/
def rememberVerifiedTicket (message : Message) (nowUnix : Rat) (world : World Env) : World Env :=
  if message.verification ≠ .valid then world
  else
    match ticketOf prims message with
    | none => world
    | some ticket =>
      let tickets := world.router.tickets
      if tickets.outbound.contains message.sourceHash = false ∧ world.router.config.maxTickets ≤ tickets.entryCount then
        world
      else
        let changed := tickets.outbound.get? message.sourceHash ≠ some ticket
        let kept := tickets.remember message.sourceHash ticket nowUnix
        { world with
          router.tickets := kept.2
          router.persistenceDirty := world.router.persistenceDirty || (kept.1 && changed) }

/-- Hand a message to the application, once. -/
def acceptInbound (message : Message) (nowUnix : Rat) (world : World Env) : World Env :=
  if message.sourceHash ∈ world.router.ignored then world
  -- An unknown source is still delivered; only a signature that was checked and failed is not.
  else if message.verification = .invalid then world.emit (.invalidSignature message.messageId)
  else if world.router.hasMessage message.messageId then world.emit (.duplicate message.messageId)
  else (world.insertDeliveredId message.messageId nowUnix).emit (.messageReceived message)

/-- The stamp of a message, when it has the length of a proof of work. -/
def powStamp (message : Message) : Option (FixedBytes 32) :=
  match message.stamp with
  | none => none
  | some stamp => if fits : stamp.length = 32 then some ⟨stamp, fits⟩ else none

def handleInboundMessage (message : Message) (nowUnix : Rat) (world : World Env) : World Env :=
  let world := world.rememberVerifiedTicket prims message nowUnix
  if world.router.config.enforcing then
    if message.verification ≠ .valid then world.acceptInbound message nowUnix
    else if message.stamp.any (fun stamp =>
        world.router.tickets.validatesInboundStamp prims message.sourceHash message.messageId stamp nowUnix) then
      world.acceptInbound message nowUnix
    else
      match powStamp message with
      | none => world.emit (.invalidStamp message.messageId)
      | some stamp =>
        if world.router.config.maxOutbound ≤ world.router.pendingInboundStamps.length then
          world.emit (.invalidStamp message.messageId)
        else
          { world with router.pendingInboundStamps := world.router.pendingInboundStamps ++ [(message, nowUnix)] }.emit
            (.inboundStampPending ⟨message.messageId, stamp, world.router.config.inboundStampCost.getD 0⟩)
  else world.acceptInbound message nowUnix

def wakeDirectOutbound (destination : DestinationHash) (nowMs : Nat) (world : World Env) : World Env :=
  let wakes (entry : OutboundEntry) : Bool :=
    entry.state = .outbound ∧ entry.message.destinationHash = destination ∧
      representation prims entry.message ≠ .ok .opportunisticPacket ∧ nowMs < entry.nextAttemptMs
  let changed := world.router.outbound.values.any wakes
  { world with
    router.outbound := world.router.outbound.mapValues
      (fun _ entry => if wakes entry then { entry with nextAttemptMs := nowMs } else entry)
    router.nextJobMs := if changed then min world.router.nextJobMs nowMs else world.router.nextJobMs
    router.persistenceDirty := world.router.persistenceDirty || changed }

/-- Whether a delivered message carried a ticket we issued to its recipient. -/
def deliveredTicket (tickets : TicketStore) (message : Message) : Bool :=
  message.fields.any (fun field => field.1 = fieldTicket ∧
    ((Ticket.fromFieldValue prims field.2).toOption.any
      (fun ticket => tickets.containsInbound message.destinationHash ticket)))

/-- End a queued message in `state`: out of the queue, and reported. -/
def conclude (id : MessageId) (state : MessageState) (world : World Env) : World Env :=
  (world.removeOutbound id).markDirty.emit (.messageState id state)

/-- Drop the mark of a path request made ahead of the first attempt. -/
def forgetPathRequest (id : MessageId) (world : World Env) : World Env :=
  { world with router.preemptivePathRequests := world.router.preemptivePathRequests.erase id }

def mintEpochFor (entry : OutboundEntry) (state : MessageState) (world : World Env) : World Env :=
  { world with router.buildEpochs := (entry.setState state world.router.buildEpochs).2 }

def handleNodeEvent (event : LxmfNodeEvent) (nowMs : Nat) (nowUnix : Rat) (world : World Env) : World Env :=
  match event with
  | .messageReceived message => world.handleInboundMessage prims message nowUnix
  | .delivered id =>
    match world.router.outbound.get? id with
    | none => { world with router.buildsOutstanding := world.router.buildsOutstanding.erase id }
    | some entry =>
      let world := world.mintEpochFor entry .delivered
      let tickets := if deliveredTicket prims world.router.tickets entry.message then
          world.router.tickets.markDelivered entry.message.destinationHash nowUnix
        else world.router.tickets
      (({ world with router.tickets := tickets } : World Env).forgetPathRequest id).conclude id .delivered
  | .deliveryFailed id (.resource .rejectedByRemote) | .deliveryFailed id (.resource .cancelled) =>
    match world.router.outbound.get? id with
    | none => { world with router.buildsOutstanding := world.router.buildsOutstanding.erase id }
    | some entry => ((world.mintEpochFor entry .rejected).forgetPathRequest id).conclude id .rejected
  | .deliveryFailed id _ =>
    match world.router.outbound.get? id with
    | none => world
    | some entry =>
      let next := satAdd entry.nextAttemptMs deliveryRetryWaitMs
      let changed : Bool := entry.state ≠ .outbound ∨ entry.nextAttemptMs ≠ next
      (world.revise id (fun entry epochs =>
        let written := entry.setState .outbound epochs
        ({ written.1 with nextAttemptMs := next }, written.2))).markDirtyIf changed
  | .directLinkEstablished destination link isInitiator =>
    (destination.elim world (fun destination => world.wakeDirectOutbound prims destination nowMs)).emit
      (.directLinkEstablished destination link isInitiator)
  | .submitted id .opportunistic =>
    let changed : Bool := (world.router.outbound.get? id).any (fun entry => entry.state ≠ .sent)
    (world.revise id (fun entry epochs => entry.setState .sent epochs)).markDirtyIf changed
  | .submitted _ _ => world
  | .progress id progress =>
    let changed : Bool := (world.router.outbound.get? id).any (fun entry => entry.progress ≠ progress)
    (world.revise id (fun entry epochs => ({ entry with progress }, epochs))).markDirtyIf changed
  | .inboundRejected method => world.emit (.inboundRejected method)
  | .deliveryMethodFallback id requested chosen packedLen =>
    world.emit (.deliveryMethodFallback id requested chosen packedLen)
  | .peerAnnounced _ | .pathRequested _ => world

def handleNodeEvents (events : List LxmfNodeEvent) (nowMs : Nat) (nowUnix : Rat) (world : World Env) : World Env :=
  events.foldl (fun world event => world.handleNodeEvent prims event nowMs nowUnix) world

end World

end Leviculum.Router
