import Leviculum.Router.Checkpoint

/-! The public calls of the router. -/

namespace Leviculum.Router

open Propagation (DestinationHash TransientId destinationLength)

def dropRepeatedRequests : Bool → List RouterEvent → List RouterEvent
  | _, [] => []
  | seen, .persistenceRequested :: rest =>
    if seen then dropRepeatedRequests seen rest else .persistenceRequested :: dropRepeatedRequests true rest
  | seen, event :: rest => event :: dropRepeatedRequests seen rest

theorem count_dropRepeatedRequests (seen : Bool) (events : List RouterEvent) :
    (dropRepeatedRequests seen events).count .persistenceRequested ≤ if seen then 0 else 1 := by
  fun_induction dropRepeatedRequests seen events with
  | case1 => exact Nat.zero_le _
  | case2 rest ih => exact ih
  | case3 seen rest first ih =>
    rw [List.count_cons_self, if_neg first]
    exact Nat.succ_le_succ ih
  | case4 seen event rest other ih =>
    rw [List.count_cons_of_ne (fun same => other same)]
    exact ih

/-- The output of a call, with one request to persist while the checkpoint is stale. -/
def finishOutput (dirty : Bool) (output : RouterOutput) : RouterOutput :=
  let events := dropRepeatedRequests false output.events
  { output with events := if dirty ∧ .persistenceRequested ∉ events then events ++ [.persistenceRequested] else events }

variable {Env : Type} (prims : Primitives) (ops : NodeOps Env)

/-- The ticket field for a message to `destination`; refused without a wall clock, and when the store would
not hold the ticket and the delivery it is to be followed by. -/
def issueTicketField (destination : DestinationHash) (secret : FixedBytes 16) : Proc Env (Option (Int × Bytes)) := do
  let world ← get
  if ops.hasPlausibleWallClock world.env = false then throw .noWallClock
  else
    let before := world.router.tickets
    let issued := before.issue destination (ops.emissionSecs world.env) secret
    let headroom := if issued.1.isSome ∧ issued.2.lastDeliveries.contains destination = false then 1 else 0
    if world.router.config.maxTickets < issued.2.entryCount + headroom then throw .queueFull
    else
      modify (fun world => ({ world with router.tickets := issued.2 } : World Env).markDirtyIf
        (issued.2.entryCount ≠ before.entryCount))
      return issued.1.map (fun ticket => (fieldTicket, ticket.fieldValue prims))

def ignore (source : DestinationHash) (world : World Env) : World Env :=
  if (source ∈ world.router.ignored ∨ world.router.ignored.card < world.router.config.maxPolicyEntries) ∧
      source ∉ world.router.ignored then
    { world with router.ignored := insert source world.router.ignored }.markDirty
  else world

def unignore (source : DestinationHash) (world : World Env) : World Env :=
  if source ∈ world.router.ignored then { world with router.ignored := world.router.ignored.erase source }.markDirty
  else world

def replaceIgnored (ignored : Finset DestinationHash) : Proc Env Unit := do
  let world ← get
  if world.router.config.maxPolicyEntries < ignored.card then throw .queueFull
  else if world.router.ignored = ignored then pure ()
  else modify (fun world => ({ world with router.ignored := ignored } : World Env).markDirty)

def ticketStamped (tickets : TicketStore) (message : Message) (nowUnix : Rat) : Except MessageError Message :=
  match tickets.outboundAt message.destinationHash nowUnix with
  | none => .ok message
  | some ticket => message.setStamp (ticket.stamp prims message.messageId)

/-- A delivery larger than the peers accept. -/
def exceedsLimit (router : LxmfRouter) (message : Message) : Bool :=
  message.method ≠ .propagated ∧ router.maxOutgoingDeliverySize.any (fun limit => limit < (message.pack prims).length)

def enqueue (message : Message) : Proc Env Unit := do
  let world ← get
  let now := world.nowMs ops
  if message.method = .paper then throw .unsupportedMethod
  else if message.method = .propagated ∧ world.outboundNode = none then throw .propagationNodeUnavailable
  else if world.router.outbound.contains message.messageId then throw .duplicate
  else if world.router.config.maxOutbound ≤ world.router.outbound.size then throw .queueFull
  else
    match ticketStamped prims world.router.tickets message (ops.emissionSecs world.env) with
    | .error error => throw (.message error)
    | .ok message =>
      if exceedsLimit prims world.router message then
        throw (.node (.deliveryLimitExceeded (message.pack prims).length (world.router.maxOutgoingDeliverySize.getD 0)))
      else
        let entry : OutboundEntry := ⟨message, .outbound, 0, now, .started, none, world.router.buildEpochs.next⟩
        modify (fun world =>
          ({ world with
            router.outbound := world.router.outbound.insert message.messageId entry
            router.buildEpochs := world.router.buildEpochs.advance
            router.nextJobMs := min world.router.nextJobMs now } : World Env).markDirty.emit
              (.messageQueued message.messageId))

def World.abortBelow (id : MessageId) (method : DeliveryMethod) (world : World Env) : World Env :=
  if method = .propagated then
    match world.router.propagation with
    | none => world
    | some _ =>
      if ops.hasActiveUpload world.env id then (world.activeLink ops).elim world (fun link => world.closeLink ops link)
      else world
  else { world with env := ops.cancelOutbound id world.env }.act (.cancelOutbound id)

def cancel (id : MessageId) : Proc Env Unit := do
  let world ← get
  match world.router.outbound.get? id with
  | none =>
    modify (fun world => { world with router.buildsOutstanding := world.router.buildsOutstanding.erase id })
    throw .notFound
  | some entry =>
    modify (fun world => ((world.forgetPathRequest id).conclude id .cancelled).abortBelow ops id entry.message.method)

/-- Make an entry due at `nowMs`, and the job with it. -/
def World.hurry (id : MessageId) (nowMs : Nat) (world : World Env) : World Env :=
  ({ world.postpone id nowMs with router.nextJobMs := min world.router.nextJobMs nowMs } : World Env).markDirty

def setOutboundStamp (id : MessageId) (stamp : Bytes) (nowMs : Nat) : Proc Env Unit := do
  let world ← get
  match world.router.outbound.get? id with
  | none => throw .notFound
  | some entry =>
    match entry.setMessageStamp stamp world.router.buildEpochs with
    | .error error => throw (.message error)
    | .ok written =>
      -- The delivery stamp is inside the encrypted bytes: the envelope made without it is void.
      let final := if entry.message.method = .propagated then written.1.setPropagation none written.2 else written
      modify (fun world => (world.revise id (fun _ _ => final)).hurry id nowMs)

def setOutboundStampResult (request : DeliveryStampRequest) (stamp : Bytes) : Proc Env Unit := do
  let world ← get
  let current := ((world.router.outbound.get? request.messageId).filter (fun entry => entry.message.stamp.isNone)).bind
    (fun entry => world.router.outboundStampCostAt entry.message.destinationHash (ops.emissionSecs world.env))
  if current ≠ some request.targetCost then throw .staleStampRequest
  else setOutboundStamp request.messageId stamp (world.nowMs ops)

def setOutboundPropagationStamp (id : MessageId) (stamp : FixedBytes 32) (nowMs : Nat) : Proc Env Unit := do
  let world ← get
  match world.router.outbound.get? id with
  | none => throw .notFound
  | some entry =>
    if entry.message.method ≠ .propagated then throw .unsupportedMethod
    else if (entry.propagation.bind OutboundPropagation.targetCost).isNone then throw .propagationStampUnavailable
    else modify (fun world => (world.revise id (fun entry epochs => entry.setPropagationStamp stamp epochs)).hurry id nowMs)

def setOutboundPropagationStampResult (request : PropagationStampRequest) (stamp : FixedBytes 32) (nowMs : Nat) :
    Proc Env Unit := do
  let world ← get
  let current := (world.router.outbound.get? request.messageId).bind OutboundEntry.propagation
  if current.any (fun prepared => prepared.transientId = request.transientId ∧
      prepared.targetCost = some request.targetCost ∧ prepared.stamp = none) then
    setOutboundPropagationStamp request.messageId stamp nowMs
  else throw .staleStampRequest

def takeResourceBuilds : Proc Env (List PendingResourceBuild) := do
  let world ← get
  modify (fun world => { world with router.buildsOutstanding := ∅, router.pendingBuilds := [] })
  return world.router.pendingBuilds

/-- A delivery built by the caller is taken over by the node. -/
def World.committedDelivery (id : MessageId) (message : Message) (entry : OutboundEntry) (nowMs : Nat) (nowUnix : Rat)
    (world : World Env) : World Env :=
  let reported := if entry.state = .sending then world else world.emit (.messageState id .sending)
  ((reported.revise id (fun entry epochs =>
    let charged := if representation prims entry.message = .ok .opportunisticPacket then entry.charge else entry
    charged.setState .sending epochs)).markDirty).handleNodeEvents prims [.submitted message.messageId .direct] nowMs nowUnix

/-- Put a built transfer on the wire, unless its entry has changed since it was captured. -/
def commitResourceBuild (built : PendingResourceBuild) : Proc Env Unit := do
  let world ← get
  let nowUnix := ops.emissionSecs world.env
  let now := world.nowMs ops
  if built.restoreGeneration ≠ world.router.restoreGeneration then throw .staleBuild
  else
    modify (fun world =>
      { world with router.buildsOutstanding := world.router.buildsOutstanding.erase built.messageId })
    match world.router.outbound.get? built.messageId with
    | none => throw .staleBuild
    | some entry =>
      if built.buildEpoch ≠ entry.buildEpoch then throw .staleBuild
      else
        match built.kind with
        | .delivery link message =>
          attempt (fun error => .node (.resource error)) (ops.commitResourceSend link message)
          modify (fun world => (world.act (.delivery built.messageId)).committedDelivery prims built.messageId message
            entry now nowUnix)
        | .upload link upload =>
          if world.router.propagation.isNone then throw .propagationNodeUnavailable
          else
            attempt .propagationTransport (ops.commitUpload link built.messageId upload)
            modify (fun world => (world.act (.upload built.messageId)).uploadSubmitted ops built.messageId)

/-- A direct link went down while a message still needs it: ask for the path again. -/
def World.relinkAfterClose (event : NodeEvent) (world : World Env) : World Env :=
  match event with
  | .linkClosed _ destination true =>
    if world.router.outbound.values.any (fun entry => entry.message.destinationHash = destination ∧
        representation prims entry.message ≠ .ok .opportunisticPacket) then
      world.requestPath ops destination none
    else world
  | _ => world

/-- Remember the stamp cost a peer announces, and pass the announce on. -/
def World.peerAnnounced (event : NodeEvent) (nowUnix : Rat) (world : World Env) : World Env :=
  match event with
  | .announceReceived destination (.delivery (some announce) hasData) =>
    (if hasData then
      world.insertStampCost destination (nowUnix, announce.stampCost, announce.compressionSupported)
    else world).emit (.peerAnnounced destination announce)
  | _ => world

def handleEvent (event : NodeEvent) : Proc Env Unit := do
  let world ← get
  let nowUnix := ops.emissionSecs world.env
  let events ← attempt .node (adapterHandleEvent ops world.router.deliveryDestination event)
  modify (fun world => (((world.handleNodeEvents prims events (world.nowMs ops) nowUnix).relinkAfterClose prims ops
    event).peerAnnounced event nowUnix))
  if world.router.propagation.isNone then pure () else propagationHandleEvent prims ops event nowUnix

def tick : Proc Env Unit := do
  let world ← get
  let now := world.nowMs ops
  let nowUnix := ops.emissionSecs world.env
  modify (World.anchorWallClock nowUnix now)
  if world.router.propagation.isNone then pure () else propagationTick prims ops nowUnix
  modify (fun world => if now < world.router.nextJobMs then world else world.runJob prims ops now nowUnix)

def setInboundStampResult (request : InboundStampRequest) (valid : Bool) : Proc Env Unit := do
  let world ← get
  if world.router.config.inboundStampCost.getD 0 ≠ request.targetCost then throw .staleStampRequest
  else
    let matching (parked : Message × Rat) : Bool :=
      parked.1.messageId = request.messageId ∧ parked.1.stamp = some request.stamp.val
    match world.router.pendingInboundStamps.find? matching with
    | none => throw .staleStampRequest
    | some parked =>
      modify (fun world =>
        { world with router.pendingInboundStamps := world.router.pendingInboundStamps.eraseP matching })
      if valid then modify (World.acceptInbound parked.1 parked.2)
      else modify (World.emit (.invalidStamp request.messageId))

/-- Take in a paper message; `none` when the URI does not parse. -/
def ingestPaper (paper : Option Bytes) : Proc Env Unit := do
  let world ← get
  let nowUnix := ops.emissionSecs world.env
  match paper with
  | none => throw .paper
  | some bytes =>
    if bytes.take destinationLength ≠ world.router.deliveryDestination.val then throw .paper
    else
      let transientId := prims.fullHash bytes
      if world.router.processedIds.contains transientId then modify (World.emit (.duplicate transientId))
      else
        match ops.openLocal world.env .paper bytes with
        | .error error => throw error
        | .ok message =>
          -- Paper messages pass without a stamp.
          modify (fun world => ((world.insertProcessedId transientId nowUnix).insertDeliveredId transientId
            nowUnix).acceptInbound message nowUnix)

def deliverPropagatedLocal (unstamped : Bytes) : Proc Env Unit := do
  let world ← get
  if unstamped.length ≤ lxmfOverhead then throw (.propagation .invalidLength)
  else if unstamped.take destinationLength ≠ world.router.deliveryDestination.val then throw .notFound
  else
    match ← modifyGet (World.deliverUnstamped prims ops unstamped (ops.emissionSecs world.env)) with
    | .ok _ => pure ()
    | .error error => throw error

/-- Whether pointing the queue at another node changes an entry. -/
def retargetChanges (nowMs : Nat) (entry : OutboundEntry) : Bool :=
  entry.message.method = .propagated ∧
    (entry.propagation.any (fun prepared => prepared.targetCost.isSome) ∨ entry.state ≠ .outbound ∨
      entry.nextAttemptMs ≠ nowMs)

def setOutboundPropagationNode (destination : Option DestinationHash) : Proc Env Unit := do
  let world ← get
  match world.router.propagation with
  | none => throw .notFound
  | some runtime =>
    if runtime.outboundNode = destination then pure ()
    else
      modify (fun world => (world.cancelOutboundLink ops).setRuntime
        (fun runtime => { runtime with outboundNode := destination, client := .fresh }))
      modify (fun world =>
        let changed := world.router.outbound.values.any (retargetChanges (world.nowMs ops))
        ((world.retargetUploads (world.nowMs ops)).markDirtyIf changed).emit (.propagationSyncState ⟨.idle, 0, none⟩))

/-- The preferred node unless it is known to be disabled, or else the best known one. -/
def selectNode (world : World Env) (preferred : Option DestinationHash) : Option DestinationHash :=
  let known := ops.knownNodes world.env
  let allowed := preferred.filter (fun destination =>
    (known.find? (fun node => node.destination = destination)).all KnownPropagationNode.enabled)
  let ranked := (known.filter KnownPropagationNode.enabled).map (fun node =>
    let hops := ops.hopsTo world.env node.destination
    ([if hops.isNone then 1 else 0, (hops.getD 255).toNat, node.peeringCost, node.stampCost,
      Bytes.ofBe node.destination.val], node.destination))
  allowed.or ((least (fun left right => lexLess left.1 right.1) ranked).map Prod.snd)

def selectOutboundPropagationNode (preferred : Option DestinationHash) : Proc Env Unit := do
  let world ← get
  if world.router.propagation.isNone then throw .notFound
  else
    match selectNode ops world preferred with
    | none => throw .notFound
    | some selected => setOutboundPropagationNode ops (some selected)

def requestOutstanding : PropagationClientState → Bool
  | .requestSent | .receiving | .responseReceived => true
  | _ => false

def requestMessagesFromPropagationNode (maxMessages : Option Nat) : Proc Env Unit := do
  let world ← get
  match world.router.propagation with
  | none => throw .notFound
  | some runtime =>
    match runtime.outboundNode with
    | none => throw .notFound
    | some destination =>
      if requestOutstanding runtime.client.state then modify (World.cancelOutboundLink ops) else pure ()
      modify (World.setClient (fun _ => { MailboxSync.fresh with maxMessages := maxMessages.filter (· ≠ 0) }))
      let world ← get
      match (ops.activeLink world.env destination).filter (ops.linkActive world.env) with
      | some link => beginListRequest ops link
      | none =>
        let now := world.nowMs ops
        if ops.hasPath world.env destination then modify (World.setClientState .linkEstablishing)
        else
          modify (fun world => (world.setClient (fun client =>
            { client with
              pathDeadlineMs := some (satAdd now runtime.config.pathTimeoutMs)
              nextPathRequestMs := some (satAdd now pathRequestWaitMs)
              pathRequests := 1
              pathStartedMs := some now })).setClientState .pathRequested)
        attempt .propagationTransport (ops.ensureLink destination)
        modify (World.act (.ensureLink destination))

def cancelPropagationNodeRequests : Proc Env Unit := do
  let world ← get
  if world.router.propagation.isNone then throw .notFound
  else modify (fun world => ((world.cancelOutboundLink ops).setClient (fun _ => .fresh)).emit
    (.propagationSyncState ⟨.idle, 0, none⟩))

def setPropagationPathTimeoutMs (pathTimeoutMs : Nat) : Proc Env Unit := do
  let world ← get
  if world.router.propagation.isNone then throw .notFound
  else modify (World.setRuntime (fun runtime => { runtime with config.pathTimeoutMs := pathTimeoutMs }))

/-- Save the checkpoint; `stored` says whether the storage takes it. -/
def persist (stored : Bool) : Proc Env Snapshot := do
  let world ← get
  match world.router.validatePersistenceLimits prims with
  | .error error => throw error
  | .ok _ =>
    let snapshot := world.router.checkpoint
    if world.router.config.maxSnapshotBytes < snapshot.encodedLen prims then throw .queueFull
    else if stored = false then throw .storage
    else
      modify (fun world => { world with router.persistenceDirty := false })
      return snapshot

/-- Replace the state by a saved one; nothing but the epoch counter moves unless it is accepted. -/
def restore (snapshot : Option Snapshot) : Proc Env Unit := do
  let world ← get
  match snapshot with
  | none => pure ()
  | some snapshot =>
    if world.router.config.maxSnapshotBytes < snapshot.encodedLen prims then throw .corruptSnapshot
    else
      match snapshot.decode prims world.router with
      | (.error error, epochs) =>
        modify (fun world => { world with router.buildEpochs := epochs })
        throw error
      | (.ok outbound, epochs) => modify (World.installSnapshot snapshot outbound epochs)

end Leviculum.Router
