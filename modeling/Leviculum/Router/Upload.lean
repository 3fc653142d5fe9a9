import Leviculum.Router.Sync

/-! Uploading queued mail to the selected propagation node, one message at a time. -/

namespace Leviculum.Router

open Propagation (DestinationHash TransientId destinationLength)

variable {Env : Type} (prims : Primitives) (ops : NodeOps Env)

def selectedStampCost (world : World Env) : Option UInt8 :=
  (world.outboundNode.bind (fun destination =>
    (ops.knownNodes world.env).find? (fun known => known.destination = destination))).bind
    (fun known => if known.stampCost < 256 then some (UInt8.ofNat known.stampCost) else none)

/-- The stamp still to be made for a prepared envelope. -/
def stampRequest (id : MessageId) (prepared : OutboundPropagation) : Option PropagationStampRequest :=
  match prepared.stamp, prepared.targetCost with
  | none, some targetCost => some ⟨id, prepared.transientId, targetCost⟩
  | _, _ => none

/-- The envelope of a queued message, made now or pointed at the selected node. -/
def ensurePreparedUpload (id : MessageId) (nowUnix : Rat) : Proc Env (Option PropagationStampRequest) := do
  let world ← get
  let targetCost := selectedStampCost ops world
  match world.router.outbound.get? id with
  | none => throw .notFound
  | some entry =>
    if entry.message.method ≠ .propagated then throw .unsupportedMethod
    else
      match entry.propagation with
      | none =>
        let encrypted ← attempt (fun error => .node (.send error))
          (ops.encryptForDestination entry.message.destinationHash ((entry.message.pack prims).drop destinationLength))
        let unstampedLxmf := entry.message.destinationHash.val ++ encrypted
        let prepared : OutboundPropagation :=
          ⟨nowUnix, unstampedLxmf, prims.fullHash unstampedLxmf, targetCost, none⟩
        modify (fun world => (world.revise id (fun entry epochs => entry.setPropagation (some prepared) epochs)).markDirty)
        return stampRequest id prepared
      | some prepared =>
        let changed : Bool := prepared.targetCost ≠ targetCost
        modify (fun world => (world.revise id
          (fun entry epochs => entry.retargetPropagation targetCost epochs)).markDirtyIf changed)
        return stampRequest id (if changed then { prepared with targetCost, stamp := none } else prepared)

/-- The nearest other enabled node, by hops, peering cost, stamp cost and name. -/
def alternativeNode (world : World Env) (current : DestinationHash) : Option DestinationHash :=
  let reachable := (ops.knownNodes world.env).filterMap (fun known =>
    if known.destination ≠ current ∧ known.enabled then
      (ops.hopsTo world.env known.destination).map (fun hops =>
        ([hops.toNat, known.peeringCost, known.stampCost, Bytes.ofBe known.destination.val], known.destination))
    else none)
  (least (fun left right => lexLess left.1 right.1) reachable).map Prod.snd

/-- Point a queued upload at another node, due at once. -/
def World.retargetUpload (nowMs : Nat) (world : World Env) (id : MessageId) : World Env :=
  if (world.router.outbound.get? id).any (fun entry => entry.message.method = .propagated) then
    world.revise id (fun entry epochs =>
      let retargeted := entry.retargetPropagation none epochs
      let written := retargeted.1.setState .outbound retargeted.2
      ({ written.1 with nextAttemptMs := nowMs }, written.2))
  else world

/-- Move every queued upload to another node. -/
def World.retargetUploads (nowMs : Nat) (world : World Env) : World Env :=
  world.router.outbound.keys.foldl (World.retargetUpload nowMs) world

/-- Leave a selected node the router has no route to, unless a round is running on it. -/
def World.switchNode (current : DestinationHash) (nowMs : Nat) (world : World Env) : World Env :=
  if (ops.hopsTo world.env current).isNone ∧ world.clientState.any syncIsActive = false then
    match alternativeNode ops world current with
    | none => world
    | some alternative =>
      ((world.setRuntime (fun runtime => { runtime with outboundNode := some alternative, client := .fresh })).retargetUploads
        nowMs).markDirty
  else world

/-- The first queued upload that is due, in the order of the ids. -/
def dueUpload (router : LxmfRouter) (nowMs : Nat) : Option MessageId :=
  (router.outbound.entries.find? (fun e => e.2.message.method = .propagated ∧ e.2.nextAttemptMs ≤ nowMs)).map Prod.fst

/-- Reschedule an upload. -/
def World.postpone (id : MessageId) (nextAttemptMs : Nat) : World Env → World Env :=
  World.revise id (fun entry epochs => ({ entry with nextAttemptMs }, epochs))

/-- Charge an upload one attempt: it waits for a path, or has used them up. -/
def World.chargeUpload (id : MessageId) (entry : OutboundEntry) (nowMs : Nat) (world : World Env) : World Env :=
  if maxDeliveryAttempts ≤ entry.charge.attempts then world.conclude id .failed
  else
    (world.revise id (fun entry epochs =>
      ({ entry.charge with nextAttemptMs := satAdd nowMs pathRequestWaitMs }, epochs))).markDirty

def World.pushUploadBuild (id : MessageId) (link : LinkId) (upload : PropagationUpload) (world : World Env) :
    World Env :=
  match world.router.outbound.get? id with
  | none => world
  | some entry =>
    let build : PendingResourceBuild := ⟨id, world.router.restoreGeneration, entry.buildEpoch, .upload link upload⟩
    { world with
      router.pendingBuilds := world.router.pendingBuilds ++ [build]
      router.buildsOutstanding := insert id world.router.buildsOutstanding }

/-- Hand a resource-sized upload to the caller to build. -/
def deferUpload (id : MessageId) (link : LinkId) (upload : PropagationUpload) (nowMs : Nat) : Proc Env Unit := do
  let world ← get
  if id ∈ world.router.buildsOutstanding then
    modify (World.scheduleUploadRetry id (satAdd nowMs deliveryRetryWaitMs))
  else
    match ops.uploadSendParams link id (upload.encode prims).length world.env with
    | .ok _ =>
      modify (fun world => ((world.pushUploadBuild id link upload).emit (.resourceBuildPending id)).scheduleUploadRetry id
        (satAdd nowMs deliveryRetryWaitMs))
    | .error .uploadInProgress | .error (.resource .transferInProgress) =>
      modify (World.scheduleUploadRetry id (satAdd nowMs processingIntervalMs))
    | .error error => throw (.propagationTransport error)

def submitUpload (id : MessageId) (link : LinkId) (upload : PropagationUpload) (nowMs : Nat) : Proc Env Unit := do
  match ← perform (ops.submitUpload link id upload) with
  | .ok _ => modify (fun world => (world.act (.upload id)).uploadSubmitted ops id)
  | .error .uploadInProgress | .error (.resource .transferInProgress) | .error (.send .busy) =>
    modify (World.scheduleUploadRetry id (satAdd nowMs processingIntervalMs))
  | .error (.send (.pacingDelay readyAtMs)) => modify (World.scheduleUploadRetry id readyAtMs)
  | .error .linkUnavailable | .error (.resource _) | .error (.send _) =>
    modify (fun world => (world.closeLink ops link).scheduleUploadRetry id (satAdd nowMs deliveryRetryWaitMs))
  | .error error => throw (.propagationTransport error)

def uploadPrepared (id : MessageId) (link : LinkId) (nowMs : Nat) : Proc Env Unit := do
  let world ← get
  match (world.router.outbound.get? id).bind OutboundEntry.propagation with
  | none => throw .propagationStampUnavailable
  | some prepared =>
    match prepared.stamp with
    | none => throw .propagationStampUnavailable
    | some stamp =>
      let upload : PropagationUpload := ⟨prepared.timebase, prepared.unstampedLxmf, stamp⟩
      if world.router.config.deferResourceBuilds ∧ linkPacketMaxContent < (upload.encode prims).length then
        deferUpload prims ops id link upload nowMs
      else submitUpload ops id link upload nowMs

def advancePrepared (id : MessageId) (node : DestinationHash) (link : Option LinkId)
    (request : Option PropagationStampRequest) (nowMs : Nat) : Proc Env Unit := do
  let world ← get
  match world.router.outbound.get? id with
  | none => pure ()
  | some entry =>
    if (entry.propagation.bind OutboundPropagation.targetCost).isNone then
      -- The node's announce is missing; a route without one has to go before it can be asked for again.
      if (ops.knownNodes world.env).any (fun known => known.destination = node) = false ∧
          (ops.hopsTo world.env node).isSome then
        modify (fun world => { world with env := ops.removePath node world.env })
      else pure ()
      modify (World.chargeUpload id entry nowMs)
      if maxDeliveryAttempts ≤ entry.charge.attempts then pure ()
      else modify (World.requestPath ops node none)
    else
      match request with
      | some request =>
        modify (fun world => (world.postpone id (satAdd nowMs processingIntervalMs)).emit
          (.propagationStampPending request))
      | none =>
        match link with
        | none =>
          modify (World.chargeUpload id entry nowMs)
          if maxDeliveryAttempts ≤ entry.charge.attempts then pure ()
          else
            attempt .propagationTransport (ops.ensureLink node)
            modify (World.act (.ensureLink node))
        | some link => uploadPrepared prims ops id link nowMs

/-- Run a step and keep its error as a value. -/
def tryProc {Value : Type} (proc : Proc Env Value) : Proc Env (Except RouterError Value) :=
  ExceptT.mk (Except.ok <$> proc.run)

/-- Take the due upload one step further. -/
def advanceUpload (id : MessageId) (node : DestinationHash) (link : Option LinkId) (nowMs : Nat) (nowUnix : Rat) :
    Proc Env Unit := do
  let world ← get
  match world.router.outbound.get? id with
  | none => pure ()
  | some entry =>
    if maxDeliveryAttempts ≤ entry.attempts then modify (World.conclude id .failed)
    else
      match if entry.message.stamp.isNone then
          world.router.outboundStampCostAt entry.message.destinationHash nowUnix else none with
      | some targetCost =>
        modify (fun world => (world.postpone id (satAdd nowMs processingIntervalMs)).markDirty.emit
          (.stampPending ⟨id, targetCost⟩))
      | none =>
        match ← tryProc (ensurePreparedUpload prims ops id nowUnix) with
        | .ok request => advancePrepared prims ops id node link request nowMs
        | .error (.node _) =>
          modify (fun world => ((world.postpone id (satAdd nowMs pathRequestWaitMs)).requestPath ops
            entry.message.destinationHash (some id)).markDirty)
        | .error error => throw error

def tickOutbound (nowUnix : Rat) : Proc Env Unit := do
  let world ← get
  let now := world.nowMs ops
  match world.outboundNode with
  | none => pure ()
  | some current =>
    modify (World.switchNode ops current now)
    let world ← get
    let node := world.outboundNode.getD current
    let link := ops.activeLink world.env node
    if link.any (fun link => (ops.activeUpload world.env link).isSome) then pure ()
    else
      match dueUpload world.router now with
      | none => pure ()
      | some id => advanceUpload prims ops id node link now nowUnix

def propagationTick (nowUnix : Rat) : Proc Env Unit := do
  modify (World.refreshOrphanedNodes ops)
  tickClient ops
  tickOutbound prims ops nowUnix

end Leviculum.Router
