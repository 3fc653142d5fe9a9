import Leviculum.Router.Upload

/-! Direct and opportunistic deliveries: what the adapter does with one, and the loop over the due ones. -/

namespace Leviculum.Router

open Propagation (DestinationHash TransientId)

section Adapter

variable {Env : Type} (prims : Primitives) (ops : NodeOps Env)

/-- The notice that a message goes out on another carrier than the one asked for. -/
def fallbackEvents (message : Message) (chosen : DeliveryMethod) (packedLen : Nat) : List LxmfNodeEvent :=
  if chosen = message.method then []
  else [.deliveryMethodFallback message.messageId message.method chosen packedLen]

def send (limit : Option Nat) (message : Message) (env : Env) : Except LxmfNodeError (List LxmfNodeEvent) × Env :=
  let packedLen := (message.pack prims).length
  if limit.any (fun limit => limit < packedLen) then (.error (.deliveryLimitExceeded packedLen (limit.getD 0)), env)
  else
    match representationOf message.method packedLen with
    | .error error => (.error error, env)
    | .ok .opportunisticPacket =>
      match ops.sendSinglePacket message env with
      | (.error error, env) => (.error (.send error), env)
      | (.ok _, env) => (.ok [.submitted message.messageId .opportunistic], env)
    | .ok .directPacket =>
      match ops.activeDirectLink message.destinationHash env with
      | (none, env) => (.error .directLinkUnavailable, env)
      | (some link, env) =>
        match ops.sendPacketOnLink link message env with
        | (.error error, env) => (.error (.send error), env)
        | (.ok _, env) => (.ok (fallbackEvents message .direct packedLen ++ [.submitted message.messageId .direct]), env)
    | .ok .directResource =>
      match ops.activeDirectLink message.destinationHash env with
      | (none, env) => (.error .directLinkUnavailable, env)
      | (some link, env) =>
        match ops.sendResource link message env with
        | (.error error, env) => (.error (.resource error), env)
        | (.ok _, env) => (.ok (fallbackEvents message .direct packedLen ++ [.submitted message.messageId .direct]), env)

/-- The link a resource would go out on, and whether the node would take it now. -/
def resourceSendParams (message : Message) (env : Env) : Except LxmfNodeError LinkId × Env :=
  match ops.activeDirectLink message.destinationHash env with
  | (none, env) => (.error .directLinkUnavailable, env)
  | (some link, env) =>
    match ops.resourceSendParams link env with
    | .error error => (.error (.resource error), env)
    | .ok _ => (.ok link, env)

/-- Have a direct link, asking for a path first when there is none. -/
def ensureDirectLink (destination : DestinationHash) (env : Env) : Except LxmfNodeError DirectLinkState × Env :=
  match ops.activeDirectLink destination env with
  | (some link, env) => (.ok (.ready link), env)
  | (none, env) =>
    match ops.pendingLink env destination with
    | some link => (.ok (.connecting link), env)
    | none =>
      if ops.knowsIdentity env destination = false then (.error .unknownPeer, env)
      else if ops.hasPath env destination = false then (.ok .pathRequested, ops.requestPath destination env)
      else
        match ops.connect destination env with
        | (none, env) => (.error .directLinkUnavailable, env)
        | (some link, env) => (.ok (.started link), env)

end Adapter

namespace World

variable {Env : Type} (prims : Primitives) (ops : NodeOps Env)

def chargeAndWait (id : MessageId) (nextAttemptMs : Nat) : World Env → World Env :=
  revise id (fun entry epochs => ({ entry.charge with nextAttemptMs }, epochs))

/-- The message was submitted to the node. Only an opportunistic submission is an attempt of its own; a
direct one belongs to the link it goes over. -/
def submitDue (id : MessageId) (entry : OutboundEntry) (events : List LxmfNodeEvent) (nowMs : Nat) (nowUnix : Rat)
    (world : World Env) : World Env :=
  let reported := if entry.state = .sending then world else world.emit (.messageState id .sending)
  ((reported.revise id (fun entry epochs =>
    let charged := if representation prims entry.message = .ok .opportunisticPacket then entry.charge else entry
    let written := charged.setState .sending epochs
    ({ written.1 with nextAttemptMs := satAdd nowMs deliveryRetryWaitMs }, written.2))).act
      (.delivery id)).handleNodeEvents prims events nowMs nowUnix

/-- There is no link to the recipient: have one made. -/
def linkDue (id : MessageId) (destination : DestinationHash) (nowMs : Nat) (world : World Env) : World Env :=
  match ensureDirectLink ops destination world.env with
  | (.ok (.started _), env) =>
    ({ world with env }.act (.linkRequest destination id)).chargeAndWait id (satAdd nowMs deliveryRetryWaitMs)
  | (.ok .pathRequested, env) =>
    ({ world with env }.act (.pathRequest destination (some id))).chargeAndWait id (satAdd nowMs pathRequestWaitMs)
  | (.ok (.connecting _), env) | (.ok (.ready _), env) =>
    { world with env }.postpone id (satAdd nowMs processingIntervalMs)
  | (.error _, env) => { world with env }.chargeAndWait id (satAdd nowMs deliveryRetryWaitMs)

def refuseDue (id : MessageId) (destination : DestinationHash) (error : LxmfNodeError) (nowMs : Nat)
    (world : World Env) : World Env :=
  if error = .directLinkUnavailable then world.linkDue ops id destination nowMs
  else world.chargeAndWait id (satAdd nowMs deliveryRetryWaitMs)

/-- Keep a captured delivery for the caller to build. -/
def captureDue (id : MessageId) (link : LinkId) (nowMs : Nat) (world : World Env) : World Env :=
  let world := world.revise id (fun entry epochs =>
    let written := entry.setState .outbound epochs
    ({ written.1 with nextAttemptMs := satAdd nowMs deliveryRetryWaitMs }, written.2))
  match world.router.outbound.get? id with
  | none => world
  | some entry =>
    let build : PendingResourceBuild :=
      ⟨id, world.router.restoreGeneration, entry.buildEpoch, .delivery link entry.message⟩
    { world with
      router.pendingBuilds := world.router.pendingBuilds ++ [build]
      router.buildsOutstanding := insert id world.router.buildsOutstanding }.emit (.resourceBuildPending id)

def deliverDue (id : MessageId) (entry : OutboundEntry) (nowMs : Nat) (nowUnix : Rat) (world : World Env) : World Env :=
  if world.router.config.deferResourceBuilds ∧ representation prims entry.message = .ok .directResource then
    if id ∈ world.router.buildsOutstanding then world.postpone id (satAdd nowMs deliveryRetryWaitMs)
    else
      match resourceSendParams ops entry.message world.env with
      | (.ok link, env) => { world with env }.captureDue id link nowMs
      | (.error error, env) => { world with env }.refuseDue ops id entry.message.destinationHash error nowMs
  else
    match send prims ops world.router.maxOutgoingDeliverySize entry.message world.env with
    | (.ok events, env) => { world with env }.submitDue prims id entry events nowMs nowUnix
    | (.error error, env) => { world with env }.refuseDue ops id entry.message.destinationHash error nowMs

/-- Ask for a path on a message's behalf, charged as an attempt. -/
def pathDue (id : MessageId) (destination : DestinationHash) (nowMs : Nat) (world : World Env) : World Env :=
  (world.requestPath ops destination (some id)).chargeAndWait id (satAdd nowMs pathRequestWaitMs)

/-- An opportunistic message looks after its path before it goes out. -/
def opportunisticDue (id : MessageId) (entry : OutboundEntry) (nowMs : Nat) (nowUnix : Rat) (world : World Env) :
    World Env :=
  let destination := entry.message.destinationHash
  let hasPath := ops.hasPath world.env destination
  if hasPath = false ∧ entry.attempts = 0 ∧ id ∉ world.router.preemptivePathRequests then
    let world := world.requestPath ops destination (some id)
    { world with router.preemptivePathRequests := insert id world.router.preemptivePathRequests }.postpone id
      (satAdd nowMs pathRequestWaitMs)
  else if hasPath = false ∧ maxPathlessTries ≤ entry.attempts then world.pathDue ops id destination nowMs
  else if hasPath ∧ entry.attempts = maxPathlessTries + 1 then
    { world with env := ops.removePath destination world.env }.pathDue ops id destination nowMs
  else world.deliverDue prims ops id entry nowMs nowUnix

/-- A message on its own link: while it is under way it is only waited for. -/
def usesDirectTransport (message : Message) : Bool :=
  representation prims message = .ok .directPacket ∨ representation prims message = .ok .directResource

/-- One due message. The code takes the entry out and puts it back in every branch but the one that gives
the message up. -/
def processDue (nowMs : Nat) (nowUnix : Rat) (world : World Env) (id : MessageId) : World Env :=
  match world.router.outbound.get? id with
  | none => world
  | some entry =>
    let world := world.markDirty
    if usesDirectTransport prims entry.message ∧ entry.state = .sending then
      world.postpone id (satAdd nowMs processingIntervalMs)
    else if maxDeliveryAttempts ≤ entry.attempts then
      ((world.mintEpochFor entry .failed).forgetPathRequest id).conclude id .failed
    else
      match if entry.message.stamp.isNone then
          world.router.outboundStampCostAt entry.message.destinationHash nowUnix else none with
      | some targetCost =>
        (world.emit (.stampPending ⟨id, targetCost⟩)).postpone id (satAdd nowMs processingIntervalMs)
      | none =>
        if representation prims entry.message = .ok .opportunisticPacket then
          world.opportunisticDue prims ops id entry nowMs nowUnix
        else world.deliverDue prims ops id entry nowMs nowUnix

/-- The order in which due messages go out: as they were written, then by id. -/
def WrittenBefore (left right : MessageId × OutboundEntry) : Prop :=
  left.2.message.timestamp < right.2.message.timestamp ∨
    left.2.message.timestamp = right.2.message.timestamp ∧ Bytes.ofBe left.1.val ≤ Bytes.ofBe right.1.val

instance : DecidableRel WrittenBefore := fun left right =>
  inferInstanceAs (Decidable (left.2.message.timestamp < right.2.message.timestamp ∨
    left.2.message.timestamp = right.2.message.timestamp ∧ Bytes.ofBe left.1.val ≤ Bytes.ofBe right.1.val))

/-- The direct and opportunistic messages due at `nowMs`, oldest first. -/
def dueMessages (router : LxmfRouter) (nowMs : Nat) : List MessageId :=
  let due := router.outbound.entries.filter
    (fun e => e.2.message.method ≠ .propagated ∧ e.2.nextAttemptMs ≤ nowMs)
  (due.insertionSort WrittenBefore).map Prod.fst

/-- Take a timebase step out of the ages of what was seen. -/
def rebaseAgeing (step nowUnix : Rat) (world : World Env) : World Env :=
  let rebased (seen : Rat) : Rat := min (seen + step) nowUnix
  let router := world.router
  { world with
    router.deliveredIds := router.deliveredIds.mapValues (fun _ seen => rebased seen)
    router.processedIds := router.processedIds.mapValues (fun _ seen => rebased seen)
    router.outboundStampCosts := router.outboundStampCosts.mapValues (fun _ entry => (rebased entry.1, entry.2))
    router.persistenceDirty := router.persistenceDirty ||
      (router.deliveredIds.size ≠ 0 ∨ router.processedIds.size ≠ 0 ∨ router.outboundStampCosts.size ≠ 0) }

/-- Absorb a step of the wall clock, told from the monotonic clock. -/
def anchorWallClock (nowUnix : Rat) (nowMs : Nat) (world : World Env) : World Env :=
  let anchored := match world.router.timebaseAnchor with
    | none => world
    | some (anchorUnix, anchorMs) =>
      let step := (nowUnix - anchorUnix) - ((nowMs - anchorMs : Nat) : Rat) / 1000
      if timebaseJumpSecs < |step| then world.rebaseAgeing step nowUnix else world
  { anchored with router.timebaseAnchor := some (nowUnix, nowMs) }

/-- Drop what has grown too old. -/
def clean (nowUnix : Rat) (world : World Env) : World Env :=
  let router := world.router
  let costs := router.outboundStampCosts.retain (fun _ entry => nowUnix - entry.1 ≤ stampCostExpiry)
  let delivered := router.deliveredIds.retain (fun _ seen => nowUnix - seen ≤ messageExpirySecs * 6)
  let processed := router.processedIds.retain (fun _ seen => nowUnix - seen ≤ messageExpirySecs * 6)
  { world with
    router.outboundStampCosts := costs
    router.deliveredIds := delivered
    router.processedIds := processed
    router.tickets := router.tickets.cleaned nowUnix
    router.persistenceDirty := router.persistenceDirty ||
      (router.outboundStampCosts.size ≠ costs.size ∨ router.deliveredIds.size ≠ delivered.size ∨
        router.processedIds.size ≠ processed.size ∨ router.tickets.cleanChanges nowUnix) }

/-- The outbound job: every due message once, then the cleaning. -/
def runJob (nowMs : Nat) (nowUnix : Rat) (world : World Env) : World Env :=
  let started : World Env := { world with router.nextJobMs := satAdd nowMs processingIntervalMs }
  ((dueMessages started.router nowMs).foldl (processDue prims ops nowMs nowUnix) started).clean nowUnix

end World

end Leviculum.Router
