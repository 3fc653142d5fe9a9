import Leviculum.Router.Inbound

/-! The propagation client: fetching mail from a propagation node, and uploading mail to it. -/

namespace Leviculum.Router

open Propagation (DestinationHash TransientId destinationLength)

def syncIsActive : PropagationClientState → Bool
  | .pathRequested | .linkEstablishing | .linkEstablished | .requestSent | .receiving | .responseReceived => true
  | _ => false

def syncFailed : PropagationClientState → Bool
  | .noPath | .linkFailed | .transferFailed | .noIdentity | .noAccess | .failed => true
  | _ => false

def least {Value : Type} (less : Value → Value → Bool) : List Value → Option Value
  | [] => none
  | value :: rest =>
    match least less rest with
    | none => some value
    | some best => if less best value then some best else some value

/-- Tuples in the order of their components. -/
def lexLess : List Nat → List Nat → Bool
  | _, [] => false
  | [], _ :: _ => true
  | a :: left, b :: right => a < b ∨ a = b ∧ lexLess left right

namespace PropagationRuntime

def fresh (config : PropagationClientConfig) : PropagationRuntime := ⟨config, none, .fresh⟩

/-- When the client wants to be called: while it waits for a path. -/
def nextDeadline (runtime : PropagationRuntime) : Option Nat :=
  if runtime.client.state ≠ .pathRequested then none
  else
    match runtime.client.pathDeadlineMs, runtime.client.nextPathRequestMs with
    | some deadline, some again => some (min deadline again)
    | deadline, again => deadline.or again

end PropagationRuntime

namespace World

variable {Env : Type} (prims : Primitives) (ops : NodeOps Env)

def nowMs (world : World Env) : Nat := (ops.nowMs world.env).toNat

def setRuntime (write : PropagationRuntime → PropagationRuntime) (world : World Env) : World Env :=
  { world with router.propagation := world.router.propagation.map write }

def setClient (write : MailboxSync → MailboxSync) : World Env → World Env :=
  setRuntime (fun runtime => { runtime with client := write runtime.client })

def outboundNode (world : World Env) : Option DestinationHash :=
  world.router.propagation.bind PropagationRuntime.outboundNode

def clientState (world : World Env) : Option PropagationClientState :=
  world.router.propagation.map (fun runtime => runtime.client.state)

def emitSyncStatus (world : World Env) : World Env :=
  match world.router.propagation with
  | none => world
  | some runtime =>
    world.emit (.propagationSyncState ⟨runtime.client.state, runtime.client.progress, runtime.client.transferSize⟩)

/-- Move the client to `state`; reported when it is another one. -/
def setClientState (state : PropagationClientState) (world : World Env) : World Env :=
  let world := if syncFailed state then
      world.setClient (fun client => { client with progress := 0, pathDeadlineMs := none })
    else world
  if world.clientState = some state then world
  else (world.setClient (fun client => { client with state })).emitSyncStatus

def complete (received duplicates : Nat) (world : World Env) : World Env :=
  ((world.setClient (fun client => { client with received, duplicates, progress := 1 })).setClientState
    .complete).emit (.propagationSyncComplete received duplicates)

def activeLink (world : World Env) : Option LinkId := world.outboundNode.bind (ops.activeLink world.env)

def requestPath (destination : DestinationHash) (onBehalf : Option MessageId) (world : World Env) : World Env :=
  { world with env := ops.requestPath destination world.env }.act (.pathRequest destination onBehalf)

def closeLink (link : LinkId) (world : World Env) : World Env :=
  { world with env := ops.close link world.env }.act (.close link)

def cancelOutboundLink (world : World Env) : World Env :=
  match world.outboundNode with
  | none => world
  | some destination => { world with env := ops.cancel destination world.env }.act (.cancelLink destination)

def handleRemoteError (error : PeerError) (world : World Env) : World Env :=
  (world.setClientState
    (match error with
    | .noIdentity => .noIdentity
    | .noAccess => .noAccess
    | .other => .transferFailed)).cancelOutboundLink ops

/-- Deliver one fetched message; whether its encrypted form was seen before. An error leaves no record. -/
def deliverUnstamped (bytes : Bytes) (nowUnix : Rat) (world : World Env) : Except RouterError Bool × World Env :=
  let transientId : TransientId := prims.fullHash bytes
  if world.router.processedIds.contains transientId then (.ok true, world.emit (.duplicate transientId))
  else if bytes.length ≤ lxmfOverhead then (.error (.propagation .invalidLength), world)
  else if bytes.take destinationLength ≠ world.router.deliveryDestination.val then
    (.ok false, world.insertProcessedId transientId nowUnix)
  else
    match ops.openLocal world.env .propagated bytes with
    | .error error => (.error error, world)
    | .ok message =>
      (.ok false, ((world.insertProcessedId transientId nowUnix).insertDeliveredId transientId nowUnix).handleInboundMessage
        prims message nowUnix)

/-- Deliver what a node sent; how many were seen before. -/
def deliverMessages (nowUnix : Rat) : List Bytes → World Env → Nat × World Env
  | [], world => (0, world)
  | bytes :: rest, world =>
    let (delivered, world) := world.deliverUnstamped prims ops bytes nowUnix
    let (duplicates, world) := deliverMessages nowUnix rest world
    ((match delivered with | .ok true => duplicates + 1 | _ => duplicates), world)

/-- A transfer of the message was accepted below. -/
def uploadSubmitted (id : MessageId) (world : World Env) : World Env :=
  match world.router.outbound.get? id with
  | none => world
  | some entry =>
    let next := satAdd (world.nowMs ops) deliveryRetryWaitMs
    let reported := if entry.state = .sending then world else world.emit (.messageState id .sending)
    (reported.revise id (fun entry epochs =>
      let written := entry.setState .sending epochs
      ({ written.1 with nextAttemptMs := next, progress := .started }, written.2))).markDirty

/-- Put an upload back, to be tried again at `nextAttemptMs`. -/
def scheduleUploadRetry (id : MessageId) (nextAttemptMs : Nat) (world : World Env) : World Env :=
  match world.router.outbound.get? id with
  | none => world
  | some _ =>
    (world.revise id (fun entry epochs =>
      let written := entry.setState .outbound epochs
      ({ written.1 with nextAttemptMs, progress := .started }, written.2))).markDirty

theorem upload_progress_bounds (progress : Rat) :
    (0 : Rat) ≤ 1 / 10 + max 0 (min progress 1) * (9 / 10) ∧ 1 / 10 + max 0 (min progress 1) * (9 / 10) ≤ (1 : Rat) := by
  have low : (0 : Rat) ≤ max 0 (min progress 1) := le_max_left _ _
  have high : max 0 (min progress 1) ≤ (1 : Rat) := max_le (by decide) (min_le_right _ _)
  constructor <;> grind

/-- The share of an upload, after the tenth its submission counts. -/
def uploadShare (progress : Rat) : Progress := ⟨1 / 10 + max 0 (min progress 1) * (9 / 10), upload_progress_bounds progress⟩

end World

end Leviculum.Router

/-! A mailbox round: list what the node holds, fetch what is wanted, acknowledge what came. The
operations below may fail anywhere in it, and a failure ends the call. -/

namespace Leviculum.Router

open Propagation (DestinationHash TransientId)

variable {Env : Type} (prims : Primitives) (ops : NodeOps Env)

def submitMailboxRequest (link : LinkId) (request : MessageGetRequest) (kind : PropagationRequestKind) :
    Proc Env Unit := do
  attempt .propagationTransport (ops.submitMailboxRequest link request kind)
  modify (World.act (.mailboxRequest link request kind))

def beginListRequest (link : LinkId) : Proc Env Unit := do
  modify (fun world => (world.setClient (fun client => { client with pathDeadlineMs := none })).setClientState
    .linkEstablished)
  attempt .propagationTransport (ops.identify link)
  modify (World.act (.identify link))
  submitMailboxRequest ops link ⟨none, none, none⟩ .list
  modify (World.setClientState .requestSent)

/-- The listed messages to fetch: those not delivered yet, up to the number asked for. -/
def wantedIds (router : LxmfRouter) (maxMessages : Option Nat) (ids : List TransientId) : List TransientId :=
  let missing := ids.filter (fun id => !router.hasMessage id)
  maxMessages.elim missing (fun limit => missing.take limit)

/-- The listed messages the node may drop: those delivered, unless they are to stay. -/
def haveIds (router : LxmfRouter) (retain : Bool) (ids : List TransientId) : List TransientId :=
  if retain then [] else ids.filter (fun id => router.hasMessage id)

def handleListResponse (reply : Option (Except PeerError (List TransientId))) : Proc Env Unit := do
  match reply with
  | none => modify (fun world => (world.setClientState .transferFailed).cancelOutboundLink ops)
  | some (.error error) => modify (World.handleRemoteError ops error)
  | some (.ok []) => modify (World.complete 0 0)
  | some (.ok ids) =>
    let world ← get
    match world.router.propagation with
    | none => pure ()
    | some runtime =>
      match world.activeLink ops with
      | none => modify (World.setClientState .linkFailed)
      | some link =>
        submitMailboxRequest ops link
          { wants := some (wantedIds world.router runtime.client.maxMessages ids)
            haves := some (haveIds world.router runtime.config.retainSyncedOnNode ids)
            transferLimitKb := some runtime.config.deliveryTransferLimitKb } .get
        modify (World.setClientState .requestSent)

/-- Tell the node which downloads it may drop. -/
def acknowledge (haves : List TransientId) : Proc Env Unit := do
  let world ← get
  match world.router.propagation with
  | none => pure ()
  | some runtime =>
    if haves = [] ∨ runtime.config.retainSyncedOnNode then pure ()
    else
      match world.activeLink ops with
      | none => pure ()
      | some link => submitMailboxRequest ops link ⟨none, some haves, none⟩ .acknowledge

def handleGetResponse (reply : Option (Except PeerError (List Bytes))) (nowUnix : Rat) : Proc Env Unit := do
  match reply with
  | none => modify (fun world => (world.setClientState .transferFailed).cancelOutboundLink ops)
  | some (.error error) => modify (World.handleRemoteError ops error)
  | some (.ok messages) =>
    let duplicates ← modifyGet (World.deliverMessages prims ops nowUnix messages)
    acknowledge ops (messages.map prims.fullHash)
    modify (World.complete messages.length duplicates)

/-- Make the queued uploads due, now that the link to their node is up. -/
def World.wakeUploads (nowMs : Nat) (world : World Env) : World Env :=
  let waits (entry : OutboundEntry) : Bool :=
    entry.message.method = .propagated ∧ entry.state = .outbound ∧ entry.nextAttemptMs ≠ nowMs
  let changed := world.router.outbound.values.any waits
  { world with
    router.outbound := world.router.outbound.mapValues
      (fun _ entry => if waits entry then { entry with nextAttemptMs := nowMs } else entry)
    router.persistenceDirty := world.router.persistenceDirty || changed }

def World.linkDown (destination : DestinationHash) (world : World Env) : World Env :=
  if world.outboundNode ≠ some destination then world
  else
    match world.clientState with
    | some .complete =>
      (world.setClient (fun client => { client with state := .idle, progress := 0, transferSize := none })).emitSyncStatus
    | some .pathRequested | some .linkEstablishing => world.setClientState .linkFailed
    | some .linkEstablished | some .requestSent | some .receiving | some .responseReceived =>
      world.setClientState .transferFailed
    | _ => world

/-- A download moved on. -/
def World.requestProgress (progress : Rat) (transferSize : Nat) (world : World Env) : World Env :=
  let changed : Bool := world.router.propagation.any
    (fun runtime => runtime.client.progress ≠ progress ∨ runtime.client.transferSize ≠ some transferSize)
  let world := world.setClient (fun client => { client with progress, transferSize := some transferSize })
  if world.clientState = some .receiving then if changed then world.emitSyncStatus else world
  else world.setClientState .receiving

/-- The node refused or lost an upload: it goes back to the queue. -/
def World.uploadFailed (id : MessageId) (world : World Env) : World Env :=
  match world.router.outbound.get? id with
  | none => world
  | some _ =>
    let next := satAdd (world.nowMs ops) deliveryRetryWaitMs
    (world.revise id (fun entry epochs =>
      let written := entry.setState .outbound epochs
      ({ written.1 with nextAttemptMs := next, progress := .started }, written.2))).markDirty

def World.concludeUpload (id : MessageId) (state : MessageState) (world : World Env) : World Env :=
  match world.router.outbound.get? id with
  | none => { world with router.buildsOutstanding := world.router.buildsOutstanding.erase id }
  | some _ => world.conclude id state

def World.uploadMoved (id : MessageId) (progress : Rat) (world : World Env) : World Env :=
  let changed : Bool := (world.router.outbound.get? id).any (fun entry => entry.progress ≠ uploadShare progress)
  (world.revise id (fun entry epochs => ({ entry with progress := uploadShare progress }, epochs))).markDirtyIf changed

def handleTransportEvent (event : PropagationTransportEvent) (nowUnix : Rat) : Proc Env Unit := do
  match event with
  | .nodeAnnounced destination =>
    let world ← get
    if world.outboundNode = some destination ∧ world.clientState = some .pathRequested then
      modify (fun world => (world.setClient (fun client => { client with pathDeadlineMs := none })).setClientState
        .linkEstablishing)
      match ops.activeLink world.env destination with
      | none => pure ()
      | some link => beginListRequest ops link
    else pure ()
  | .linkEstablished destination link =>
    let world ← get
    if world.outboundNode = some destination then
      if world.clientState.any syncIsActive then beginListRequest ops link else pure ()
      modify (fun world => world.wakeUploads (world.nowMs ops))
    else pure ()
  | .listResponse reply => handleListResponse ops reply
  | .getResponse reply => handleGetResponse prims ops reply nowUnix
  | .acknowledgeResponse => pure ()
  | .requestTimedOut .acknowledge => modify (World.cancelOutboundLink ops)
  | .requestTimedOut _ => modify (fun world => (world.setClientState .transferFailed).cancelOutboundLink ops)
  | .requestProgress .get progress transferSize => modify (World.requestProgress progress transferSize)
  | .requestProgress _ _ _ => pure ()
  | .uploadSubmitted id => modify (World.uploadSubmitted ops id)
  | .uploadProgress id progress => modify (World.uploadMoved id progress)
  | .uploadCompleted id => modify (World.concludeUpload id .awaitingCollection)
  | .uploadFailed link id reason =>
    -- A closed link is already down; after a timeout or a failed transfer the next try takes a fresh one.
    if reason = .linkClosed then pure () else modify (World.closeLink ops link)
    modify (World.uploadFailed ops id)
  | .uploadRejected link id => modify (fun world => (world.concludeUpload id .rejected).closeLink ops link)
  | .linkClosed destination => modify (World.linkDown destination)

def handleTransportEvents (nowUnix : Rat) : List PropagationTransportEvent → Proc Env Unit
  | [] => pure ()
  | event :: rest => do
    handleTransportEvent prims ops event nowUnix
    handleTransportEvents nowUnix rest

/-- A path to the selected node turned up while the client waited for one. -/
def World.pathFound (event : NodeEvent) (world : World Env) : World Env :=
  match event with
  | .pathFound destination =>
    if world.outboundNode = some destination ∧ world.clientState = some .pathRequested then
      (world.setClient (fun client => { client with pathDeadlineMs := none })).setClientState .linkEstablishing
    else world
  | _ => world

def propagationHandleEvent (event : NodeEvent) (nowUnix : Rat) : Proc Env Unit := do
  let events ← attempt .propagationTransport (transportHandleEvent ops event)
  modify (World.pathFound event)
  handleTransportEvents prims ops nowUnix events

/-- Ask once more for known nodes the node below no longer knows, and forget them. -/
def World.refreshOrphanedNodes (world : World Env) : World Env :=
  ((ops.knownNodes world.env).filter (fun known => ops.isOrphaned world.env known.destination)).foldl
    (fun world known =>
      let world := world.requestPath ops known.destination none
      { world with env := ops.forgetKnownNode known.destination world.env }) world

/-- Advance the wait for a path to the selected node. -/
def tickClient : Proc Env Unit := do
  let world ← get
  match world.router.propagation with
  | none => pure ()
  | some runtime =>
    if runtime.client.state ≠ .pathRequested then pure ()
    else
      let now := world.nowMs ops
      match runtime.outboundNode with
      | none => modify (World.setClientState .failed)
      | some destination =>
        if ops.hasPath world.env destination then
          modify (fun world => (world.setClient
            (fun client => { client with pathDeadlineMs := none, pathEndedMs := some now })).setClientState .linkEstablishing)
          attempt .propagationTransport (ops.ensureLink destination)
          modify (World.act (.ensureLink destination))
        else if runtime.client.pathDeadlineMs.any (· ≤ now) then
          modify (fun world =>
            ({ world.setClient (fun client => { client with pathDeadlineMs := none, pathEndedMs := some now }) with
              env := ops.cancel destination world.env }.act (.cancelLink destination)).setClientState .noPath)
        else if runtime.client.nextPathRequestMs.any (· ≤ now) then
          modify (fun world => (world.requestPath ops destination none).setClient (fun client =>
            { client with
              pathRequests := client.pathRequests + 1
              nextPathRequestMs := some (satAdd now pathRequestWaitMs) }))
        else pure ()

end Leviculum.Router
