import Leviculum.Transport.AnnounceQueue
import Leviculum.Transport.Announce

/-! The timers of a node: `poll`, `retry_pending_discoveries` and `next_deadline`, over the
tables whose rows carry a deadline. -/

namespace Leviculum.Transport

def linkTimeoutMs : Nat := 900000
def pathRequestMinIntervalMs : Nat := 20000
def discoveryRetryIntervalMs : Nat := 5000
def pathfinderGMs : Nat := 5000
def pathRequestGraceMs : Nat := 400
def pathRequestRgMs : Nat := 1500
def receiptRetentionMs : Nat := 30000
def cleanupIntervalMs : Nat := 60000

/-- No interface has this index. -/
def usizeMax : Nat := 2 ^ 64 - 1

inductive ReceiptStatus where
  | sent
  | delivered
  | failed
  deriving DecidableEq, Repr

structure PacketReceipt where
  sentAtMs : Nat
  timeoutMs : Nat
  status : ReceiptStatus
  deriving DecidableEq

/-- An announce the ingress limit holds back. -/
structure HeldAnnounce where
  raw : Bytes
  hops : Nat
  peer : Option TruncatedHash

structure Timers where
  paths : Table PathEntry
  receipts : Table PacketReceipt
  announces : Table AnnounceEntry
  /-- `held_announce_entries`: rows a path response displaced. -/
  heldEntries : List (TruncatedHash × AnnounceEntry)
  links : Table LinkEntry
  caps : List (Nat × InterfaceAnnounceCap)
  /-- Requesting interface and end of the window. -/
  discoveries : Table (Nat × Nat)
  lastDiscoveryRetryMs : Nat
  /-- `interface_held_announces`. -/
  heldAnnounces : List (Nat × List (TruncatedHash × HeldAnnounce))
  pathRequestTimes : TruncatedHash → Option Nat
  announceCache : Table Bytes
  /-- The other rows of a destination; its path and announce row stand above. -/
  rest : TruncatedHash → Route
  localDestinations : List TruncatedHash
  interfaceModes : Nat → Option InterfaceMode
  interfaceTransit : Nat → Option Bool
  dutyHoldIfaces : List Nat
  linkSparing : Nat → Bool
  interfaceOnline : Nat → Bool
  /-- `interface_hw_mtus`: the registered interfaces. -/
  interfaces : List Nat
  interfaceNextSlotMs : Nat → Option Nat

structure TimerConfig where
  node : NodeConfig
  announce : AnnounceConfig
  maxQueuedAnnounces : Nat
  releaseDraw : TruncatedHash → Bytes → Nat
  /-- `announce_wait_ms`: destination, announce, draw and the widening of the ceiling. -/
  retryWaitMs : TruncatedHash → Bytes → Nat → Nat → Nat
  /-- Signature, blackhole and own-destination gates of `handle_announce`. -/
  admits : Packet → Nat → Bool
  /-- Cleanup of rows no deadline is read from, `clean_path_states`. -/
  housekeeping : Nat → (TruncatedHash → Route) → TruncatedHash → Route

namespace Timers

def surroundings (cfg : TimerConfig) (s : Timers) (nowMs : Nat) : Surroundings where
  nowMs
  paths := s.paths
  announceCache := s.announceCache
  localDestinations := s.localDestinations
  interfaceModes := s.interfaceModes
  interfaceTransit := s.interfaceTransit
  dutyHoldIfaces := s.dutyHoldIfaces
  linkSparing := s.linkSparing
  releaseDraw := cfg.releaseDraw

/-! Announces. -/

def route (s : Timers) (dest : TruncatedHash) : Route :=
  { s.rest dest with path := s.paths.get? dest, announce := s.announces.get? dest }

/-- Write the rows of one destination back; rows that did not change are not touched. -/
def setRoute (s : Timers) (dest : TruncatedHash) (r : Route) : Timers :=
  { s with
    rest := Function.update s.rest dest r
    paths := match r.path with
      | some path => if s.paths.get? dest = some path then s.paths else s.paths.insert dest path
      | none => s.paths
    announces := match r.announce with
      | some entry =>
        if s.announces.get? dest = some entry then s.announces else s.announces.insert dest entry
      | none => s.announces }

/-- The announce in a packet that unpacked, as the handler sees it. -/
def receivedAnnounce (cfg : TimerConfig) (nowMs iface : Nat) (peer : Option TruncatedHash)
    (raw : Bytes) (packet : Packet) : Option Announce :=
  (announceRandomHash packet).map fun randomHash =>
    { randomHash
      hops := packet.hops.toNat
      interfaceIndex := iface
      transportId := packet.transportId
      ingressPeer := peer
      isPathResponse := packet.context = .pathResponse
      raw
      nowMs
      admitted := cfg.admits packet iface }

/-- `handle_announce` past the ingress limit: an installed path also answers the
discovery that asked for it. -/
def handleAnnounce (cfg : TimerConfig) (nowMs iface : Nat) (peer : Option TruncatedHash)
    (raw : Bytes) (packet : Packet) (s : Timers) : Timers :=
  match receivedAnnounce cfg nowMs iface peer raw packet with
  | none => s
  | some a =>
    let dest := packet.destinationHash
    let (outcome, r) := (s.route dest).handleAnnounce cfg.announce a
    match outcome with
    | .installed _ =>
      { s.setRoute dest r with
        announceCache := s.announceCache.insert dest raw
        discoveries :=
          if cfg.node.enableTransport then s.discoveries.erase dest else s.discoveries }
    | _ => s.setRoute dest r

/-- The lowest-hop held announce, the first of several; one at the hop limit stays. -/
def selectHeld : List (TruncatedHash × HeldAnnounce) → Option (TruncatedHash × HeldAnnounce)
  | [] => none
  | held :: rest =>
    match selectHeld rest with
    | none => if held.2.hops < pathfinderMaxHops then some held else none
    | some other =>
      if held.2.hops < pathfinderMaxHops ∧ held.2.hops ≤ other.2.hops then some held else some other

/-- `process_held_announces` on an interface whose burst has calmed. -/
def releaseHeld (cfg : TimerConfig) (nowMs : Nat) (s : Timers) (iface : Nat) : Timers :=
  match (s.heldAnnounces.find? fun queue => queue.1 = iface).bind fun queue => selectHeld queue.2 with
  | none => s
  | some (dest, held) =>
    let popped := { s with
      heldAnnounces := s.heldAnnounces.map fun queue =>
        if queue.1 = iface then (queue.1, queue.2.filter fun other => other.1 ≠ dest) else queue }
    match Packet.unpack held.raw with
    | .error _ => popped
    | .ok packet =>
      handleAnnounce cfg nowMs iface held.peer held.raw
        { packet with hops := UInt8.ofNat held.hops } popped

def processHeldAnnounces (cfg : TimerConfig) (calm : Nat → Bool) (nowMs : Nat) (s : Timers) : Timers :=
  ((s.heldAnnounces.map Prod.fst).filter calm).foldl (releaseHeld cfg nowMs) s

/-! Rebroadcasts. -/

/-- Put the row a path response displaced back in place of the response. -/
def restoreHeld (s : Timers) (dest : TruncatedHash) : Timers :=
  match s.heldEntries.lookup dest with
  | none => s
  | some entry =>
    { s with
      announces := s.announces.insert dest entry
      heldEntries := s.heldEntries.filter fun held => held.1 ≠ dest }

def nextSlotMs (s : Timers) (nowMs iface : Nat) : Nat := (s.interfaceNextSlotMs iface).getD nowMs

/-- The slot to wait for, when no interface of the announce can take it now. -/
def deferTo (s : Timers) (nowMs : Nat) (target : Option Nat) : Option Nat :=
  match target with
  | some iface => if s.nextSlotMs nowMs iface > nowMs then some (s.nextSlotMs nowMs iface) else none
  | none =>
    let slots := s.interfaces.map (s.nextSlotMs nowMs)
    if slots.all (fun slot => slot > nowMs) then slots.min? else none

inductive Due where
  | keep
  | remove
  | defer (slot : Nat)
  | fire
  deriving DecidableEq

def dueOf (cfg : TimerConfig) (s : Timers) (nowMs : Nat) (entry : AnnounceEntry) : Due :=
  if entry.retries > pathfinderRetries ∨ entry.localRebroadcasts ≥ localRebroadcastsMax then .remove
  else
    match entry.retransmitAtMs with
    | none =>
      if nowMs - entry.timestampMs ≥ cfg.announce.announceRateLimitMs then .remove else .keep
    | some retransmitAt =>
      if retransmitAt ≤ nowMs ∧ !entry.rawPacket.isEmpty then
        match s.deferTo nowMs entry.targetInterface with
        | some slot => .defer slot
        | none => .fire
      else .keep

def removeAnnounce (s : Timers) (dest : TruncatedHash) : Timers :=
  { s with announces := s.announces.erase dest }.restoreHeld dest

def deferAnnounce (s : Timers) (dest : TruncatedHash) (slot : Nat) : Timers :=
  match s.announces.get? dest with
  | none => s
  | some entry =>
    { s with announces := s.announces.insert dest { entry with retransmitAtMs := some slot } }

def broadcastAnnounceWithCaps (cfg : TimerConfig) (nowMs : Nat) (packet : Packet) (s : Timers) :
    Timers :=
  match broadcastAnnounce cfg.node nowMs packet with
  | none => s
  | some a =>
    { s with
      caps := s.caps.map fun row => (row.1,
        (row.2.broadcast cfg.maxQueuedAnnounces (s.surroundings cfg nowMs) row.1 a).2) }

/-- The announce as it leaves again: our transport id on a relayed one, context afresh. -/
def rebuilt (cfg : TimerConfig) (entry : AnnounceEntry) (parsed : Packet) : Packet :=
  let counted := { parsed with hops := UInt8.ofNat entry.hops }
  let relayed :=
    if entry.hops > 0 then Node.rewriteHeader counted true (some cfg.node.identityHash) else counted
  { relayed with context := if entry.blockRebroadcasts then .pathResponse else .none }

/-- Only the broadcast of a relayed announce touches a table: a targeted response and
our own announces bypass the caps. -/
def emit (cfg : TimerConfig) (nowMs : Nat) (entry : AnnounceEntry) (packet : Packet) (s : Timers) :
    Timers :=
  if entry.targetInterface.isSome then s
  else if packet.hops = 0 ∨ s.caps.isEmpty then s
  else s.broadcastAnnounceWithCaps cfg nowMs packet

def backoffFactor (retries : Nat) : Nat := 2 ^ min retries 4

def reschedule (cfg : TimerConfig) (nowMs : Nat) (dest : TruncatedHash) (raw : Bytes) (s : Timers) :
    Timers :=
  let retries := ((s.announces.get? dest).map AnnounceEntry.retries).getD 0
  let jitter := cfg.retryWaitMs dest raw (saturatingAddU8 retries 1) (backoffFactor retries)
  { s with
    announces := s.announces.modify dest fun entry =>
      { entry with
        retransmitAtMs := some (nowMs + pathfinderGMs + jitter)
        retries := entry.retries + 1 } }

/-- After it fired an announce makes place for the row it displaced, or waits again. -/
def fireAnnounce (cfg : TimerConfig) (nowMs : Nat) (s : Timers) (row : TruncatedHash × AnnounceEntry) :
    Timers :=
  let (dest, entry) := row
  let again (s : Timers) : Timers :=
    if (s.heldEntries.lookup dest).isSome then s.restoreHeld dest
    else s.reschedule cfg nowMs dest entry.rawPacket
  match Packet.unpack entry.rawPacket with
  | .error _ => again s
  | .ok parsed =>
    let packet := rebuilt cfg entry parsed
    let sent := s.emit cfg nowMs entry packet
    if packet.hops.toNat > cfg.node.maxHops then sent.removeAnnounce dest else again sent

def checkAnnounceRebroadcasts (cfg : TimerConfig) (nowMs : Nat) (s : Timers) : Timers :=
  let rows := s.announces.entries.map fun row => (row, s.dueOf cfg nowMs row.2)
  let removed := (rows.filter fun row => row.2 = .remove).foldl
    (fun s row => s.removeAnnounce row.1.1) s
  let slots := rows.filterMap fun row =>
    match row.2 with
    | .defer slot => some (row.1.1, slot)
    | _ => none
  let deferred := slots.foldl (fun s row => s.deferAnnounce row.1 row.2) removed
  ((rows.filter fun row => row.2 = .fire).map Prod.fst).foldl (fireAnnounce cfg nowMs) deferred

def drainAnnounceQueues (cfg : TimerConfig) (nowMs : Nat) (s : Timers) : Timers :=
  { s with
    caps := s.caps.map fun row => (row.1, (row.2.drain (s.surroundings cfg nowMs) row.1).2) }

/-! Expiry. -/

def expirePaths (nowMs : Nat) (s : Timers) : Timers :=
  { s with paths := s.paths.keep fun row => row.2.expiresMs ≥ nowMs }

def receiptExpired (nowMs : Nat) (r : PacketReceipt) : Bool :=
  if r.status = .sent then nowMs - r.sentAtMs > r.timeoutMs
  else nowMs - r.sentAtMs > r.timeoutMs + receiptRetentionMs

def checkReceiptTimeouts (nowMs : Nat) (s : Timers) : Timers :=
  { s with receipts := s.receipts.keep fun row => !receiptExpired nowMs row.2 }

def linkExpired (nowMs : Nat) (entry : LinkEntry) : Bool :=
  if entry.validated then nowMs - entry.timestampMs > linkTimeoutMs
  else nowMs > entry.proofTimeoutMs

def markPathUnresponsive (s : Timers) (dest : TruncatedHash) : Timers :=
  { s with
    rest := Function.update s.rest dest { s.rest dest with pathState := some .unresponsive } }

def requestThrottled (s : Timers) (nowMs : Nat) (dest : TruncatedHash) : Bool :=
  (s.pathRequestTimes dest).any fun last => nowMs - last < pathRequestMinIntervalMs

/-- `request_path`: a path over an interface that is down is distrusted on the way. -/
def requestPath (nowMs : Nat) (dest : TruncatedHash) (s : Timers) : Timers :=
  let s :=
    if (s.paths.get? dest).any fun path => !s.interfaceOnline path.interfaceIndex then
      s.markPathUnresponsive dest
    else s
  if s.requestThrottled nowMs dest then s
  else { s with pathRequestTimes := Function.update s.pathRequestTimes dest (some nowMs) }

/-- A link whose proof never came puts its path in doubt. -/
def rediscover (cfg : TimerConfig) (nowMs : Nat) (s : Timers) (entry : LinkEntry) : Timers :=
  let dest := entry.destinationHash
  let throttled := s.requestThrottled nowMs dest
  let path := s.paths.get? dest
  if entry.validated then s
  else
    let mark : Bool := path.isSome && !throttled && entry.hops ≠ 0 &&
      (path.any (fun path => path.hops = 1) || entry.hops = 1)
    let request : Bool := path.isNone || (!throttled && entry.hops = 0) || mark
    let s := if mark && cfg.node.enableTransport then s.markPathUnresponsive dest else s
    if request then
      let s := if cfg.node.enableTransport then s else { s with paths := s.paths.erase dest }
      s.requestPath nowMs dest
    else s

def cleanLinkTable (cfg : TimerConfig) (nowMs : Nat) (s : Timers) : Timers :=
  ((s.links.entries.filter fun row => linkExpired nowMs row.2).map Prod.snd).foldl
    (rediscover cfg nowMs) { s with links := s.links.keep fun row => !linkExpired nowMs row.2 }

def cleanPathStates (cfg : TimerConfig) (nowMs : Nat) (s : Timers) : Timers :=
  { s with
    rest := cfg.housekeeping nowMs s.rest
    discoveries := s.discoveries.keep fun row => row.2.2 > nowMs
    pathRequestTimes := fun dest =>
      (s.pathRequestTimes dest).filter fun last => nowMs - last < pathRequestMinIntervalMs }

/-- `calm` tells the interfaces whose announce burst is over. -/
def poll (cfg : TimerConfig) (calm : Nat → Bool) (nowMs : Nat) (s : Timers) : Timers :=
  let s := (s.expirePaths nowMs).checkReceiptTimeouts nowMs
  let s := (s.checkAnnounceRebroadcasts cfg nowMs).drainAnnounceQueues cfg nowMs
  let s := (s.cleanLinkTable cfg nowMs).cleanPathStates cfg nowMs
  s.processHeldAnnounces cfg calm nowMs

def retryPendingDiscoveries (nowMs : Nat) (s : Timers) : Timers :=
  if nowMs < s.lastDiscoveryRetryMs + discoveryRetryIntervalMs then s
  else if s.discoveries.entries.isEmpty then s
  else { s with lastDiscoveryRetryMs := nowMs }

/-! Where else announce rows come from. -/

/-- The one further emission of an announce this node originated itself. -/
def scheduleOwnAnnounceRetry (cfg : TimerConfig) (nowMs : Nat) (dest : TruncatedHash) (raw : Bytes)
    (s : Timers) : Timers :=
  { s with
    announces := s.announces.insert dest {
      timestampMs := nowMs
      hops := 0
      retries := pathfinderRetries
      retransmitAtMs := some (nowMs + pathfinderGMs + cfg.retryWaitMs dest raw 0 1)
      rawPacket := raw
      receivingInterfaceIndex := usizeMax
      targetInterface := none
      localRebroadcasts := 0
      blockRebroadcasts := false } }

/-- A pending rebroadcast is held while a path response takes its row, and is never
displaced by a second response. -/
def holdDisplacedAnnounce (dest : TruncatedHash) (s : Timers) : Timers :=
  match s.announces.get? dest with
  | none => s
  | some existing =>
    if (s.heldEntries.lookup dest).any
        fun held => !held.blockRebroadcasts && existing.blockRebroadcasts then s
    else
      { s with
        heldEntries := (dest, existing) :: s.heldEntries.filter fun held => held.1 ≠ dest }

/-- `handle_path_request` answered from the cached announce of a known path. -/
def answerPathRequest (cfg : TimerConfig) (nowMs iface : Nat) (dest : TruncatedHash) (s : Timers) :
    Timers :=
  match s.paths.get? dest, s.announceCache.get? dest with
  | some path, some cached =>
    let roaming := (s.interfaceModes iface).getD .full = .roaming
    if !cfg.node.enableTransport ∨ (roaming ∧ path.interfaceIndex = iface) then s
    else
      match Packet.unpack cached with
      | .error _ => s
      | .ok _ =>
        let grace := if roaming then pathRequestGraceMs + pathRequestRgMs else pathRequestGraceMs
        let held := s.holdDisplacedAnnounce dest
        { held with
          announces := held.announces.insert dest {
            timestampMs := nowMs
            hops := path.hops
            retries := pathfinderRetries
            retransmitAtMs := some (nowMs + grace)
            rawPacket := cached
            receivingInterfaceIndex := iface
            targetInterface := some iface
            localRebroadcasts := 0
            blockRebroadcasts := true } }
  | _, _ => s

/-- A path request for a destination of this node, answered with the fresh announce `raw`. -/
def answerOwnPathRequest (nowMs iface : Nat) (dest : TruncatedHash) (raw : Bytes) (s : Timers) : Timers :=
  let held := { s with announceCache := s.announceCache.insert dest raw }.holdDisplacedAnnounce dest
  { held with
    announces := held.announces.insert dest {
      timestampMs := nowMs
      hops := 0
      retries := 0
      retransmitAtMs := some (nowMs + pathRequestGraceMs)
      rawPacket := raw
      receivingInterfaceIndex := iface
      targetInterface := some iface
      localRebroadcasts := 0
      blockRebroadcasts := true } }

/-- `remove_targeted_announces_for_interface`. -/
def removeTargetedAnnounces (iface : Nat) (s : Timers) : Timers :=
  ((s.announces.entries.filter fun row => row.2.targetInterface = some iface).map Prod.fst).foldl
    removeAnnounce
    { s with heldEntries := s.heldEntries.filter fun held => held.2.targetInterface ≠ some iface }

/-! Deadlines. -/

def linkDeadline (entry : LinkEntry) : Nat :=
  if entry.validated then entry.timestampMs + linkTimeoutMs else entry.proofTimeoutMs

def capDeadline (cap : InterfaceAnnounceCap) : Option Nat :=
  if cap.queue.isEmpty then none else some cap.allowedAtMs

def receiptDeadline (r : PacketReceipt) : Option Nat :=
  if r.status = .sent then some (r.sentAtMs + r.timeoutMs) else none

def deadlines (cfg : TimerConfig) (nowMs : Nat) (s : Timers) : List Nat :=
  s.paths.entries.map (fun row => row.2.expiresMs) ++
  s.receipts.entries.filterMap (fun row => receiptDeadline row.2) ++
  s.announces.entries.filterMap (fun row => row.2.retransmitAtMs) ++
  s.links.entries.map (fun row => linkDeadline row.2) ++
  s.caps.filterMap (fun row => capDeadline row.2) ++
  (if s.discoveries.entries.isEmpty then [] else [s.lastDiscoveryRetryMs + discoveryRetryIntervalMs]) ++
  (if cfg.node.enableTransport then [nowMs + cleanupIntervalMs] else [])

def nextDeadline (cfg : TimerConfig) (nowMs : Nat) (s : Timers) : Option Nat :=
  (s.deadlines cfg nowMs).min?

end Timers

end Leviculum.Transport
