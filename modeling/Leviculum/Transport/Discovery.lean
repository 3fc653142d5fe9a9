import Leviculum.Transport.Poll
import Mathlib.Data.List.Sort

/-! Path discovery on behalf of others: a request for an unknown destination opens a window, the
requests that follow are batched onto it, and the announce that answers goes to all who asked. One
window is spread over a row of the storage and three tables beside it. -/

namespace Leviculum.Transport

def discoveryTimeoutMs : Nat := 30000

/-- `DISCOVER_PATHS_FOR`. -/
def InterfaceMode.discoversPaths : InterfaceMode → Bool
  | .accessPoint | .gateway | .roaming => true
  | _ => false

/-- A path request, with what its handler reads of the rest of the node. -/
structure PathRequest where
  dest : TruncatedHash
  iface : Nat
  nowMs : Nat
  /-- The transport instance that asks, when the payload names it. -/
  requestor : Option TruncatedHash
  ingressPeer : Option TruncatedHash
  /-- `check_path_request_tag`: this very request was seen before. -/
  seenTag : Bool
  burstLimited : Bool
  localDestination : Bool
  path : Option PathEntry
  pathState : Option PathState
  cachedAnnounce : Option Bytes
  localClients : List Nat
  interfaceNames : List Nat
  interfaceOnline : Nat → Bool
  peerCount : Nat → Nat
  /-- `egress_limited_path_request_ifaces`. -/
  egressLimited : List Nat

namespace PathRequest

def fromLocal (r : PathRequest) : Bool := r.localClients.contains r.iface

def nextHopIsRequestor (r : PathRequest) : Bool :=
  match r.requestor, r.path.bind PathEntry.nextHop with
  | some requestor, some nextHop => requestor = nextHop
  | _, _ => false

/-- The request ends before discovery: a repeat, refused, or answered from what is known. -/
def settled (cfg : NodeConfig) (r : PathRequest) : Bool :=
  r.seenTag || r.localDestination || r.nextHopIsRequestor ||
    ((r.fromLocal || cfg.enableTransport) && r.path.isSome && r.cachedAnnounce.isSome)

/-- An interface of the network asks this node to find the destination. -/
def asks (cfg : NodeConfig) (r : PathRequest) : Bool := !r.settled cfg && !r.fromLocal

def usablePath (r : PathRequest) : Bool :=
  r.path.any fun path => r.interfaceOnline path.interfaceIndex && r.pathState ≠ some .unresponsive

def peerLinks (r : PathRequest) : List Nat :=
  r.interfaceNames.filter fun id =>
    id ≠ r.iface && !r.localClients.contains id && r.interfaceOnline id && r.peerCount id > 0 &&
      !r.egressLimited.contains id

end PathRequest

/-- What the discovery of paths puts on the wire. -/
inductive Outgoing where
  /-- A path request to every interface but one, or but one link of it, and the limited ones. -/
  | broadcast (dest : TruncatedHash) (except : Nat) (peer : Option TruncatedHash) (limited : List Nat)
  | pathRequest (dest : TruncatedHash) (iface : Nat)
  | pathResponse (dest : TruncatedHash) (iface : Nat) (packet : Packet)
  deriving DecidableEq

structure Discovery where
  nowMs : Nat
  /-- `discovery_path_requests`: requesting interface and end of the window. -/
  requests : Table (Nat × Nat)
  peerLinkReoriginations : TruncatedHash → Bool
  requestPeers : TruncatedHash → Option TruncatedHash
  /-- Ascending. -/
  extraRequesters : TruncatedHash → List Nat
  lastRetryMs : Nat
  pathRequestTimes : TruncatedHash → Option Nat
  /-- The registered interfaces with their modes. -/
  interfaces : Nat → Option InterfaceMode

namespace Discovery

def empty (capacity : Nat) : Discovery where
  nowMs := 0
  requests := BoundedMap.withCapacity capacity
  peerLinkReoriginations := fun _ => false
  requestPeers := fun _ => none
  extraRequesters := fun _ => []
  lastRetryMs := 0
  pathRequestTimes := fun _ => none
  interfaces := fun _ => none

def discovers (s : Discovery) (iface : Nat) : Bool := ((s.interfaces iface).getD .full).discoversPaths

def active (cfg : NodeConfig) (s : Discovery) (r : PathRequest) : Bool :=
  ((cfg.enableTransport && s.discovers r.iface) ||
    (cfg.enableTransport && r.cachedAnnounce.isSome && r.path.isNone)) && !r.burstLimited

/-- A set of interfaces, kept in order. -/
def addRequester (iface : Nat) (ifaces : List Nat) : List Nat :=
  if iface ∈ ifaces then ifaces else ifaces.orderedInsert (· ≤ ·) iface

def rememberExtraRequester (s : Discovery) (dest : TruncatedHash) (iface : Nat) : Discovery :=
  if (s.requests.get? dest).map Prod.fst = some iface then s
  else
    { s with
      extraRequesters := Function.update s.extraRequesters dest
        (addRequester iface (s.extraRequesters dest)) }

def openWindow (s : Discovery) (r : PathRequest) : Discovery :=
  { s with
    requests := s.requests.insertIfAbsent r.dest (r.iface, r.nowMs + discoveryTimeoutMs)
    requestPeers := Function.update s.requestPeers r.dest r.ingressPeer }

def throttled (s : Discovery) (r : PathRequest) : Bool :=
  (s.pathRequestTimes r.dest).any fun last => r.nowMs - last < pathRequestMinIntervalMs

def reorigination (cfg : NodeConfig) (s : Discovery) (r : PathRequest) : Bool :=
  cfg.enableTransport && !r.usablePath && !r.peerLinks.isEmpty && !s.throttled r &&
    !s.requests.contains r.dest

def reoriginateTowardPeerLinks (cfg : NodeConfig) (s : Discovery) (r : PathRequest) :
    Discovery × List Outgoing :=
  if s.reorigination cfg r then
    ({ s with
        pathRequestTimes := Function.update s.pathRequestTimes r.dest (some r.nowMs)
        requests := s.requests.insertIfAbsent r.dest (r.iface, r.nowMs + discoveryTimeoutMs)
        peerLinkReoriginations := Function.update s.peerLinkReoriginations r.dest true },
      r.peerLinks.map (.pathRequest r.dest))
  else (s, [])

def localForwards (r : PathRequest) : List Outgoing :=
  (r.localClients.filter fun id => id ≠ r.iface && !r.egressLimited.contains id).map (.pathRequest r.dest)

/-- Case 3 of `handle_path_request`, an unknown destination asked for by the network. -/
def discover (cfg : NodeConfig) (s : Discovery) (r : PathRequest) : Discovery × List Outgoing :=
  if cfg.enableTransport && s.discovers r.iface && r.burstLimited then (s, [])
  else if s.active cfg r then
    if s.requests.contains r.dest then (s.rememberExtraRequester r.dest r.iface, [])
    else (s.openWindow r, .broadcast r.dest r.iface r.ingressPeer r.egressLimited :: localForwards r)
  else
    let (s, sent) := s.reoriginateTowardPeerLinks cfg r
    (s, localForwards r ++ sent)

def handlePathRequest (cfg : NodeConfig) (s : Discovery) (r : PathRequest) : Discovery × List Outgoing :=
  if r.settled cfg then (s, [])
  else if r.fromLocal then
    (s, (r.interfaceNames.filter fun id => id ≠ r.iface).map (.pathRequest r.dest))
  else s.discover cfg r

/-- Drop the window with every record beside it. -/
def forgetRequesters (s : Discovery) (dest : TruncatedHash) : Discovery :=
  { s with
    requests := s.requests.erase dest
    peerLinkReoriginations := Function.update s.peerLinkReoriginations dest false
    requestPeers := Function.update s.requestPeers dest none
    extraRequesters := Function.update s.extraRequesters dest [] }

/-- `expire_discovery_path_requests` and `expire_path_requests`, both called by `clean_path_states`. -/
def cleanPathStates (nowMs : Nat) (s : Discovery) : Discovery :=
  { s with
    requests := s.requests.keep fun row => row.2.2 > nowMs
    pathRequestTimes := fun dest =>
      (s.pathRequestTimes dest).filter fun last => nowMs - last < pathRequestMinIntervalMs }

/-- Records whose window is gone. -/
def prune (s : Discovery) : Discovery :=
  { s with
    peerLinkReoriginations := fun dest => s.peerLinkReoriginations dest && s.requests.contains dest
    requestPeers := fun dest => if s.requests.contains dest then s.requestPeers dest else none
    extraRequesters := fun dest => if s.requests.contains dest then s.extraRequesters dest else [] }

def retryDue (s : Discovery) (nowMs : Nat) : Bool := nowMs ≥ s.lastRetryMs + discoveryRetryIntervalMs

def retryOf (s : Discovery) (nowMs : Nat) (limited : Nat → List Nat) (row : TruncatedHash × Nat × Nat) :
    List Outgoing :=
  let (dest, iface, timeoutMs) := row
  if s.peerLinkReoriginations dest then []
  else if nowMs ≥ timeoutMs then []
  else if !s.discovers iface then []
  else [.broadcast dest iface (s.requestPeers dest) (limited iface)]

/-- `limited` tells the interfaces whose egress limit holds a request back. -/
def retryPendingDiscoveries (s : Discovery) (nowMs : Nat) (limited : Nat → List Nat) :
    Discovery × List Outgoing :=
  if !s.retryDue nowMs then (s, [])
  else if s.requests.entries.isEmpty then (s.prune, [])
  else
    ({ s.prune with lastRetryMs := nowMs },
      s.requests.entries.flatMap (s.prune.retryOf nowMs limited))

/-- A window whose interface is gone is taken over by the lowest of those batched onto it. -/
def cullWindow (iface : Nat) (s : Discovery) (dest : TruncatedHash) : Discovery :=
  match s.requests.get? dest with
  | none => s
  | some (owner, timeoutMs) =>
    if owner ≠ iface then s
    else
      match s.extraRequesters dest with
      | [] => s.forgetRequesters dest
      | heir :: others =>
        { s with
          requestPeers := Function.update s.requestPeers dest none
          extraRequesters := Function.update s.extraRequesters dest others
          requests := (s.requests.erase dest).insertIfAbsent dest (heir, timeoutMs) }

def removeRequestersForInterface (s : Discovery) (iface : Nat) : Discovery :=
  (s.requests.entries.map Prod.fst).foldl (cullWindow iface)
    { s with extraRequesters := fun dest => (s.extraRequesters dest).filter (· ≠ iface) }

/-- The interfaces an answer is owed to, the one of the window first. -/
def requesterIfaces (s : Discovery) (dest : TruncatedHash) (owner : Nat) : List Nat :=
  (s.extraRequesters dest).foldl (fun ifaces iface => if iface ∈ ifaces then ifaces else ifaces ++ [iface])
    [owner]

structure PathUpdate where
  dest : TruncatedHash
  hops : Nat
  raw : Bytes
  localDestination : Bool
  dutyHold : Nat → Bool

def answerPacket (cfg : NodeConfig) (hops : Nat) (parsed : Packet) : Packet :=
  { Node.rewriteHeader { parsed with hops := UInt8.ofNat hops } true (some cfg.identityHash) with
    context := .pathResponse }

def sendDiscoveryPathResponse (cfg : NodeConfig) (s : Discovery) (nowMs : Nat) (update : PathUpdate) :
    Discovery × List Outgoing :=
  match s.requests.get? update.dest with
  | none => (s, [])
  | some (owner, timeoutMs) =>
    if nowMs ≥ timeoutMs then (s.forgetRequesters update.dest, [])
    else
      let responses := match Packet.unpack update.raw with
        | .error _ => []
        | .ok parsed =>
          ((s.requesterIfaces update.dest owner).filter
            fun iface => update.localDestination || !update.dutyHold iface).map
            fun iface => .pathResponse update.dest iface (answerPacket cfg update.hops parsed)
      (s.forgetRequesters update.dest, responses)

/-! ### Runs -/

inductive Event where
  | request (r : PathRequest)
  /-- `handle_announce` took the announce and refreshed the path. -/
  | announce (nowMs : Nat) (update : PathUpdate)
  | poll (nowMs : Nat)
  | retry (nowMs : Nat) (limited : Nat → List Nat)
  | interfaceUp (iface : Nat) (mode : InterfaceMode)
  | interfaceDown (iface : Nat)
  /-- `request_path` sets the throttle that re-originations share. -/
  | requestedPath (nowMs : Nat) (dest : TruncatedHash)

/-- The clock does not run backwards, packets come in on registered interfaces, and an announce was
parsed before it is handled. -/
def enabled (s : Discovery) : Event → Bool
  | .request r => s.nowMs ≤ r.nowMs && (s.interfaces r.iface).isSome
  | .announce nowMs update => s.nowMs ≤ nowMs && (Packet.unpack update.raw).toOption.isSome
  | .poll nowMs => s.nowMs ≤ nowMs
  | .retry nowMs _ => s.nowMs ≤ nowMs
  | .interfaceUp iface _ => (s.interfaces iface).isNone
  | .interfaceDown iface => (s.interfaces iface).isSome
  | .requestedPath nowMs _ => s.nowMs ≤ nowMs

def handle (cfg : NodeConfig) (s : Discovery) : Event → Discovery × List Outgoing
  | .request r => { s with nowMs := r.nowMs }.handlePathRequest cfg r
  | .announce nowMs update =>
    if cfg.enableTransport then { s with nowMs }.sendDiscoveryPathResponse cfg nowMs update
    else ({ s with nowMs }, [])
  | .poll nowMs => ({ s with nowMs }.cleanPathStates nowMs, [])
  | .retry nowMs limited => { s with nowMs }.retryPendingDiscoveries nowMs limited
  | .interfaceUp iface mode => ({ s with interfaces := Function.update s.interfaces iface (some mode) }, [])
  | .interfaceDown iface =>
    let s := s.removeRequestersForInterface iface
    ({ s with interfaces := Function.update s.interfaces iface none }, [])
  | .requestedPath nowMs dest =>
    ({ s with nowMs, pathRequestTimes := Function.update s.pathRequestTimes dest (some nowMs) }, [])

/-! The row of a window and the retry timer are those of the node's timers. -/

theorem cleanPathStates_timers (cfg : TimerConfig) (nowMs : Nat) {s : Discovery} {t : Timers}
    (rows : t.discoveries = s.requests) : (t.cleanPathStates cfg nowMs).discoveries = (s.cleanPathStates nowMs).requests := by
  show t.discoveries.keep _ = s.requests.keep _
  rw [rows]

theorem retryPendingDiscoveries_timers (nowMs : Nat) (limited : Nat → List Nat) {s : Discovery} {t : Timers}
    (rows : t.discoveries = s.requests) (last : t.lastDiscoveryRetryMs = s.lastRetryMs) :
    (t.retryPendingDiscoveries nowMs).discoveries = (s.retryPendingDiscoveries nowMs limited).1.requests ∧
      (t.retryPendingDiscoveries nowMs).lastDiscoveryRetryMs = (s.retryPendingDiscoveries nowMs limited).1.lastRetryMs := by
  unfold Timers.retryPendingDiscoveries retryPendingDiscoveries
  rw [rows, last]
  by_cases early : nowMs < s.lastRetryMs + discoveryRetryIntervalMs
  · have waits : (!s.retryDue nowMs) = true := by simp [retryDue, early]
    rw [if_pos early, if_pos waits]
    exact ⟨rows, last⟩
  · have due : ¬(!s.retryDue nowMs) = true := by simp [retryDue, Nat.le_of_not_lt early]
    rw [if_neg early, if_neg due]
    split
    · exact ⟨rows, last⟩
    · exact ⟨rfl, rfl⟩

end Discovery

end Leviculum.Transport
