import Leviculum.Transport.Node

/-! The airtime cap of one interface: announces are sent at a share of its bitrate, and
what comes early waits in a queue with one slot for each destination. -/

namespace Leviculum.Transport

def queuedAnnounceLifeMs : Nat := 24 * 60 * 60 * 1000
def announceMinSize : Nat := 148
def announceRatchetedMinSize : Nat := 180
def offsetRandomHash : Nat := 74

inductive InterfaceMode where
  | full
  | pointToPoint
  | accessPoint
  | roaming
  | boundary
  | gateway
  deriving DecidableEq, Repr

/-- An announce waiting for airtime. A re-offer is for the one peer it names, a
rebroadcast for every link of the interface. -/
structure QueuedAnnounce where
  raw : Bytes
  dst : TruncatedHash
  hops : Nat
  queuedAtMs : Nat
  emitted : Nat
  peer : Option TruncatedHash
  deriving DecidableEq

structure InterfaceAnnounceCap where
  bitrateBps : Nat
  announceCapPercent : Nat
  allowedAtMs : Nat
  queue : List QueuedAnnounce
  deriving DecidableEq

/-- Whom a transmission on one interface is for. -/
inductive Audience where
  /-- Every link, but the one the split horizon spares. -/
  | allLinks (spared : Option TruncatedHash)
  | onePeer (peer : TruncatedHash)
  deriving DecidableEq

structure Transmission where
  atMs : Nat
  raw : Bytes
  dst : TruncatedHash
  audience : Audience
  holdoffMs : Nat
  deriving DecidableEq

/-- What the announce paths read of the rest of the node. -/
structure Surroundings where
  nowMs : Nat
  paths : Table PathEntry
  announceCache : Table Bytes
  localDestinations : List TruncatedHash
  /-- `full` is stored as no entry, as is an interface that carries transit. -/
  interfaceModes : Nat → Option InterfaceMode
  interfaceTransit : Nat → Option Bool
  dutyHoldIfaces : List Nat
  linkSparing : Nat → Bool
  /-- `cap_release_draw_ms`. -/
  releaseDraw : TruncatedHash → Bytes → Nat

namespace Surroundings

def interfaceMode (env : Surroundings) (iface : Nat) : InterfaceMode :=
  (env.interfaceModes iface).getD .full

def carriesTransit (env : Surroundings) (iface : Nat) : Bool := (env.interfaceTransit iface).getD true

def dutyHold (env : Surroundings) (iface : Nat) : Bool := env.dutyHoldIfaces.contains iface

def learnedOn (env : Surroundings) (dest : TruncatedHash) : Option Nat :=
  (env.paths.get? dest).map PathEntry.interfaceIndex

def announceModeAllows (env : Surroundings) (out : Nat) (dest : TruncatedHash) (isLocal : Bool) : Bool :=
  if !isLocal && !env.carriesTransit out then false
  else if !isLocal && (env.learnedOn dest).any (fun iface => !env.carriesTransit iface) then false
  else
    match env.interfaceMode out with
    | .accessPoint => false
    | .roaming =>
      isLocal || (env.learnedOn dest).any fun iface =>
        env.interfaceMode iface ≠ .roaming ∧ env.interfaceMode iface ≠ .boundary
    | .boundary =>
      isLocal || (env.learnedOn dest).any fun iface => env.interfaceMode iface ≠ .roaming
    | .full | .gateway | .pointToPoint => true

/-- An interface in duty hold advertises no route of others. -/
def announceAllowedOnInterface (env : Surroundings) (out : Nat) (dest : TruncatedHash)
    (isLocal : Bool) : Bool :=
  if !isLocal && env.dutyHold out then false else env.announceModeAllows out dest isLocal

/-- Only interfaces with a mode, a hold or a transit declaration are ever blocked. -/
def announceBlocked (env : Surroundings) (iface : Nat) (dest : TruncatedHash) : Bool :=
  let isLocal := env.localDestinations.contains dest
  ((env.interfaceModes iface).isSome || env.dutyHold iface || (env.interfaceTransit iface).isSome) &&
    !env.announceAllowedOnInterface iface dest isLocal

/-- The link of our own next hop, on an interface that can spare one link. -/
def splitHorizon (env : Surroundings) (iface : Nat) (dest : TruncatedHash) : Option TruncatedHash :=
  match env.paths.get? dest with
  | none => none
  | some path =>
    match path.nextHop with
    | none => none
    | some nextHop =>
      if env.linkSparing path.interfaceIndex ∧ path.interfaceIndex = iface then
        some (path.viaPeer.getD nextHop)
      else none

end Surroundings

/-- The random hash of an announce packet, `ReceivedAnnounce::from_packet`. -/
def announceRandomHash (packet : Packet) : Option RandomHash :=
  let minSize := if packet.flags.contextFlag then announceRatchetedMinSize else announceMinSize
  if packet.flags.packetType ≠ .announce then none
  else if packet.data.length < minSize then none
  else FixedBytes.take? 10 (packet.data.drop offsetRandomHash)

/-- An unparseable payload never wins a slot. -/
def announceEmitted (packet : Packet) : Nat :=
  ((announceRandomHash packet).map emissionFromRandomHash).getD 0

namespace InterfaceAnnounceCap

/-- The airtime of the announce at the capped share of the bitrate; a share of nothing
gives none. -/
def holdoffMs (cap : InterfaceAnnounceCap) (raw : Bytes) : Nat :=
  raw.length * 8 * 1000 / (cap.bitrateBps * cap.announceCapPercent / 100)

def transmit (cap : InterfaceAnnounceCap) (nowMs draw : Nat) (raw : Bytes) (dst : TruncatedHash)
    (audience : Audience) : Transmission × InterfaceAnnounceCap :=
  (⟨nowMs, raw, dst, audience, cap.holdoffMs raw⟩,
    { cap with allowedAtMs := nowMs + cap.holdoffMs raw + draw })

/-- A later emission takes the slot's contents and a fresh queue time, but not its peer. -/
def replaceSlot (slot : QueuedAnnounce) (a : QueuedAnnounce) : QueuedAnnounce :=
  { slot with raw := a.raw, hops := a.hops, queuedAtMs := a.queuedAtMs, emitted := a.emitted }

/-- The first slot of the destination, replaced where the announce is a later emission. -/
def updateSlot (queue : List QueuedAnnounce) (a : QueuedAnnounce) : List QueuedAnnounce :=
  match queue with
  | [] => []
  | slot :: rest =>
    if slot.dst = a.dst then
      (if a.emitted > slot.emitted then replaceSlot slot a else slot) :: rest
    else slot :: updateSlot rest a

def hasSlot (cap : InterfaceAnnounceCap) (dst : TruncatedHash) : Bool :=
  cap.queue.any fun slot => slot.dst = dst

/-- One interface's part of `broadcast_announce_with_caps`. -/
def broadcast (maxQueued : Nat) (env : Surroundings) (iface : Nat) (cap : InterfaceAnnounceCap)
    (a : QueuedAnnounce) : List Transmission × InterfaceAnnounceCap :=
  if env.announceBlocked iface a.dst then ([], cap)
  else if env.nowMs ≥ cap.allowedAtMs ∧ cap.queue.isEmpty then
    let (sent, cap) := cap.transmit env.nowMs (env.releaseDraw a.dst a.raw) a.raw a.dst
      (.allLinks (env.splitHorizon iface a.dst))
    ([sent], cap)
  else if cap.queue.length ≥ maxQueued then ([], cap)
  else if cap.hasSlot a.dst then ([], { cap with queue := updateSlot cap.queue a })
  else ([], { cap with queue := cap.queue ++ [a] })

/-- One stored announce of `reoffer_stored_announces_to_peer`; the announce names the peer. -/
def reoffer (maxQueued : Nat) (env : Surroundings) (peer : TruncatedHash)
    (cap : InterfaceAnnounceCap) (a : QueuedAnnounce) : List Transmission × InterfaceAnnounceCap :=
  if env.nowMs < cap.allowedAtMs ∨ !cap.queue.isEmpty then
    if cap.hasSlot a.dst then ([], cap)
    else if cap.queue.length ≥ maxQueued then ([], cap)
    else ([], { cap with queue := cap.queue ++ [{ a with peer := some peer }] })
  else
    let (sent, cap) := cap.transmit env.nowMs (env.releaseDraw a.dst a.raw) a.raw a.dst (.onePeer peer)
    ([sent], cap)

def isFresh (nowMs : Nat) (slot : QueuedAnnounce) : Bool :=
  nowMs - slot.queuedAtMs < queuedAnnounceLifeMs

/-- Fewer hops first, then the longer wait. -/
def before (a b : QueuedAnnounce) : Bool :=
  a.hops < b.hops || (a.hops = b.hops && a.queuedAtMs < b.queuedAtMs)

/-- The slot a drain releases: of several best ones the first. -/
def best : List QueuedAnnounce → Option QueuedAnnounce
  | [] => none
  | slot :: rest =>
    match best rest with
    | none => some slot
    | some other => if before other slot then some other else some slot

theorem best_eq_none {queue : List QueuedAnnounce} (absent : best queue = none) : queue = [] := by
  cases queue with
  | nil => rfl
  | cons first rest =>
    unfold best at absent
    split at absent
    · cases absent
    · split at absent <;> cases absent

/-- One interface's part of `drain_announce_queues`. -/
def drain (env : Surroundings) (iface : Nat) (cap : InterfaceAnnounceCap) :
    List Transmission × InterfaceAnnounceCap :=
  if cap.queue.isEmpty ∨ env.nowMs < cap.allowedAtMs ∨ env.dutyHold iface then ([], cap)
  else
    let fresh := cap.queue.filter (isFresh env.nowMs)
    match best fresh with
    | none => ([], { cap with queue := fresh })
    | some slot =>
      let audience := match slot.peer with
        | some peer => .onePeer peer
        | none => .allLinks (env.splitHorizon iface slot.dst)
      let (sent, cap) := { cap with queue := fresh.erase slot }.transmit env.nowMs
        (env.releaseDraw slot.dst slot.raw) slot.raw slot.dst audience
      ([sent], cap)

end InterfaceAnnounceCap

/-- The announce `broadcast_announce_with_caps` offers to every capped interface. -/
def broadcastAnnounce (cfg : NodeConfig) (nowMs : Nat) (packet : Packet) : Option QueuedAnnounce :=
  if packet.hops.toNat > cfg.hopCeiling then none
  else
    match packet.pack with
    | none => none
    | some raw =>
      if raw.length > mtu then none
      else some ⟨raw, packet.destinationHash, packet.hops.toNat, nowMs, announceEmitted packet, none⟩

/-- The stored announce of one destination as it is offered to a peer whose link came
up: nothing expired, local, or routed through that very peer. -/
def reofferedAnnounce (cfg : NodeConfig) (env : Surroundings) (iface : Nat) (peer : TruncatedHash)
    (dest : TruncatedHash) (path : PathEntry) : Option QueuedAnnounce :=
  if path.expiresMs ≤ env.nowMs ∨ path.hops = 0 then none
  else if env.localDestinations.contains dest then none
  else if path.viaPeer = some peer ∨ path.nextHop = some peer then none
  else if !env.announceAllowedOnInterface iface dest false then none
  else
    match env.announceCache.get? dest with
    | none => none
    | some cached =>
      match Packet.unpack cached with
      | .error _ => none
      | .ok parsed =>
        if path.hops > cfg.hopCeiling then none
        else
          let offered := { parsed with
            flags := { parsed.flags with headerType := .type2, transportType := .transport }
            hops := UInt8.ofNat path.hops
            transportId := some cfg.identityHash
            context := .none }
          match offered.pack with
          | none => none
          | some raw => some ⟨raw, dest, path.hops, env.nowMs, announceEmitted offered, some peer⟩

end Leviculum.Transport
