import Leviculum.Transport.Packet
import Leviculum.Lib.BoundedMap

/-! The state of one transport node: the tables it routes by, its link table and its
duplicate filter. -/

namespace Leviculum.Transport

abbrev Table (V : Type) := BoundedMap TruncatedHash V

/-- Everything a node routes by besides its link table and its duplicate filter. -/
structure Routing where
  localDestinations : List TruncatedHash
  localClientInterfaces : List Nat
  sharedInstanceInterface : Option Nat
  localClientKnownDests : List TruncatedHash
  paths : Table PathEntry
  reverse : Table ReverseEntry
  announceCache : Table Bytes
  /-- Truncated hashes of the packets a local receipt waits for. -/
  receipts : List TruncatedHash
  interfaceTransit : Nat → Bool
  pathExpiryMs : Nat → Nat
  interfaceHwMtus : Nat → Option Nat
  /-- Verification on protected interfaces, with the tag stripped. -/
  ifac : Nat → Option (Bytes → Option Bytes)

structure Node where
  routing : Routing
  links : Table LinkEntry
  packetCache : List (FixedBytes 32)
  packetCachePrev : List (FixedBytes 32)

/-- One reception, with what the host decides while it is handled. -/
structure Arrival where
  interfaceIndex : Nat
  ingressPeer : Option TruncatedHash
  raw : Bytes
  nowMs : Nat
  /-- The host's admission rule for a transit link request. -/
  admitForward : Bool := true
  /-- The host's cap on a relayed link's traffic. -/
  withinCap : Bool := true

structure NodeConfig where
  identityHash : TruncatedHash
  enableTransport : Bool
  maxHops : Nat
  lrproofRewriteOnAsymmetry : Bool
  packetHashCap : Nat
  pathRequestHash : TruncatedHash
  tunnelSynthesizeHash : TruncatedHash
  /-- SHA-256. -/
  fullHash : Bytes → FixedBytes 32
  /-- `VerifyingKey::from_bytes` accepts the key. -/
  validKey : FixedBytes 32 → Bool
  /-- Ed25519: key, message, signature. -/
  verify : FixedBytes 32 → Bytes → Bytes → Bool
  /-- Announces and control packets, which touch the routing tables only. -/
  routingUpdate : Routing → Packet → Arrival → Routing

/-- Bytes handed to one interface. -/
structure Sent where
  interfaceIndex : Nat
  raw : Bytes
  peer : Option TruncatedHash
  deriving DecidableEq

inductive DropReason where
  | ifac
  | malformed
  | overheardTransportId
  | invalidAnnounce
  | plainGroupMultihop
  | duplicate
  | noPath
  | refusedByHost
  | linkRepeatEcho
  | lrproofInvalid
  | unknownDirection
  | overCap
  | noTransit
  | forwardMaxHops
  | notRouted
  deriving DecidableEq, Repr

inductive Handled where
  | dropped (reason : DropReason)
  | routingUpdated
  | delivered
  /-- To every interface but the one it came from, or from the network to the clients. -/
  | plainBroadcast (raw : Option Bytes)
  | requestForwarded (sent : List Sent)
  | proofForwarded (sent : Sent)
  | linkForwarded (sent : Sent)
  | pathForwarded (sent : Sent)
  deriving DecidableEq

def pathfinderMaxWireHops : Nat := pathfinderMaxHops - 1
def linkRequestBaseSize : Nat := 64
def signalingSize : Nat := 3
def linkProofSize : Nat := 99
def linkProofLegacySize : Nat := 96
def proofDataSize : Nat := 96
def implicitProofSize : Nat := 64
def identityKeySize : Nat := 64
def x25519KeySize : Nat := 32
def ed25519SignatureSize : Nat := 64
def defaultPerHopTimeout : Nat := 6
def msPerSecond : Nat := 1000

namespace NodeConfig

def hopCeiling (cfg : NodeConfig) : Nat := min cfg.maxHops pathfinderMaxWireHops

def packetHash (cfg : NodeConfig) (raw : Bytes) : FixedBytes 32 :=
  cfg.fullHash (Packet.hashablePart raw)

end NodeConfig

def truncate (hash : FixedBytes 32) : TruncatedHash :=
  ⟨hash.val.take 16, by rw [List.length_take, hash.2]; decide⟩

/-- `Link::calculate_link_id`: the packet hash without the signalling bytes. -/
def calculateLinkId (cfg : NodeConfig) (raw : Bytes) : TruncatedHash :=
  truncate (cfg.fullHash
    ((Packet.hashablePart raw).take (1 + truncatedHashBytes + 1 + linkRequestBaseSize)))

namespace Routing

def isLocalClient (r : Routing) (iface : Nat) : Bool := r.localClientInterfaces.contains iface

def hasLocalClients (r : Routing) : Bool := !r.localClientInterfaces.isEmpty

/-- Hops are counted on receipt; the step to a local client is free. -/
def incomingHopCount (r : Routing) (iface : Nat) (wireHops : UInt8) : UInt8 :=
  let hops := min (wireHops.toNat + 1) 255
  UInt8.ofNat
    (if r.hasLocalClients then if r.isLocalClient iface then hops - 1 else hops
      else if r.sharedInstanceInterface = some iface then hops - 1 else hops)

def isForLocalClient (r : Routing) (dest : TruncatedHash) : Bool :=
  (r.paths.get? dest).any (fun path => path.hops = 0)

def peerSigningKey (r : Routing) (dest : TruncatedHash) : Option (FixedBytes 32) :=
  match r.announceCache.get? dest with
  | none => none
  | some raw =>
    match Packet.unpack raw with
    | .error _ => none
    | .ok packet =>
      if packet.data.length ≥ identityKeySize then
        FixedBytes.take? 32 (packet.data.drop x25519KeySize)
      else none

/-- Forwarding over a path extends its life. -/
def refreshPath (r : Routing) (dest : TruncatedHash) (nowMs : Nat) : Routing :=
  match r.paths.get? dest with
  | none => r
  | some path =>
    { r with paths := r.paths.insert dest { path with expiresMs := nowMs + r.pathExpiryMs path.interfaceIndex } }

def setReverse (r : Routing) (hash : TruncatedHash) (a : Arrival) (outbound : Nat) : Routing :=
  { r with
    reverse := r.reverse.insert hash
      ⟨a.nowMs, a.interfaceIndex, outbound, a.ingressPeer.getD ReverseEntry.noPeer⟩ }

/-- `rebalance_path_hops`: adopt a proven hop count unless it would drop the relay. -/
def rebalancePathHops (r : Routing) (dest : TruncatedHash) (hops : Nat) : Routing :=
  match r.paths.get? dest with
  | none => r
  | some path =>
    if path.hops = hops then r
    else if hops ≤ 1 ∧ path.nextHop.isSome then r
    else { r with paths := r.paths.insert dest { path with hops } }

@[simp] theorem rebalancePathHops_reverse (r : Routing) (dest : TruncatedHash) (hops : Nat) :
    (r.rebalancePathHops dest hops).reverse = r.reverse := by
  unfold rebalancePathHops
  split
  · rfl
  · split_ifs <;> rfl

/-- `drop_route_proven_circular`: a copy of what we relayed came back from our own
next hop, so the route runs in a circle. -/
def dropRouteProvenCircular (r : Routing) (packet : Packet) (hash : TruncatedHash) (a : Arrival) :
    Routing :=
  if packet.flags.packetType = .data ∨ packet.flags.packetType = .linkRequest then
    match r.reverse.get? hash, r.paths.get? packet.destinationHash with
    | some reverse, some path =>
      let returnedByNextHop : Bool :=
        match a.ingressPeer, path.viaPeer with
        | some ingress, some via => ingress = via ∧ reverse.peer ≠ some ingress
        | _, _ => reverse.receivingInterfaceIndex ≠ reverse.outboundInterfaceIndex
      if reverse.outboundInterfaceIndex = a.interfaceIndex ∧ path.nextHop.isSome ∧
          path.interfaceIndex = a.interfaceIndex ∧ returnedByNextHop then
        { r with paths := r.paths.erase packet.destinationHash }
      else r
    | _, _ => r
  else r

end Routing

/-- `clamp_link_request_mtu`: signalled sizes only ever shrink, and a next hop that
signals none takes the signalling off. -/
def clampLinkRequestMtu (r : Routing) (data : Bytes) (prev next : Nat) : Bytes :=
  if data.length ≠ linkRequestBaseSize + signalingSize then data
  else
    let raw := Bytes.ofBe (data.drop linkRequestBaseSize)
    let pathMtu := raw % 2 ^ 21
    let mode := raw / 2 ^ 21
    match r.interfaceHwMtus next with
    | none => data.take linkRequestBaseSize
    | some nextMtu =>
      let clamped := min (min pathMtu nextMtu) ((r.interfaceHwMtus prev).getD (2 ^ 32 - 1))
      if clamped ≥ pathMtu then data
      else
        let signaling := clamped + mode * 2 ^ 21
        data.take linkRequestBaseSize ++
          [UInt8.ofNat (signaling / 65536), UInt8.ofNat (signaling / 256 % 256),
            UInt8.ofNat (signaling % 256)]

namespace Node

def hasPacketHash (n : Node) (hash : FixedBytes 32) : Bool :=
  n.packetCache.contains hash || n.packetCachePrev.contains hash

/-- Two generations: a current one past half the cap becomes the previous one. -/
def addPacketHash (cfg : NodeConfig) (n : Node) (hash : FixedBytes 32) : Node :=
  let cache := if n.packetCache.contains hash then n.packetCache else hash :: n.packetCache
  if cache.length > cfg.packetHashCap / 2 then
    { n with packetCache := [], packetCachePrev := cache }
  else { n with packetCache := cache }

/-- `set_link_entry`: a full table drops a half-open link before a live one. -/
def setLinkEntry (n : Node) (linkId : TruncatedHash) (entry : LinkEntry) : Node :=
  { n with links := n.links.insertPreferring linkId entry (fun _ e => !e.validated) }

def isForLocalClientLink (n : Node) (linkId : TruncatedHash) : Bool :=
  (n.links.get? linkId).any fun entry =>
    n.routing.isLocalClient entry.receivedInterfaceIndex ||
      n.routing.isLocalClient entry.nextHopInterfaceIndex

/-- `forward_on_interface_from`: the hop ceiling, then the packed bytes. -/
def forwardOnInterface (cfg : NodeConfig) (target : Nat) (packet : Packet)
    (peer : Option TruncatedHash) : Except DropReason Sent :=
  if packet.hops.toNat > cfg.hopCeiling then .error .forwardMaxHops
  else
    match packet.pack with
    | none => .error .malformed
    | some raw => .ok ⟨target, raw, peer⟩

/-- The header a packet leaves with: addressed to the next relay, or bare. -/
def rewriteHeader (packet : Packet) (needsRelay : Bool) (nextHop : Option TruncatedHash) : Packet :=
  if needsRelay then
    { packet with
      flags := { packet.flags with headerType := .type2, transportType := .transport }
      transportId := nextHop }
  else
    { packet with
      flags := { packet.flags with headerType := .type1, transportType := .broadcast }
      transportId := none }

end Node

end Leviculum.Transport
