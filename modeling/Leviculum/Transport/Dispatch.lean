import Leviculum.Transport.Node

/-! One transport node receiving packets: the duplicate filter and the dispatcher
of `process_incoming_inner`, and the handlers of link requests, proofs and data
packets. -/

namespace Leviculum.Transport.Node

/-! Link requests. -/

def designatedHop (cfg : NodeConfig) (packet : Packet) : Bool :=
  packet.transportId = some cfg.identityHash

/-- A request for a known local client's destination that has no path right now. -/
def returnedClientDelivery (cfg : NodeConfig) (r : Routing) (a : Arrival) (packet : Packet) :
    Bool :=
  !r.isLocalClient a.interfaceIndex &&
    !r.isForLocalClient packet.destinationHash && !designatedHop cfg packet &&
    r.hasLocalClients && (r.paths.get? packet.destinationHash).isNone &&
    r.localClientKnownDests.contains packet.destinationHash

/-- Where a link request goes on: interface, hops, whether to a relay, next hop, peer. -/
structure RequestRoute where
  interfaceIndex : Nat
  hops : Nat
  needsRelay : Bool
  nextHop : Option TruncatedHash
  viaPeer : Option TruncatedHash

def requestRoute (cfg : NodeConfig) (r : Routing) (a : Arrival) (packet : Packet) :
    Option RequestRoute :=
  if returnedClientDelivery cfg r a packet then
    r.localClientInterfaces.max?.map fun client => ⟨client, 0, false, none, none⟩
  else
    (r.paths.get? packet.destinationHash).map fun path =>
      ⟨path.interfaceIndex, path.hops, path.needsRelay, path.nextHop, path.viaPeer⟩

def onRequestRoute (cfg : NodeConfig) (r : Routing) (a : Arrival) (packet : Packet) : Bool :=
  designatedHop cfg packet || r.isLocalClient a.interfaceIndex ||
    r.isForLocalClient packet.destinationHash || returnedClientDelivery cfg r a packet

/-- A request the host is asked about: one between two other nodes. -/
def isTransit (cfg : NodeConfig) (r : Routing) (a : Arrival) (packet : Packet) : Bool :=
  !r.isLocalClient a.interfaceIndex &&
    !r.isForLocalClient packet.destinationHash && !returnedClientDelivery cfg r a packet

def newLinkEntry (r : Routing) (a : Arrival) (packet : Packet) (route : RequestRoute) : LinkEntry where
  timestampMs := a.nowMs
  nextHopInterfaceIndex := route.interfaceIndex
  remainingHops := route.hops
  receivedInterfaceIndex := a.interfaceIndex
  hops := packet.hops.toNat
  validated := false
  proofTimeoutMs :=
    a.nowMs + (packet.hops.toNat + route.hops + 2) * defaultPerHopTimeout * msPerSecond
  destinationHash := packet.destinationHash
  peerSigningKey := r.peerSigningKey packet.destinationHash
  receivedPeer := a.ingressPeer
  nextHopPeer := route.viaPeer

def forwardRequest (cfg : NodeConfig) (r : Routing) (a : Arrival) (packet : Packet)
    (route : RequestRoute) : Handled :=
  let clamped := clampLinkRequestMtu r packet.data a.interfaceIndex route.interfaceIndex
  let forwarded := rewriteHeader { packet with data := clamped } route.needsRelay route.nextHop
  if returnedClientDelivery cfg r a packet then
    .requestForwarded (r.localClientInterfaces.filterMap fun client =>
      (forwardOnInterface cfg client forwarded none).toOption)
  else
    match forwardOnInterface cfg route.interfaceIndex forwarded route.viaPeer with
    | .error reason => .dropped reason
    | .ok sent => .requestForwarded [sent]

def handleLinkRequest (cfg : NodeConfig) (n : Node) (a : Arrival) (raw : Bytes) (packet : Packet) :
    Handled × Node :=
  if n.routing.localDestinations.contains packet.destinationHash then (.delivered, n)
  else if !onRequestRoute cfg n.routing a packet then (.dropped .overheardTransportId, n)
  else if !(cfg.enableTransport || !isTransit cfg n.routing a packet) then (.dropped .notRouted, n)
  else
    match requestRoute cfg n.routing a packet with
    | none => (.dropped .noPath, n)
    | some route =>
      if isTransit cfg n.routing a packet ∧ !a.admitForward then (.dropped .refusedByHost, n)
      else
        let linked := n.setLinkEntry (calculateLinkId cfg raw) (newLinkEntry n.routing a packet route)
        let routing := (linked.routing.setReverse (truncate (cfg.packetHash raw)) a
          route.interfaceIndex).refreshPath packet.destinationHash a.nowMs
        (forwardRequest cfg n.routing a packet route, { linked with routing })

/-! Proofs. -/

/-- The receipt a proof answers: named by its data, or by its destination. -/
def provenReceipt (packet : Packet) : Option TruncatedHash :=
  if packet.data.length = proofDataSize then FixedBytes.take? 16 packet.data
  else if packet.data.length = implicitProofSize then some packet.destinationHash
  else none

/-- What a link-table repeat of a proof does besides forwarding. -/
structure ProofDirection where
  targetIface : Nat
  rewriteHops : Option Nat := none
  adoptHops : Option Nat := none

def fromDestinationSide (r : Routing) (entry : LinkEntry) (iface : Nat) : Bool :=
  iface = entry.nextHopInterfaceIndex ||
    (iface ≠ entry.receivedInterfaceIndex && r.isLocalClient iface &&
      r.isLocalClient entry.nextHopInterfaceIndex)

/-- Which way a proof goes, from where it came and the hop counts frozen in the entry. -/
def proofDirection (cfg : NodeConfig) (r : Routing) (entry : LinkEntry) (iface : Nat)
    (packet : Packet) : Except DropReason ProofDirection :=
  let hops := packet.hops.toNat
  let isLrproof := packet.context = .lrproof
  if entry.nextHopInterfaceIndex = entry.receivedInterfaceIndex then
    -- one shared medium: only a frozen hop count tells a repeat from an echo
    let hopMatch := hops = entry.remainingHops ∨ (¬ isLrproof ∧ hops = entry.hops)
    if iface ≠ entry.nextHopInterfaceIndex ∨ ¬ hopMatch then .error .linkRepeatEcho
    else .ok { targetIface := entry.nextHopInterfaceIndex }
  else if fromDestinationSide r entry iface then
    if hops ≠ entry.remainingHops then
      if cfg.lrproofRewriteOnAsymmetry then
        .ok { targetIface := entry.receivedInterfaceIndex
              rewriteHops := some entry.remainingHops
              adoptHops :=
                if isLrproof ∧ !entry.validated ∧ entry.peerSigningKey.isSome then some hops
                else none }
      else .error .lrproofInvalid
    else .ok { targetIface := entry.receivedInterfaceIndex }
  else if iface = entry.receivedInterfaceIndex then
    if hops ≠ entry.hops then
      if cfg.lrproofRewriteOnAsymmetry then
        .ok { targetIface := entry.nextHopInterfaceIndex, rewriteHops := some entry.hops }
      else .error .lrproofInvalid
    else .ok { targetIface := entry.nextHopInterfaceIndex }
  else .error .unknownDirection

/-- The signature of a link proof over link id, key material and signalling. -/
def lrproofVerifies (cfg : NodeConfig) (linkId : TruncatedHash) (key : FixedBytes 32)
    (data : Bytes) : Bool :=
  let signature := data.take ed25519SignatureSize
  let peerX25519 := (data.drop ed25519SignatureSize).take x25519KeySize
  let signalling := data.drop (ed25519SignatureSize + x25519KeySize)
  cfg.validKey key && cfg.verify key (linkId.val ++ peerX25519 ++ key.val ++ signalling) signature

/-- The gate before an LRPROOF is forwarded: its size, and its signature where the
destination's key is known. -/
def lrproofAccepted (cfg : NodeConfig) (linkId : TruncatedHash) (entry : LinkEntry)
    (data : Bytes) : Bool :=
  (data.length = linkProofLegacySize || data.length = linkProofSize) &&
    match entry.peerSigningKey with
    | some key => lrproofVerifies cfg linkId key data
    | none => true

/-- The proof came from another client than the one the request was anchored at. -/
def reanchors (r : Routing) (entry : LinkEntry) (iface : Nat) : Bool :=
  iface ≠ entry.nextHopInterfaceIndex && r.isLocalClient iface &&
    r.isLocalClient entry.nextHopInterfaceIndex

def validateEntry (r : Routing) (a : Arrival) (before entry : LinkEntry) : LinkEntry :=
  if before.validated then entry
  else if reanchors r before a.interfaceIndex then
    { entry with
      validated := true
      timestampMs := a.nowMs
      nextHopInterfaceIndex := a.interfaceIndex
      nextHopPeer := a.ingressPeer }
  else { entry with validated := true, timestampMs := a.nowMs }

def provenEntry (r : Routing) (a : Arrival) (packet : Packet) (direction : ProofDirection)
    (before : LinkEntry) : LinkEntry :=
  let adopted := { before with remainingHops := direction.adoptHops.getD before.remainingHops }
  let validated := validateEntry r a before adopted
  if packet.context = .lrproof then validated else { validated with timestampMs := a.nowMs }

def handleLinkProof (cfg : NodeConfig) (n : Node) (a : Arrival) (hash : FixedBytes 32)
    (packet : Packet) (entry : LinkEntry) : Handled × Node :=
  match proofDirection cfg n.routing entry a.interfaceIndex packet with
  | .error reason => (.dropped reason, n)
  | .ok direction =>
    if packet.context = .lrproof ∧ !lrproofAccepted cfg packet.destinationHash entry packet.data then
      (.dropped .lrproofInvalid, n)
    else
      let routing := match direction.adoptHops with
        | some hops => n.routing.rebalancePathHops entry.destinationHash hops
        | none => n.routing
      let linked := { n with
        routing
        links := n.links.modify packet.destinationHash
          (provenEntry n.routing a packet direction) }
      let cached := if packet.context = .lrproof then linked else linked.addPacketHash cfg hash
      let forwarded := { packet with
        hops := (direction.rewriteHops.map UInt8.ofNat).getD packet.hops }
      match forwardOnInterface cfg direction.targetIface forwarded
          (entry.forwardPeer direction.targetIface a.ingressPeer) with
      | .error reason => (.dropped reason, cached)
      | .ok sent => (.proofForwarded sent, cached)

/-- The way back of an ordinary proof, along the reverse table. -/
def handleReverseProof (cfg : NodeConfig) (n : Node) (a : Arrival) (packet : Packet) :
    Option Handled × Node :=
  match n.routing.reverse.get? packet.destinationHash with
  | none => (none, n)
  | some entry =>
    if cfg.enableTransport || n.routing.isLocalClient a.interfaceIndex ||
        n.routing.isLocalClient entry.receivingInterfaceIndex then
      let taken := { n with
        routing := { n.routing with
          reverse := n.routing.reverse.erase packet.destinationHash } }
      if a.interfaceIndex = entry.outboundInterfaceIndex then
        match forwardOnInterface cfg entry.receivingInterfaceIndex packet entry.peer with
        | .error reason => (some (.dropped reason), taken)
        | .ok sent => (some (.proofForwarded sent), taken)
      else (none, taken)
    else (none, n)

def handleProof (cfg : NodeConfig) (n : Node) (a : Arrival) (hash : FixedBytes 32)
    (packet : Packet) : Handled × Node :=
  if (provenReceipt packet).any n.routing.receipts.contains then (.delivered, n)
  else if n.routing.localDestinations.contains packet.destinationHash then
    (.delivered, n.addPacketHash cfg hash)
  else
    let routed := cfg.enableTransport || n.routing.isLocalClient a.interfaceIndex ||
      n.isForLocalClientLink packet.destinationHash
    match (if routed then n.links.get? packet.destinationHash else none) with
    | some entry => handleLinkProof cfg n a hash packet entry
    | none =>
      let (handled, n) :=
        if packet.context = .lrproof then (none, n) else handleReverseProof cfg n a packet
      match handled with
      | some handled => (handled, n)
      | none =>
        if packet.flags.destType = .link then (.delivered, n.addPacketHash cfg hash)
        else (.dropped .notRouted, n)

/-! Data packets. -/

def forwardPacket (cfg : NodeConfig) (n : Node) (a : Arrival) (hash : FixedBytes 32)
    (packet : Packet) : Handled × Node :=
  match n.routing.paths.get? packet.destinationHash with
  | none => (.dropped .noPath, n)
  | some path =>
    if !n.routing.interfaceTransit a.interfaceIndex ||
        !n.routing.interfaceTransit path.interfaceIndex then (.dropped .noTransit, n)
    else
      let routing := (n.routing.refreshPath packet.destinationHash a.nowMs).setReverse
        (truncate hash) a path.interfaceIndex
      match forwardOnInterface cfg path.interfaceIndex
          (rewriteHeader packet path.needsRelay path.nextHop) path.viaPeer with
      | .error reason => (.dropped reason, { n with routing })
      | .ok sent => (.pathForwarded sent, { n with routing })

/-- The other side of the link, seen from where a data packet came. -/
def linkTarget (entry : LinkEntry) (iface hops : Nat) : Except DropReason Nat :=
  if entry.nextHopInterfaceIndex = entry.receivedInterfaceIndex then
    if hops = entry.remainingHops ∨ hops = entry.hops then .ok entry.nextHopInterfaceIndex
    else .error .linkRepeatEcho
  else if iface = entry.nextHopInterfaceIndex then .ok entry.receivedInterfaceIndex
  else if iface = entry.receivedInterfaceIndex then .ok entry.nextHopInterfaceIndex
  else .error .unknownDirection

def handleLinkData (cfg : NodeConfig) (n : Node) (a : Arrival) (hash : FixedBytes 32)
    (packet : Packet) (entry : LinkEntry) : Handled × Node :=
  match linkTarget entry a.interfaceIndex packet.hops.toNat with
  | .error reason => (.dropped reason, n)
  | .ok target =>
    if !a.withinCap then (.dropped .overCap, n)
    else
      let routing := n.routing.setReverse (truncate hash) a target
      let cached := { n with routing }.addPacketHash cfg hash
      let linked := { cached with
        links := cached.links.modify packet.destinationHash
          (fun e => { e with timestampMs := a.nowMs }) }
      match forwardOnInterface cfg target packet (entry.forwardPeer target a.ingressPeer) with
      | .error reason => (.dropped reason, linked)
      | .ok sent => (.linkForwarded sent, linked)

/-- The copy of a plain broadcast that goes on between clients and network. -/
def plainCopy (cfg : NodeConfig) (r : Routing) (a : Arrival) (packet : Packet) : Option Bytes :=
  if r.isLocalClient a.interfaceIndex then
    if packet.hops.toNat > cfg.hopCeiling then none else packet.pack
  else if r.hasLocalClients then packet.pack
  else none

def handleData (cfg : NodeConfig) (n : Node) (a : Arrival) (hash : FixedBytes 32)
    (packet : Packet) : Handled × Node :=
  let dest := packet.destinationHash
  if dest = cfg.pathRequestHash ∨ dest = cfg.tunnelSynthesizeHash then
    (.routingUpdated, { n with routing := cfg.routingUpdate n.routing packet a })
  else if packet.flags.destType = .plain ∧ packet.flags.transportType = .broadcast then
    let copy := plainCopy cfg n.routing a packet
    if n.routing.localDestinations.contains dest then
      (.plainBroadcast copy, n.addPacketHash cfg hash)
    else (.plainBroadcast copy, n)
  else if n.routing.localDestinations.contains dest then (.delivered, n)
  else
    let forLocal := n.routing.isForLocalClient dest
    let routed := cfg.enableTransport || n.routing.isLocalClient a.interfaceIndex || forLocal ||
      n.isForLocalClientLink dest
    match (if routed then n.links.get? dest else none) with
    | some entry => handleLinkData cfg n a hash packet entry
    | none =>
      if routed ∧ packet.flags.destType ≠ .link then
        if designatedHop cfg packet || (packet.transportId.isNone && forLocal) then
          forwardPacket cfg n a hash packet
        else (.dropped .overheardTransportId, n)
      else if packet.flags.destType = .link then (.delivered, n.addPacketHash cfg hash)
      else (.dropped .notRouted, n)

/-! The dispatcher. -/

/-- Contexts whose retransmissions reuse identical bytes. -/
def isDedupExemptContext : PacketContext → Bool
  | .keepalive | .resourceReq | .resourcePrf | .resource | .cacheRequest | .channel => true
  | _ => false

def dedupExempt (n : Node) (a : Arrival) (packet : Packet) : Bool :=
  let dest := packet.destinationHash
  let fromLocal := n.routing.isLocalClient a.interfaceIndex
  let isLinkRequest := packet.flags.packetType = .linkRequest
  (packet.flags.packetType = .announce && packet.flags.destType = .single) ||
    (fromLocal && n.links.contains dest) ||
    (fromLocal && isLinkRequest) ||
    (isLinkRequest &&
      (n.routing.localDestinations.contains dest || n.routing.isForLocalClient dest)) ||
    isDedupExemptContext packet.context ||
    (packet.context = .lrproof && n.routing.localDestinations.contains dest)

def headerFilter (cfg : NodeConfig) (packet : Packet) : Option DropReason :=
  if packet.transportId.isSome && packet.flags.packetType ≠ .announce && !designatedHop cfg packet
  then some .overheardTransportId
  else if packet.flags.destType = .plain ∨ packet.flags.destType = .group then
    if packet.flags.packetType = .announce then some .invalidAnnounce
    else if packet.hops.toNat > 1 then some .plainGroupMultihop
    else none
  else none

def isIfacTagged (raw : Bytes) : Bool := raw.head?.any (fun byte => byte.toNat ≥ 128)

def stripIfac (r : Routing) (iface : Nat) (raw : Bytes) : Option Bytes :=
  match r.ifac iface with
  | some verify => verify raw
  | none => if isIfacTagged raw then none else some raw

def dispatch (cfg : NodeConfig) (n : Node) (a : Arrival) (raw : Bytes) (packet : Packet) :
    Handled × Node :=
  let hash := cfg.packetHash raw
  match packet.flags.packetType with
  | .announce => (.routingUpdated, { n with routing := cfg.routingUpdate n.routing packet a })
  | .linkRequest => handleLinkRequest cfg n a raw packet
  | .proof => handleProof cfg n a hash packet
  | .data => handleData cfg n a hash packet

/-- Whether the hash is left to the handler: on shared media the right copy may
still be on its way. -/
def defersCacheInsert (n : Node) (packet : Packet) : Bool :=
  n.links.contains packet.destinationHash ||
    (packet.flags.packetType = .proof && packet.context = .lrproof)

def cacheOnArrival (cfg : NodeConfig) (n : Node) (raw : Bytes) (packet : Packet) : Node :=
  if n.defersCacheInsert packet then n else n.addPacketHash cfg (cfg.packetHash raw)

def filterAndDispatch (cfg : NodeConfig) (n : Node) (a : Arrival) (raw : Bytes)
    (packet : Packet) : Handled × Node :=
  let hash := cfg.packetHash raw
  if !n.dedupExempt a packet && n.hasPacketHash hash then
    if packet.flags.packetType ≠ .announce ∧ designatedHop cfg packet then
      (.dropped .duplicate, { n with
        routing := n.routing.dropRouteProvenCircular packet (truncate hash) a })
    else (.dropped .duplicate, n)
  else
    (n.cacheOnArrival cfg raw packet).dispatch cfg a raw packet

/-- The bytes and the packet the filters see: tag stripped, parsed, hop counted. -/
def parseArrival (cfg : NodeConfig) (r : Routing) (a : Arrival) :
    Except DropReason (Bytes × Packet) :=
  match stripIfac r a.interfaceIndex a.raw with
  | none => .error .ifac
  | some raw =>
    match Packet.unpack raw with
    | .error _ => .error .malformed
    | .ok packet =>
      let counted := { packet with hops := r.incomingHopCount a.interfaceIndex packet.hops }
      match headerFilter cfg counted with
      | some reason => .error reason
      | none => .ok (raw, counted)

/-- `process_incoming_inner`. -/
def processIncoming (cfg : NodeConfig) (n : Node) (a : Arrival) : Handled × Node :=
  match parseArrival cfg n.routing a with
  | .error reason => (.dropped reason, n)
  | .ok (raw, packet) => n.filterAndDispatch cfg a raw packet

end Leviculum.Transport.Node
