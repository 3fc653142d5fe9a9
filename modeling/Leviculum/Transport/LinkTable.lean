import Leviculum.Transport.Dispatch
import Leviculum.Lib.Execution

/-! What packets do to the link table, and who may validate a relayed link. -/

namespace Leviculum.Transport.Node
open Execution

@[simp] theorem addPacketHash_links (cfg : NodeConfig) (n : Node) (hash : FixedBytes 32) :
    (n.addPacketHash cfg hash).links = n.links := by
  simp only [addPacketHash]
  split_ifs <;> rfl

@[simp] theorem addPacketHash_routing (cfg : NodeConfig) (n : Node) (hash : FixedBytes 32) :
    (n.addPacketHash cfg hash).routing = n.routing := by
  simp only [addPacketHash]
  split_ifs <;> rfl

@[simp] theorem cacheOnArrival_links (cfg : NodeConfig) (n : Node) (raw : Bytes)
    (packet : Packet) : (n.cacheOnArrival cfg raw packet).links = n.links := by
  unfold cacheOnArrival
  split
  · rfl
  · exact addPacketHash_links cfg n _

@[simp] theorem cacheOnArrival_routing (cfg : NodeConfig) (n : Node) (raw : Bytes)
    (packet : Packet) : (n.cacheOnArrival cfg raw packet).routing = n.routing := by
  unfold cacheOnArrival
  split
  · rfl
  · exact addPacketHash_routing cfg n _

/-- The duplicate filter lets the packet through to its handler. -/
def passesFilter (cfg : NodeConfig) (n : Node) (a : Arrival) (raw : Bytes) (packet : Packet) :
    Bool :=
  n.dedupExempt a packet || !n.hasPacketHash (cfg.packetHash raw)

/-- The link request is forwarded, which sets the entry of its link. -/
def forwardsRequest (cfg : NodeConfig) (r : Routing) (a : Arrival) (packet : Packet) : Bool :=
  !r.localDestinations.contains packet.destinationHash && onRequestRoute cfg r a packet &&
    (cfg.enableTransport || !isTransit cfg r a packet) && (requestRoute cfg r a packet).isSome &&
    (!isTransit cfg r a packet || a.admitForward)

def routesProof (cfg : NodeConfig) (n : Node) (a : Arrival) (packet : Packet) (entry : LinkEntry) :
    Bool :=
  !(provenReceipt packet).any n.routing.receipts.contains &&
    !n.routing.localDestinations.contains packet.destinationHash &&
    (cfg.enableTransport || n.routing.isLocalClient a.interfaceIndex ||
      n.isForLocalClientLink packet.destinationHash) &&
    (proofDirection cfg n.routing entry a.interfaceIndex packet).isOk &&
    (packet.context ≠ .lrproof ||
      lrproofAccepted cfg packet.destinationHash entry packet.data)

inductive LinkEffect (cfg : NodeConfig) (n : Node) (a : Arrival) : Table LinkEntry → Prop
  | kept : LinkEffect cfg n a n.links
  | touched (linkId : TruncatedHash) :
    LinkEffect cfg n a (n.links.modify linkId fun e => { e with timestampMs := a.nowMs })
  | created (raw : Bytes) (packet : Packet) (route : RequestRoute)
    (arrived : parseArrival cfg n.routing a = .ok (raw, packet))
    (request : packet.flags.packetType = .linkRequest)
    (passed : n.passesFilter cfg a raw packet = true)
    (forwards : forwardsRequest cfg n.routing a packet = true) :
    LinkEffect cfg n a (n.links.insertPreferring (calculateLinkId cfg raw)
      (newLinkEntry n.routing a packet route) (fun _ e => !e.validated))
  | proven (raw : Bytes) (packet : Packet) (entry : LinkEntry) (direction : ProofDirection)
    (arrived : parseArrival cfg n.routing a = .ok (raw, packet))
    (proof : packet.flags.packetType = .proof)
    (found : n.links.get? packet.destinationHash = some entry)
    (routes : n.routesProof cfg a packet entry = true)
    (directed : proofDirection cfg n.routing entry a.interfaceIndex packet = .ok direction) :
    LinkEffect cfg n a (n.links.modify packet.destinationHash
      (provenEntry n.routing a packet direction))

theorem handleLinkRequest_links (cfg : NodeConfig) (n : Node) (a : Arrival) (raw : Bytes)
    (packet : Packet) :
    (forwardsRequest cfg n.routing a packet = false ∧
        (n.handleLinkRequest cfg a raw packet).2.links = n.links) ∨
      ∃ route, forwardsRequest cfg n.routing a packet = true ∧
        (n.handleLinkRequest cfg a raw packet).2.links =
          n.links.insertPreferring (calculateLinkId cfg raw)
            (newLinkEntry n.routing a packet route) (fun _ e => !e.validated) := by
  unfold handleLinkRequest forwardsRequest
  cases n.routing.localDestinations.contains packet.destinationHash with
  | true => exact .inl ⟨rfl, rfl⟩
  | false =>
  cases onRequestRoute cfg n.routing a packet with
  | false => exact .inl ⟨rfl, rfl⟩
  | true =>
  cases (cfg.enableTransport || !isTransit cfg n.routing a packet) with
  | false => exact .inl ⟨rfl, rfl⟩
  | true =>
  cases requestRoute cfg n.routing a packet with
  | none => exact .inl ⟨rfl, rfl⟩
  | some route =>
  cases isTransit cfg n.routing a packet with
  | false => exact .inr ⟨route, rfl, rfl⟩
  | true =>
  cases a.admitForward with
  | false => exact .inl ⟨rfl, rfl⟩
  | true => exact .inr ⟨route, rfl, rfl⟩

theorem handleLinkProof_links (cfg : NodeConfig) (n : Node) (a : Arrival) (hash : FixedBytes 32)
    (packet : Packet) (entry : LinkEntry) :
    (n.handleLinkProof cfg a hash packet entry).2.links = n.links ∨
      ∃ direction, proofDirection cfg n.routing entry a.interfaceIndex packet = .ok direction ∧
        (packet.context ≠ .lrproof ∨
          lrproofAccepted cfg packet.destinationHash entry packet.data = true) ∧
        (n.handleLinkProof cfg a hash packet entry).2.links =
          n.links.modify packet.destinationHash (provenEntry n.routing a packet direction) := by
  unfold handleLinkProof
  cases directed : proofDirection cfg n.routing entry a.interfaceIndex packet with
  | error reason => exact .inl rfl
  | ok direction =>
    dsimp only
    split
    next => exact .inl rfl
    next accepted =>
      refine .inr ⟨direction, rfl, ?_, ?_⟩
      · by_cases lrproof : packet.context = .lrproof
        · exact .inr (by simpa [lrproof] using accepted)
        · exact .inl lrproof
      · split <;> split <;> first | rfl | exact addPacketHash_links cfg _ hash

theorem handleReverseProof_links (cfg : NodeConfig) (n : Node) (a : Arrival) (packet : Packet) :
    (n.handleReverseProof cfg a packet).2.links = n.links := by
  unfold handleReverseProof
  split
  · rfl
  · split
    · dsimp only
      split
      · split <;> rfl
      · rfl
    · rfl

theorem handleProof_links (cfg : NodeConfig) (n : Node) (a : Arrival) (hash : FixedBytes 32)
    (packet : Packet) :
    (n.handleProof cfg a hash packet).2.links = n.links ∨
      ∃ entry direction, n.links.get? packet.destinationHash = some entry ∧
        n.routesProof cfg a packet entry = true ∧
        proofDirection cfg n.routing entry a.interfaceIndex packet = .ok direction ∧
        (n.handleProof cfg a hash packet).2.links =
          n.links.modify packet.destinationHash (provenEntry n.routing a packet direction) := by
  unfold handleProof
  split
  next => exact .inl rfl
  next noReceipt =>
  split
  next => exact .inl (addPacketHash_links cfg n hash)
  next notLocal =>
  dsimp only
  split
  next entry found =>
    split at found
    next routed =>
      rcases handleLinkProof_links cfg n a hash packet entry with
        kept | ⟨direction, directed, accepted, changed⟩
      · exact .inl kept
      · refine .inr ⟨entry, direction, found, ?_, directed, changed⟩
        simp only [routesProof, directed]
        simp only [Bool.not_eq_true] at noReceipt notLocal
        rw [noReceipt, notLocal, routed]
        simpa [Except.isOk, Except.toBool] using accepted
    next => cases found
  next =>
    have reversed : (if packet.context = .lrproof then (none, n)
        else handleReverseProof cfg n a packet).2.links = n.links := by
      split
      · rfl
      · exact handleReverseProof_links cfg n a packet
    left
    split
    next => exact reversed
    next =>
      split
      · exact (addPacketHash_links cfg _ hash).trans reversed
      · exact reversed

theorem handleData_links (cfg : NodeConfig) (n : Node) (a : Arrival) (hash : FixedBytes 32)
    (packet : Packet) :
    (n.handleData cfg a hash packet).2.links = n.links ∨
      (n.handleData cfg a hash packet).2.links =
        n.links.modify packet.destinationHash (fun e => { e with timestampMs := a.nowMs }) := by
  have linkData : ∀ entry, (n.handleLinkData cfg a hash packet entry).2.links = n.links ∨
      (n.handleLinkData cfg a hash packet entry).2.links =
        n.links.modify packet.destinationHash (fun e => { e with timestampMs := a.nowMs }) := by
    intro entry
    unfold handleLinkData
    split
    · exact .inl rfl
    · split
      · exact .inl rfl
      · dsimp only
        right
        split <;> simp only [addPacketHash_links]
  have pathData : (n.forwardPacket cfg a hash packet).2.links = n.links := by
    unfold forwardPacket
    split
    · rfl
    · split
      · rfl
      · dsimp only
        split <;> rfl
  unfold handleData
  dsimp only
  split
  · exact .inl rfl
  · split
    · left
      split
      · exact addPacketHash_links cfg n hash
      · rfl
    · split
      · exact .inl rfl
      · split
        next entry _ => exact linkData entry
        next =>
          left
          split
          · split
            · exact pathData
            · rfl
          · split
            · exact addPacketHash_links cfg n hash
            · rfl

theorem filterAndDispatch_of_passes {cfg : NodeConfig} {n : Node} {a : Arrival} {raw : Bytes}
    {packet : Packet} (passed : n.passesFilter cfg a raw packet = true) :
    n.filterAndDispatch cfg a raw packet =
      (n.cacheOnArrival cfg raw packet).dispatch cfg a raw packet := by
  unfold filterAndDispatch
  dsimp only
  rw [if_neg]
  simpa [passesFilter, imp_iff_not_or] using passed

theorem filterAndDispatch_of_duplicate {cfg : NodeConfig} {n : Node} {a : Arrival} {raw : Bytes}
    {packet : Packet} (duplicate : n.passesFilter cfg a raw packet = false) :
    (n.filterAndDispatch cfg a raw packet).1 = .dropped .duplicate ∧
      (n.filterAndDispatch cfg a raw packet).2.links = n.links := by
  unfold filterAndDispatch
  dsimp only
  rw [if_pos (by simpa [passesFilter] using duplicate)]
  split <;> exact ⟨rfl, rfl⟩

theorem request_links {cfg : NodeConfig} {n : Node} {a : Arrival} {raw : Bytes} {packet : Packet}
    (arrived : parseArrival cfg n.routing a = .ok (raw, packet))
    (request : packet.flags.packetType = .linkRequest) :
    ((n.passesFilter cfg a raw packet = false ∨ forwardsRequest cfg n.routing a packet = false) ∧
        (n.processIncoming cfg a).2.links = n.links) ∨
      ∃ route, n.passesFilter cfg a raw packet = true ∧
        forwardsRequest cfg n.routing a packet = true ∧
        (n.processIncoming cfg a).2.links =
          n.links.insertPreferring (calculateLinkId cfg raw)
            (newLinkEntry n.routing a packet route) (fun _ e => !e.validated) := by
  simp only [processIncoming, arrived]
  cases filter : n.passesFilter cfg a raw packet with
  | false => exact .inl ⟨.inl rfl, (filterAndDispatch_of_duplicate filter).2⟩
  | true =>
    rw [filterAndDispatch_of_passes filter]
    simp only [dispatch, request]
    rcases handleLinkRequest_links cfg (n.cacheOnArrival cfg raw packet) a raw packet with
      ⟨stays, kept⟩ | ⟨route, forwards, changed⟩
    · rw [cacheOnArrival_routing] at stays
      exact .inl ⟨.inr stays, kept.trans (cacheOnArrival_links cfg n raw packet)⟩
    · rw [cacheOnArrival_routing] at forwards
      rw [cacheOnArrival_links, cacheOnArrival_routing] at changed
      exact .inr ⟨route, trivial, forwards, changed⟩

theorem processIncoming_links (cfg : NodeConfig) (n : Node) (a : Arrival) :
    LinkEffect cfg n a (n.processIncoming cfg a).2.links := by
  cases arrived : parseArrival cfg n.routing a with
  | error reason =>
    simp only [processIncoming, arrived]
    exact .kept
  | ok parsed =>
  obtain ⟨raw, packet⟩ := parsed
  by_cases request : packet.flags.packetType = .linkRequest
  · rcases request_links arrived request with ⟨-, kept⟩ | ⟨route, passed, forwards, changed⟩
    · rw [kept]
      exact .kept
    · rw [changed]
      exact .created raw packet route arrived request passed forwards
  simp only [processIncoming, arrived]
  cases filter : n.passesFilter cfg a raw packet with
  | false =>
    rw [(filterAndDispatch_of_duplicate filter).2]
    exact .kept
  | true =>
  rw [filterAndDispatch_of_passes filter]
  unfold dispatch
  split
  next =>
    simp only [cacheOnArrival_links]
    exact .kept
  next isRequest => exact absurd isRequest request
  next proof =>
    rcases handleProof_links cfg (n.cacheOnArrival cfg raw packet) a (cfg.packetHash raw) packet with
      kept | ⟨entry, direction, found, routes, directed, changed⟩
    · rw [kept, cacheOnArrival_links]
      exact .kept
    · rw [changed, cacheOnArrival_links, cacheOnArrival_routing]
      rw [cacheOnArrival_links] at found
      rw [cacheOnArrival_routing] at directed
      refine .proven raw packet entry direction arrived proof found ?_ directed
      simpa only [routesProof, isForLocalClientLink, cacheOnArrival_links,
        cacheOnArrival_routing] using routes
  next =>
    rcases handleData_links cfg (n.cacheOnArrival cfg raw packet) a (cfg.packetHash raw) packet with
      kept | touched
    · rw [kept, cacheOnArrival_links]
      exact .kept
    · rw [touched, cacheOnArrival_links]
      exact .touched packet.destinationHash

end Leviculum.Transport.Node
