import Leviculum.Transport.LinkTable

/-! Runs of one relay, and what becomes of the links it relays. -/

namespace Leviculum.Transport.RelayedLink
open Execution Node

inductive Event where
  | receive (a : Arrival)
  /-- Announces, interface changes and timers: every table but the link table. -/
  | reroute (routing : Routing)
  /-- The node sends a packet of its own and remembers it. -/
  | remember (hash : FixedBytes 32)
  | cleanLinkTable (nowMs : Nat)
  | removeInterface (iface : Nat)

def linkTimeoutMs : Nat := 900000

/-- `expire_link_entries`. -/
def isExpired (nowMs : Nat) (entry : LinkEntry) : Bool :=
  if entry.validated then nowMs - entry.timestampMs > linkTimeoutMs
  else nowMs > entry.proofTimeoutMs

def step (cfg : NodeConfig) (n : Node) : Event → Option Node
  | .receive a => some (n.processIncoming cfg a).2
  | .reroute routing => some { n with routing }
  | .remember hash => some (n.addPacketHash cfg hash)
  | .cleanLinkTable nowMs => some { n with links := n.links.keep fun e => !isExpired nowMs e.2 }
  | .removeInterface iface =>
    some { n with
      links := n.links.keep fun e =>
        e.2.nextHopInterfaceIndex ≠ iface && e.2.receivedInterfaceIndex ≠ iface }

/-- The packet is a link proof of the destination: it came in on the destination's
side, on a shared medium with the hop count frozen for that side, and its signature
holds under the key the entry was created with. -/
structure IsDestinationProof (cfg : NodeConfig) (n : Node) (a : Arrival) (linkId : TruncatedHash)
    (entry : LinkEntry) (key : FixedBytes 32) (packet : Packet) : Prop where
  proof : packet.flags.packetType = .proof
  lrproof : packet.context = .lrproof
  link : packet.destinationHash = linkId
  side : fromDestinationSide n.routing entry a.interfaceIndex = true
  shared : entry.nextHopInterfaceIndex = entry.receivedInterfaceIndex →
    packet.hops.toNat = entry.remainingHops
  verified : lrproofVerifies cfg linkId key packet.data = true

def guarded (entry : LinkEntry) : Bool × Nat := (entry.validated, entry.nextHopInterfaceIndex)

/-- A proof routed over an unvalidated entry with a key is a link proof from the
destination's side. -/
def speaksForDestination (cfg : NodeConfig) (n : Node) (a : Arrival) (packet : Packet) : Bool :=
  (n.links.get? packet.destinationHash).all fun entry =>
    entry.peerSigningKey.isNone || entry.validated || !n.routesProof cfg a packet entry ||
      (packet.context = .lrproof && fromDestinationSide n.routing entry a.interfaceIndex)

/-- A link request whose link has an entry with a key is not forwarded again. -/
def keepsLink (cfg : NodeConfig) (n : Node) (a : Arrival) (raw : Bytes) (packet : Packet) : Bool :=
  (n.links.get? (calculateLinkId cfg raw)).all (fun entry => entry.peerSigningKey.isNone) ||
    !n.passesFilter cfg a raw packet || !forwardsRequest cfg n.routing a packet

def destinationSpeaksFirst (cfg : NodeConfig) (n : Node) : Event → Bool
  | .receive a =>
    match parseArrival cfg n.routing a with
    | .error _ => true
    | .ok (raw, packet) =>
      match packet.flags.packetType with
      | .proof => speaksForDestination cfg n a packet
      | .linkRequest => keepsLink cfg n a raw packet
      | _ => true
  | _ => true

theorem guarded_provenEntry {r : Routing} {a : Arrival} {packet : Packet}
    {direction : ProofDirection} {entry : LinkEntry} (validated : entry.validated = true) :
    guarded (provenEntry r a packet direction entry) = guarded entry := by
  simp only [provenEntry, validateEntry, validated, ↓reduceIte]
  split <;> simp only [guarded, validated]

theorem hops_of_shared {cfg : NodeConfig} {r : Routing} {entry : LinkEntry} {iface : Nat}
    {packet : Packet} {direction : ProofDirection} (lrproof : packet.context = .lrproof)
    (directed : proofDirection cfg r entry iface packet = .ok direction)
    (shared : entry.nextHopInterfaceIndex = entry.receivedInterfaceIndex) :
    packet.hops.toNat = entry.remainingHops := by
  unfold proofDirection at directed
  dsimp only at directed
  rw [if_pos shared] at directed
  split at directed
  next => cases directed
  next matching =>
    simp only [lrproof, not_true_eq_false, false_and, or_false, not_or, not_not] at matching
    exact matching.2

theorem verified_of_routesProof {cfg : NodeConfig} {n : Node} {a : Arrival} {packet : Packet}
    {entry : LinkEntry} {key : FixedBytes 32} (keyed : entry.peerSigningKey = some key)
    (lrproof : packet.context = .lrproof) (routes : n.routesProof cfg a packet entry = true) :
    lrproofVerifies cfg packet.destinationHash key packet.data = true := by
  simp only [routesProof, lrproof, ne_eq, not_true_eq_false, decide_false, Bool.false_or,
    Bool.and_eq_true, lrproofAccepted, keyed] at routes
  exact routes.2.2

/-- A step changes the guarded fields of an entry with a key only by a proof of the
destination. -/
def OnlyDestinationValidates (cfg : NodeConfig) (n : Node) (event : Event) (n' : Node) : Prop :=
  ∀ linkId before after key, n.links.get? linkId = some before →
    before.peerSigningKey = some key → n'.links.get? linkId = some after →
    guarded after ≠ guarded before →
    ∃ a raw packet, event = .receive a ∧ parseArrival cfg n.routing a = .ok (raw, packet) ∧
      IsDestinationProof cfg n a linkId before key packet

theorem guarded_of_keep {n : Node} {p : TruncatedHash × LinkEntry → Bool} {linkId : TruncatedHash}
    {before after : LinkEntry} (old : n.links.get? linkId = some before)
    (new : (n.links.keep p).get? linkId = some after) : guarded after = guarded before := by
  rw [(BoundedMap.get?_keep.mp new).1, Option.some.injEq] at old
  rw [old]

theorem step_onlyDestinationValidates (cfg : NodeConfig) (n : Node) (event : Event) (n' : Node)
    (first : destinationSpeaksFirst cfg n event = true) (stepped : step cfg n event = some n') :
    OnlyDestinationValidates cfg n event n' := by
  intro linkId before after key old keyed new changed
  have unchanged : n'.links.get? linkId = n.links.get? linkId → False := by
    intro same
    rw [same, old, Option.some.injEq] at new
    exact changed (congrArg guarded new.symm)
  cases event with
  | reroute routing =>
    obtain rfl := Option.some.inj stepped
    exact (unchanged rfl).elim
  | remember hash =>
    obtain rfl := Option.some.inj stepped
    exact (unchanged (by rw [addPacketHash_links])).elim
  | cleanLinkTable nowMs =>
    obtain rfl := Option.some.inj stepped
    exact absurd (guarded_of_keep old new) changed
  | removeInterface iface =>
    obtain rfl := Option.some.inj stepped
    exact absurd (guarded_of_keep old new) changed
  | receive a =>
    obtain rfl := Option.some.inj stepped
    have effect := processIncoming_links cfg n a
    generalize (n.processIncoming cfg a).2.links = links at effect new unchanged
    cases effect with
    | kept => exact (unchanged rfl).elim
    | touched other =>
      rw [BoundedMap.get?_modify] at new
      split at new
      next same =>
        subst same
        rw [old, Option.map_some, Option.some.injEq] at new
        subst new
        exact absurd rfl changed
      next =>
        rw [old, Option.some.injEq] at new
        exact absurd (congrArg guarded new.symm) changed
    | created raw packet route arrived request passed forwards =>
      by_cases same : linkId = calculateLinkId cfg raw
      · subst same
        simp [destinationSpeaksFirst, arrived, request, keepsLink, old, keyed, passed,
          forwards] at first
      · have kept := BoundedMap.get?_insertPreferring_of_ne same new
        rw [old, Option.some.injEq] at kept
        exact absurd (congrArg guarded kept.symm) changed
    | proven raw packet entry direction arrived proof found routes directed =>
      rw [BoundedMap.get?_modify] at new
      split at new
      next same =>
        subst same
        obtain rfl : before = entry := by rwa [old, Option.some.injEq] at found
        rw [old, Option.map_some, Option.some.injEq] at new
        subst new
        have half : before.validated = false := by
          cases validated : before.validated with
          | false => rfl
          | true => exact absurd (guarded_provenEntry validated) changed
        obtain ⟨lrproof, side⟩ : packet.context = .lrproof ∧
            fromDestinationSide n.routing before a.interfaceIndex = true := by
          simpa [destinationSpeaksFirst, arrived, proof, speaksForDestination, old, keyed, half,
            routes] using first
        exact ⟨a, raw, packet, rfl, arrived, proof, lrproof, rfl, side,
          hops_of_shared lrproof directed, verified_of_routesProof keyed lrproof routes⟩
      next =>
        rw [old, Option.some.injEq] at new
        exact absurd (congrArg guarded new.symm) changed

/-- In a run in which the destination speaks first on every link, only its verified
proof validates or re-anchors a relayed link. -/
theorem validated_only_by_destination (cfg : NodeConfig) (n : Node) (events : List Event)
    (first : Along (step cfg) (fun n e => destinationSpeaksFirst cfg n e = true) n events) :
    ∀ t ∈ transitions (step cfg) n events, OnlyDestinationValidates cfg t.1 t.2.1 t.2.2 := by
  intro t member
  exact step_onlyDestinationValidates cfg t.1 t.2.1 t.2.2
    (along_of_mem_transitions first member) (step_of_mem_transitions member)

/-! A relay between interface 1 and interface 2, where the destination is one hop away. -/

def hash16 (byte : UInt8) : TruncatedHash := FixedBytes.replicate 16 byte

/-- The first 32 bytes stand for the digest: no two packets below share them. -/
def plainDigest (bytes : Bytes) : FixedBytes 32 := FixedBytes.pad 32 bytes

def relayConfig : NodeConfig where
  identityHash := hash16 1
  enableTransport := true
  maxHops := pathfinderMaxHops
  lrproofRewriteOnAsymmetry := true
  packetHashCap := 1000
  pathRequestHash := hash16 100
  tunnelSynthesizeHash := hash16 101
  fullHash := plainDigest
  validKey := fun _ => true
  verify := fun _ _ signature => signature = List.replicate 64 7
  routingUpdate := fun r _ _ => r

def packetOf (type : PacketType) (dest : DestinationType) (context : PacketContext)
    (destination : TruncatedHash) (data : Bytes) : Packet where
  flags := ⟨false, .type1, false, .broadcast, dest, type⟩
  hops := 0
  transportId := none
  destinationHash := destination
  context := context
  data := data

/-- The packet addressed to the relay as its next hop. -/
def viaRelay (packet : Packet) : Packet := rewriteHeader packet true (some relayConfig.identityHash)

def wire (packet : Packet) : Bytes := packet.pack.getD []

def relayRouting : Routing where
  localDestinations := []
  localClientInterfaces := []
  sharedInstanceInterface := none
  localClientKnownDests := []
  paths := (BoundedMap.withCapacity 8).insert (hash16 3)
    ⟨1, 1000000, 2, [], none, none⟩
  reverse := BoundedMap.withCapacity 8
  announceCache := (BoundedMap.withCapacity 8).insert (hash16 3)
    (wire (packetOf .announce .single .none (hash16 3) (List.replicate 148 9)))
  receipts := []
  interfaceTransit := fun _ => true
  pathExpiryMs := fun _ => 1000000
  interfaceHwMtus := fun _ => none
  ifac := fun _ => none

def relay : Node := ⟨relayRouting, BoundedMap.withCapacity 8, [], []⟩

def requestPacket : Packet := packetOf .linkRequest .single .none (hash16 3) (List.replicate 64 5)

def linkId : TruncatedHash := calculateLinkId relayConfig (wire (viaRelay requestPacket))

def arrives (packet : Packet) (iface nowMs : Nat) : Event :=
  .receive ⟨iface, none, wire packet, nowMs, true, true⟩

def lrproofPacket : Packet :=
  packetOf .proof .link .lrproof linkId (List.replicate 64 7 ++ List.replicate 32 8)

theorem validated_only_by_destination_lrproof :
    ∃ n, exec (step relayConfig) relay
        [arrives (viaRelay requestPacket) 1 0, arrives lrproofPacket 2 5] = some n ∧
      (n.links.get? linkId).map guarded = some (true, 2) ∧
      ∀ t ∈ transitions (step relayConfig) relay
        [arrives (viaRelay requestPacket) 1 0, arrives lrproofPacket 2 5],
        OnlyDestinationValidates relayConfig t.1 t.2.1 t.2.2 := by
  refine ⟨_, rfl, by decide +kernel, ?_⟩
  apply validated_only_by_destination
  refine ⟨by decide +kernel, ?_⟩
  intro n stepped
  obtain rfl := Option.some.inj stepped
  exact ⟨by decide +kernel, fun _ _ => trivial⟩

def emptyProofPacket : Packet := packetOf .proof .link .none linkId []

/-- Nothing from the destination was seen, and yet the link counts as validated. -/
theorem empty_proof_validates :
    ∃ n n', exec (step relayConfig) relay [arrives (viaRelay requestPacket) 1 0] = some n ∧
      step relayConfig n (arrives emptyProofPacket 1 5) = some n' ∧
      ¬ OnlyDestinationValidates relayConfig n (arrives emptyProofPacket 1 5) n' := by
  refine ⟨_, _, rfl, rfl, ?_⟩
  intro only
  have old : ((relay.processIncoming relayConfig
      ⟨1, none, wire (viaRelay requestPacket), 0, true, true⟩).2.links.get? linkId).map
      (fun e => (guarded e, e.peerSigningKey)) =
        some ((false, 2), some ⟨List.replicate 32 9, rfl⟩) := by decide +kernel
  have new : (((relay.processIncoming relayConfig
      ⟨1, none, wire (viaRelay requestPacket), 0, true, true⟩).2.processIncoming relayConfig
      ⟨1, none, wire emptyProofPacket, 5, true, true⟩).2.links.get? linkId).map guarded =
        some (true, 2) := by decide
  obtain ⟨before, found, fields⟩ := Option.map_eq_some_iff.mp old
  obtain ⟨after, found', validated⟩ := Option.map_eq_some_iff.mp new
  obtain ⟨half, keyed⟩ := Prod.mk.inj fields
  obtain ⟨a, raw, packet, same, arrived, proof⟩ := only linkId before after _ found keyed found'
    (by rw [half, validated]; decide)
  obtain rfl := Event.receive.inj same
  have context : (parseArrival relayConfig (relay.processIncoming relayConfig
      ⟨1, none, wire (viaRelay requestPacket), 0, true, true⟩).2.routing
      ⟨1, none, wire emptyProofPacket, 5, true, true⟩).toOption.map (fun p => p.2.context) =
        some .none := by decide
  rw [arrived] at context
  have none_ : packet.context = .none := Option.some.inj context
  rw [proof.lrproof] at none_
  cases none_

/-! Repeated link requests. -/

/-- What of an entry decides where the traffic of its link goes. -/
def frozen (entry : LinkEntry) : Nat × Nat × Nat × Nat × Bool :=
  (entry.nextHopInterfaceIndex, entry.receivedInterfaceIndex, entry.hops, entry.remainingHops,
    entry.validated)

/-- A request the duplicate filter has seen leaves a validated entry as it is exactly
when the filter applies to it or its handler does not forward it. -/
theorem repeated_request_keeps_link_iff (cfg : NodeConfig) (n : Node) (events : List Event) :
    ∀ t ∈ transitions (step cfg) n events, ∀ a raw packet before, t.2.1 = .receive a →
      parseArrival cfg t.1.routing a = .ok (raw, packet) →
      packet.flags.packetType = .linkRequest →
      t.1.links.get? (calculateLinkId cfg raw) = some before → before.validated = true →
      t.1.hasPacketHash (cfg.packetHash raw) = true →
      ((t.2.2.links.get? (calculateLinkId cfg raw)).map frozen = some (frozen before) ↔
        (t.1.dedupExempt a packet = false ∨ forwardsRequest cfg t.1.routing a packet = false)) := by
  intro t member a raw packet before event arrived request found validated remembered
  have stepped := step_of_mem_transitions member
  rw [event] at stepped
  obtain after := Option.some.inj stepped
  have filter : t.1.passesFilter cfg a raw packet = t.1.dedupExempt a packet := by
    simp [passesFilter, remembered]
  rw [← after, ← filter]
  rcases request_links arrived request with ⟨stays, kept⟩ | ⟨route, passed, forwards, changed⟩
  · rw [kept, found, Option.map_some]
    exact iff_of_true rfl stays
  · rw [changed, BoundedMap.get?_insertPreferring_self, Option.map_some]
    apply iff_of_false
    · intro same
      have flag := congrArg (fun f => f.2.2.2.2) (Option.some.inj same)
      simp [frozen, newLinkEntry, validated] at flag
    · simp [passed, forwards]

/-- The relay after the request and the destination's proof, which came over `iface`. -/
def established (routing : Routing) (iface : Nat) : Node :=
  (((Node.mk routing (BoundedMap.withCapacity 8) [] []).processIncoming relayConfig
    ⟨1, none, wire (viaRelay requestPacket), 0, true, true⟩).2.processIncoming relayConfig
    ⟨iface, none, wire lrproofPacket, 5, true, true⟩).2

/-- The same request once more, on a third interface and one hop longer on its way. -/
def repeatedPacket : Packet := { viaRelay requestPacket with hops := 1 }

def repeatedArrival : Arrival := ⟨3, none, wire repeatedPacket, 9, true, true⟩

theorem repeated_request_keeps_link_remote :
    ∃ before, (established relayRouting 2).links.get? linkId = some before ∧
      before.validated = true ∧
      ((((established relayRouting 2).processIncoming relayConfig repeatedArrival).2).links.get?
        linkId).map frozen = some (frozen before) := by
  have old : ((established relayRouting 2).links.get? linkId).map (·.validated) = some true := by
    decide +kernel
  obtain ⟨before, found, validated⟩ := Option.map_eq_some_iff.mp old
  refine ⟨before, found, validated, ?_⟩
  have sameLink : linkId = calculateLinkId relayConfig (wire repeatedPacket) := by decide
  rw [sameLink] at found ⊢
  have member : (established relayRouting 2, Event.receive repeatedArrival,
      ((established relayRouting 2).processIncoming relayConfig repeatedArrival).2) ∈
      transitions (step relayConfig) relay [arrives (viaRelay requestPacket) 1 0,
        arrives lrproofPacket 2 5, .receive repeatedArrival] := by
    simp only [transitions, step, arrives]
    exact .tail _ (.tail _ (.head _))
  have arrived : parseArrival relayConfig (established relayRouting 2).routing repeatedArrival =
      .ok (wire repeatedPacket, { repeatedPacket with hops := 2 }) := by decide +kernel
  have remembered : (established relayRouting 2).hasPacketHash
      (relayConfig.packetHash (wire repeatedPacket)) = true := by decide +kernel
  have filtered : (established relayRouting 2).dedupExempt repeatedArrival
      { repeatedPacket with hops := 2 } = false := by decide +kernel
  have kept := repeated_request_keeps_link_iff relayConfig relay _ _ member repeatedArrival _ _ before
    rfl arrived rfl found validated
  dsimp only at kept
  exact (kept remembered).mpr (.inl filtered)

/-- The destination sits behind a local client on interface 5. -/
def clientRouting : Routing :=
  { relayRouting with
    localClientInterfaces := [5]
    paths := (BoundedMap.withCapacity 8).insert (hash16 3) ⟨0, 1000000, 5, [], none, none⟩ }

/-- The request is remembered, its link is up, and its repetition takes the link down
and points its initiator's side at the interface it came from. -/
theorem repeated_request_repoints_link :
    (established clientRouting 5).hasPacketHash
        (relayConfig.packetHash (wire repeatedPacket)) = true ∧
      ((established clientRouting 5).links.get? linkId).map frozen = some (5, 1, 1, 0, true) ∧
      ((((established clientRouting 5).processIncoming relayConfig repeatedArrival).2).links.get?
        linkId).map frozen = some (5, 3, 2, 0, false) := by
  decide +kernel

end Leviculum.Transport.RelayedLink
