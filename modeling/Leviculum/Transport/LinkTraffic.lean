import Leviculum.Transport.LinkTable

/-! Which way a data or proof packet of a relayed link goes, and what a proof that goes nowhere leaves behind. -/

namespace Leviculum.Transport

def Handled.transmittedOn (r : Routing) (arrival : Nat) : Handled → Nat → Prop
  | .requestForwarded sent, iface => ∃ s ∈ sent, s.interfaceIndex = iface
  | .proofForwarded sent, iface => sent.interfaceIndex = iface
  | .linkForwarded sent, iface => sent.interfaceIndex = iface
  | .pathForwarded sent, iface => sent.interfaceIndex = iface
  | .plainBroadcast (some _), iface => iface ≠ arrival ∧ (r.isLocalClient arrival ∨ r.isLocalClient iface)
  | _, _ => False

/-- A local client stands in for the one the link is anchored at. -/
def LinkEntry.standsIn (r : Routing) (entry : LinkEntry) (arrival : Nat) : Prop :=
  arrival ≠ entry.receivedInterfaceIndex ∧ r.isLocalClient arrival ∧ r.isLocalClient entry.nextHopInterfaceIndex

def LinkEntry.across (r : Routing) (entry : LinkEntry) (arrival target : Nat) : Prop :=
  (arrival = entry.nextHopInterfaceIndex ∧ target = entry.receivedInterfaceIndex) ∨
    (arrival = entry.receivedInterfaceIndex ∧ target = entry.nextHopInterfaceIndex) ∨
    (entry.standsIn r arrival ∧ target = entry.receivedInterfaceIndex)

namespace Node

/-- The packet is under the hop ceiling and fits on the wire. -/
def forwardable (cfg : NodeConfig) (packet : Packet) : Bool :=
  packet.hops.toNat ≤ cfg.hopCeiling && packet.pack.isSome

theorem forwardOnInterface_of_forwardable {cfg : NodeConfig} {packet : Packet}
    (fits : forwardable cfg packet = true) (target : Nat) (peer : Option TruncatedHash) :
    ∃ raw, forwardOnInterface cfg target packet peer = .ok ⟨target, raw, peer⟩ := by
  simp only [forwardable, Bool.and_eq_true, decide_eq_true_eq] at fits
  obtain ⟨raw, packed⟩ := Option.isSome_iff_exists.mp fits.2
  refine ⟨raw, ?_⟩
  rw [forwardOnInterface, if_neg (Nat.not_lt.mpr fits.1), packed]

theorem forwardOnInterface_of_not {cfg : NodeConfig} {packet : Packet} (unfit : forwardable cfg packet = false)
    (target : Nat) (peer : Option TruncatedHash) :
    ∃ reason, forwardOnInterface cfg target packet peer = .error reason := by
  unfold forwardOnInterface
  split_ifs with past
  · exact ⟨_, rfl⟩
  · cases packed : packet.pack with
    | none => exact ⟨_, rfl⟩
    | some raw => simp [forwardable, Nat.not_lt.mp past, packed] at unfit

/-! ### Proofs -/

/-- A local receipt or destination takes the proof. -/
def keepsProof (n : Node) (packet : Packet) : Bool :=
  (provenReceipt packet).any n.routing.receipts.contains ||
    n.routing.localDestinations.contains packet.destinationHash

def routedLink (cfg : NodeConfig) (n : Node) (a : Arrival) (packet : Packet) : Option LinkEntry :=
  if cfg.enableTransport || n.routing.isLocalClient a.interfaceIndex || n.isForLocalClientLink packet.destinationHash
  then n.links.get? packet.destinationHash else none

def provenLink (cfg : NodeConfig) (n : Node) (a : Arrival) (packet : Packet) : Option (LinkEntry × ProofDirection) :=
  if n.keepsProof packet then none
  else
    match n.routedLink cfg a packet with
    | none => none
    | some entry =>
      match proofDirection cfg n.routing entry a.interfaceIndex packet with
      | .error _ => none
      | .ok direction =>
        if packet.context = .lrproof ∧ !lrproofAccepted cfg packet.destinationHash entry packet.data then none
        else some (entry, direction)

def provenReverse (cfg : NodeConfig) (n : Node) (a : Arrival) (packet : Packet) : Option ReverseEntry :=
  if n.keepsProof packet || (n.routedLink cfg a packet).isSome || packet.context = .lrproof then none
  else
    (n.routing.reverse.get? packet.destinationHash).filter fun entry =>
      cfg.enableTransport || n.routing.isLocalClient a.interfaceIndex ||
        n.routing.isLocalClient entry.receivingInterfaceIndex

/-- The copy a link's table entry repeats. -/
def repeated (packet : Packet) (direction : ProofDirection) : Packet :=
  { packet with hops := (direction.rewriteHops.map UInt8.ofNat).getD packet.hops }

inductive ProofEffect (cfg : NodeConfig) (n : Node) (a : Arrival) (packet : Packet) : Handled × Node → Prop
  | idle (handled : Handled) (n' : Node) (noLink : n.provenLink cfg a packet = none)
      (noReverse : n.provenReverse cfg a packet = none) (silent : ∀ r arrival iface, ¬ handled.transmittedOn r arrival iface)
      (links : n'.links = n.links) (routing : n'.routing = n.routing) : ProofEffect cfg n a packet (handled, n')
  | link (entry : LinkEntry) (direction : ProofDirection) (handled : Handled) (n' : Node)
      (found : n.provenLink cfg a packet = some (entry, direction))
      (noReverse : n.provenReverse cfg a packet = none)
      (links : n'.links = n.links.modify packet.destinationHash (provenEntry n.routing a packet direction))
      (reverse : n'.routing.reverse = n.routing.reverse)
      (routing : direction.adoptHops = none → n'.routing = n.routing)
      (sends : forwardable cfg (repeated packet direction) = true →
        ∃ sent, handled = .proofForwarded sent ∧ sent.interfaceIndex = direction.targetIface)
      (drops : forwardable cfg (repeated packet direction) = false → ∃ reason, handled = .dropped reason) :
      ProofEffect cfg n a packet (handled, n')
  | reverse (entry : ReverseEntry) (handled : Handled) (n' : Node) (noLink : n.provenLink cfg a packet = none)
      (found : n.provenReverse cfg a packet = some entry) (links : n'.links = n.links)
      (taken : n'.routing.reverse = n.routing.reverse.erase packet.destinationHash)
      (sends : a.interfaceIndex = entry.outboundInterfaceIndex ∧ forwardable cfg packet = true →
        ∃ sent, handled = .proofForwarded sent ∧ sent.interfaceIndex = entry.receivingInterfaceIndex)
      (drops : ¬ (a.interfaceIndex = entry.outboundInterfaceIndex ∧ forwardable cfg packet = true) →
        ∀ r arrival iface, ¬ handled.transmittedOn r arrival iface) :
      ProofEffect cfg n a packet (handled, n')

theorem handleLinkProof_effect {cfg : NodeConfig} {n : Node} {a : Arrival} {packet : Packet} {entry : LinkEntry}
    (kept : n.keepsProof packet = false) (routed : n.routedLink cfg a packet = some entry) (hash : FixedBytes 32) :
    ProofEffect cfg n a packet (n.handleLinkProof cfg a hash packet entry) := by
  have noReverse : n.provenReverse cfg a packet = none := by simp [provenReverse, routed]
  unfold handleLinkProof
  cases directed : proofDirection cfg n.routing entry a.interfaceIndex packet with
  | error reason =>
    refine .idle _ n ?_ noReverse (fun _ _ _ => id) rfl rfl
    simp [provenLink, kept, routed, directed]
  | ok direction =>
    dsimp only
    by_cases refused : packet.context = .lrproof ∧ !lrproofAccepted cfg packet.destinationHash entry packet.data
    · rw [if_pos refused]
      refine .idle _ n ?_ noReverse (fun _ _ _ => id) rfl rfl
      simp only [provenLink, kept, routed, directed]
      rw [if_neg (by simp), if_pos refused]
    · rw [if_neg refused]
      have found : n.provenLink cfg a packet = some (entry, direction) := by
        simp only [provenLink, kept, routed, directed]
        rw [if_neg (by simp), if_neg refused]
      cases fits : forwardable cfg (repeated packet direction) with
      | true =>
        obtain ⟨raw, ok⟩ := forwardOnInterface_of_forwardable fits direction.targetIface
          (entry.forwardPeer direction.targetIface a.ingressPeer)
        unfold repeated at ok
        rw [ok]
        refine .link entry direction _ _ found noReverse ?_ ?_ ?_ (fun _ => ⟨_, rfl, rfl⟩) (by simp [fits])
        · split <;> simp
        · split <;> cases direction.adoptHops <;> simp
        · intro none'
          split <;> simp [none']
      | false =>
        obtain ⟨reason, error⟩ := forwardOnInterface_of_not fits direction.targetIface
          (entry.forwardPeer direction.targetIface a.ingressPeer)
        unfold repeated at error
        rw [error]
        refine .link entry direction _ _ found noReverse ?_ ?_ ?_ (by simp [fits]) (fun _ => ⟨reason, rfl⟩)
        · split <;> simp
        · split <;> cases direction.adoptHops <;> simp
        · intro none'
          split <;> simp [none']

theorem idle_of_keepsProof {cfg : NodeConfig} {n n' : Node} {a : Arrival} {packet : Packet}
    (kept : n.keepsProof packet = true) (links : n'.links = n.links) (routing : n'.routing = n.routing) :
    ProofEffect cfg n a packet (.delivered, n') := by
  refine .idle _ n' ?_ ?_ (fun _ _ _ => id) links routing
  · rw [provenLink, if_pos kept]
  · rw [provenReverse, kept]
    rfl

/-- A proof that is not routed back is for a link of this node's own, or for nobody. -/
def leftOver (cfg : NodeConfig) (n : Node) (hash : FixedBytes 32) (packet : Packet) : Handled × Node :=
  if packet.flags.destType = .link then (.delivered, n.addPacketHash cfg hash) else (.dropped .notRouted, n)

theorem leftOver_silent (cfg : NodeConfig) (n : Node) (hash : FixedBytes 32) (packet : Packet) :
    (∀ r arrival iface, ¬ (n.leftOver cfg hash packet).1.transmittedOn r arrival iface) ∧
      (n.leftOver cfg hash packet).2.links = n.links ∧ (n.leftOver cfg hash packet).2.routing = n.routing := by
  unfold leftOver
  split
  · exact ⟨fun _ _ _ => id, addPacketHash_links .., addPacketHash_routing ..⟩
  · exact ⟨fun _ _ _ => id, rfl, rfl⟩

theorem handleProof_effect (cfg : NodeConfig) (n : Node) (a : Arrival) (hash : FixedBytes 32) (packet : Packet) :
    ProofEffect cfg n a packet (n.handleProof cfg a hash packet) := by
  unfold handleProof
  split
  next receipt => exact idle_of_keepsProof (by rw [keepsProof, receipt]; rfl) rfl rfl
  next noReceipt =>
  split
  next here =>
    exact idle_of_keepsProof (by rw [keepsProof, here, Bool.or_true]) (addPacketHash_links ..) (addPacketHash_routing ..)
  next notHere =>
  have kept : n.keepsProof packet = false := by
    rw [keepsProof, Bool.eq_false_iff.mpr noReceipt, Bool.eq_false_iff.mpr notHere]
    rfl
  have link : (if (cfg.enableTransport || n.routing.isLocalClient a.interfaceIndex ||
      n.isForLocalClientLink packet.destinationHash) = true then n.links.get? packet.destinationHash else none) =
      n.routedLink cfg a packet := rfl
  dsimp only
  rw [link]
  cases routed : n.routedLink cfg a packet with
  | some entry => exact handleLinkProof_effect kept routed hash
  | none =>
    have noLink : n.provenLink cfg a packet = none := by simp [provenLink, kept, routed]
    by_cases lrproof : packet.context = .lrproof
    · have noReverse : n.provenReverse cfg a packet = none := by simp [provenReverse, lrproof]
      obtain ⟨silent, links, routing⟩ := leftOver_silent cfg n hash packet
      simp only [lrproof, if_true]
      exact .idle _ _ noLink noReverse silent links routing
    · simp only [lrproof, if_false]
      have gate : n.provenReverse cfg a packet = (n.routing.reverse.get? packet.destinationHash).filter fun entry =>
          cfg.enableTransport || n.routing.isLocalClient a.interfaceIndex ||
            n.routing.isLocalClient entry.receivingInterfaceIndex := by
        simp [provenReverse, kept, routed, lrproof]
      unfold handleReverseProof
      cases found : n.routing.reverse.get? packet.destinationHash with
      | none =>
        rw [found] at gate
        obtain ⟨silent, links, routing⟩ := leftOver_silent cfg n hash packet
        exact .idle _ _ noLink gate silent links routing
      | some entry =>
        rw [found] at gate
        dsimp only
        by_cases passes : (cfg.enableTransport || n.routing.isLocalClient a.interfaceIndex ||
          n.routing.isLocalClient entry.receivingInterfaceIndex) = true
        · rw [if_pos passes]
          have taken : n.provenReverse cfg a packet = some entry := by rw [gate, Option.filter_some, if_pos passes]
          by_cases outbound : a.interfaceIndex = entry.outboundInterfaceIndex
          · rw [if_pos outbound]
            cases fits : forwardable cfg packet with
            | true =>
              obtain ⟨raw, ok⟩ := forwardOnInterface_of_forwardable fits entry.receivingInterfaceIndex entry.peer
              rw [ok]
              exact .reverse entry _ _ noLink taken rfl rfl (fun _ => ⟨_, rfl, rfl⟩) (fun lost => absurd ⟨outbound, fits⟩ lost)
            | false =>
              obtain ⟨reason, error⟩ := forwardOnInterface_of_not fits entry.receivingInterfaceIndex entry.peer
              rw [error]
              exact .reverse entry _ _ noLink taken rfl rfl (by simp [fits]) (fun _ _ _ _ => id)
          · rw [if_neg outbound]
            obtain ⟨silent, links, routing⟩ := leftOver_silent cfg { n with
              routing := { n.routing with reverse := n.routing.reverse.erase packet.destinationHash } } hash packet
            exact .reverse entry _ _ noLink taken links (congrArg Routing.reverse routing)
              (fun sends => absurd sends.1 outbound) (fun _ => silent)
        · rw [if_neg passes]
          have noReverse : n.provenReverse cfg a packet = none := by rw [gate, Option.filter_some, if_neg passes]
          obtain ⟨silent, links, routing⟩ := leftOver_silent cfg n hash packet
          exact .idle _ _ noLink noReverse silent links routing

theorem proofDirection_across {cfg : NodeConfig} {r : Routing} {entry : LinkEntry} {iface : Nat} {packet : Packet}
    {direction : ProofDirection} (directed : proofDirection cfg r entry iface packet = .ok direction) :
    entry.across r iface direction.targetIface := by
  unfold proofDirection at directed
  dsimp only at directed
  by_cases shared : entry.nextHopInterfaceIndex = entry.receivedInterfaceIndex
  · rw [if_pos shared] at directed
    split_ifs at directed with echo
    cases directed
    rw [not_or, not_not] at echo
    exact .inl ⟨echo.1, shared⟩
  rw [if_neg shared] at directed
  by_cases destination : fromDestinationSide r entry iface = true
  · rw [if_pos destination] at directed
    have target : direction.targetIface = entry.receivedInterfaceIndex := by
      split_ifs at directed <;> cases directed <;> rfl
    simp only [fromDestinationSide, Bool.or_eq_true, Bool.and_eq_true, decide_eq_true_eq] at destination
    rcases destination with anchor | ⟨⟨apart, client⟩, clients⟩
    · exact .inl ⟨anchor, target⟩
    · exact .inr (.inr ⟨⟨apart, client, clients⟩, target⟩)
  rw [if_neg destination] at directed
  by_cases initiator : iface = entry.receivedInterfaceIndex
  · rw [if_pos initiator] at directed
    have target : direction.targetIface = entry.nextHopInterfaceIndex := by
      split_ifs at directed <;> cases directed <;> rfl
    exact .inr (.inl ⟨initiator, target⟩)
  · rw [if_neg initiator] at directed
    cases directed

theorem provenEntry_eq_iff {cfg : NodeConfig} {r : Routing} {a : Arrival} {entry : LinkEntry} {packet : Packet}
    {direction : ProofDirection} (directed : proofDirection cfg r entry a.interfaceIndex packet = .ok direction) :
    (provenEntry r a packet direction entry = entry ↔
      entry.validated = true ∧ (packet.context = .lrproof ∨ entry.timestampMs = a.nowMs)) ∧
      (entry.validated = true → direction.adoptHops = none) := by
  have adopts : entry.validated = true → direction.adoptHops = none := by
    intro validated
    unfold proofDirection at directed
    dsimp only at directed
    split_ifs at directed <;> cases directed <;> simp_all
  refine ⟨?_, adopts⟩
  unfold provenEntry validateEntry
  dsimp only
  constructor
  · intro same
    by_cases validated : entry.validated = true
    · rw [if_pos validated] at same
      refine ⟨validated, ?_⟩
      by_cases lrproof : packet.context = .lrproof
      · exact .inl lrproof
      · rw [if_neg lrproof] at same
        exact .inr (congrArg LinkEntry.timestampMs same).symm
    · have flag := congrArg LinkEntry.validated same
      rw [if_neg validated] at flag
      split_ifs at flag <;> exact absurd flag.symm validated
  · rintro ⟨validated, still⟩
    rw [if_pos validated, adopts validated]
    split_ifs with lrproof
    · rfl
    · rw [← still.resolve_left lrproof]
      rfl

/-! ### Data -/

/-- The packet is copied between the clients and the network, whatever link its destination names. -/
def copies (cfg : NodeConfig) (n : Node) (a : Arrival) (packet : Packet) : Bool :=
  packet.destinationHash ≠ cfg.pathRequestHash && packet.destinationHash ≠ cfg.tunnelSynthesizeHash &&
    packet.flags.destType = .plain && packet.flags.transportType = .broadcast &&
    (plainCopy cfg n.routing a packet).isSome

def dataLink (cfg : NodeConfig) (n : Node) (a : Arrival) (packet : Packet) : Option LinkEntry :=
  if packet.destinationHash = cfg.pathRequestHash ∨ packet.destinationHash = cfg.tunnelSynthesizeHash ∨
      (packet.flags.destType = .plain ∧ packet.flags.transportType = .broadcast) ∨
      n.routing.localDestinations.contains packet.destinationHash = true then none
  else if cfg.enableTransport || n.routing.isLocalClient a.interfaceIndex ||
      n.routing.isForLocalClient packet.destinationHash || n.isForLocalClientLink packet.destinationHash
  then n.links.get? packet.destinationHash else none

theorem handleLinkData_transmits (cfg : NodeConfig) (n : Node) (a : Arrival) (hash : FixedBytes 32) (packet : Packet)
    (entry : LinkEntry) (iface : Nat) :
    (n.handleLinkData cfg a hash packet entry).1.transmittedOn n.routing a.interfaceIndex iface ↔
      linkTarget entry a.interfaceIndex packet.hops.toNat = .ok iface ∧ a.withinCap = true ∧
        forwardable cfg packet = true := by
  unfold handleLinkData
  cases linkTarget entry a.interfaceIndex packet.hops.toNat with
  | error reason => simp [Handled.transmittedOn]
  | ok target =>
    dsimp only
    cases a.withinCap with
    | false => simp [Handled.transmittedOn]
    | true =>
      simp only [Bool.not_true, Bool.false_eq_true, if_false]
      cases fits : forwardable cfg packet with
      | true =>
        obtain ⟨raw, ok⟩ := forwardOnInterface_of_forwardable fits target (entry.forwardPeer target a.ingressPeer)
        rw [ok]
        simp [Handled.transmittedOn]
      | false =>
        obtain ⟨reason, error⟩ := forwardOnInterface_of_not fits target (entry.forwardPeer target a.ingressPeer)
        rw [error]
        simp [Handled.transmittedOn]

theorem handleData_transmits {cfg : NodeConfig} {n : Node} {a : Arrival} {hash : FixedBytes 32} {packet : Packet}
    {entry : LinkEntry} (found : n.links.get? packet.destinationHash = some entry) (iface : Nat) :
    (n.handleData cfg a hash packet).1.transmittedOn n.routing a.interfaceIndex iface ↔
      (n.copies cfg a packet = true ∧ iface ≠ a.interfaceIndex ∧
        (n.routing.isLocalClient a.interfaceIndex ∨ n.routing.isLocalClient iface)) ∨
      (n.dataLink cfg a packet = some entry ∧ linkTarget entry a.interfaceIndex packet.hops.toNat = .ok iface ∧
        a.withinCap = true ∧ forwardable cfg packet = true) := by
  unfold handleData
  dsimp only
  split
  next control =>
    rcases control with path | tunnel
    · simp [copies, dataLink, path, Handled.transmittedOn]
    · simp [copies, dataLink, tunnel, Handled.transmittedOn]
  next ordinary =>
  rw [not_or] at ordinary
  split
  next plain =>
    have unlinked : n.dataLink cfg a packet = none := by rw [dataLink, if_pos (.inr (.inr (.inl plain)))]
    have copied : n.copies cfg a packet = (plainCopy cfg n.routing a packet).isSome := by
      simp [copies, ordinary.1, ordinary.2, plain.1, plain.2]
    rw [unlinked, copied]
    cases plainCopy cfg n.routing a packet <;> split <;> simp [Handled.transmittedOn]
  next notPlain =>
    have uncopied : n.copies cfg a packet = false := by
      rw [copies, ← Bool.not_eq_true]
      simp only [Bool.and_eq_true, decide_eq_true_eq]
      exact fun all => notPlain ⟨all.1.1.2, all.1.2⟩
    rw [uncopied]
    split
    next here =>
      have unlinked : n.dataLink cfg a packet = none := by rw [dataLink, if_pos (.inr (.inr (.inr here)))]
      simp [unlinked, Handled.transmittedOn]
    next notHere =>
      have linked : n.dataLink cfg a packet = if (cfg.enableTransport || n.routing.isLocalClient a.interfaceIndex ||
          n.routing.isForLocalClient packet.destinationHash || n.isForLocalClientLink packet.destinationHash) = true
          then n.links.get? packet.destinationHash else none := by
        rw [dataLink, if_neg]
        rintro (path | tunnel | plain | here)
        · exact ordinary.1 path
        · exact ordinary.2 tunnel
        · exact notPlain plain
        · exact notHere here
      rw [← linked]
      by_cases routed : (cfg.enableTransport || n.routing.isLocalClient a.interfaceIndex ||
          n.routing.isForLocalClient packet.destinationHash || n.isForLocalClientLink packet.destinationHash) = true
      · rw [if_pos routed, found] at linked
        rw [linked]
        simpa using handleLinkData_transmits cfg n a hash packet entry iface
      · rw [if_neg routed] at linked
        rw [linked]
        dsimp only
        rw [if_neg (fun both => routed both.1)]
        split_ifs <;> simp [Handled.transmittedOn]

theorem linkTarget_across {r : Routing} {entry : LinkEntry} {iface hops target : Nat}
    (routed : linkTarget entry iface hops = .ok target) :
    entry.across r iface target ↔ entry.nextHopInterfaceIndex ≠ entry.receivedInterfaceIndex ∨
      iface = entry.nextHopInterfaceIndex ∨ entry.standsIn r iface := by
  unfold linkTarget at routed
  by_cases shared : entry.nextHopInterfaceIndex = entry.receivedInterfaceIndex
  · rw [if_pos shared] at routed
    split_ifs at routed
    cases routed
    simp [LinkEntry.across, shared]
  · rw [if_neg shared] at routed
    refine iff_of_true ?_ (.inl shared)
    split_ifs at routed with destination initiator
    · cases routed
      exact .inl ⟨destination, rfl⟩
    · cases routed
      exact .inr (.inl ⟨initiator, rfl⟩)

end Node

end Leviculum.Transport
