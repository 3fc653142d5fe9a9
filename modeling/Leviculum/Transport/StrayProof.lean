import Leviculum.Transport.LinkTraffic
import Leviculum.Transport.RelayedLink

/-! The traffic of a relayed link keeps to the link's two sides, and a stray proof changes nothing. -/

namespace Leviculum.Transport

namespace Node

def Handled.forwardsProof : Handled → Bool
  | .proofForwarded _ => true
  | _ => false

/-- A packet under a link's id crosses the link or stays here, and a proof that is not forwarded leaves the tables
as they are. -/
structure Disciplined (cfg : NodeConfig) (n : Node) (a : Arrival) (packet : Packet) : Prop where
  stays : ∀ entry, n.links.get? packet.destinationHash = some entry → ∀ iface,
    (n.processIncoming cfg a).1.transmittedOn n.routing a.interfaceIndex iface →
      entry.across n.routing a.interfaceIndex iface
  frame : packet.flags.packetType = .proof → Handled.forwardsProof (n.processIncoming cfg a).1 = false →
    (n.processIncoming cfg a).2.links = n.links ∧ (n.processIncoming cfg a).2.routing.reverse = n.routing.reverse

/-- What a data packet under a link's id must meet. -/
structure OrderlyData (cfg : NodeConfig) (n : Node) (a : Arrival) (packet : Packet) : Prop where
  /-- On a link whose two legs are one medium, it came over that medium, or is dropped for its hops, its size or
  the host's cap. -/
  medium : ∀ entry, n.dataLink cfg a packet = some entry →
    entry.nextHopInterfaceIndex = entry.receivedInterfaceIndex →
    (packet.hops.toNat = entry.remainingHops ∨ packet.hops.toNat = entry.hops) → a.withinCap = true →
    forwardable cfg packet = true → a.interfaceIndex = entry.nextHopInterfaceIndex ∨ entry.standsIn n.routing a.interfaceIndex
  /-- It is not a plain broadcast that is copied elsewhere. -/
  broadcast : ∀ entry, n.links.get? packet.destinationHash = some entry → n.copies cfg a packet = true →
    ∀ iface, iface ≠ a.interfaceIndex → n.routing.isLocalClient a.interfaceIndex ∨ n.routing.isLocalClient iface →
      entry.across n.routing a.interfaceIndex iface

structure OrderlyProof (cfg : NodeConfig) (n : Node) (a : Arrival) (packet : Packet) : Prop where
  /-- The copy a link's entry repeats can be sent, or it changes nothing in the entry. -/
  ceiling : ∀ entry direction, n.provenLink cfg a packet = some (entry, direction) →
    forwardable cfg (repeated packet direction) = true ∨
      (entry.validated = true ∧ (packet.context = .lrproof ∨ entry.timestampMs = a.nowMs))
  /-- A proof that reaches a reverse entry came over the entry's outbound interface, can be sent, and does not
  bear the id of a link. -/
  outbound : ∀ entry, n.provenReverse cfg a packet = some entry →
    a.interfaceIndex = entry.outboundInterfaceIndex ∧ forwardable cfg packet = true ∧
      n.links.get? packet.destinationHash = none

def Orderly (cfg : NodeConfig) (n : Node) (a : Arrival) (packet : Packet) : Prop :=
  match packet.flags.packetType with
  | .data => OrderlyData cfg n a packet
  | .proof => OrderlyProof cfg n a packet
  | _ => True

theorem provenLink_spec {cfg : NodeConfig} {n : Node} {a : Arrival} {packet : Packet} {entry : LinkEntry}
    {direction : ProofDirection} (found : n.provenLink cfg a packet = some (entry, direction)) :
    n.links.get? packet.destinationHash = some entry ∧
      proofDirection cfg n.routing entry a.interfaceIndex packet = .ok direction := by
  unfold provenLink routedLink at found
  split_ifs at found with kept routed
  · cases linked : n.links.get? packet.destinationHash with
    | none => simp [linked] at found
    | some other =>
      simp only [linked] at found
      cases directed : proofDirection cfg n.routing other a.interfaceIndex packet with
      | error reason => simp [directed] at found
      | ok way =>
        simp only [directed] at found
        split_ifs at found
        cases found
        exact ⟨rfl, directed⟩

theorem provenReverse_spec {cfg : NodeConfig} {n : Node} {a : Arrival} {packet : Packet} {entry : ReverseEntry}
    (found : n.provenReverse cfg a packet = some entry) :
    n.routing.reverse.get? packet.destinationHash = some entry ∧ n.routedLink cfg a packet = none ∧
      (cfg.enableTransport || n.routing.isLocalClient a.interfaceIndex ||
        n.routing.isLocalClient entry.receivingInterfaceIndex) = true := by
  unfold provenReverse at found
  split_ifs at found with elsewhere
  obtain ⟨held, passes⟩ := Option.filter_eq_some_iff.mp found
  simp only [Bool.or_eq_true, not_or, Bool.not_eq_true, Option.isSome_eq_false_iff, Option.isNone_iff_eq_none] at elsewhere
  exact ⟨held, elsewhere.1.2, passes⟩

theorem reverse_not_across {cfg : NodeConfig} {n : Node} {a : Arrival} {packet : Packet} {back : ReverseEntry}
    {entry : LinkEntry} (taken : n.provenReverse cfg a packet = some back)
    (found : n.links.get? packet.destinationHash = some entry) :
    ¬ entry.across n.routing a.interfaceIndex back.receivingInterfaceIndex := by
  obtain ⟨-, unrouted, passes⟩ := provenReverse_spec taken
  unfold routedLink at unrouted
  split_ifs at unrouted with routed
  · rw [found] at unrouted
    cases unrouted
  · simp only [isForLocalClientLink, found, Option.any_some, Bool.or_eq_true, not_or, Bool.not_eq_true] at routed
    obtain ⟨⟨noTransport, notLocal⟩, notReceived, notNext⟩ := routed
    rw [noTransport, notLocal, Bool.false_or, Bool.false_or] at passes
    rintro (⟨-, target⟩ | ⟨-, target⟩ | ⟨⟨-, client, -⟩, -⟩)
    · rw [target, notReceived] at passes
      cases passes
    · rw [target, notNext] at passes
      cases passes
    · rw [notLocal] at client
      cases client

theorem dataLink_found {cfg : NodeConfig} {n : Node} {a : Arrival} {packet : Packet} {entry : LinkEntry}
    (linked : n.dataLink cfg a packet = some entry) : n.links.get? packet.destinationHash = some entry := by
  unfold dataLink at linked
  split_ifs at linked
  exact linked

theorem handleData_stays_iff (cfg : NodeConfig) (n : Node) (a : Arrival) (hash : FixedBytes 32) (packet : Packet) :
    (∀ entry, n.links.get? packet.destinationHash = some entry → ∀ iface,
      (n.handleData cfg a hash packet).1.transmittedOn n.routing a.interfaceIndex iface →
        entry.across n.routing a.interfaceIndex iface) ↔ OrderlyData cfg n a packet := by
  constructor
  · intro stays
    refine ⟨?_, ?_⟩
    · intro entry linked shared matches_ cap fits
      have target : linkTarget entry a.interfaceIndex packet.hops.toNat = .ok entry.nextHopInterfaceIndex := by
        rw [linkTarget, if_pos shared, if_pos matches_]
      have crosses := stays entry (dataLink_found linked) _
        ((handleData_transmits (dataLink_found linked) _).mpr (.inr ⟨linked, target, cap, fits⟩))
      exact ((linkTarget_across target).mp crosses).resolve_left (not_not.mpr shared)
    · intro entry found copied iface apart clients
      exact stays entry found iface ((handleData_transmits found iface).mpr (.inl ⟨copied, apart, clients⟩))
  · intro orderly entry found iface transmitted
    rcases (handleData_transmits found iface).mp transmitted with ⟨copied, apart, clients⟩ | ⟨linked, target, cap, fits⟩
    · exact orderly.broadcast entry found copied iface apart clients
    · by_cases shared : entry.nextHopInterfaceIndex = entry.receivedInterfaceIndex
      · have matches_ : packet.hops.toNat = entry.remainingHops ∨ packet.hops.toNat = entry.hops := by
          rw [linkTarget, if_pos shared] at target
          split_ifs at target with counted
          exact counted
        exact (linkTarget_across target).mpr (.inr (orderly.medium entry linked shared matches_ cap fits))
      · exact (linkTarget_across target).mpr (.inl shared)

/-- A proof crosses its link and leaves nothing behind when it is not forwarded, exactly when it is orderly. -/
theorem proofEffect_iff {cfg : NodeConfig} {n : Node} {a : Arrival} {packet : Packet} {result : Handled × Node}
    (effect : ProofEffect cfg n a packet result) :
    ((∀ entry, n.links.get? packet.destinationHash = some entry → ∀ iface,
        result.1.transmittedOn n.routing a.interfaceIndex iface → entry.across n.routing a.interfaceIndex iface) ∧
      (Handled.forwardsProof result.1 = false →
        result.2.links = n.links ∧ result.2.routing.reverse = n.routing.reverse)) ↔ OrderlyProof cfg n a packet := by
  cases effect with
  | idle handled n' noLink noReverse silent links routing =>
    refine iff_of_true ⟨?_, ?_⟩ ⟨?_, ?_⟩
    · exact fun _ _ iface transmitted => absurd transmitted (silent _ _ iface)
    · exact fun _ => ⟨links, congrArg Routing.reverse routing⟩
    · intro entry direction found
      rw [noLink] at found
      cases found
    · intro entry found
      rw [noReverse] at found
      cases found
  | link entry direction handled n' found noReverse links reverse routing sends drops =>
    obtain ⟨linked, directed⟩ := provenLink_spec found
    have only : OrderlyProof cfg n a packet ↔ forwardable cfg (repeated packet direction) = true ∨
        (entry.validated = true ∧ (packet.context = .lrproof ∨ entry.timestampMs = a.nowMs)) := by
      refine ⟨fun orderly => orderly.ceiling entry direction found, fun fits => ⟨?_, ?_⟩⟩
      · intro other way held
        rw [found] at held
        cases held
        exact fits
      · intro back held
        rw [noReverse] at held
        cases held
    rw [only]
    cases fits : forwardable cfg (repeated packet direction) with
    | true =>
      obtain ⟨sent, rfl, target⟩ := sends fits
      refine iff_of_true ⟨?_, nofun⟩ (.inl rfl)
      rintro other held iface rfl
      rw [linked] at held
      cases held
      rw [target]
      exact proofDirection_across directed
    | false =>
      obtain ⟨reason, rfl⟩ := drops fits
      rw [← (provenEntry_eq_iff directed).1, ← BoundedMap.modify_eq_self_iff linked, ← links]
      simp only [reverse, Bool.false_eq_true, false_or]
      exact ⟨fun both => (both.2 rfl).1, fun same => ⟨fun _ _ _ => False.elim, fun _ => ⟨same, trivial⟩⟩⟩
  | reverse back handled n' noLink found links taken sends drops =>
    have only : OrderlyProof cfg n a packet ↔ a.interfaceIndex = back.outboundInterfaceIndex ∧
        forwardable cfg packet = true ∧ n.links.get? packet.destinationHash = none := by
      refine ⟨fun orderly => orderly.outbound back found, fun meets => ⟨?_, ?_⟩⟩
      · intro entry direction held
        rw [noLink] at held
        cases held
      · intro other held
        rw [found] at held
        cases held
        exact meets
    rw [only]
    by_cases goes : a.interfaceIndex = back.outboundInterfaceIndex ∧ forwardable cfg packet = true
    · obtain ⟨sent, rfl, target⟩ := sends goes
      refine ⟨fun both => ⟨goes.1, goes.2, ?_⟩, fun meets => ⟨?_, nofun⟩⟩
      · cases linked : n.links.get? packet.destinationHash with
        | none => rfl
        | some entry => exact absurd (both.1 entry linked _ target) (reverse_not_across found linked)
      · intro entry linked
        rw [meets.2.2] at linked
        cases linked
    · refine iff_of_false ?_ (fun meets => goes ⟨meets.1, meets.2.1⟩)
      intro both
      have idle : Handled.forwardsProof handled = false := by
        cases handled with
        | proofForwarded sent => exact absurd rfl (drops goes n.routing a.interfaceIndex sent.interfaceIndex)
        | _ => rfl
      rw [taken] at both
      exact BoundedMap.erase_ne_self (provenReverse_spec found).1 (both.2 idle).2

theorem cacheOnArrival_eq (cfg : NodeConfig) (n : Node) (raw : Bytes) (packet : Packet) :
    ∃ cache prev, n.cacheOnArrival cfg raw packet = { n with packetCache := cache, packetCachePrev := prev } := by
  unfold cacheOnArrival addPacketHash
  dsimp only
  split_ifs <;> exact ⟨_, _, rfl⟩

theorem filterAndDispatch_proof_duplicate {cfg : NodeConfig} {n : Node} {a : Arrival} {raw : Bytes} {packet : Packet}
    (proof : packet.flags.packetType = .proof) (duplicate : n.passesFilter cfg a raw packet = false) :
    n.filterAndDispatch cfg a raw packet = (.dropped .duplicate, n) := by
  unfold filterAndDispatch
  dsimp only
  rw [if_pos (by simpa [passesFilter] using duplicate)]
  split
  · simp [Routing.dropRouteProvenCircular, proof]
  · rfl

theorem disciplined_iff {cfg : NodeConfig} {n : Node} {a : Arrival} {raw : Bytes} {packet : Packet}
    (arrived : parseArrival cfg n.routing a = .ok (raw, packet))
    (kind : packet.flags.packetType = .data ∨ packet.flags.packetType = .proof) :
    Disciplined cfg n a packet ↔ (n.passesFilter cfg a raw packet = true → Orderly cfg n a packet) := by
  have processed : n.processIncoming cfg a = n.filterAndDispatch cfg a raw packet := by rw [processIncoming, arrived]
  cases filter : n.passesFilter cfg a raw packet with
  | false =>
    refine iff_of_true ⟨?_, ?_⟩ Bool.noConfusion
    · intro entry found iface transmitted
      rw [processed, (filterAndDispatch_of_duplicate filter).1] at transmitted
      exact transmitted.elim
    · intro proof idle
      rw [processed, filterAndDispatch_proof_duplicate proof filter]
      exact ⟨rfl, rfl⟩
  | true =>
    rw [filterAndDispatch_of_passes filter] at processed
    obtain ⟨cache, prev, cached⟩ := cacheOnArrival_eq cfg n raw packet
    rw [cached] at processed
    rcases kind with data | proof
    · have handled : n.processIncoming cfg a = handleData cfg { n with packetCache := cache, packetCachePrev := prev } a
          (cfg.packetHash raw) packet := by
        rw [processed, dispatch, data]
      have same : Orderly cfg n a packet ↔ OrderlyData cfg { n with packetCache := cache, packetCachePrev := prev } a
          packet := by
        unfold Orderly
        rw [data]
        exact ⟨fun o => ⟨o.medium, o.broadcast⟩, fun o => ⟨o.medium, o.broadcast⟩⟩
      rw [same, ← handleData_stays_iff cfg _ a (cfg.packetHash raw) packet, ← handled]
      refine ⟨fun d _ => d.stays, fun stays => ⟨stays rfl, ?_⟩⟩
      intro proof
      rw [data] at proof
      cases proof
    · have handled : n.processIncoming cfg a = handleProof cfg { n with packetCache := cache, packetCachePrev := prev } a
          (cfg.packetHash raw) packet := by
        rw [processed, dispatch, proof]
      have same : Orderly cfg n a packet ↔ OrderlyProof cfg { n with packetCache := cache, packetCachePrev := prev } a
          packet := by
        unfold Orderly
        rw [proof]
        exact ⟨fun o => ⟨o.ceiling, o.outbound⟩, fun o => ⟨o.ceiling, o.outbound⟩⟩
      rw [same, ← proofEffect_iff (handleProof_effect cfg _ a (cfg.packetHash raw) packet), ← handled]
      exact ⟨fun d _ => ⟨d.stays, d.frame proof⟩, fun both => ⟨(both rfl).1, fun _ => (both rfl).2⟩⟩

/-! ### Strays before the genuine proof -/

/-- Nothing but this packet is remembered anew. -/
def Learns (n n' : Node) (hash : FixedBytes 32) : Prop :=
  ∀ h, n'.hasPacketHash h = true → n.hasPacketHash h = true ∨ h = hash

theorem learns_addPacketHash (cfg : NodeConfig) (n : Node) (hash : FixedBytes 32) :
    Learns n (n.addPacketHash cfg hash) hash := by
  intro h held
  unfold addPacketHash hasPacketHash at *
  dsimp only at held
  split_ifs at held <;> simp at held ⊢ <;> tauto

theorem Learns.of_same {n n' : Node} (cache : n'.packetCache = n.packetCache)
    (prev : n'.packetCachePrev = n.packetCachePrev) (hash : FixedBytes 32) : Learns n n' hash := by
  intro h held
  rw [hasPacketHash, cache, prev] at held
  exact .inl held

theorem Learns.trans_same {n n' n'' : Node} {hash : FixedBytes 32} (cache : n'.packetCache = n.packetCache)
    (prev : n'.packetCachePrev = n.packetCachePrev) (learns : Learns n' n'' hash) : Learns n n'' hash := by
  intro h held
  rcases learns h held with old | new
  · rw [hasPacketHash, cache, prev] at old
    exact .inl old
  · exact .inr new

theorem learns_handleLinkProof (cfg : NodeConfig) (n : Node) (a : Arrival) (hash : FixedBytes 32) (packet : Packet)
    (entry : LinkEntry) : Learns n (n.handleLinkProof cfg a hash packet entry).2 hash := by
  unfold handleLinkProof
  split
  · exact .of_same rfl rfl hash
  · split_ifs
    · exact .of_same rfl rfl hash
    · dsimp only
      split <;> exact .of_same rfl rfl hash
    · dsimp only
      split <;> exact .trans_same rfl rfl (learns_addPacketHash cfg _ hash)

theorem handleReverseProof_cache (cfg : NodeConfig) (n : Node) (a : Arrival) (packet : Packet) :
    (n.handleReverseProof cfg a packet).2.packetCache = n.packetCache ∧
      (n.handleReverseProof cfg a packet).2.packetCachePrev = n.packetCachePrev := by
  unfold handleReverseProof
  split
  · exact ⟨rfl, rfl⟩
  · split_ifs
    · split <;> exact ⟨rfl, rfl⟩
    · exact ⟨rfl, rfl⟩
    · exact ⟨rfl, rfl⟩

theorem learns_handleProof (cfg : NodeConfig) (n : Node) (a : Arrival) (hash : FixedBytes 32) (packet : Packet) :
    Learns n (n.handleProof cfg a hash packet).2 hash := by
  unfold handleProof
  split
  · exact .of_same rfl rfl hash
  split
  · exact learns_addPacketHash cfg n hash
  dsimp only
  split
  · exact learns_handleLinkProof cfg n a hash packet _
  have back : (if packet.context = .lrproof then (none, n) else handleReverseProof cfg n a packet).2.packetCache =
        n.packetCache ∧
      (if packet.context = .lrproof then (none, n) else handleReverseProof cfg n a packet).2.packetCachePrev =
        n.packetCachePrev := by
    split
    · exact ⟨rfl, rfl⟩
    · exact handleReverseProof_cache cfg n a packet
  split
  · exact .of_same back.1 back.2 hash
  · split
    · exact .trans_same back.1 back.2 (learns_addPacketHash cfg _ hash)
    · exact .of_same back.1 back.2 hash

def proofTarget (cfg : NodeConfig) (n : Node) (a : Arrival) (packet : Packet) : Option Nat :=
  match n.provenLink cfg a packet, n.provenReverse cfg a packet with
  | some (_, direction), _ => if forwardable cfg (repeated packet direction) then some direction.targetIface else none
  | none, some back =>
    if a.interfaceIndex = back.outboundInterfaceIndex ∧ forwardable cfg packet then some back.receivingInterfaceIndex
    else none
  | none, none => none

theorem proofEffect_target {cfg : NodeConfig} {n : Node} {a : Arrival} {packet : Packet} {result : Handled × Node}
    (effect : ProofEffect cfg n a packet result) (iface : Nat) :
    (∃ sent, result.1 = .proofForwarded sent ∧ sent.interfaceIndex = iface) ↔
      n.proofTarget cfg a packet = some iface := by
  have silent : ∀ handled : Handled, (∀ r arrival iface, ¬ handled.transmittedOn r arrival iface) →
      ¬ ∃ sent, handled = .proofForwarded sent ∧ sent.interfaceIndex = iface := by
    rintro handled none' ⟨sent, rfl, -⟩
    exact none' n.routing a.interfaceIndex sent.interfaceIndex rfl
  cases effect with
  | idle handled n' noLink noReverse none' links routing =>
    simp only [proofTarget, noLink, noReverse]
    exact iff_of_false (silent handled none') nofun
  | link entry direction handled n' found noReverse links reverse routing sends drops =>
    simp only [proofTarget, found]
    cases fits : forwardable cfg (repeated packet direction) with
    | true =>
      obtain ⟨sent, rfl, target⟩ := sends fits
      simp [target]
    | false =>
      obtain ⟨reason, rfl⟩ := drops fits
      simp
  | reverse back handled n' noLink found links taken sends drops =>
    simp only [proofTarget, noLink, found]
    by_cases goes : a.interfaceIndex = back.outboundInterfaceIndex ∧ forwardable cfg packet = true
    · obtain ⟨sent, rfl, target⟩ := sends goes
      simp [goes, target]
    · rw [if_neg goes]
      exact iff_of_false (silent handled (drops goes)) nofun

/-- The arrival is an orderly proof that is not forwarded. -/
def Stray (cfg : NodeConfig) (n : Node) (a : Arrival) : Prop :=
  ∃ raw packet, parseArrival cfg n.routing a = .ok (raw, packet) ∧ packet.flags.packetType = .proof ∧
    Handled.forwardsProof (n.processIncoming cfg a).1 = false ∧
    (n.passesFilter cfg a raw packet = true → Orderly cfg n a packet)

/-- An orderly proof that is not forwarded is at most remembered. -/
theorem stray_remembers {cfg : NodeConfig} {n : Node} {a : Arrival} {raw : Bytes} {packet : Packet}
    (arrived : parseArrival cfg n.routing a = .ok (raw, packet)) (proof : packet.flags.packetType = .proof)
    (idle : Handled.forwardsProof (n.processIncoming cfg a).1 = false)
    (orderly : n.passesFilter cfg a raw packet = true → Orderly cfg n a packet) :
    (n.processIncoming cfg a).2.links = n.links ∧ (n.processIncoming cfg a).2.routing = n.routing ∧
      Learns n (n.processIncoming cfg a).2 (cfg.packetHash raw) := by
  have processed : n.processIncoming cfg a = n.filterAndDispatch cfg a raw packet := by rw [processIncoming, arrived]
  cases filter : n.passesFilter cfg a raw packet with
  | false =>
    rw [processed, filterAndDispatch_proof_duplicate proof filter]
    exact ⟨rfl, rfl, .of_same rfl rfl _⟩
  | true =>
    rw [filterAndDispatch_of_passes filter, dispatch, proof] at processed
    dsimp only at processed
    have meets : OrderlyProof cfg n a packet := by
      have all := orderly filter
      rw [Orderly, proof] at all
      exact all
    have cached : Learns n (n.cacheOnArrival cfg raw packet) (cfg.packetHash raw) := by
      unfold cacheOnArrival
      split
      · exact .of_same rfl rfl _
      · exact learns_addPacketHash cfg n _
    have learns : Learns n (n.processIncoming cfg a).2 (cfg.packetHash raw) := by
      rw [processed]
      intro h held
      rcases learns_handleProof cfg _ a _ packet h held with old | new
      · exact cached h old
      · exact .inr new
    obtain ⟨cache, prev, same⟩ := cacheOnArrival_eq cfg n raw packet
    rw [same] at processed
    have effect := handleProof_effect cfg { n with packetCache := cache, packetCachePrev := prev } a
      (cfg.packetHash raw) packet
    rw [← processed] at effect
    generalize n.processIncoming cfg a = result at effect idle learns
    cases effect with
    | idle handled n' noLink noReverse silent links routing => exact ⟨links, routing, learns⟩
    | link entry direction handled n' found noReverse links reverse routing sends drops =>
      obtain ⟨linked, directed⟩ := provenLink_spec found
      cases fits : forwardable cfg (repeated packet direction) with
      | true =>
        obtain ⟨sent, rfl, -⟩ := sends fits
        cases idle
      | false =>
        have still := (meets.ceiling entry direction found).resolve_left (by simp [fits])
        have entries := (provenEntry_eq_iff directed).1.mpr still
        refine ⟨?_, routing ((provenEntry_eq_iff directed).2 still.1), learns⟩
        exact links.trans ((BoundedMap.modify_eq_self_iff linked _).mpr entries)
    | reverse back handled n' noLink found links taken sends drops =>
      obtain ⟨outbound, fits, -⟩ := meets.outbound back found
      obtain ⟨sent, rfl, -⟩ := sends ⟨outbound, fits⟩
      cases idle

def afterAll (cfg : NodeConfig) (n : Node) (arrivals : List Arrival) : Node :=
  arrivals.foldl (fun n a => (n.processIncoming cfg a).2) n

theorem strays_remember {cfg : NodeConfig} (strays : List Arrival) {n : Node}
    (stray : ∀ done a rest, strays = done ++ a :: rest → Stray cfg (n.afterAll cfg done) a) :
    (n.afterAll cfg strays).links = n.links ∧ (n.afterAll cfg strays).routing = n.routing ∧
      ∀ h, (n.afterAll cfg strays).hasPacketHash h = true → n.hasPacketHash h = true ∨
        ∃ a ∈ strays, ∃ raw packet, parseArrival cfg n.routing a = .ok (raw, packet) ∧ h = cfg.packetHash raw := by
  induction strays generalizing n with
  | nil => exact ⟨rfl, rfl, fun _ held => .inl held⟩
  | cons a strays ih =>
    have first : Stray cfg n a := stray [] a strays rfl
    obtain ⟨raw, packet, arrived, proof, idle, orderly⟩ := first
    obtain ⟨links, routing, learns⟩ := stray_remembers arrived proof idle orderly
    have later := ih (n := (n.processIncoming cfg a).2)
      (fun done next rest split => stray (a :: done) next rest (by rw [split]; rfl))
    obtain ⟨links', routing', learns'⟩ := later
    refine ⟨links'.trans links, routing'.trans routing, ?_⟩
    intro h held
    rcases learns' h held with old | ⟨other, member, raw', packet', arrived', same⟩
    · rcases learns h old with before | new
      · exact .inl before
      · exact .inr ⟨a, List.mem_cons_self, raw, packet, arrived, new⟩
    · rw [routing] at arrived'
      exact .inr ⟨other, List.mem_cons_of_mem a member, raw', packet', arrived', same⟩

theorem processIncoming_target {cfg : NodeConfig} {n : Node} {a : Arrival} {raw : Bytes} {packet : Packet}
    (arrived : parseArrival cfg n.routing a = .ok (raw, packet)) (proof : packet.flags.packetType = .proof)
    (iface : Nat) :
    (∃ sent, (n.processIncoming cfg a).1 = .proofForwarded sent ∧ sent.interfaceIndex = iface) ↔
      n.passesFilter cfg a raw packet = true ∧ n.proofTarget cfg a packet = some iface := by
  have processed : n.processIncoming cfg a = n.filterAndDispatch cfg a raw packet := by rw [processIncoming, arrived]
  cases filter : n.passesFilter cfg a raw packet with
  | false =>
    rw [processed, filterAndDispatch_proof_duplicate proof filter]
    simp
  | true =>
    rw [filterAndDispatch_of_passes filter, dispatch, proof] at processed
    obtain ⟨cache, prev, same⟩ := cacheOnArrival_eq cfg n raw packet
    rw [same] at processed
    dsimp only at processed
    rw [processed, proofEffect_target (handleProof_effect ..)]
    exact ⟨fun target => ⟨rfl, target⟩, fun both => both.2⟩

/-- Link traffic keeps to its link, and a proof that is not forwarded leaves the tables as they are, exactly for the
packets that are orderly; and after any number of orderly strays another proof is still forwarded where it would
have been. -/
theorem link_traffic_orderly_iff (cfg : NodeConfig) (n : Node) :
    (∀ a raw packet, parseArrival cfg n.routing a = .ok (raw, packet) →
      packet.flags.packetType = .data ∨ packet.flags.packetType = .proof →
      (Disciplined cfg n a packet ↔ (n.passesFilter cfg a raw packet = true → Orderly cfg n a packet))) ∧
    ∀ strays : List Arrival, (∀ done a rest, strays = done ++ a :: rest → Stray cfg (n.afterAll cfg done) a) →
      ∀ genuine raw packet iface, parseArrival cfg n.routing genuine = .ok (raw, packet) →
        packet.flags.packetType = .proof →
        (∀ a ∈ strays, ∀ raw' packet', parseArrival cfg n.routing a = .ok (raw', packet') →
          cfg.packetHash raw' ≠ cfg.packetHash raw) →
        (∃ sent, (n.processIncoming cfg genuine).1 = .proofForwarded sent ∧ sent.interfaceIndex = iface) →
        ∃ sent, ((n.afterAll cfg strays).processIncoming cfg genuine).1 = .proofForwarded sent ∧
          sent.interfaceIndex = iface := by
  refine ⟨fun a raw packet arrived kind => disciplined_iff arrived kind, ?_⟩
  intro strays stray genuine raw packet iface arrived proof apart forwarded
  obtain ⟨links, routing, learns⟩ := strays_remember strays stray
  obtain ⟨passed, target⟩ := (processIncoming_target arrived proof iface).mp forwarded
  generalize n.afterAll cfg strays = n' at links routing learns
  obtain ⟨routing', links', cache, prev⟩ := n'
  obtain rfl : routing' = n.routing := routing
  obtain rfl : links' = n.links := links
  refine (processIncoming_target (n := ⟨n.routing, n.links, cache, prev⟩) arrived proof iface).mpr ⟨?_, target⟩
  rw [passesFilter, Bool.or_eq_true] at passed ⊢
  refine passed.imp id ?_
  intro unseen
  rw [Bool.not_eq_true'] at unseen ⊢
  rw [← Bool.not_eq_true]
  intro seen
  rcases learns _ seen with old | ⟨a, member, raw', packet', arrived', same⟩
  · rw [unseen] at old
    cases old
  · exact apart a member raw' packet' arrived' same.symm

/-! ### A relay between interface 1 and interface 2 -/

open RelayedLink (relayConfig relayRouting packetOf wire hash16)

/-- A packet came in on interface 1 and went out on interface 2; a link has both its legs on interface 2. -/
def waiting : Node where
  routing := { relayRouting with reverse := (BoundedMap.withCapacity 8).insert (hash16 9) ⟨0, 1, 2, hash16 0⟩ }
  links := (BoundedMap.withCapacity 8).insert (hash16 4) ⟨0, 2, 1, 2, 1, true, 0, hash16 3, none, none, none⟩
  packetCache := []
  packetCachePrev := []

def proofArrival (dest : TruncatedHash) (content : UInt8) (iface : Nat) : Arrival :=
  ⟨iface, none, wire (packetOf .proof .single .none dest (List.replicate 8 content)), 5, true, true⟩

/-- The same proof with its hop counted. -/
def proofHeard (dest : TruncatedHash) (content : UInt8) : Packet :=
  { packetOf .proof .single .none dest (List.replicate 8 content) with hops := 1 }

def linkDataArrival (iface : Nat) : Arrival :=
  ⟨iface, none, wire (packetOf .data .link .none (hash16 4) [1, 2, 3]), 5, true, true⟩

/-- A proof of another packet goes by before the genuine one, which is still routed back. -/
theorem genuine_proof_after_stray :
    ∃ sent, ((waiting.afterAll relayConfig [proofArrival (hash16 8) 7 3]).processIncoming relayConfig
      (proofArrival (hash16 9) 6 2)).1 = .proofForwarded sent ∧ sent.interfaceIndex = 1 := by
  have stray : parseArrival relayConfig waiting.routing (proofArrival (hash16 8) 7 3) =
      .ok (wire (packetOf .proof .single .none (hash16 8) (List.replicate 8 7)), proofHeard (hash16 8) 7) := by
    decide
  have genuine : parseArrival relayConfig waiting.routing (proofArrival (hash16 9) 6 2) =
      .ok (wire (packetOf .proof .single .none (hash16 9) (List.replicate 8 6)), proofHeard (hash16 9) 6) := by
    decide
  have noLink : waiting.provenLink relayConfig (proofArrival (hash16 8) 7 3) (proofHeard (hash16 8) 7) = none := by
    decide
  have noReverse : waiting.provenReverse relayConfig (proofArrival (hash16 8) 7 3) (proofHeard (hash16 8) 7) = none := by
    decide
  refine (link_traffic_orderly_iff relayConfig waiting).2 [proofArrival (hash16 8) 7 3] ?_
    (proofArrival (hash16 9) 6 2) _ _ 1 genuine rfl ?_ ⟨_, rfl, by decide⟩
  · intro done a rest split
    rcases done with _ | ⟨_, done⟩
    · cases split
      refine ⟨_, _, stray, rfl, by decide, fun _ => ?_⟩
      show OrderlyProof ..
      refine ⟨?_, ?_⟩
      · intro entry direction found
        cases noLink.symm.trans found
      · intro entry found
        cases noReverse.symm.trans found
    · simp at split
  · intro a member raw' packet' arrived
    rw [List.mem_singleton] at member
    rw [member, stray] at arrived
    cases arrived
    decide

/-- A stray proof of the packet takes its reverse entry along, and the genuine proof is not routed back; and data for
the link is taken from interface 1, which the link does not run over. -/
theorem stray_takes_reverse_entry :
    Handled.forwardsProof (waiting.processIncoming relayConfig (proofArrival (hash16 9) 6 2)).1 = true ∧
      Handled.forwardsProof (waiting.processIncoming relayConfig (proofArrival (hash16 9) 7 3)).1 = false ∧
      (waiting.routing.reverse.get? (hash16 9)).isSome = true ∧
      ((waiting.processIncoming relayConfig (proofArrival (hash16 9) 7 3)).2.routing.reverse.get? (hash16 9)) = none ∧
      Handled.forwardsProof ((waiting.processIncoming relayConfig (proofArrival (hash16 9) 7 3)).2.processIncoming
        relayConfig (proofArrival (hash16 9) 6 2)).1 = false ∧
      ((waiting.links.get? (hash16 4)).map fun e => (e.nextHopInterfaceIndex, e.receivedInterfaceIndex)) = some (2, 2) ∧
      (waiting.processIncoming relayConfig (linkDataArrival 1)).1 =
        .linkForwarded ⟨2, wire { packetOf .data .link .none (hash16 4) [1, 2, 3] with hops := 1 }, none⟩ := by
  decide

end Node

end Leviculum.Transport
