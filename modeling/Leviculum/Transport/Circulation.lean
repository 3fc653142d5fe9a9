import Leviculum.Transport.RelayedLink

/-! Many nodes with arbitrary tables on a medium that loses, repeats and reorders:
how often a node relays one data packet along its path table. -/

namespace Leviculum.Transport.Circulation
open Execution Node

/-- Bytes in the air, and the injected packet they are a copy of. -/
structure Flight where
  origin : Nat
  raw : Bytes

structure Mesh (ι : Type) where
  nodes : ι → Node
  injected : List Bytes
  air : List Flight
  /-- How often a node relayed a packet along its path table since it last found the
  packet's hash forgotten. -/
  relays : ι → Nat → Nat

inductive Event (ι : Type) where
  | inject (raw : Bytes)
  /-- Any node may hear any copy, on any interface and any number of times. -/
  | deliver (flight : Nat) (hearer : ι) (a : Arrival)
  | foreign (hearer : ι) (a : Arrival)
  | reroute (i : ι) (routing : Routing) (links : Table LinkEntry)
  | remember (i : ι) (hash : FixedBytes 32)

def isDataPacket (raw : Bytes) : Bool :=
  match Packet.unpack raw with
  | .ok packet => packet.flags.packetType = .data
  | .error _ => false

def sentBytes : Handled → List Bytes
  | .plainBroadcast raw => raw.toList
  | .requestForwarded sent => sent.map Sent.raw
  | .proofForwarded sent | .linkForwarded sent | .pathForwarded sent => [sent.raw]
  | _ => []

def isPathForward : Handled → Bool
  | .pathForwarded _ => true
  | _ => false

section

variable {ι : Type} [DecidableEq ι] (cfg : ι → NodeConfig)

/-- A node still remembers the packet. -/
def remembers (net : Mesh ι) (i : ι) (origin : Nat) : Bool :=
  (net.injected[origin]?).any fun raw => (net.nodes i).hasPacketHash ((cfg i).packetHash raw)

def setNode (net : Mesh ι) (i : ι) (n : Node) : Mesh ι :=
  { net with nodes := Function.update net.nodes i n }

def countRelays (net : Mesh ι) (flight : Flight) (hearer : ι) (handled : Handled) :
    ι → Nat → Nat :=
  fun i origin =>
    if i = hearer ∧ origin = flight.origin then
      (if remembers cfg net i origin then net.relays i origin else 0) +
        (if isPathForward handled then 1 else 0)
    else net.relays i origin

def step (net : Mesh ι) : Event ι → Option (Mesh ι)
  | .inject raw =>
    if isDataPacket raw then
      some { net with
        injected := net.injected ++ [raw]
        air := net.air ++ [⟨net.injected.length, raw⟩] }
    else none
  | .deliver flight hearer a =>
    match net.air[flight]? with
    | none => none
    | some copy =>
      if stripIfac (net.nodes hearer).routing a.interfaceIndex a.raw = some copy.raw then
        let (handled, n) := (net.nodes hearer).processIncoming (cfg hearer) a
        some { setNode net hearer n with
          air := net.air ++ (sentBytes handled).map (Flight.mk copy.origin)
          relays := countRelays cfg net copy hearer handled }
      else none
  | .foreign hearer a => some (setNode net hearer ((net.nodes hearer).processIncoming (cfg hearer) a).2)
  | .reroute i routing links => some (setNode net i { net.nodes i with routing, links })
  | .remember i hash => some (setNode net i ((net.nodes i).addPacketHash (cfg i) hash))

/-- Nothing injected yet; the nodes may know anything. -/
def start (nodes : ι → Node) : Mesh ι := ⟨nodes, [], [], fun _ _ => 0⟩

end

/-! Copies of a packet carry its hash. -/

theorem parseArrival_spec {cfg : NodeConfig} {r : Routing} {a : Arrival} {raw : Bytes}
    {packet : Packet} (arrived : parseArrival cfg r a = .ok (raw, packet)) :
    stripIfac r a.interfaceIndex a.raw = some raw ∧
      ∃ parsed hops, Packet.unpack raw = .ok parsed ∧ packet = { parsed with hops } := by
  unfold parseArrival at arrived
  split at arrived
  next => cases arrived
  next stripped found =>
    split at arrived
    next => cases arrived
    next parsed unpacked =>
      dsimp only at arrived
      split at arrived
      next => cases arrived
      next =>
        cases arrived
        exact ⟨found, parsed, _, unpacked, rfl⟩

theorem hashablePart_forwarded {cfg : NodeConfig} {target : Nat} {packet : Packet}
    {peer : Option TruncatedHash} {sent : Sent}
    (forwarded : forwardOnInterface cfg target packet peer = .ok sent) :
    Packet.hashablePart sent.raw = packet.hashable := by
  unfold forwardOnInterface at forwarded
  split at forwarded
  next => cases forwarded
  next =>
    split at forwarded
    next => cases forwarded
    next raw packed =>
      cases forwarded
      exact Packet.hashablePart_pack packed

theorem hashable_rewriteHeader (packet : Packet) (needsRelay : Bool)
    (nextHop : Option TruncatedHash) :
    (rewriteHeader packet needsRelay nextHop).hashable = packet.hashable := by
  unfold rewriteHeader
  split <;> exact Packet.hashable_rewrite packet packet.hops _ _ _

/-- Whatever a node sends on because of a data packet is a copy of it. -/
theorem hashablePart_sent (cfg : NodeConfig) (n : Node) (a : Arrival) (hash : FixedBytes 32)
    (packet : Packet) :
    ∀ raw ∈ sentBytes (n.handleData cfg a hash packet).1,
      Packet.hashablePart raw = packet.hashable := by
  have linkData : ∀ entry, ∀ raw ∈ sentBytes (n.handleLinkData cfg a hash packet entry).1,
      Packet.hashablePart raw = packet.hashable := by
    intro entry raw member
    unfold handleLinkData at member
    split at member
    · cases member
    · split at member
      · cases member
      · dsimp only at member
        split at member
        · cases member
        next sent forwarded =>
          obtain rfl := List.mem_singleton.mp member
          exact hashablePart_forwarded forwarded
  have pathData : ∀ raw ∈ sentBytes (n.forwardPacket cfg a hash packet).1,
      Packet.hashablePart raw = packet.hashable := by
    intro raw member
    unfold forwardPacket at member
    split at member
    · cases member
    · split at member
      · cases member
      · dsimp only at member
        split at member
        · cases member
        next path _ _ _ sent forwarded =>
          obtain rfl := List.mem_singleton.mp member
          exact (hashablePart_forwarded forwarded).trans (hashable_rewriteHeader packet _ _)
  have plain : ∀ raw ∈ (plainCopy cfg n.routing a packet).toList,
      Packet.hashablePart raw = packet.hashable := by
    intro raw member
    rw [Option.mem_toList] at member
    unfold plainCopy at member
    split at member
    · split at member
      · cases member
      · exact Packet.hashablePart_pack member
    · split at member
      · exact Packet.hashablePart_pack member
      · cases member
  intro raw member
  unfold handleData at member
  dsimp only at member
  split at member
  · cases member
  · split at member
    · split at member
      · exact plain raw member
      · exact plain raw member
    · split at member
      · cases member
      · split at member
        next entry _ => exact linkData entry raw member
        next =>
          split at member
          · split at member
            · exact pathData raw member
            · cases member
          · split at member
            · cases member
            · cases member

theorem handleData_pathForwarded {cfg : NodeConfig} {n : Node} {a : Arrival}
    {hash : FixedBytes 32} {packet : Packet}
    (forwards : isPathForward (n.handleData cfg a hash packet).1 = true) :
    n.routing.localDestinations.contains packet.destinationHash = false ∧
      n.links.get? packet.destinationHash = none ∧ packet.flags.destType ≠ .link ∧
      n.handleData cfg a hash packet = n.forwardPacket cfg a hash packet := by
  have notLink : ∀ entry, isPathForward (n.handleLinkData cfg a hash packet entry).1 = false := by
    intro entry
    unfold handleLinkData
    split
    · rfl
    · split
      · rfl
      · dsimp only
        split <;> rfl
  unfold handleData at forwards
  dsimp only at forwards
  split at forwards
  · cases forwards
  next uncontrolled =>
  split at forwards
  · split at forwards <;> cases forwards
  next addressed =>
  split at forwards
  · cases forwards
  next notLocal =>
  split at forwards
  next entry _ =>
    rw [notLink entry] at forwards
    cases forwards
  next unclaimed =>
  split at forwards
  next routed =>
    split at forwards
    next hop =>
      have direct : n.handleData cfg a hash packet = n.forwardPacket cfg a hash packet := by
        simp only [handleData, if_neg uncontrolled, if_neg addressed, if_neg notLocal, unclaimed,
          if_pos routed, if_pos hop]
      rw [if_pos routed.1] at unclaimed
      exact ⟨by simpa using notLocal, unclaimed, routed.2, direct⟩
    next => cases forwards
  next => split at forwards <;> cases forwards

theorem handleLinkRequest_not_pathForward (cfg : NodeConfig) (n : Node) (a : Arrival) (raw : Bytes)
    (packet : Packet) : isPathForward (n.handleLinkRequest cfg a raw packet).1 = false := by
  have forward : ∀ route, isPathForward (forwardRequest cfg n.routing a packet route) = false := by
    intro route
    unfold forwardRequest
    dsimp only
    split
    · rfl
    · split <;> rfl
  unfold handleLinkRequest
  split
  · rfl
  · split
    · rfl
    · split
      · rfl
      · split
        · rfl
        · split
          · rfl
          · exact forward _

theorem handleProof_not_pathForward (cfg : NodeConfig) (n : Node) (a : Arrival)
    (hash : FixedBytes 32) (packet : Packet) :
    isPathForward (n.handleProof cfg a hash packet).1 = false := by
  have link : ∀ entry, isPathForward (n.handleLinkProof cfg a hash packet entry).1 = false := by
    intro entry
    unfold handleLinkProof
    split
    · rfl
    · split
      · rfl
      · dsimp only
        split <;> rfl
  have back : ∀ handled, (n.handleReverseProof cfg a packet).1 = some handled → isPathForward handled = false := by
    unfold handleReverseProof
    split
    · exact nofun
    · split_ifs
      · split
        · rintro _ ⟨⟩
          rfl
        · rintro _ ⟨⟩
          rfl
      · exact nofun
      · exact nofun
  unfold handleProof
  split
  · rfl
  · split
    · rfl
    · dsimp only
      split
      · exact link _
      · split
        next handled taken =>
          split_ifs at taken
          exact back handled taken
        next => split <;> rfl

/-- A packet escapes the duplicate filter of the path table: its context is exempt, and it
is not addressed to a link. -/
def escapesFilter (packet : Packet) : Bool :=
  isDedupExemptContext packet.context && packet.flags.destType ≠ .link

theorem processIncoming_pathForwarded {cfg : NodeConfig} {n : Node} {a : Arrival}
    (forwards : isPathForward (n.processIncoming cfg a).1 = true) :
    ∃ raw packet, parseArrival cfg n.routing a = .ok (raw, packet) ∧
      (n.hasPacketHash (cfg.packetHash raw) = false ∨
        escapesFilter packet = true) := by
  unfold processIncoming at forwards
  split at forwards
  next => cases forwards
  next raw packet arrived =>
    refine ⟨raw, packet, arrived, ?_⟩
    cases filter : n.passesFilter cfg a raw packet with
    | false =>
      rw [(filterAndDispatch_of_duplicate filter).1] at forwards
      cases forwards
    | true =>
      rw [filterAndDispatch_of_passes filter] at forwards
      unfold dispatch at forwards
      split at forwards
      next => cases forwards
      next => simp [handleLinkRequest_not_pathForward] at forwards
      next => simp [handleProof_not_pathForward] at forwards
      next data =>
        obtain ⟨notLocal, unclaimed, notLink, -⟩ := handleData_pathForwarded forwards
        rw [cacheOnArrival_routing] at notLocal
        rw [cacheOnArrival_links] at unclaimed
        have elsewhere : packet.destinationHash ∉ n.routing.localDestinations := by
          simpa using notLocal
        have noEntry : n.links.contains packet.destinationHash = false := by
          simp [BoundedMap.contains, unclaimed]
        rw [passesFilter, Bool.or_eq_true, Bool.not_eq_true'] at filter
        rcases filter with exempt | fresh
        · right
          have context : isDedupExemptContext packet.context = true := by
            simpa [dedupExempt, data, noEntry, elsewhere] using exempt
          simp [escapesFilter, context, notLink]
        · exact .inl fresh

theorem hasPacketHash_addPacketHash (cfg : NodeConfig) (n : Node) (hash : FixedBytes 32) :
    (n.addPacketHash cfg hash).hasPacketHash hash = true := by
  simp only [hasPacketHash, addPacketHash]
  split_ifs with known full full
  · simp only [Bool.or_eq_true]
    exact .inr known
  · simp only [Bool.or_eq_true]
    exact .inl known
  · simp
  · simp

theorem forwardPacket_hasPacketHash (cfg : NodeConfig) (n : Node) (a : Arrival)
    (hash : FixedBytes 32) (packet : Packet) (known : FixedBytes 32) :
    (n.forwardPacket cfg a hash packet).2.hasPacketHash known = n.hasPacketHash known := by
  unfold forwardPacket
  split
  · rfl
  · split
    · rfl
    · dsimp only
      split <;> rfl

theorem pathForwarded_remembered {cfg : NodeConfig} {n : Node} {a : Arrival} {raw : Bytes}
    {packet : Packet} (arrived : parseArrival cfg n.routing a = .ok (raw, packet))
    (forwards : isPathForward (n.processIncoming cfg a).1 = true) :
    (n.processIncoming cfg a).2.hasPacketHash (cfg.packetHash raw) = true := by
  simp only [processIncoming, arrived] at forwards ⊢
  cases filter : n.passesFilter cfg a raw packet with
  | false =>
    rw [(filterAndDispatch_of_duplicate filter).1] at forwards
    cases forwards
  | true =>
    rw [filterAndDispatch_of_passes filter] at forwards ⊢
    unfold dispatch at forwards ⊢
    split at forwards
    next => cases forwards
    next => simp [handleLinkRequest_not_pathForward] at forwards
    next => simp [handleProof_not_pathForward] at forwards
    next data =>
      obtain ⟨-, unclaimed, -, direct⟩ := handleData_pathForwarded forwards
      rw [cacheOnArrival_links] at unclaimed
      have notDeferred : n.defersCacheInsert packet = false := by
        simp [defersCacheInsert, BoundedMap.contains, unclaimed, data]
      simp only [direct, forwardPacket_hasPacketHash]
      simp only [cacheOnArrival, notDeferred]
      exact hasPacketHash_addPacketHash cfg n (cfg.packetHash raw)

section

variable {ι : Type}

/-- The injected packet is one the duplicate filter lets through. -/
def ExemptOrigin (net : Mesh ι) (origin : Nat) : Prop :=
  ∃ raw packet, net.injected[origin]? = some raw ∧ Packet.unpack raw = .ok packet ∧
    escapesFilter packet = true

structure Inv (net : Mesh ι) : Prop where
  data : ∀ raw ∈ net.injected, isDataPacket raw = true
  copies : ∀ flight ∈ net.air, ∃ raw, net.injected[flight.origin]? = some raw ∧
    Packet.hashablePart flight.raw = Packet.hashablePart raw
  relays : ∀ i origin, net.relays i origin ≤ 1 ∨ ExemptOrigin net origin

theorem inv_start (nodes : ι → Node) : Inv (start nodes) where
  data := nofun
  copies := nofun
  relays := fun _ _ => .inl (Nat.zero_le 1)

theorem inv_inject {net : Mesh ι} (inv : Inv net) {raw : Bytes} (data : isDataPacket raw = true) :
    Inv { net with
      injected := net.injected ++ [raw]
      air := net.air ++ [⟨net.injected.length, raw⟩] } := by
  have kept : ∀ {origin : Nat} {old : Bytes}, net.injected[origin]? = some old →
      (net.injected ++ [raw])[origin]? = some old := by
    intro origin old found
    rw [List.getElem?_append_left (List.getElem?_eq_some_iff.mp found).1]
    exact found
  refine ⟨?_, ?_, ?_⟩
  · intro bytes member
    rcases List.mem_append.mp member with old | new
    · exact inv.data bytes old
    · exact List.mem_singleton.mp new ▸ data
  · intro flight member
    rcases List.mem_append.mp member with old | new
    · obtain ⟨bytes, found, same⟩ := inv.copies flight old
      exact ⟨bytes, kept found, same⟩
    · obtain rfl := List.mem_singleton.mp new
      exact ⟨raw, by simp, rfl⟩
  · intro i origin
    refine (inv.relays i origin).imp_right ?_
    rintro ⟨bytes, packet, found, parsed, exempt⟩
    exact ⟨bytes, packet, kept found, parsed, exempt⟩

theorem parse_copy {r : Routing} {a : Arrival} {raw copy injected : Bytes} {packet : Packet}
    {cfg : NodeConfig} (arrived : parseArrival cfg r a = .ok (raw, packet))
    (heard : stripIfac r a.interfaceIndex a.raw = some copy)
    (same : Packet.hashablePart copy = Packet.hashablePart injected)
    (data : isDataPacket injected = true) :
    raw = copy ∧ packet.hashable = Packet.hashablePart injected ∧
      packet.flags.packetType = .data ∧
      ∃ original, Packet.unpack injected = .ok original ∧
        escapesFilter original = escapesFilter packet := by
  obtain ⟨stripped, parsed, hops, unpacked, rfl⟩ := parseArrival_spec arrived
  obtain rfl : raw = copy := by rwa [heard, Option.some.injEq, eq_comm] at stripped
  unfold isDataPacket at data
  split at data
  next original found =>
    have hashes : parsed.hashable = original.hashable := by
      rw [← Packet.hashablePart_unpack unpacked, ← Packet.hashablePart_unpack found, same]
    obtain ⟨byte, dest, type⟩ := Packet.hashable_inj hashes
    refine ⟨rfl, ?_, type.trans (of_decide_eq_true data), original, found, ?_⟩
    · rw [← same, Packet.hashablePart_unpack unpacked]
      rfl
    · have context : original.context = parsed.context := by
        rw [Packet.unpack_context found, ← byte, ← Packet.unpack_context unpacked]
      simp only [escapesFilter, context, dest]
  next => cases data

theorem sent_copy {cfg : NodeConfig} {n : Node} {a : Arrival} {copy injected : Bytes}
    (heard : stripIfac n.routing a.interfaceIndex a.raw = some copy)
    (same : Packet.hashablePart copy = Packet.hashablePart injected)
    (data : isDataPacket injected = true) :
    ∀ raw ∈ sentBytes (n.processIncoming cfg a).1,
      Packet.hashablePart raw = Packet.hashablePart injected := by
  intro sent member
  unfold processIncoming at member
  split at member
  next => cases member
  next raw packet arrived =>
    obtain ⟨-, hash, type, -⟩ := parse_copy arrived heard same data
    cases filter : n.passesFilter cfg a raw packet with
    | false =>
      rw [(filterAndDispatch_of_duplicate filter).1] at member
      cases member
    | true =>
      rw [filterAndDispatch_of_passes filter] at member
      simp only [dispatch, type] at member
      exact (hashablePart_sent cfg _ a _ packet sent member).trans hash

variable [DecidableEq ι]

theorem step_inv (cfg : ι → NodeConfig) (net : Mesh ι) (event : Event ι) (net' : Mesh ι)
    (inv : Inv net) (stepped : step cfg net event = some net') : Inv net' := by
  cases event with
  | inject raw =>
    simp only [step] at stepped
    split at stepped
    next data =>
      obtain rfl := Option.some.inj stepped
      exact inv_inject inv data
    next => cases stepped
  | foreign hearer a =>
    obtain rfl := Option.some.inj stepped
    exact ⟨inv.data, inv.copies, inv.relays⟩
  | reroute i routing links =>
    obtain rfl := Option.some.inj stepped
    exact ⟨inv.data, inv.copies, inv.relays⟩
  | remember i hash =>
    obtain rfl := Option.some.inj stepped
    exact ⟨inv.data, inv.copies, inv.relays⟩
  | deliver flight hearer a =>
    simp only [step] at stepped
    split at stepped
    next => cases stepped
    next copy found =>
    split at stepped
    next heard =>
      obtain rfl := Option.some.inj stepped
      obtain ⟨injected, original, same⟩ := inv.copies copy (List.mem_of_getElem? found)
      have data := inv.data injected (List.mem_of_getElem? original)
      refine ⟨inv.data, ?_, ?_⟩
      · intro f member
        rcases List.mem_append.mp member with old | new
        · exact inv.copies f old
        · obtain ⟨raw, sent, rfl⟩ := List.mem_map.mp new
          exact ⟨injected, original, sent_copy heard same data raw sent⟩
      · intro i origin
        simp only [countRelays]
        split
        next here =>
          obtain ⟨rfl, rfl⟩ := here
          rcases inv.relays i copy.origin with few | exempt
          · by_cases forwards : isPathForward ((net.nodes i).processIncoming (cfg i) a).1 = true
            · obtain ⟨raw, packet, arrived, fresh | exempt⟩ := processIncoming_pathForwarded forwards
              · -- the hash was unknown, so the count starts anew
                left
                obtain ⟨rfl, -, -, -⟩ := parse_copy arrived heard same data
                have forgotten : remembers cfg net i copy.origin = false := by
                  simpa [remembers, original, NodeConfig.packetHash, same] using fresh
                simp [forgotten, forwards]
              · right
                obtain ⟨-, -, -, packet', parsed, escape⟩ := parse_copy arrived heard same data
                exact ⟨injected, packet', original, parsed, escape.trans exempt⟩
            · left
              simp only [forwards]
              split <;> simp [few]
          · exact .inr exempt
        next => exact inv.relays i origin
    next => cases stepped

/-- The step hands a copy of the packet to an interface along the path table. -/
def RelaysIn (cfg : ι → NodeConfig) (t : Mesh ι × Event ι × Mesh ι) (i : ι) (origin : Nat) : Prop :=
  ∃ flight copy a, t.2.1 = .deliver flight i a ∧ t.1.air[flight]? = some copy ∧
    copy.origin = origin ∧ isPathForward ((t.1.nodes i).processIncoming (cfg i) a).1 = true

theorem relaysIn_remembered {cfg : ι → NodeConfig} {t : Mesh ι × Event ι × Mesh ι} {i : ι}
    {origin : Nat} (inv : Inv t.1) (stepped : step cfg t.1 t.2.1 = some t.2.2)
    (relayed : RelaysIn cfg t i origin) : remembers cfg t.2.2 i origin = true := by
  obtain ⟨net, event, net'⟩ := t
  obtain ⟨flight, copy, a, rfl, found, rfl, forwards⟩ := relayed
  dsimp only at found forwards stepped inv ⊢
  obtain ⟨injected, original, same⟩ := inv.copies copy (List.mem_of_getElem? found)
  have data := inv.data injected (List.mem_of_getElem? original)
  simp only [step, found] at stepped
  split at stepped
  next heard =>
    obtain rfl := Option.some.inj stepped
    obtain ⟨raw, packet, arrived, -⟩ := processIncoming_pathForwarded forwards
    obtain ⟨rfl, -, -, -⟩ := parse_copy arrived heard same data
    have kept := pathForwarded_remembered arrived forwards
    simp only [remembers, setNode, original, Option.any_some, Function.update_self,
      NodeConfig.packetHash, ← same]
    exact kept
  next => cases stepped

/-- A data packet that does not escape the filter goes along the path table of each node
at most once while the node remembers its hash, which it does from the relaying on. -/
theorem relays_le_one (cfg : ι → NodeConfig) (nodes : ι → Node) (events : List (Event ι))
    (net : Mesh ι) (run : exec (step cfg) (start nodes) events = some net) (i : ι) (origin : Nat)
    (raw : Bytes) (packet : Packet) (injected : net.injected[origin]? = some raw)
    (parsed : Packet.unpack raw = .ok packet)
    (filtered : escapesFilter packet = false) :
    net.relays i origin ≤ 1 ∧
      ∀ t ∈ transitions (step cfg) (start nodes) events,
        RelaysIn cfg t i origin → remembers cfg t.2.2 i origin = true := by
  have inv := exec_invariant (step_inv cfg) (inv_start nodes) run
  refine ⟨?_, fun t member relayed => relaysIn_remembered
    (invariant_of_mem_transitions (step_inv cfg) (inv_start nodes) member)
    (step_of_mem_transitions member) relayed⟩
  rcases inv.relays i origin with few | ⟨raw', packet', found, parsed', exempt⟩
  · exact few
  · rw [injected, Option.some.injEq] at found
    subst found
    rw [parsed, Except.ok.injEq] at parsed'
    rw [← parsed', filtered] at exempt
    cases exempt

end

/-! Two relays that route one destination to each other. -/

open RelayedLink (hash16 packetOf relayConfig relayRouting wire)

def circularConfig (second : Bool) : NodeConfig :=
  { relayConfig with identityHash := if second then hash16 2 else hash16 1 }

def circularNode (second : Bool) : Node where
  routing := { relayRouting with
    paths := (BoundedMap.withCapacity 8).insert (hash16 3)
      ⟨2, 1000000, 0, [], some (if second then hash16 1 else hash16 2), none⟩ }
  links := BoundedMap.withCapacity 8
  packetCache := []
  packetCachePrev := []

/-- A data packet of the destination after `hops` hops, on its way to one of the relays. -/
def circling (context : PacketContext) (hops : UInt8) (second : Bool) : Bytes :=
  wire (rewriteHeader { packetOf .data .single context (hash16 3) [1, 2, 3] with hops } true
    (some (circularConfig second).identityHash))

/-- The packet goes to the first relay, from there to the second and back. -/
def roundTrip (context : PacketContext) : List (Event Bool) :=
  [.inject (circling context 0 false),
    .deliver 0 false ⟨0, none, circling context 0 false, 1, true, true⟩,
    .deliver 1 true ⟨0, none, circling context 1 true, 2, true, true⟩,
    .deliver 2 false ⟨0, none, circling context 2 false, 3, true, true⟩]

theorem relays_le_one_circular :
    ∃ net, exec (step circularConfig) (start circularNode) (roundTrip .none) = some net ∧
      net.air.length = 3 ∧ net.relays false 0 ≤ 1 := by
  have ran : (exec (step circularConfig) (start circularNode) (roundTrip .none)).any
      (fun net => net.air.length == 3 && net.injected[0]? == some (circling .none 0 false)) =
        true := by
    decide
  obtain ⟨net, run, counted⟩ := (Option.any_eq_true _ _).mp ran
  rw [Bool.and_eq_true, beq_iff_eq, beq_iff_eq] at counted
  have parses : ((Packet.unpack (circling .none 0 false)).toOption.any
      fun packet => !escapesFilter packet) = true := by
    decide
  refine ⟨net, run, counted.1, ?_⟩
  cases parsed : Packet.unpack (circling .none 0 false) with
  | error _ =>
    rw [parsed] at parses
    cases parses
  | ok packet =>
    rw [parsed] at parses
    simp only [Except.toOption, Option.any_some, Bool.not_eq_true'] at parses
    exact (relays_le_one circularConfig circularNode (roundTrip .none) net run false 0
      (circling .none 0 false) packet counted.2 parsed parses).1

/-- A packet with the channel context is relayed again on its way round. -/
theorem exempt_packet_relayed_twice :
    ∃ net, exec (step circularConfig) (start circularNode) (roundTrip .channel) = some net ∧
      remembers circularConfig net false 0 = true ∧ net.relays false 0 = 2 := by
  have twice : (exec (step circularConfig) (start circularNode) (roundTrip .channel)).any
      (fun net => remembers circularConfig net false 0 && net.relays false 0 == 2) = true := by
    decide
  obtain ⟨net, run, counted⟩ := (Option.any_eq_true _ _).mp twice
  rw [Bool.and_eq_true, beq_iff_eq] at counted
  exact ⟨net, run, counted⟩

end Leviculum.Transport.Circulation
