import Leviculum.Transport.DiscoveryStep

/-! In every run a window carries only its own records, is retried in time, and answers each interface
that asked once. -/

namespace Leviculum.Transport.Discovery

/-! ### Answers -/

theorem requesterIfaces_spec (s : Discovery) (dest : TruncatedHash) (owner : Nat) :
    (s.requesterIfaces dest owner).Nodup ∧
      ∀ iface, iface ∈ s.requesterIfaces dest owner ↔ iface = owner ∨ iface ∈ s.extraRequesters dest := by
  have loop : ∀ extra ifaces : List Nat, ifaces.Nodup →
      (extra.foldl (fun ifaces iface => if iface ∈ ifaces then ifaces else ifaces ++ [iface]) ifaces).Nodup ∧
        ∀ iface, iface ∈ extra.foldl (fun ifaces iface => if iface ∈ ifaces then ifaces else ifaces ++ [iface]) ifaces ↔
          iface ∈ ifaces ∨ iface ∈ extra := by
    intro extra
    induction extra with
    | nil => exact fun ifaces distinct => ⟨distinct, fun iface => by simp⟩
    | cons first rest ih =>
      intro ifaces distinct
      rw [List.foldl_cons]
      split
      next known =>
        refine ⟨(ih ifaces distinct).1, fun iface => ?_⟩
        rw [(ih ifaces distinct).2, List.mem_cons]
        constructor
        · exact fun or => or.imp_right .inr
        · rintro (there | rfl | later)
          · exact .inl there
          · exact .inl known
          · exact .inr later
      next new =>
        have appended : (ifaces ++ [first]).Nodup := by
          rw [← List.concat_eq_append]
          exact distinct.concat new
        refine ⟨(ih _ appended).1, fun iface => ?_⟩
        rw [(ih _ appended).2, List.mem_append, List.mem_singleton, List.mem_cons, or_assoc]
  obtain ⟨distinct, members⟩ := loop (s.extraRequesters dest) [owner] (List.nodup_singleton _)
  exact ⟨distinct, fun iface => by rw [requesterIfaces, members, List.mem_singleton]⟩

theorem responsesTo_map (dest : TruncatedHash) (iface : Nat) (packet : Packet) (ifaces : List Nat) :
    responsesTo dest iface (ifaces.map fun i => .pathResponse dest i packet) = ifaces.count iface := by
  rw [responsesTo, List.countP_map, List.count]
  refine List.countP_congr fun i _ => ?_
  simp

theorem responsesTo_answer {cfg : NodeConfig} {s : Discovery} {nowMs : Nat} {update : PathUpdate} {owner endsMs : Nat}
    {parsed : Packet} (found : s.requests.get? update.dest = some (owner, endsMs)) (pending : nowMs < endsMs)
    (read : Packet.unpack update.raw = .ok parsed) (iface : Nat) :
    responsesTo update.dest iface (s.sendDiscoveryPathResponse cfg nowMs update).2 =
      if (iface = owner ∨ iface ∈ s.extraRequesters update.dest) ∧
        (update.localDestination || !update.dutyHold iface) = true then 1 else 0 := by
  obtain ⟨distinct, members⟩ := s.requesterIfaces_spec update.dest owner
  unfold sendDiscoveryPathResponse
  rw [found]
  dsimp only
  rw [if_neg (Nat.not_le.mpr pending), read]
  dsimp only
  rw [responsesTo_map, (distinct.filter _).count]
  simp only [List.mem_filter, members]

/-! ### Runs -/

theorem handlePathRequest_opened {cfg : NodeConfig} {dest : TruncatedHash} {s : Discovery} {r : PathRequest}
    (fits : s.requests.Fits) (positive : 0 < s.requests.capacity) (absent : s.requests.get? dest = none)
    (present : (s.handlePathRequest cfg r).1.requests.contains dest = true) :
    dest = r.dest ∧ r.asks cfg = true ∧ s.opens cfg r = true ∧
      (s.handlePathRequest cfg r).1.extraRequesters = s.extraRequesters ∧
      (s.handlePathRequest cfg r).1.requestPeers dest =
        if s.active cfg r then r.ingressPeer else s.requestPeers dest := by
  have absent_ := BoundedMap.contains_eq_false.mpr absent
  by_cases own : dest = r.dest
  · subst own
    rcases handlePathRequest_cases cfg s r with ⟨stays, -⟩ | ⟨-, -, pending, -⟩ | ⟨asks, isActive, -, stays⟩ |
      ⟨asks, idle, again, opens_, -, stays⟩
    · rw [stays, absent_] at present
      cases present
    · rw [pending] at absent_
      cases absent_
    · rw [stays, isActive, if_pos rfl]
      exact ⟨rfl, asks, by simp [opens, absent_, isActive], rfl, Function.update_self ..⟩
    · rw [stays, idle, if_neg Bool.false_ne_true, reoriginateTowardPeerLinks, if_pos again]
      exact ⟨rfl, asks, opens_, rfl, rfl⟩
  · have gone : (s.handlePathRequest cfg r).1.requests.get? dest = none := by
      rcases (handlePathRequest_aside cfg fits positive own).row with same | none_
      · exact same.trans absent
      · exact none_
    rw [BoundedMap.contains_eq_false.mpr gone] at present
    cases present

section Orderly

variable {cfg : NodeConfig} {dest : TruncatedHash} {s : Discovery} {h : History} {e : Event}

theorem Coupled.opensBare (now : Coupled cfg dest (s, h)) (ok : sound cfg dest (s, h) e = true)
    (later : Coupled cfg dest (advance cfg dest (s, h) e)) (absent : s.requests.contains dest = false)
    (present : (s.handle cfg e).1.requests.contains dest = true) :
    ∃ w, windowAfter cfg dest s h e = some w ∧ (s.handle cfg e).1.extraRequesters dest = [] ∧
      (s.handle cfg e).1.peerLinkReoriginations dest = w.overPeerLinks ∧
      (s.handle cfg e).1.requestPeers dest = w.peer := by
  obtain ⟨⟨owner, endsMs⟩, found⟩ := Option.isSome_iff_exists.mp present
  obtain ⟨w, window, matches_⟩ := later.opened owner endsMs found
  have first := window
  unfold advance windowAfter at first
  dsimp only at first
  rw [if_pos present, absent, if_neg Bool.false_ne_true] at first
  refine ⟨w, window, ?_⟩
  split at first
  next r =>
    cases first
    have absent_ := BoundedMap.contains_eq_false.mp absent
    obtain ⟨rfl, asks, opens_, extra, peer⟩ := handlePathRequest_opened (s := { s with nowMs := r.nowMs }) now.fits
      now.positive absent_ present
    have bare := now.closed absent_ ((sound_request ok asks).2 absent opens_)
    refine ⟨(congrFun extra r.dest).trans bare.1, matches_.marker, peer.trans ?_⟩
    show (if s.active cfg r then _ else s.requestPeers r.dest) = if s.active cfg r then _ else none
    rw [show s.requestPeers r.dest = none from bare.2.2]
  next => cases first

theorem Coupled.retriesInTime (now : Coupled cfg dest (s, h)) {nowMs : Nat} (clock : s.nowMs ≤ nowMs)
    (limited : Nat → List Nat) {w : Window} {owner endsMs : Nat} (window : h.window = some w)
    (discovering : w.discovering = true) (found : s.requests.get? dest = some (owner, endsMs)) (pending : nowMs < endsMs) :
    retriesOf dest (s.handle cfg (.retry nowMs limited)).2 ≤ 1 ∧
      (w.retriedMs.getD w.openedMs + discoveryRetryIntervalMs ≤ nowMs →
        retriesOf dest (s.handle cfg (.retry nowMs limited)).2 = 1) ∧
      (retriesOf dest (s.handle cfg (.retry nowMs limited)).2 = 1 →
        ∀ last, w.retriedMs = some last → last + discoveryRetryIntervalMs ≤ nowMs) := by
  obtain ⟨w', here, matches_⟩ := now.opened owner endsMs found
  obtain rfl : w = w' := Option.some.inj (window.symm.trans here)
  have cadence := matches_.cadence discovering
  have marker : s.peerLinkReoriginations dest = false := matches_.marker.trans cadence.2
  have counted : retriesOf dest (s.handle cfg (.retry nowMs limited)).2 =
      if s.retryDue nowMs ∧ s.peerLinkReoriginations dest = false ∧ nowMs < endsMs ∧ s.discovers owner then 1 else 0 :=
    retriesOf_pass (s := { s with nowMs }) nowMs limited found
  have recent : s.lastRetryMs ≤ w.retriedMs.getD w.openedMs :=
    matches_.recent discovering (Nat.lt_of_le_of_lt clock pending)
  rw [counted]
  refine ⟨by split <;> decide, ?_, ?_⟩
  · intro elapsed
    have due : s.retryDue nowMs = true :=
      decide_eq_true (Nat.le_trans (Nat.add_le_add_right recent discoveryRetryIntervalMs) elapsed)
    exact if_pos ⟨due, marker, pending, cadence.1⟩
  · intro once last lastRetried
    split at once
    next both =>
      have due : s.lastRetryMs + discoveryRetryIntervalMs ≤ nowMs := of_decide_eq_true both.1
      exact Nat.le_trans (Nat.add_le_add_right (matches_.retried last lastRetried) _) due
    next => cases once

theorem Coupled.answersEach (now : Coupled cfg dest (s, h)) {nowMs : Nat} {update : PathUpdate}
    (read : (Packet.unpack update.raw).toOption.isSome) (here : update.dest = dest) {w : Window} {owner endsMs : Nat}
    (window : h.window = some w) (found : s.requests.get? dest = some (owner, endsMs)) (pending : nowMs < endsMs)
    (iface : Nat) :
    responsesTo dest iface (s.handle cfg (.announce nowMs update)).2 =
      if iface ∈ w.askers ∧ (update.localDestination || !update.dutyHold iface) then 1 else 0 := by
  obtain ⟨w', same, matches_⟩ := now.opened owner endsMs found
  obtain rfl : w = w' := Option.some.inj (window.symm.trans same)
  subst here
  have answers : s.handle cfg (.announce nowMs update) =
      { s with nowMs }.sendDiscoveryPathResponse cfg nowMs update := if_pos matches_.transport
  cases parsed : Packet.unpack update.raw with
  | error reason =>
    rw [parsed] at read
    cases read
  | ok packet =>
    rw [answers, responsesTo_answer (s := { s with nowMs }) found pending parsed]
    simp only [matches_.askers]

theorem Coupled.orderly {before after : Discovery × History} (now : Coupled cfg dest before)
    (ok : sound cfg dest before e = true) (stepped : watch cfg dest before e = some after) :
    Orderly cfg dest before e after := by
  have later := now.step ok stepped
  unfold watch at stepped
  split at stepped
  next enabled_ =>
    cases stepped
    refine ⟨now.opensBare ok later, ?_, ?_, ?_⟩
    · intro present
      obtain ⟨⟨owner, endsMs⟩, found⟩ := Option.isSome_iff_exists.mp present
      obtain ⟨w, window, matches_⟩ := later.opened owner endsMs found
      refine ⟨w, window, fun iface extra => (matches_.askers iface).mpr (.inr extra), ?_, ?_⟩
      · exact fun marked => matches_.marker.symm.trans marked
      · intro peer recorded
        rcases matches_.peer with none_ | same
        · rw [none_] at recorded
          cases recorded
        · exact same.symm.trans recorded
    · rintro nowMs limited w owner endsMs rfl window discovering found pending
      exact now.retriesInTime (of_decide_eq_true enabled_) limited window discovering found pending
    · rintro nowMs update w owner endsMs rfl here window found pending iface
      exact now.answersEach (Bool.and_eq_true_iff.mp enabled_).2 here window found pending iface
  next => cases stepped

end Orderly

open Execution in
/-- In every run in which a window is opened only after the records of a lapsed one were pruned, the
requests within a window are taken up and no window is handed on to an interface that does not
discover: a window carries only the records of its own, it is retried once in an interval, and its
answer goes once to each interface that asked. -/
theorem window_carries_own_records (cfg : NodeConfig) (dest : TruncatedHash) (capacity : Nat) (events : List Event)
    (along : Along (watch cfg dest) (fun at_ e => sound cfg dest at_ e = true) (start capacity) events) :
    ∀ t ∈ transitions (watch cfg dest) (start capacity) events, Orderly cfg dest t.1 t.2.1 t.2.2 := by
  intro t member
  have now : Coupled cfg dest t.1 := invariant_along_of_mem_transitions
    (fun _ _ _ coupled ok stepped => coupled.step ok stepped) (coupled_start cfg dest capacity) along member
  exact now.orderly (along_of_mem_transitions along member) (step_of_mem_transitions member)

/-! A transport node with two gateway interfaces, asked for one destination. -/

def gatewayConfig : NodeConfig where
  identityHash := FixedBytes.replicate 16 1
  enableTransport := true
  maxHops := 128
  lrproofRewriteOnAsymmetry := false
  packetHashCap := 8
  pathRequestHash := FixedBytes.replicate 16 2
  tunnelSynthesizeHash := FixedBytes.replicate 16 3
  fullHash := fun _ => (FixedBytes.replicate 32 0)
  validKey := fun _ => true
  verify := fun _ _ _ => true
  routingUpdate := fun routing _ _ => routing

def wanted : TruncatedHash := FixedBytes.replicate 16 7

def askedOn (iface nowMs : Nat) : PathRequest where
  dest := wanted
  iface := iface
  nowMs := nowMs
  requestor := none
  ingressPeer := none
  seenTag := false
  burstLimited := false
  localDestination := false
  path := none
  pathState := none
  cachedAnnounce := none
  localClients := []
  interfaceNames := [1, 2]
  interfaceOnline := fun _ => true
  peerCount := fun _ => 0
  egressLimited := []

/-- Both interfaces ask within one window, it is retried, and its answer comes. -/
def answeredRun : List Event :=
  [.interfaceUp 1 .gateway, .interfaceUp 2 .gateway, .request (askedOn 1 1), .request (askedOn 2 2),
    .retry 5000 fun _ => [],
    .announce 6000 ⟨wanted, 1, [1, 0] ++ List.replicate 16 7 ++ [0, 0], false, fun _ => false⟩]

open Execution in
theorem answered_window_carries_own_records :
    Along (watch gatewayConfig wanted) (fun at_ e => sound gatewayConfig wanted at_ e = true) (start 8) answeredRun ∧
      (transitions (watch gatewayConfig wanted) (start 8) answeredRun).length = 6 ∧
      ∀ t ∈ transitions (watch gatewayConfig wanted) (start 8) answeredRun,
        Orderly gatewayConfig wanted t.1 t.2.1 t.2.2 := by
  have along : Along (watch gatewayConfig wanted) (fun at_ e => sound gatewayConfig wanted at_ e = true) (start 8)
      answeredRun := by decide
  exact ⟨along, by decide, window_carries_own_records gatewayConfig wanted 8 answeredRun along⟩

/-- Both interfaces ask, the window is retried, and it ends between two retry passes. -/
def lapsingRun : List Event :=
  [.interfaceUp 1 .gateway, .interfaceUp 2 .gateway, .request (askedOn 1 1), .request (askedOn 2 2),
    .retry 30000 fun _ => [], .poll 31000, .retry 31000 fun _ => []]

def lapsedState : Discovery × History := lapsingRun.foldl (advance gatewayConfig wanted) (start 8)

open Execution in
/-- Interface 2 asked for the window before. -/
theorem stale_requester_joins_next_window :
    ¬∀ (cfg : NodeConfig) (dest : TruncatedHash) (capacity : Nat) (events : List Event),
      ∀ t ∈ transitions (watch cfg dest) (start capacity) events, Orderly cfg dest t.1 t.2.1 t.2.2 := by
  intro all
  have orderly := all gatewayConfig wanted 8 (lapsingRun ++ [.request (askedOn 1 32000)])
    (lapsedState, .request (askedOn 1 32000), advance gatewayConfig wanted lapsedState (.request (askedOn 1 32000)))
    (.tail _ (.tail _ (.tail _ (.tail _ (.tail _ (.tail _ (.tail _ (.head _))))))))
  obtain ⟨w, -, extra, -⟩ := orderly.opened (by decide) (by decide)
  have joined : (advance gatewayConfig wanted lapsedState (.request (askedOn 1 32000))).1.extraRequesters wanted = [2] := by
    decide
  rw [joined] at extra
  cases extra

end Leviculum.Transport.Discovery
