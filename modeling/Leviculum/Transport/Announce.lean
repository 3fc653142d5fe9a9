import Leviculum.Transport.Tables

/-! What a node does with an announce of one destination, `handle_announce_inner`
from the hop gate on. The state is everything the function reads and writes under
that destination's hash. -/

namespace Leviculum.Transport

inductive PathChoice where
  | hops
  | hopsAndLoss
  deriving DecidableEq, Repr

inductive SameEmissionRule where
  | fewerHopsWins
  | strictlyNewerOnly
  | fewerHopsOnOtherInterface
  deriving DecidableEq, Repr

/-- `SAME_EMISSION_RULE`. -/
def sameEmissionRule : SameEmissionRule := .fewerHopsWins

structure SameEmissionCopy where
  hops : Nat
  interfaceIndex : Nat

def acceptSameEmission (rule : SameEmissionRule) (existing incoming : SameEmissionCopy) : Bool :=
  match rule with
  | .strictlyNewerOnly => false
  | .fewerHopsWins => incoming.hops < existing.hops
  | .fewerHopsOnOtherInterface =>
    incoming.hops < existing.hops && incoming.interfaceIndex != existing.interfaceIndex

structure RouteCost where
  hops : Nat
  directEvidence : Option (Nat × Nat)

def u32Max : Nat := 2 ^ 32 - 1

def routeCostRational (c : RouteCost) : Nat × Nat :=
  match c.directEvidence with
  | some (heard, known) =>
    if heard > 0 then (min (known * known) u32Max, min (heard * heard) u32Max) else (u32Max, 1)
  | none => (c.hops, 1)

def lowerRouteCost (incoming existing : RouteCost) : Bool :=
  let (nIn, dIn) := routeCostRational incoming
  let (nEx, dEx) := routeCostRational existing
  nIn * dEx < nEx * dIn

def directEvidenceWindow : Nat := 16
def directEvidenceMinKnown : Nat := 4

/-- How often the direct link carried an emission known from any copy; the window
is a bitmap, newest emission first. -/
structure DirectLinkEvidence where
  lastEmission : Nat
  window : List Bool
  filled : Nat
  pendingDirect : Bool
  deriving DecidableEq

namespace DirectLinkEvidence

def new (emission : Nat) (direct : Bool) : DirectLinkEvidence := ⟨emission, [], 0, direct⟩

def note (e : DirectLinkEvidence) (emission : Nat) (direct : Bool) : DirectLinkEvidence :=
  if emission > e.lastEmission then
    { lastEmission := emission
      window := (e.pendingDirect :: e.window).take directEvidenceWindow
      filled := if e.filled < directEvidenceWindow then e.filled + 1 else e.filled
      pendingDirect := direct }
  else if emission = e.lastEmission then { e with pendingDirect := e.pendingDirect || direct }
  else e

def ratio (e : DirectLinkEvidence) : Option (Nat × Nat) :=
  let known := e.filled + 1
  if known < directEvidenceMinKnown then none
  else some (e.window.count true + e.pendingDirect.toNat, known)

end DirectLinkEvidence

/-- The next hop that routed an emission of the destination back through this node. -/
structure LoopRefusal where
  nextHop : TruncatedHash
  randomBlob : RandomHash
  expiresMs : Nat
  deriving DecidableEq

structure AnnounceConfig where
  maxHops : Nat := pathfinderMaxHops
  maxRandomBlobs : Nat := Transport.maxRandomBlobs
  announceRateLimitMs : Nat := Transport.announceRateLimitMs
  pathChoice : PathChoice := .hops
  enableTransport : Bool := true
  /-- `path_expiry_ms_for_interface`. -/
  pathExpiryMs : Nat → Nat
  isLocalClient : Nat → Bool
  interfaceTransit : Nat → Bool
  /-- `effective_announce_rate`: target, grace and penalty, where one is set. -/
  effectiveAnnounceRate : Nat → Option (Nat × Nat × Nat)
  /-- `announce_wait_ms` at its jitter ceiling. -/
  announceWaitMs : Bytes → Nat → Nat

/-- A validly signed announce of the destination as the handler sees it. -/
structure Announce where
  randomHash : RandomHash
  hops : Nat
  interfaceIndex : Nat
  transportId : Option TruncatedHash
  ingressPeer : Option TruncatedHash
  isPathResponse : Bool
  raw : Bytes
  nowMs : Nat
  /-- It passed the blackhole, own-destination and ingress gates. -/
  admitted : Bool := true

def Announce.emitted (a : Announce) : Nat := emissionFromRandomHash a.randomHash

/-- The rows kept under one destination hash. -/
structure Route where
  path : Option PathEntry := none
  pathState : Option PathState := none
  announce : Option AnnounceEntry := none
  rate : Option AnnounceRateEntry := none
  evidence : Option DirectLinkEvidence := none
  loopRefusals : List LoopRefusal := []
  pendingLocalPathRequest : Bool := false
  localClientKnownDest : Bool := false
  cachedAnnounceEmission : Option Nat := none

/-- Which branch of the acceptance rule let an announce in. -/
inductive AcceptReason where
  | newerEmission
  | sameEmissionFewerHops
  | sameEmissionLowerCost
  | expiredPath
  | newerEmissionWorseHops
  | unresponsiveSameEmission
  | sameEmissionLowerCostWorseHops
  | newDestination
  deriving DecidableEq, Repr

/-- The branches the reference implementation has too. -/
def AcceptReason.referenceAccepts : AcceptReason → Bool
  | .newerEmission | .newerEmissionWorseHops | .expiredPath | .unresponsiveSameEmission
  | .newDestination => true
  | _ => false

inductive AnnounceOutcome where
  | notAdmitted
  | overMaxHops
  | replay
  | provenLoop
  | staleOwnEcho
  | rateLimited
  | recorded
  | installed (reason : AcceptReason)
  deriving DecidableEq, Repr

namespace Route

def pathIsUnresponsive (r : Route) : Bool := r.pathState = some .unresponsive

def sameEmissionCostSwap (cfg : AnnounceConfig) (r : Route) (existing : PathEntry)
    (incomingHops : Nat) (incomingDirect : Bool) : Bool :=
  if cfg.pathChoice ≠ .hopsAndLoss then false
  else
    let evidence := r.evidence.bind DirectLinkEvidence.ratio
    let candidate (hops : Nat) (direct : Bool) : RouteCost :=
      ⟨hops, if direct ∧ hops = 1 then evidence else none⟩
    lowerRouteCost (candidate incomingHops incomingDirect)
      (candidate existing.hops existing.nextHop.isNone)

def fewerHops (path : PathEntry) (a : Announce) : Bool :=
  acceptSameEmission sameEmissionRule ⟨path.hops, path.interfaceIndex⟩ ⟨a.hops, a.interfaceIndex⟩

/-- The replay gate: a blob already seen, unless a later arm could still take it. -/
def isReplay (cfg : AnnounceConfig) (r : Route) (a : Announce) : Bool :=
  match r.path with
  | none => false
  | some path =>
    let sameEmissionMayWin :=
      match cfg.pathChoice with
      | .hops => fewerHops path a
      | .hopsAndLoss =>
        a.hops < path.hops || r.sameEmissionCostSwap cfg path a.hops a.transportId.isNone
    path.randomBlobs.contains a.randomHash && !r.pathIsUnresponsive && !sameEmissionMayWin

/-- A different emission ends the refusal, so it is dropped on the way. -/
def refusesProvenLoop (r : Route) (a : Announce) : Bool × Route :=
  let kept := r.loopRefusals.filter fun l => l.expiresMs > a.nowMs ∧ l.randomBlob = a.randomHash
  (kept.any fun l => a.transportId = some l.nextHop, { r with loopRefusals := kept })

def noteDirectLinkEvidence (cfg : AnnounceConfig) (r : Route) (a : Announce) : Route :=
  if a.isPathResponse ∨ cfg.isLocalClient a.interfaceIndex ∨ cfg.pathChoice ≠ .hopsAndLoss then r
  else
    { r with
      evidence := some (match r.evidence with
        | some e => e.note a.emitted a.transportId.isNone
        | none => .new a.emitted a.transportId.isNone) }

/-- Hearing a neighbour's rebroadcast can cancel our own pending one. -/
def countRebroadcast (entry : AnnounceEntry) (hops : Nat) : AnnounceEntry :=
  if hops = saturatingAddU8 entry.hops 1 then
    let heard := saturatingAddU8 entry.localRebroadcasts 1
    { entry with
      localRebroadcasts := heard
      retransmitAtMs :=
        if entry.retries > 0 ∧ heard ≥ localRebroadcastsMax then none else entry.retransmitAtMs }
  else if hops = saturatingAddU8 entry.hops 2 ∧ entry.retries > 0 ∧ entry.retransmitAtMs.isSome then
    { entry with retransmitAtMs := none }
  else entry

def rateWindow (cfg : AnnounceConfig) (r : Route) (a : Announce) : Bool × Route :=
  match r.announce with
  | none => (false, r)
  | some entry =>
    if a.nowMs - entry.timestampMs < cfg.announceRateLimitMs then
      (!cfg.isLocalClient a.interfaceIndex,
        { r with announce := some (countRebroadcast entry a.hops) })
    else (false, r)

def acceptOver (cfg : AnnounceConfig) (r : Route) (existing : PathEntry) (a : Announce) :
    Option AcceptReason :=
  let timebase := maxEmissionFromBlobs existing.randomBlobs
  let swap := r.sameEmissionCostSwap cfg existing a.hops a.transportId.isNone
  if a.hops ≤ existing.hops then
    let (wins, reason) := match cfg.pathChoice with
      | .hops => (fewerHops existing a, AcceptReason.sameEmissionFewerHops)
      | .hopsAndLoss => (swap, .sameEmissionLowerCost)
    if a.emitted > timebase then some .newerEmission
    else if a.emitted = timebase ∧ wins then some reason
    else none
  else if a.nowMs ≥ existing.expiresMs then some .expiredPath
  else if a.emitted > timebase then some .newerEmissionWorseHops
  else if a.emitted = timebase ∧ r.pathIsUnresponsive then some .unresponsiveSameEmission
  else if a.emitted = timebase ∧ swap then some .sameEmissionLowerCostWorseHops
  else none

/-- News about a local client's destination that is older than what the client said. -/
def staleOwnEcho (cfg : AnnounceConfig) (r : Route) (a : Announce) : Bool :=
  !cfg.isLocalClient a.interfaceIndex && r.localClientKnownDest &&
    r.cachedAnnounceEmission.any (fun cached => cached ≥ a.emitted)

def acceptReason (cfg : AnnounceConfig) (r : Route) (a : Announce) : Option AcceptReason :=
  match r.path with
  | some existing => r.acceptOver cfg existing a
  | none => some .newDestination

/-- Every accepted branch but path recovery resets the path's state. -/
def markAccepted (r : Route) (reason : AcceptReason) : Route :=
  if reason = .unresponsiveSameEmission ∨ r.path.isNone then r
  else { r with pathState := some .unknown }

def checkAnnounceRate (cfg : AnnounceConfig) (r : Route) (a : Announce) : Bool × Route :=
  match cfg.effectiveAnnounceRate a.interfaceIndex with
  | none => (false, r)
  | some (target, grace, penaltyMs) =>
    match r.rate with
    | none => (false, { r with rate := some ⟨a.nowMs, 0, 0⟩ })
    | some entry =>
      if a.nowMs ≤ entry.blockedUntilMs then (true, r)
      else
        let violations :=
          if a.nowMs - entry.lastMs < target then saturatingAddU8 entry.rateViolations 1
          else entry.rateViolations - 1
        if violations > grace then
          let blockedUntilMs := entry.lastMs + target + penaltyMs
          (true, { r with rate := some ⟨entry.lastMs, violations, blockedUntilMs⟩ })
        else (false, { r with rate := some ⟨a.nowMs, violations, entry.blockedUntilMs⟩ })

def installPath (cfg : AnnounceConfig) (r : Route) (a : Announce) : Route :=
  { r with
    path := some {
      hops := a.hops
      expiresMs := a.nowMs + cfg.pathExpiryMs a.interfaceIndex
      interfaceIndex := a.interfaceIndex
      randomBlobs := PathEntry.appendedRandomBlobs
        ((r.path.map PathEntry.randomBlobs).getD []) a.randomHash cfg.maxRandomBlobs
      nextHop := a.transportId
      viaPeer := a.ingressPeer } }

def scheduleAnnounce (cfg : AnnounceConfig) (r : Route) (a : Announce) (rateLimited : Bool) :
    Route :=
  let fromLocal := cfg.isLocalClient a.interfaceIndex
  let (rateBlocked, r) := if a.isPathResponse then (false, r) else r.checkAnnounceRate cfg a
  let shouldRebroadcast := (cfg.enableTransport || fromLocal) && !a.isPathResponse &&
    !rateBlocked && !rateLimited && cfg.interfaceTransit a.interfaceIndex
  let forwardsPendingResponse := a.isPathResponse && fromLocal && r.pendingLocalPathRequest
  let r := if a.isPathResponse && fromLocal then { r with pendingLocalPathRequest := false } else r
  let r :=
    if (!rateBlocked && !rateLimited && !a.isPathResponse) || forwardsPendingResponse then
      { r with
        announce := some {
          timestampMs := a.nowMs
          hops := a.hops
          retries := if fromLocal || forwardsPendingResponse then pathfinderRetries else 0
          retransmitAtMs :=
            if forwardsPendingResponse || (shouldRebroadcast && fromLocal) then some a.nowMs
            else if shouldRebroadcast then some (a.nowMs + cfg.announceWaitMs a.raw 0)
            else none
          rawPacket := a.raw
          receivingInterfaceIndex := a.interfaceIndex
          targetInterface := none
          localRebroadcasts := 0
          blockRebroadcasts := false } }
    else r
  { r with cachedAnnounceEmission := some a.emitted }

/-- A refused announce still leaves its blob in the replay window. -/
def recordRandomBlob (cfg : AnnounceConfig) (r : Route) (a : Announce) : Route :=
  { r with
    path := r.path.map fun path =>
      let pushed := path.randomBlobs ++ [a.randomHash]
      { path with randomBlobs := pushed.drop (pushed.length - cfg.maxRandomBlobs) } }

def handleAnnounce (cfg : AnnounceConfig) (r : Route) (a : Announce) : AnnounceOutcome × Route :=
  if !a.admitted then (.notAdmitted, r)
  else if a.hops > cfg.maxHops then (.overMaxHops, r)
  else if r.isReplay cfg a then (.replay, r)
  else
    let (looped, r) := r.refusesProvenLoop a
    if looped then (.provenLoop, r)
    else
      let (recent, r) := (r.noteDirectLinkEvidence cfg a).rateWindow cfg a
      if r.path.isNone ∧ r.staleOwnEcho cfg a then (.staleOwnEcho, r)
      else
        let refresh (r : Route) : Route :=
          if cfg.isLocalClient a.interfaceIndex then { r with localClientKnownDest := true } else r
        match r.acceptReason cfg a with
        | none =>
          if recent then (.rateLimited, refresh r)
          else (.recorded, (refresh r).recordRandomBlob cfg a)
        | some reason =>
          (.installed reason,
            (((refresh (r.markAccepted reason)).installPath cfg a).scheduleAnnounce cfg a
              (recent && !reason.referenceAccepts)))

end Route

end Leviculum.Transport
