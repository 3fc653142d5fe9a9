import Leviculum.Transport.Poll

/-! The announce table and the held entries as one destination sees them. An entry bears the number under which it
came into the table, and keeps it while it waits, is held and put back. -/

namespace Leviculum.Transport

def rawEmission (raw : Bytes) : Nat :=
  match Packet.unpack raw with
  | .ok packet => announceEmitted packet
  | .error _ => 0

namespace Route

/-- `announce_table_took_it`, for an announce that was accepted. -/
def announceTableTookIt (cfg : AnnounceConfig) (r : Route) (a : Announce) (rateLimited : Bool) : Bool :=
  let rateBlocked := if a.isPathResponse then false else (r.checkAnnounceRate cfg a).1
  (!rateBlocked && !rateLimited && !a.isPathResponse) ||
    (a.isPathResponse && cfg.isLocalClient a.interfaceIndex && r.pendingLocalPathRequest)

/-- The announce gets an entry of its own. -/
def takes (cfg : AnnounceConfig) (r : Route) (a : Announce) : Bool :=
  match (r.handleAnnounce cfg a).1 with
  | .installed reason => r.announceTableTookIt cfg a ((r.rateWindow cfg a).1 && !reason.referenceAccepts)
  | _ => false

inductive RowEffect (cfg : AnnounceConfig) (r : Route) (a : Announce) : Option AnnounceEntry → Prop
  | kept (not : r.takes cfg a = false) : RowEffect cfg r a r.announce
  | counted (not : r.takes cfg a = false) (entry : AnnounceEntry) (had : r.announce = some entry) :
      RowEffect cfg r a (some (countRebroadcast entry a.hops))
  | taken (takes : r.takes cfg a = true) (entry : AnnounceEntry)
      (retries : entry.retries = if cfg.isLocalClient a.interfaceIndex then pathfinderRetries else 0)
      (raw : entry.rawPacket = a.raw) (untargeted : entry.targetInterface = none) : RowEffect cfg r a (some entry)

theorem rateWindow_effect (cfg : AnnounceConfig) (r : Route) (a : Announce) :
    (r.rateWindow cfg a).2.announce = r.announce ∨
      ∃ entry, r.announce = some entry ∧ (r.rateWindow cfg a).2.announce = some (countRebroadcast entry a.hops) := by
  unfold rateWindow
  cases row : r.announce with
  | none => exact .inl row
  | some entry =>
    dsimp only
    split
    · exact .inr ⟨entry, rfl, rfl⟩
    · exact .inl row

theorem checkAnnounceRate_frame (cfg : AnnounceConfig) (r : Route) (a : Announce) :
    (r.checkAnnounceRate cfg a).2.announce = r.announce ∧
      (r.checkAnnounceRate cfg a).2.pendingLocalPathRequest = r.pendingLocalPathRequest := by
  unfold checkAnnounceRate
  split
  · exact ⟨rfl, rfl⟩
  · split
    · exact ⟨rfl, rfl⟩
    · dsimp only
      split_ifs <;> exact ⟨rfl, rfl⟩

theorem scheduleAnnounce_effect (cfg : AnnounceConfig) (r : Route) (a : Announce) (rateLimited : Bool) :
    (r.announceTableTookIt cfg a rateLimited = false ∧ (r.scheduleAnnounce cfg a rateLimited).announce = r.announce) ∨
      (r.announceTableTookIt cfg a rateLimited = true ∧
        ∃ entry, (r.scheduleAnnounce cfg a rateLimited).announce = some entry ∧
          entry.retries = (if cfg.isLocalClient a.interfaceIndex then pathfinderRetries else 0) ∧
          entry.rawPacket = a.raw ∧ entry.targetInterface = none) := by
  have rated : ∃ blocked r', (if a.isPathResponse then (false, r) else r.checkAnnounceRate cfg a) = (blocked, r') ∧
      blocked = (if a.isPathResponse then false else (r.checkAnnounceRate cfg a).1) ∧ r'.announce = r.announce ∧
      r'.pendingLocalPathRequest = r.pendingLocalPathRequest := by
    split
    · exact ⟨false, r, rfl, rfl, rfl, rfl⟩
    · obtain ⟨row, pending⟩ := checkAnnounceRate_frame cfg r a
      exact ⟨_, _, rfl, rfl, row, pending⟩
  obtain ⟨blocked, r', shape, isBlocked, row, pending⟩ := rated
  unfold scheduleAnnounce announceTableTookIt
  rw [shape, ← isBlocked, ← pending]
  dsimp only
  have cleared : ∀ flag : Bool, (if flag then { r' with pendingLocalPathRequest := false } else r').announce = r.announce := by
    intro flag
    cases flag <;> exact row
  by_cases took : ((!blocked && !rateLimited && !a.isPathResponse) ||
      (a.isPathResponse && cfg.isLocalClient a.interfaceIndex && r'.pendingLocalPathRequest)) = true
  · rw [if_pos took]
    refine .inr ⟨took, _, rfl, ?_, rfl, rfl⟩
    cases cfg.isLocalClient a.interfaceIndex <;> simp
  · rw [if_neg took]
    exact .inl ⟨Bool.eq_false_iff.mpr took, cleared _⟩

theorem announceTableTookIt_congr {cfg : AnnounceConfig} {r r' : Route} {a : Announce} (rate : r'.rate = r.rate)
    (pending : r'.pendingLocalPathRequest = r.pendingLocalPathRequest) (rateLimited : Bool) :
    r'.announceTableTookIt cfg a rateLimited = r.announceTableTookIt cfg a rateLimited := by
  have same : (r'.checkAnnounceRate cfg a).1 = (r.checkAnnounceRate cfg a).1 := by
    unfold checkAnnounceRate
    rw [rate]
    split
    · rfl
    · split
      · rfl
      · dsimp only
        split_ifs <;> rfl
  unfold announceTableTookIt
  rw [same, pending]

theorem noteDirectLinkEvidence_frame (cfg : AnnounceConfig) (r : Route) (a : Announce) :
    (r.noteDirectLinkEvidence cfg a).announce = r.announce ∧ (r.noteDirectLinkEvidence cfg a).rate = r.rate ∧
      (r.noteDirectLinkEvidence cfg a).pendingLocalPathRequest = r.pendingLocalPathRequest := by
  unfold noteDirectLinkEvidence
  split_ifs <;> exact ⟨rfl, rfl, rfl⟩

theorem rateWindow_frame (cfg : AnnounceConfig) (r : Route) (a : Announce) :
    (r.rateWindow cfg a).2.rate = r.rate ∧
      (r.rateWindow cfg a).2.pendingLocalPathRequest = r.pendingLocalPathRequest := by
  unfold rateWindow
  split
  · exact ⟨rfl, rfl⟩
  · split_ifs <;> exact ⟨rfl, rfl⟩

theorem rateWindow_congr {cfg : AnnounceConfig} {r r' : Route} {a : Announce} (row : r'.announce = r.announce) :
    (r'.rateWindow cfg a).1 = (r.rateWindow cfg a).1 := by
  unfold rateWindow
  rw [row]
  split
  · rfl
  · split_ifs <;> rfl

theorem handleAnnounce_row (cfg : AnnounceConfig) (r : Route) (a : Announce) :
    RowEffect cfg r a (r.handleAnnounce cfg a).2.announce := by
  have tookNot : (∀ reason, (r.handleAnnounce cfg a).1 ≠ .installed reason) → r.takes cfg a = false := by
    intro none'
    unfold takes
    split
    next reason outcome => exact absurd outcome (none' reason)
    next => rfl
  -- the row after the rate window
  let noted := (r.refusesProvenLoop a).2.noteDirectLinkEvidence cfg a
  have notedRow : noted.announce = r.announce := (noteDirectLinkEvidence_frame cfg _ a).1
  have window := rateWindow_effect cfg noted a
  rw [notedRow] at window
  have uncounted : ∀ row, row = (noted.rateWindow cfg a).2.announce → r.takes cfg a = false → RowEffect cfg r a row := by
    rintro row rfl not
    rcases window with same | ⟨entry, had, counted⟩
    · rw [same]
      exact .kept not
    · rw [counted]
      exact .counted not entry had
  have refreshed : ∀ r : Route,
      (if cfg.isLocalClient a.interfaceIndex then { r with localClientKnownDest := true } else r).announce = r.announce ∧
      (if cfg.isLocalClient a.interfaceIndex then { r with localClientKnownDest := true } else r).rate = r.rate ∧
      (if cfg.isLocalClient a.interfaceIndex then { r with localClientKnownDest := true } else r).pendingLocalPathRequest =
        r.pendingLocalPathRequest := by
    intro r
    split_ifs <;> exact ⟨rfl, rfl, rfl⟩
  have marked : ∀ (r : Route) reason, (r.markAccepted reason).announce = r.announce ∧
      (r.markAccepted reason).rate = r.rate ∧
      (r.markAccepted reason).pendingLocalPathRequest = r.pendingLocalPathRequest := by
    intro r reason
    unfold markAccepted
    split_ifs <;> exact ⟨rfl, rfl, rfl⟩
  generalize whole : r.handleAnnounce cfg a = result at tookNot ⊢
  have outcome := whole
  unfold handleAnnounce at outcome
  split at outcome
  next =>
    subst outcome
    exact .kept (tookNot nofun)
  next =>
  split at outcome
  next =>
    subst outcome
    exact .kept (tookNot nofun)
  next =>
  split at outcome
  next =>
    subst outcome
    exact .kept (tookNot nofun)
  next =>
  dsimp only at outcome
  split at outcome
  next =>
    subst outcome
    exact .kept (tookNot nofun)
  next =>
  split at outcome
  next =>
    subst outcome
    exact uncounted _ rfl (tookNot nofun)
  next =>
  split at outcome
  next =>
    split at outcome
    next =>
      subst outcome
      exact uncounted _ (refreshed _).1 (tookNot nofun)
    next =>
      subst outcome
      exact uncounted _ (refreshed _).1 (tookNot nofun)
  next reason accepted =>
    rw [rateWindow_congr notedRow] at outcome
    have took : r.takes cfg a =
        r.announceTableTookIt cfg a ((r.rateWindow cfg a).1 && !reason.referenceAccepts) := by
      unfold takes
      rw [whole, ← outcome]
    let last := (noted.rateWindow cfg a).2
    let ready := (if cfg.isLocalClient a.interfaceIndex then
      { last.markAccepted reason with localClientKnownDest := true } else last.markAccepted reason).installPath cfg a
    have row : ready.announce = last.announce := (refreshed _).1.trans (marked last reason).1
    have rate : ready.rate = r.rate := by
      rw [show ready.rate = last.rate from (refreshed _).2.1.trans (marked last reason).2.1,
        (rateWindow_frame cfg noted a).1]
      exact (noteDirectLinkEvidence_frame cfg _ a).2.1
    have pending : ready.pendingLocalPathRequest = r.pendingLocalPathRequest := by
      rw [show ready.pendingLocalPathRequest = last.pendingLocalPathRequest from
        (refreshed _).2.2.trans (marked last reason).2.2, (rateWindow_frame cfg noted a).2]
      exact (noteDirectLinkEvidence_frame cfg _ a).2.2
    have effect := scheduleAnnounce_effect cfg ready a ((r.rateWindow cfg a).1 && !reason.referenceAccepts)
    rw [announceTableTookIt_congr rate pending, ← took] at effect
    subst outcome
    rcases effect with ⟨not, same⟩ | ⟨takes, entry, new, retries, raw, untargeted⟩
    · exact uncounted _ (same.trans row) not
    · show RowEffect cfg r a (ready.scheduleAnnounce cfg a _).announce
      rw [new]
      exact .taken takes entry retries raw untargeted

end Route

/-- Where an entry came from. -/
inductive Origin where
  | network
  | localClient
  /-- An answer to a path request, from the announce cache. -/
  | response
  | own
  /-- An answer to a path request for a destination of this node. -/
  | ownResponse
  deriving DecidableEq, Repr

structure Tagged where
  tag : Nat
  entry : AnnounceEntry
  deriving DecidableEq

structure Slot where
  live : Option Tagged := none
  held : Option Tagged := none
  /-- The entries as they came in; an entry's number is its place here. -/
  inserted : List (Origin × AnnounceEntry) := []
  /-- What the scheduler sent, in order. -/
  emitted : List Tagged := []

namespace Slot

def setAnnounce (slot : Slot) (origin : Origin) (entry : AnnounceEntry) : Slot :=
  { slot with
    live := some ⟨slot.inserted.length, entry⟩
    inserted := slot.inserted ++ [(origin, entry)] }

def restoreHeld (slot : Slot) : Slot :=
  match slot.held with
  | none => slot
  | some held => { slot with live := some held, held := none }

def removeAnnounce (slot : Slot) : Slot := { slot with live := none }.restoreHeld

def holdDisplacedAnnounce (slot : Slot) : Slot :=
  match slot.live with
  | none => slot
  | some existing =>
    if slot.held.any (fun held => !held.entry.blockRebroadcasts && existing.entry.blockRebroadcasts) then slot
    else { slot with held := some existing }

def handleAnnounce (cfg : AnnounceConfig) (r : Route) (a : Announce) (slot : Slot) : Slot :=
  let route := { r with announce := slot.live.map Tagged.entry }
  let row := (route.handleAnnounce cfg a).2.announce
  if route.takes cfg a then
    match row with
    | some entry =>
      slot.setAnnounce (if cfg.isLocalClient a.interfaceIndex then .localClient else .network) entry
    | none => slot
  else { slot with live := slot.live.bind fun live => row.map fun entry => { live with entry } }

def answerPathRequest (nowMs grace hops iface : Nat) (cached : Bytes) (slot : Slot) : Slot :=
  match Packet.unpack cached with
  | .error _ => slot
  | .ok _ =>
    slot.holdDisplacedAnnounce.setAnnounce .response {
      timestampMs := nowMs
      hops
      retries := pathfinderRetries
      retransmitAtMs := some (nowMs + grace)
      rawPacket := cached
      receivingInterfaceIndex := iface
      targetInterface := some iface
      localRebroadcasts := 0
      blockRebroadcasts := true }

/-- A path request for a destination of this node, answered with the fresh announce `raw`. -/
def answerOwnPathRequest (nowMs iface : Nat) (raw : Bytes) (slot : Slot) : Slot :=
  slot.holdDisplacedAnnounce.setAnnounce .ownResponse {
    timestampMs := nowMs
    hops := 0
    retries := 0
    retransmitAtMs := some (nowMs + pathRequestGraceMs)
    rawPacket := raw
    receivingInterfaceIndex := iface
    targetInterface := some iface
    localRebroadcasts := 0
    blockRebroadcasts := true }

def scheduleOwnAnnounceRetry (nowMs waitMs : Nat) (raw : Bytes) (slot : Slot) : Slot :=
  slot.setAnnounce .own {
    timestampMs := nowMs
    hops := 0
    retries := pathfinderRetries
    retransmitAtMs := some (nowMs + pathfinderGMs + waitMs)
    rawPacket := raw
    receivingInterfaceIndex := usizeMax
    targetInterface := none
    localRebroadcasts := 0
    blockRebroadcasts := false }

/-- The entry has fired: it makes place for the one it displaced, or waits again. -/
def afterFire (nextAtMs : Nat) (live : Tagged) (slot : Slot) : Slot :=
  match slot.held with
  | some _ => slot.restoreHeld
  | none =>
    { slot with
      live := some ⟨live.tag, { live.entry with
        retransmitAtMs := some nextAtMs
        retries := live.entry.retries + 1 }⟩ }

def fireAnnounce (cfg : TimerConfig) (nextAtMs : Nat) (live : Tagged) (slot : Slot) : Slot :=
  match Packet.unpack live.entry.rawPacket with
  | .error _ => slot.afterFire nextAtMs live
  | .ok parsed =>
    let sent := { slot with emitted := slot.emitted ++ [live] }
    if (Timers.rebuilt cfg live.entry parsed).hops.toNat > cfg.node.maxHops then sent.removeAnnounce
    else sent.afterFire nextAtMs live

/-- One pass of the scheduler, among the interfaces of `s`. -/
def checkAnnounceRebroadcasts (cfg : TimerConfig) (s : Timers) (nowMs nextAtMs : Nat) (slot : Slot) : Slot :=
  match slot.live with
  | none => slot
  | some live =>
    match s.dueOf cfg nowMs live.entry with
    | .keep => slot
    | .remove => slot.removeAnnounce
    | .defer at_ => { slot with live := some ⟨live.tag, { live.entry with retransmitAtMs := some at_ }⟩ }
    | .fire => slot.fireAnnounce cfg nextAtMs live

def removeTargetedAnnounces (iface : Nat) (slot : Slot) : Slot :=
  let culled := { slot with held := slot.held.filter fun held => held.entry.targetInterface ≠ some iface }
  if culled.live.any (fun live => live.entry.targetInterface = some iface) then culled.removeAnnounce else culled

/-- What can happen to the entries of one destination. -/
inductive Event where
  | announce (r : Route) (a : Announce)
  | pathRequest (nowMs grace hops iface : Nat) (cached : Bytes)
  | ownPathRequest (nowMs iface : Nat) (raw : Bytes)
  | ownAnnounce (nowMs waitMs : Nat) (raw : Bytes)
  | pass (s : Timers) (nowMs nextAtMs : Nat)
  | interfaceDown (iface : Nat)
  /-- The table is full and drops the row for one of another destination. -/
  | evicted
  /-- The held entry goes without being put back. -/
  | heldLost

def step (cfg : TimerConfig) (slot : Slot) : Event → Slot
  | .announce r a => slot.handleAnnounce cfg.announce r a
  | .pathRequest nowMs grace hops iface cached => slot.answerPathRequest nowMs grace hops iface cached
  | .ownPathRequest nowMs iface raw => slot.answerOwnPathRequest nowMs iface raw
  | .ownAnnounce nowMs waitMs raw => slot.scheduleOwnAnnounceRetry nowMs waitMs raw
  | .pass s nowMs nextAtMs => slot.checkAnnounceRebroadcasts cfg s nowMs nextAtMs
  | .interfaceDown iface => slot.removeTargetedAnnounces iface
  | .evicted => { slot with live := none }
  | .heldLost => { slot with held := none }

def run (cfg : TimerConfig) (slot : Slot) (events : List Event) : Slot := events.foldl (step cfg) slot

end Slot

end Leviculum.Transport
