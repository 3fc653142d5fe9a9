import Leviculum.Lib.OrdMap
import Leviculum.Propagation.Message

/-! The peer table of a propagation node: whom an announce makes a peer, refreshes or drops. -/

namespace Leviculum.Peering

open Propagation (DestinationHash)

structure PeeringConfig where
  maxPeers : Nat
  autopeer : Bool
  autopeerMaxdepth : UInt8
  remotePeeringCostMax : UInt8
  staticPeers : List DestinationHash

inductive SyncPhase where
  | idle
  | keyMining
  | linkEstablishing
  | requestSent
  | resourceTransferring
  deriving DecidableEq

structure PropagationNodeAnnounce where
  timebase : Nat
  enabled : Bool
  transferLimitKb : Nat
  syncLimitKb : Nat
  stampCost : Nat
  stampCostFlexibility : Nat
  peeringCost : Nat

structure Peer where
  destinationHash : DestinationHash
  identityHash : Option (FixedBytes 16)
  publicKeys : Option (FixedBytes 64)
  peeringKey : Option (FixedBytes 32 × UInt16)
  transferLimitKb : Nat
  syncLimitKb : Nat
  stampCost : UInt8
  stampCostFlexibility : UInt8
  peeringCost : UInt8
  peeringTimebase : Nat
  lastHeard : Nat
  nextSyncAttempt : Nat
  syncBackoffSecs : Nat
  cursor : Nat
  isStatic : Bool
  /-- Whether costs, limits and timebase came from an announce. -/
  announceKnown : Bool
  state : SyncPhase
  deriving DecidableEq

/-- What a record holds of the announce it was last filled from. -/
structure AnnounceFacts where
  timebase : Nat
  transferLimitKb : Nat
  syncLimitKb : Nat
  stampCost : UInt8
  stampCostFlexibility : UInt8
  peeringCost : UInt8
  deriving DecidableEq

namespace Peer

/-- `min(u8::MAX as u64) as u8`. -/
def costByte (cost : Nat) : UInt8 := UInt8.ofNat (min cost 255)

def fromAnnounce (destinationHash : DestinationHash) (announce : PropagationNodeAnnounce) (isStatic : Bool)
    (now : Nat) : Peer where
  destinationHash := destinationHash
  identityHash := none
  publicKeys := none
  peeringKey := none
  transferLimitKb := announce.transferLimitKb
  syncLimitKb := announce.syncLimitKb
  stampCost := costByte announce.stampCost
  stampCostFlexibility := costByte announce.stampCostFlexibility
  peeringCost := costByte announce.peeringCost
  peeringTimebase := announce.timebase
  lastHeard := now
  nextSyncAttempt := 0
  syncBackoffSecs := 0
  cursor := 0
  isStatic := isStatic
  announceKnown := true
  state := .idle

def announceFacts (peer : Peer) : AnnounceFacts where
  timebase := peer.peeringTimebase
  transferLimitKb := peer.transferLimitKb
  syncLimitKb := peer.syncLimitKb
  stampCost := peer.stampCost
  stampCostFlexibility := peer.stampCostFlexibility
  peeringCost := peer.peeringCost

/-- The record filled from a newer announce. -/
def refresh (peer : Peer) (announce : PropagationNodeAnnounce) (now : Nat) : Peer :=
  { peer with
    announceKnown := true
    peeringTimebase := announce.timebase
    lastHeard := now
    syncBackoffSecs := 0
    nextSyncAttempt := 0
    transferLimitKb := announce.transferLimitKb
    syncLimitKb := announce.syncLimitKb
    stampCost := costByte announce.stampCost
    stampCostFlexibility := costByte announce.stampCostFlexibility
    peeringCost := costByte announce.peeringCost }

end Peer

inductive DropReason where
  | disabled
  | outOfDepth
  | costRaised
  deriving DecidableEq

inductive DeclineReason where
  | tableFull
  | costTooHigh
  | autopeerOff
  | tooDeep
  | disabled
  | alreadyPeered
  | pathResponse
  deriving DecidableEq

inductive PeerChange where
  | added
  | updated
  | dropped (reason : DropReason)
  | declined (reason : DeclineReason)
  deriving DecidableEq

structure PeerTable where
  config : PeeringConfig
  peers : OrdMap DestinationHash Peer
  /-- A peer is filed under its own hash. -/
  keyed : ∀ {hash peer}, peers.get? hash = some peer → peer.destinationHash = hash

namespace PeerTable

def new (config : PeeringConfig) : PeerTable := ⟨config, ∅, nofun⟩

/-- File a peer under its hash, in place of the record there. -/
def file (t : PeerTable) (peer : Peer) : PeerTable where
  config := t.config
  peers := t.peers.insert peer.destinationHash peer
  keyed := by
    intro hash found held
    rw [OrdMap.get?_insert] at held
    split at held
    next same =>
      obtain rfl := Option.some.inj held
      exact same.symm
    next => exact t.keyed held

def remove (t : PeerTable) (hash : DestinationHash) : PeerTable where
  config := t.config
  peers := t.peers.erase hash
  keyed := by
    intro other found held
    rw [OrdMap.get?_erase] at held
    split at held
    next => cases held
    next => exact t.keyed held

/-- The table without the peer, or nothing where `timestamp` is older than the peering timebase. -/
def unpeer (t : PeerTable) (hash : DestinationHash) (timestamp : Nat) : Option PeerTable :=
  match t.peers.get? hash with
  | none => none
  | some peer => if peer.peeringTimebase ≤ timestamp then some (t.remove hash) else none

/-- A path response is acted on only for a static peer never yet heard. -/
def peersOnPathResponse (t : PeerTable) (hash : DestinationHash) : Bool :=
  t.config.staticPeers.contains hash && (t.peers.get? hash).all (·.lastHeard = 0)

def admitPeer (t : PeerTable) (hash : DestinationHash) (announce : PropagationNodeAnnounce) (isStatic : Bool)
    (now : Nat) : PeerChange × PeerTable :=
  match t.peers.get? hash with
  | some peer =>
    if !peer.announceKnown || peer.peeringTimebase < announce.timebase then
      (.updated, t.file (peer.refresh announce now))
    else (.updated, t.file { peer with lastHeard := now })
  | none =>
    if !isStatic && t.config.maxPeers ≤ t.peers.size then (.declined .tableFull, t)
    else (.added, t.file (Peer.fromAnnounce hash announce isStatic now))

/-- Break the peering where the announce is not older than it, and decline otherwise. -/
def dropOrDecline (t : PeerTable) (hash : DestinationHash) (timebase : Nat) (drop : DropReason)
    (decline : DeclineReason) : PeerChange × PeerTable :=
  match t.unpeer hash timebase with
  | some rest => (.dropped drop, rest)
  | none => (.declined decline, t)

/-- What a peering cost above our maximum does: the table drops a peer without looking at the timebase. -/
def refuseCost (t : PeerTable) (hash : DestinationHash) : PeerChange × PeerTable :=
  if t.peers.contains hash then (.dropped .costRaised, t.remove hash) else (.declined .costTooHigh, t)

def handleAnnounce (t : PeerTable) (hash : DestinationHash) (announce : PropagationNodeAnnounce)
    (hops : Option UInt8) (now : Nat) (isPathResponse : Bool) : PeerChange × PeerTable :=
  if isPathResponse && !t.peersOnPathResponse hash then (.declined .pathResponse, t)
  else
    let isStatic := t.config.staticPeers.contains hash
    if t.config.remotePeeringCostMax.toNat < announce.peeringCost then t.refuseCost hash
    else if !isStatic && !announce.enabled then t.dropOrDecline hash announce.timebase .disabled .disabled
    else if !isStatic && !t.config.autopeer then (.declined .autopeerOff, t)
    else if !isStatic && t.config.autopeerMaxdepth < hops.getD 255 then
      t.dropOrDecline hash announce.timebase .outOfDepth .tooDeep
    else t.admitPeer hash announce isStatic now

/-- Peer off a recalled announce because an inbound sync just landed. -/
def handleInboundSync (t : PeerTable) (hash : DestinationHash) (announce : PropagationNodeAnnounce)
    (hops : Option UInt8) (now : Nat) : PeerChange × PeerTable :=
  let isStatic := t.config.staticPeers.contains hash
  if (t.peers.get? hash).any (·.announceKnown) then (.declined .alreadyPeered, t)
  else if t.config.remotePeeringCostMax.toNat < announce.peeringCost then (.declined .costTooHigh, t)
  else if !isStatic && !announce.enabled then (.declined .disabled, t)
  else if !isStatic && !t.config.autopeer then (.declined .autopeerOff, t)
  else if !isStatic && t.config.autopeerMaxdepth < hops.getD 255 then (.declined .tooDeep, t)
  else t.admitPeer hash announce isStatic now

variable {t : PeerTable} {hash : DestinationHash} {peer : Peer} {announce : PropagationNodeAnnounce}
  {hops : Option UInt8} {now : Nat}

@[simp] theorem file_get? (t : PeerTable) (peer : Peer) (hash : DestinationHash) :
    (t.file peer).peers.get? hash = if hash = peer.destinationHash then some peer else t.peers.get? hash := by
  by_cases same : hash = peer.destinationHash <;> simp [file, OrdMap.get?_insert, same]

@[simp] theorem remove_get? (t : PeerTable) (hash other : DestinationHash) :
    (t.remove hash).peers.get? other = if other = hash then none else t.peers.get? other := by
  by_cases same : other = hash <;> simp [remove, OrdMap.get?_erase, same]

theorem unpeer_older {timestamp : Nat} (recorded : t.peers.get? hash = some peer)
    (older : timestamp < peer.peeringTimebase) : t.unpeer hash timestamp = none := by
  simp only [unpeer, recorded, if_neg (Nat.not_le.mpr older)]

theorem dropOrDecline_older {timebase : Nat} {drop : DropReason} {decline : DeclineReason}
    (recorded : t.peers.get? hash = some peer) (older : timebase < peer.peeringTimebase) :
    (t.dropOrDecline hash timebase drop decline).2 = t := by
  simp only [dropOrDecline, unpeer_older recorded older]

theorem admitPeer_older {isStatic : Bool} (recorded : t.peers.get? hash = some peer)
    (known : peer.announceKnown = true) (older : announce.timebase < peer.peeringTimebase) :
    (t.admitPeer hash announce isStatic now).2 = t.file { peer with lastHeard := now } := by
  have stale : ¬ peer.peeringTimebase < announce.timebase := Nat.not_lt.mpr older.le
  simp [admitPeer, recorded, known, stale]

theorem handleAnnounce_older {isPathResponse : Bool} (recorded : t.peers.get? hash = some peer)
    (known : peer.announceKnown = true) (older : announce.timebase < peer.peeringTimebase)
    (affordable : announce.peeringCost ≤ t.config.remotePeeringCostMax.toNat) :
    (t.handleAnnounce hash announce hops now isPathResponse).2 = t ∨
      (t.handleAnnounce hash announce hops now isPathResponse).2 = t.file { peer with lastHeard := now } := by
  unfold handleAnnounce
  split
  · exact .inl rfl
  simp only [if_neg (Nat.not_lt.mpr affordable)]
  split
  · exact .inl (dropOrDecline_older recorded older)
  split
  · exact .inl rfl
  split
  · exact .inl (dropOrDecline_older recorded older)
  · exact .inr (admitPeer_older recorded known older)

theorem handleAnnounce_costly {isPathResponse : Bool} (recorded : t.peers.get? hash = some peer)
    (acted : ¬ (isPathResponse = true ∧ t.peersOnPathResponse hash = false))
    (costly : t.config.remotePeeringCostMax.toNat < announce.peeringCost) :
    t.handleAnnounce hash announce hops now isPathResponse = (.dropped .costRaised, t.remove hash) := by
  have heard : ¬ (isPathResponse && !t.peersOnPathResponse hash) = true := by simpa using acted
  have held : t.peers.contains hash = true := by simp [OrdMap.contains, recorded]
  unfold handleAnnounce
  rw [if_neg heard]
  simp only [if_pos costly, refuseCost, if_pos held]

theorem handleInboundSync_known (recorded : t.peers.get? hash = some peer) (known : peer.announceKnown = true) :
    t.handleInboundSync hash announce hops now = (.declined .alreadyPeered, t) := by
  simp [handleInboundSync, recorded, known]

/-- An older announce leaves a peer and its announced facts alone exactly where the table does not get
to the cost check, or the cost passes it. -/
theorem older_announce_undoes_nothing (t : PeerTable) (hash : DestinationHash) (peer : Peer)
    (announce : PropagationNodeAnnounce) (hops : Option UInt8) (now : Nat) (isPathResponse : Bool)
    (recorded : t.peers.get? hash = some peer) (known : peer.announceKnown = true)
    (older : announce.timebase < peer.peeringTimebase) :
    (∃ kept, (t.handleAnnounce hash announce hops now isPathResponse).2.peers.get? hash = some kept ∧
        kept.announceFacts = peer.announceFacts) ↔
      (isPathResponse = true ∧ t.peersOnPathResponse hash = false) ∨
        announce.peeringCost ≤ t.config.remotePeeringCostMax.toNat := by
  constructor
  · rintro ⟨kept, held, -⟩
    by_contra refused
    rw [not_or] at refused
    rw [handleAnnounce_costly recorded refused.1 (Nat.not_le.mp refused.2), remove_get?, if_pos rfl] at held
    cases held
  · rintro (⟨response, unanswered⟩ | affordable)
    · have unchanged : t.handleAnnounce hash announce hops now isPathResponse = (.declined .pathResponse, t) := by
        simp [handleAnnounce, response, unanswered]
      exact ⟨peer, by rw [unchanged, recorded], rfl⟩
    · rcases handleAnnounce_older recorded known older affordable with same | heard
      · exact ⟨peer, by rw [same, recorded], rfl⟩
      · exact ⟨{ peer with lastHeard := now }, by simp [heard, t.keyed recorded], rfl⟩

def defaultConfig : PeeringConfig where
  maxPeers := 20
  autopeer := true
  autopeerMaxdepth := 4
  remotePeeringCostMax := 26
  staticPeers := []

/-- An announce of cost `peeringCost`, sent at `timebase`. -/
def sampleAnnounce (timebase peeringCost : Nat) : PropagationNodeAnnounce where
  timebase := timebase
  enabled := true
  transferLimitKb := 256
  syncLimitKb := 10240
  stampCost := 16
  stampCostFlexibility := 3
  peeringCost := peeringCost

def heardOnce : PeerTable :=
  ((new defaultConfig).handleAnnounce (FixedBytes.replicate 16 1) (sampleAnnounce 100 18) (some 1) 100 false).2

theorem older_announce_undoes_nothing_affordable :
    ∃ kept, (heardOnce.handleAnnounce (FixedBytes.replicate 16 1) (sampleAnnounce 50 20) (some 9) 200 false).2.peers.get?
        (FixedBytes.replicate 16 1) = some kept ∧ kept.announceFacts =
          (Peer.fromAnnounce (FixedBytes.replicate 16 1) (sampleAnnounce 100 18) false 100).announceFacts :=
  (older_announce_undoes_nothing heardOnce (FixedBytes.replicate 16 1)
    (Peer.fromAnnounce (FixedBytes.replicate 16 1) (sampleAnnounce 100 18) false 100) (sampleAnnounce 50 20)
    (some 9) 200 false (by decide) rfl (by decide)).mpr (.inr (by decide))

/-- An announce fifty seconds older than the recorded one drops the peer when it names a cost of 27. -/
theorem older_costly_announce_drops_peer :
    heardOnce.peers.get? (FixedBytes.replicate 16 1) =
        some (Peer.fromAnnounce (FixedBytes.replicate 16 1) (sampleAnnounce 100 18) false 100) ∧
      (sampleAnnounce 50 27).timebase < 100 ∧
      (heardOnce.handleAnnounce (FixedBytes.replicate 16 1) (sampleAnnounce 50 27) (some 1) 200 false).1 =
        .dropped .costRaised ∧
      (heardOnce.handleAnnounce (FixedBytes.replicate 16 1) (sampleAnnounce 50 27) (some 1) 200 false).2.peers.get?
        (FixedBytes.replicate 16 1) = none := by
  decide

end PeerTable

end Leviculum.Peering
