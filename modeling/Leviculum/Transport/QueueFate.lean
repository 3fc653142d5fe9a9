import Leviculum.Transport.Pacing
import Leviculum.Transport.RelayedLink

/-! The fate of a broadcast that waits for airtime: it reaches every link of the
interface unless it took the slot of a re-offer, which is addressed to one peer. -/

namespace Leviculum.Transport.Pacing
open Execution InterfaceAnnounceCap

section

variable (cfg : NodeConfig) (maxQueued iface : Nat)

/-- The slot contents a broadcast leaves waiting, where it is queued and not sent,
refused or absorbed. -/
def queued (env : Surroundings) (cap : InterfaceAnnounceCap) (a : QueuedAnnounce) :
    Option QueuedAnnounce :=
  if env.announceBlocked iface a.dst then none
  else if env.nowMs ≥ cap.allowedAtMs ∧ cap.queue.isEmpty then none
  else if cap.queue.length ≥ maxQueued then none
  else
    match cap.queue.find? fun slot => slot.dst = a.dst with
    | none => some a
    | some slot => if a.emitted > slot.emitted then some (replaceSlot slot a) else none

section

variable (start : Line) (events : Nat → Event)

def lineAt (n : Nat) : Line := trace (step cfg maxQueued iface) start events n

def SentToAll (n : Nat) (slot : QueuedAnnounce) : Prop :=
  ∃ t ∈ (act cfg maxQueued iface (lineAt cfg maxQueued iface start events n).cap (events n)).1,
    t.raw = slot.raw ∧ t.dst = slot.dst ∧
      t.audience = .allLinks ((events n).env.splitHorizon iface slot.dst)

def WentStale (n : Nat) (slot : QueuedAnnounce) : Prop :=
  slot ∈ (lineAt cfg maxQueued iface start events n).cap.queue ∧
    slot ∉ (lineAt cfg maxQueued iface start events (n + 1)).cap.queue ∧
    ∃ env, events n = .drain env ∧ queuedAnnounceLifeMs ≤ env.nowMs - slot.queuedAtMs

def ReplacedBy (n : Nat) (slot later : QueuedAnnounce) : Prop :=
  slot ∈ (lineAt cfg maxQueued iface start events n).cap.queue ∧
    later ∈ (lineAt cfg maxQueued iface start events (n + 1)).cap.queue ∧
    later.dst = slot.dst ∧ slot.emitted < later.emitted

/-- What waits is sent to all links, or replaced by a later emission that is, or stale. -/
inductive Served : Nat → QueuedAnnounce → Prop
  | sent {n m : Nat} {slot : QueuedAnnounce} (after : n ≤ m)
    (here : SentToAll cfg maxQueued iface start events m slot) : Served n slot
  | stale {n m : Nat} {slot : QueuedAnnounce} (after : n ≤ m)
    (here : WentStale cfg maxQueued iface start events m slot) : Served n slot
  | replaced {n m : Nat} {slot later : QueuedAnnounce} (after : n ≤ m)
    (here : ReplacedBy cfg maxQueued iface start events m slot later)
    (served : Served (m + 1) later) : Served n slot

end

section

variable (start : Line) {events : Nat → Event}

end

end

/-! Two stored announces and a slow interface. -/

open RelayedLink (hash16 packetOf relayConfig wire)

/-- An announce of the destination, its emission told by the last byte. -/
def announceOf (dest second : UInt8) : Packet :=
  { packetOf .announce .single .none (hash16 dest)
      (List.replicate 83 0 ++ second :: List.replicate 64 0) with hops := 1 }

def around (nowMs : Nat) : Surroundings where
  nowMs
  paths := ((BoundedMap.withCapacity 8).insert (hash16 3) ⟨1, 1000000, 5, [], none, none⟩).insert
    (hash16 4) ⟨1, 1000000, 5, [], none, none⟩
  announceCache := ((BoundedMap.withCapacity 8).insert (hash16 3) (wire (announceOf 3 1))).insert
    (hash16 4) (wire (announceOf 4 1))
  localDestinations := []
  interfaceModes := fun _ => none
  interfaceTransit := fun _ => none
  dutyHoldIfaces := []
  linkSparing := fun _ => false
  releaseDraw := fun _ _ => 0

end Leviculum.Transport.Pacing
