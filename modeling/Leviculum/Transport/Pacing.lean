import Leviculum.Transport.AnnounceQueue
import Leviculum.Lib.Execution
import Mathlib.Data.List.Chain

/-! Runs of a capped interface: broadcasts, re-offers to one peer and drains in any
order. Transmissions keep their distance and the queue keeps its bounds. -/

namespace Leviculum.Transport.Pacing
open Execution InterfaceAnnounceCap

/-- A capped interface with everything it sent so far, in order. -/
structure Line where
  cap : InterfaceAnnounceCap
  sent : List Transmission

inductive Event where
  | broadcast (env : Surroundings) (packet : Packet)
  | reoffer (env : Surroundings) (peer : TruncatedHash)
  | drain (env : Surroundings)

def Event.env : Event → Surroundings
  | .broadcast env _ | .reoffer env _ | .drain env => env

/-- As `register_interface_bitrate` leaves it. -/
def registered (bitrateBps announceCapPercent : Nat) : Line := ⟨⟨bitrateBps, announceCapPercent, 0, []⟩, []⟩

section

variable (cfg : NodeConfig) (maxQueued iface : Nat)

def reofferAll (env : Surroundings) (peer : TruncatedHash) :
    List (TruncatedHash × PathEntry) → InterfaceAnnounceCap → List Transmission × InterfaceAnnounceCap
  | [], cap => ([], cap)
  | (dest, path) :: rest, cap =>
    match reofferedAnnounce cfg env iface peer dest path with
    | none => reofferAll env peer rest cap
    | some a =>
      let (first, cap) := cap.reoffer maxQueued env peer a
      let (later, cap) := reofferAll env peer rest cap
      (first ++ later, cap)

def act (cap : InterfaceAnnounceCap) : Event → List Transmission × InterfaceAnnounceCap
  | .broadcast env packet =>
    match broadcastAnnounce cfg env.nowMs packet with
    | none => ([], cap)
    | some a => cap.broadcast maxQueued env iface a
  | .reoffer env peer =>
    if cfg.enableTransport then reofferAll cfg maxQueued iface env peer env.paths.entries cap
    else ([], cap)
  | .drain env => cap.drain env iface

def step (line : Line) (event : Event) : Line where
  cap := (act cfg maxQueued iface line.cap event).2
  sent := line.sent ++ (act cfg maxQueued iface line.cap event).1

/-! Safety. -/

/-- Consecutive transmissions are at least the holdoff of the first apart, the armed
release is past the holdoff of the last, and the queue holds few slots of distinct
destinations. -/
structure Paced (line : Line) : Prop where
  spaced : line.sent.IsChain fun first second => first.atMs + first.holdoffMs ≤ second.atMs
  armed : ∀ last ∈ line.sent.getLast?, last.atMs + last.holdoffMs ≤ line.cap.allowedAtMs
  distinct : (line.cap.queue.map QueuedAnnounce.dst).Nodup
  bounded : line.cap.queue.length ≤ maxQueued

variable {maxQueued}

theorem Paced.append_nil {cap : InterfaceAnnounceCap} {sent : List Transmission}
    (paced : Paced maxQueued ⟨cap, sent⟩) : Paced maxQueued ⟨cap, sent ++ []⟩ := by
  rw [List.append_nil]
  exact paced

theorem Paced.transmit {cap : InterfaceAnnounceCap} {sent : List Transmission}
    (paced : Paced maxQueued ⟨cap, sent⟩) {nowMs : Nat} (due : cap.allowedAtMs ≤ nowMs) (draw : Nat)
    (raw : Bytes) (dst : TruncatedHash) (audience : Audience) :
    Paced maxQueued ⟨(cap.transmit nowMs draw raw dst audience).2,
      sent ++ [(cap.transmit nowMs draw raw dst audience).1]⟩ := by
  refine ⟨?_, ?_, paced.distinct, paced.bounded⟩
  · rw [List.isChain_append]
    refine ⟨paced.spaced, List.isChain_singleton _, ?_⟩
    intro last isLast next isNext
    obtain rfl := Option.some.inj isNext
    exact (paced.armed last isLast).trans due
  · intro last isLast
    rw [List.getLast?_append, List.getLast?_singleton, Option.some_or, Option.mem_some_iff] at isLast
    subst isLast
    exact Nat.le_add_right _ draw

end

end Leviculum.Transport.Pacing
