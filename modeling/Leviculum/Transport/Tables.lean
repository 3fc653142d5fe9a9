import Leviculum.Lib.Bytes

/-! The rows of the transport tables, `storage_types.rs`. Times are milliseconds,
interfaces are their indices. -/

namespace Leviculum.Transport

abbrev TruncatedHash := FixedBytes 16

/-- Five random bytes, then the emission time in seconds as five bytes. -/
abbrev RandomHash := FixedBytes 10

inductive PathState where
  | unknown
  | unresponsive
  | responsive
  deriving DecidableEq, Repr

structure PathEntry where
  hops : Nat
  expiresMs : Nat
  interfaceIndex : Nat
  randomBlobs : List RandomHash
  nextHop : Option TruncatedHash
  viaPeer : Option TruncatedHash
  deriving DecidableEq

structure AnnounceEntry where
  timestampMs : Nat
  hops : Nat
  retries : Nat
  retransmitAtMs : Option Nat
  rawPacket : Bytes
  receivingInterfaceIndex : Nat
  targetInterface : Option Nat
  localRebroadcasts : Nat
  blockRebroadcasts : Bool
  deriving DecidableEq

structure AnnounceRateEntry where
  lastMs : Nat
  rateViolations : Nat
  blockedUntilMs : Nat
  deriving DecidableEq

namespace PathEntry

def needsRelay (path : PathEntry) : Bool := path.hops > 1 && path.nextHop.isSome

end PathEntry

/-- A link this node relays between two of its interfaces. -/
structure LinkEntry where
  timestampMs : Nat
  nextHopInterfaceIndex : Nat
  remainingHops : Nat
  receivedInterfaceIndex : Nat
  hops : Nat
  validated : Bool
  proofTimeoutMs : Nat
  destinationHash : TruncatedHash
  peerSigningKey : Option (FixedBytes 32)
  receivedPeer : Option TruncatedHash
  nextHopPeer : Option TruncatedHash
  deriving DecidableEq

/-- The peer a repeat onto `targetIface` is for, as far as the entry can tell. -/
def LinkEntry.forwardPeer (entry : LinkEntry) (targetIface : Nat)
    (ingressPeer : Option TruncatedHash) : Option TruncatedHash :=
  if entry.nextHopInterfaceIndex = entry.receivedInterfaceIndex then
    match ingressPeer with
    | none => none
    | some peer =>
      if entry.receivedPeer = some peer then entry.nextHopPeer
      else if entry.nextHopPeer = some peer then entry.receivedPeer
      else none
  else if targetIface = entry.receivedInterfaceIndex then entry.receivedPeer
  else if targetIface = entry.nextHopInterfaceIndex then entry.nextHopPeer
  else none

structure ReverseEntry where
  timestampMs : Nat
  receivingInterfaceIndex : Nat
  outboundInterfaceIndex : Nat
  receivedPeer : TruncatedHash
  deriving DecidableEq

namespace ReverseEntry

/-- `NO_PEER`. -/
def noPeer : TruncatedHash := FixedBytes.replicate 16 0

def peer (entry : ReverseEntry) : Option TruncatedHash :=
  if entry.receivedPeer = noPeer then none else some entry.receivedPeer

end ReverseEntry

/-- `u8` addition that stays at the top. -/
def saturatingAddU8 (a b : Nat) : Nat := min (a + b) 255

def pathfinderRetries : Nat := 1
def localRebroadcastsMax : Nat := 2
def announceRateLimitMs : Nat := 2000
def maxRandomBlobs : Nat := 64
def pathfinderMaxHops : Nat := 128

/-- `emission_from_random_hash`: the emission time is the second half of the hash. -/
def emissionFromRandomHash (randomHash : RandomHash) : Nat := Bytes.ofBe (randomHash.val.drop 5)

def maxEmissionFromBlobs (blobs : List RandomHash) : Nat :=
  ((blobs.map emissionFromRandomHash).max?).getD 0

/-- The window with `new` appended, capped at the `max` newest. -/
def PathEntry.appendedRandomBlobs (existing : List RandomHash) (new : RandomHash) (max : Nat) :
    List RandomHash :=
  if max = 0 then [] else existing.drop (existing.length + 1 - max) ++ [new]

theorem emission_le_max {blobs : List RandomHash} {blob : RandomHash} (member : blob ∈ blobs) :
    emissionFromRandomHash blob ≤ maxEmissionFromBlobs blobs := by
  unfold maxEmissionFromBlobs
  cases found : (blobs.map emissionFromRandomHash).max? with
  | none =>
    rw [List.max?_eq_none_iff, List.map_eq_nil_iff] at found
    simp [found] at member
  | some m => exact (List.max?_eq_some_iff.mp found).2 _ (List.mem_map_of_mem member)

end Leviculum.Transport
