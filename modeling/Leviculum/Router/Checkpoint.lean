import Leviculum.Router.Due
import Mathlib.Data.Finset.Sort

/-! The checkpoint of the router: what it keeps, which states may be saved, and what a restore accepts.
A snapshot is kept as a record; its size is that of its encoding. -/

namespace Leviculum.Router

open Msgpack.Lxmf (array bin f64 uint nil)
open Propagation (DestinationHash TransientId destinationLength)

variable (prims : Primitives)

/-- The durable part of a router, with the two scheduling times that are written along. -/
structure Snapshot where
  identityHash : FixedBytes 16
  outbound : OrdMap MessageId OutboundEntry
  deliveredIds : OrdMap MessageId Rat
  processedIds : OrdMap MessageId Rat
  outboundStampCosts : OrdMap DestinationHash StampCostEntry
  tickets : TicketStore
  ignored : Finset DestinationHash
  nextJobMs : Nat
  deriving DecidableEq

def boundedCount (count limit : Nat) : Except RouterError Unit :=
  if limit < count ∨ 2 ^ 32 ≤ count then .error .queueFull else .ok ()

def envelopeFits (message : Message) (prepared : OutboundPropagation) : Bool :=
  lxmfOverhead < prepared.unstampedLxmf.length ∧
    prepared.unstampedLxmf.take destinationLength = message.destinationHash.val ∧
    prims.fullHash prepared.unstampedLxmf = prepared.transientId ∧
    (prepared.stamp.isSome → prepared.targetCost.isSome)

/-- An entry that may be written under `id`. Times and shares are finite by their types. -/
def entrySavable (id : MessageId) (entry : OutboundEntry) : Bool :=
  id = entry.message.messageId ∧ entry.message.method ≠ .paper ∧
    (entry.message.method ≠ .propagated → entry.propagation = none) ∧
    entry.propagation.all (envelopeFits prims entry.message)

def DeliveryMethod.code : DeliveryMethod → UInt64
  | .opportunistic => 1
  | .direct => 2
  | .propagated => 3
  | .paper => 5

def MessageState.code : MessageState → UInt64
  | .generating => 0x00
  | .outbound => 0x01
  | .sending => 0x02
  | .sent => 0x04
  | .delivered => 0x08
  | .awaitingCollection => 0x10
  | .rejected => 0xfd
  | .cancelled => 0xfe
  | .failed => 0xff

/-- `verification_value`. -/
def Verification.code : Verification → UInt64
  | .unverified => 0
  | .valid => 1
  | .invalid => 2

namespace LxmfRouter

def validatePersistenceLimits (router : LxmfRouter) : Except RouterError Unit := do
  boundedCount router.outbound.size router.config.maxOutbound
  boundedCount router.deliveredIds.size router.config.maxDeliveredIds
  boundedCount router.processedIds.size router.config.maxProcessedIds
  boundedCount router.outboundStampCosts.size router.config.maxStampCosts
  boundedCount router.ignored.card router.config.maxPolicyEntries
  boundedCount router.tickets.entryCount router.config.maxTickets
  if router.outbound.entries.all (fun e => entrySavable prims e.1 e.2) then .ok () else .error .corruptSnapshot

def checkpoint (router : LxmfRouter) : Snapshot :=
  ⟨router.identityHash, router.outbound, router.deliveredIds, router.processedIds, router.outboundStampCosts,
    router.tickets, router.ignored, router.nextJobMs⟩

end LxmfRouter

namespace Snapshot

def encodeOptional (value : Option UInt64) : Bytes := value.elim (nil prims.rmp) (uint prims.rmp)

def encodeEnvelope (prepared : OutboundPropagation) : Bytes :=
  array prims.rmp 5 ++ f64 prims.rmp (prims.f64Bits prepared.timebase) ++ bin prims.rmp prepared.unstampedLxmf ++
    bin prims.rmp prepared.transientId.val ++ encodeOptional prims (prepared.targetCost.map UInt8.toUInt64) ++
    prepared.stamp.elim (nil prims.rmp) (fun stamp => bin prims.rmp stamp.val)

def encodeEntry (entry : OutboundEntry) : Bytes :=
  array prims.rmp 8 ++ bin prims.rmp (entry.message.pack prims) ++ uint prims.rmp entry.message.method.code ++
    uint prims.rmp entry.state.code ++ uint prims.rmp entry.message.verification.code ++
    uint prims.rmp (UInt64.ofNat entry.attempts) ++ uint prims.rmp (UInt64.ofNat entry.nextAttemptMs) ++
    f64 prims.rmp (prims.f64Bits entry.progress.val) ++ entry.propagation.elim (nil prims.rmp) (encodeEnvelope prims)

def encodeOutbound (entries : OrdMap MessageId OutboundEntry) : Bytes :=
  array prims.rmp entries.size ++ entries.values.flatMap (encodeEntry prims)

def encodeIdTimes (times : OrdMap MessageId Rat) : Bytes :=
  array prims.rmp times.size ++ times.entries.flatMap (fun (id, time) =>
    array prims.rmp 2 ++ bin prims.rmp id.val ++ f64 prims.rmp (prims.f64Bits time))

def encodeStampCosts (costs : OrdMap DestinationHash StampCostEntry) : Bytes :=
  array prims.rmp costs.size ++ costs.entries.flatMap (fun (destination, seen, cost, compression) =>
    array prims.rmp 4 ++ bin prims.rmp destination.val ++ f64 prims.rmp (prims.f64Bits seen) ++
      encodeOptional prims (cost.map UInt8.toUInt64) ++ Msgpack.Lxmf.bool prims.rmp compression)

def encodeTicket (destination : DestinationHash) (ticket : Ticket) : Bytes :=
  array prims.rmp 3 ++ bin prims.rmp destination.val ++ f64 prims.rmp (prims.f64Bits ticket.expiresUnix) ++
    bin prims.rmp ticket.secret.val

def encodeTickets (store : TicketStore) : Bytes :=
  array prims.rmp 3 ++ array prims.rmp store.inboundCount ++
    store.inbound.entries.flatMap (fun (destination, tickets) => tickets.flatMap (encodeTicket prims destination)) ++
    array prims.rmp store.outbound.size ++
    store.outbound.entries.flatMap (fun (destination, ticket) => encodeTicket prims destination ticket) ++
    array prims.rmp store.lastDeliveries.size ++ store.lastDeliveries.entries.flatMap (fun (destination, time) =>
      array prims.rmp 2 ++ bin prims.rmp destination.val ++ f64 prims.rmp (prims.f64Bits time))

def encodeFixedSet {K : Type} [LinearOrder K] (bytes : K → Bytes) (values : Finset K) : Bytes :=
  array prims.rmp values.card ++ values.sort.flatMap (fun value => bin prims.rmp (bytes value))

/-- The nine fields, the version first. -/
def encode (snapshot : Snapshot) : Bytes :=
  array prims.rmp 9 ++ uint prims.rmp 4 ++ bin prims.rmp snapshot.identityHash.val ++
    encodeOutbound prims snapshot.outbound ++ encodeIdTimes prims snapshot.deliveredIds ++
    encodeIdTimes prims snapshot.processedIds ++ encodeStampCosts prims snapshot.outboundStampCosts ++
    encodeTickets prims snapshot.tickets ++ encodeFixedSet prims Subtype.val snapshot.ignored ++
    uint prims.rmp (UInt64.ofNat snapshot.nextJobMs)

def encodedLen (snapshot : Snapshot) : Nat := (snapshot.encode prims).length

/-- Decode the queued messages, each under the id of its content and with a fresh epoch. -/
def decodeOutbound : List (MessageId × OutboundEntry) → OrdMap MessageId OutboundEntry → BuildEpochs →
    Except RouterError (OrdMap MessageId OutboundEntry) × BuildEpochs
  | [], entries, epochs => (.ok entries, epochs)
  | (_, entry) :: rest, entries, epochs =>
    let message := { entry.message with packed := some (entry.message.pack prims) }
    if message.method = .paper ∨ message.method ≠ .propagated ∧ entry.propagation.isSome ∨
        entry.propagation.any (fun prepared => !envelopeFits prims message prepared) then
      (.error .corruptSnapshot, epochs)
    else if entries.contains message.messageId then (.error .corruptSnapshot, epochs.advance)
    else
      decodeOutbound rest
        (entries.insert message.messageId { entry with message, buildEpoch := epochs.next }) epochs.advance

def withinLimits (config : RouterConfig) (snapshot : Snapshot) : Bool :=
  snapshot.deliveredIds.size ≤ config.maxDeliveredIds ∧ snapshot.processedIds.size ≤ config.maxProcessedIds ∧
    snapshot.outboundStampCosts.size ≤ config.maxStampCosts ∧ snapshot.tickets.entryCount ≤ config.maxTickets ∧
    snapshot.ignored.card ≤ config.maxPolicyEntries

/-- Read a snapshot for a router; epochs are minted as the entries are read. -/
def decode (router : LxmfRouter) (snapshot : Snapshot) :
    Except RouterError (OrdMap MessageId OutboundEntry) × BuildEpochs :=
  if snapshot.identityHash ≠ router.identityHash ∨ router.config.maxOutbound < snapshot.outbound.size then
    (.error .corruptSnapshot, router.buildEpochs)
  else
    match decodeOutbound prims snapshot.outbound.entries ∅ router.buildEpochs with
    | (.error error, epochs) => (.error error, epochs)
    | (.ok outbound, epochs) =>
      if snapshot.withinLimits router.config then (.ok outbound, epochs) else (.error .corruptSnapshot, epochs)

end Snapshot

namespace World

variable {Env : Type}

/-- A restored entry starts over: nothing of it is under way. -/
def resumeEntry (world : World Env) (id : MessageId) : World Env :=
  world.revise id (fun entry epochs =>
    let written := entry.setState .outbound epochs
    ({ written.1 with nextAttemptMs := 0, progress := .started }, written.2))

/-- Replace the live state by a decoded snapshot. -/
def installSnapshot (snapshot : Snapshot) (outbound : OrdMap MessageId OutboundEntry) (epochs : BuildEpochs)
    (world : World Env) : World Env :=
  let replaced : World Env :=
    { world with
      router.outbound := outbound
      router.buildEpochs := epochs
      router.restores := world.router.restores + 1
      router.pendingBuilds := []
      router.buildsOutstanding := ∅
      router.preemptivePathRequests := ∅ }
  { outbound.keys.foldl resumeEntry replaced with
    router.outboundStampCosts := snapshot.outboundStampCosts
    router.deliveredIds := snapshot.deliveredIds
    router.processedIds := snapshot.processedIds
    router.tickets := snapshot.tickets
    router.ignored := snapshot.ignored
    router.nextJobMs := 0
    router.persistenceDirty := false }

end World

end Leviculum.Router
