import Leviculum.Router.Message

/-! Stamp tickets: those issued to peers, those received from them, and when one was last delivered. -/

namespace Leviculum.Router

open Fallible (exec)
open Msgpack.Lxmf (array bin f64 arrayLen readNumber readBin)
open Propagation (DestinationHash)

def ticketExpiry : Rat := 1814400
def ticketGrace : Rat := 432000
def ticketRenew : Rat := 1209600
def ticketInterval : Rat := 86400

structure Ticket where
  expiresUnix : Rat
  secret : FixedBytes 16
  deriving DecidableEq

namespace Ticket

variable (prims : Primitives)

/-- The value of the ticket field of a message: `[expires, ticket]`. -/
def fieldValue (ticket : Ticket) : Bytes :=
  array prims.rmp 2 ++ f64 prims.rmp (prims.f64Bits ticket.expiresUnix) ++ bin prims.rmp ticket.secret.val

def fieldReader : Msgpack.Lxmf.Reader Ticket := fun data => do
  let count ← arrayLen prims.rmp data
  if count ≠ 2 then throw .type
  else
    let expires ← readNumber prims.rmp data
    match prims.f64Value expires.asF64 with
    | none => throw .type
    | some expiresUnix =>
      let secret ← readBin prims.rmp data
      if fits : secret.length = 16 then
        let position ← get
        if position ≠ data.length then throw .trailing
        else return { expiresUnix, secret := ⟨secret, fits⟩ }
      else throw .type

def fromFieldValue (data : Bytes) : Except Msgpack.Error Ticket := (exec (fieldReader prims data) 0).1

def stamp (ticket : Ticket) (id : MessageId) : Bytes := (prims.truncatedHash (ticket.secret.val ++ id.val)).val

end Ticket

structure TicketStore where
  inbound : OrdMap DestinationHash (List Ticket)
  outbound : OrdMap DestinationHash Ticket
  lastDeliveries : OrdMap DestinationHash Rat
  deriving DecidableEq

namespace TicketStore

def empty : TicketStore := ⟨∅, ∅, ∅⟩

def inboundCount (store : TicketStore) : Nat := (store.inbound.values.map List.length).sum

/-- Tickets of both kinds and delivery times together. -/
def entryCount (store : TicketStore) : Nat :=
  store.inboundCount + store.outbound.size + store.lastDeliveries.size

def issuedTo (store : TicketStore) (destination : DestinationHash) : List Ticket :=
  (store.inbound.get? destination).getD []

def reusableIssued (store : TicketStore) (destination : DestinationHash) (nowUnix : Rat) : Option Ticket :=
  (store.issuedTo destination).find? (fun ticket => ticketRenew < ticket.expiresUnix - nowUnix)

/-- A ticket for `destination`, with the secret drawn for it; none within the delivery interval, and the
old one while it lasts. -/
def issue (store : TicketStore) (destination : DestinationHash) (nowUnix : Rat) (secret : FixedBytes 16) :
    Option Ticket × TicketStore :=
  if (store.lastDeliveries.get? destination).any (fun last => nowUnix - last < ticketInterval) then (none, store)
  else
    match store.reusableIssued destination nowUnix with
    | some ticket => (some ticket, store)
    | none =>
      let ticket : Ticket := ⟨nowUnix + ticketExpiry, secret⟩
      (some ticket,
        { store with inbound := store.inbound.insert destination (store.issuedTo destination ++ [ticket]) })

def markDelivered (store : TicketStore) (destination : DestinationHash) (nowUnix : Rat) : TicketStore :=
  { store with lastDeliveries := store.lastDeliveries.insert destination nowUnix }

/-- Keep a ticket of a verified message, unless it has run out; whether it was kept. -/
def remember (store : TicketStore) (source : DestinationHash) (ticket : Ticket) (nowUnix : Rat) :
    Bool × TicketStore :=
  if ticket.expiresUnix ≤ nowUnix then (false, store)
  else (true, { store with outbound := store.outbound.insert source ticket })

def containsInbound (store : TicketStore) (destination : DestinationHash) (ticket : Ticket) : Bool :=
  (store.issuedTo destination).contains ticket

def validatesInboundStamp (prims : Primitives) (store : TicketStore) (source : DestinationHash) (id : MessageId)
    (stamp : Bytes) (nowUnix : Rat) : Bool :=
  stamp.length = 16 ∧
    (store.issuedTo source).any (fun ticket => nowUnix < ticket.expiresUnix ∧ ticket.stamp prims id = stamp)

/-- The unexpired ticket a peer gave us. -/
def outboundAt (store : TicketStore) (destination : DestinationHash) (nowUnix : Rat) : Option Ticket :=
  (store.outbound.get? destination).filter (fun ticket => nowUnix < ticket.expiresUnix)

def cleaned (store : TicketStore) (nowUnix : Rat) : TicketStore where
  outbound := store.outbound.retain (fun _ ticket => nowUnix < ticket.expiresUnix)
  inbound := (store.inbound.mapValues
      (fun _ tickets => tickets.filter (fun ticket => nowUnix < ticket.expiresUnix + ticketGrace))).retain
    (fun _ tickets => !tickets.isEmpty)
  lastDeliveries := store.lastDeliveries

/-- Whether cleaning removed something. -/
def cleanChanges (store : TicketStore) (nowUnix : Rat) : Bool :=
  store.outbound.size ≠ (store.cleaned nowUnix).outbound.size ∨
    store.inbound.size ≠ (store.cleaned nowUnix).inbound.size ∨
    store.inboundCount ≠ (store.cleaned nowUnix).inboundCount

end TicketStore

end Leviculum.Router

/-! The outbound queue entry and its build epoch. The epoch advances with every change of the message,
the state or the prepared envelope, and with no other write. -/

namespace Leviculum.Router

open Propagation (DestinationHash TransientId)

inductive MessageState where
  | generating
  | outbound
  | sending
  | sent
  | delivered
  /-- A propagation node holds the message for its recipient. -/
  | awaitingCollection
  | rejected
  | cancelled
  | failed
  deriving DecidableEq

def MessageState.terminal : MessageState → Bool
  | .delivered | .awaitingCollection | .rejected | .cancelled | .failed => true
  | _ => false

structure OutboundPropagation where
  timebase : Rat
  /-- Destination hash and encrypted body, without the outer stamp. -/
  unstampedLxmf : Bytes
  transientId : TransientId
  targetCost : Option UInt8
  stamp : Option (FixedBytes 32)
  deriving DecidableEq

/-- A share of a transfer, clamped to the unit interval where it is made. -/
abbrev Progress := { share : Rat // 0 ≤ share ∧ share ≤ 1 }

theorem started_bounds : (0 : Rat) ≤ 1 / 100 ∧ (1 / 100 : Rat) ≤ 1 := by decide +kernel

def Progress.started : Progress := ⟨1 / 100, started_bounds⟩

/-- The source of build epochs: a 64-bit counter, kept here as the number of epochs minted so far. -/
structure BuildEpochs where
  minted : Nat
  deriving DecidableEq

namespace BuildEpochs

def next (epochs : BuildEpochs) : UInt64 := UInt64.ofNat epochs.minted

def advance (epochs : BuildEpochs) : BuildEpochs := ⟨epochs.minted + 1⟩

end BuildEpochs

structure OutboundEntry where
  message : Message
  state : MessageState
  attempts : Nat
  nextAttemptMs : Nat
  progress : Progress
  propagation : Option OutboundPropagation
  buildEpoch : UInt64
  deriving DecidableEq

namespace OutboundEntry

/-- What a captured build was made from. -/
def substance (entry : OutboundEntry) : Message × MessageState × Option OutboundPropagation :=
  (entry.message, entry.state, entry.propagation)

def setState (entry : OutboundEntry) (state : MessageState) (epochs : BuildEpochs) : OutboundEntry × BuildEpochs :=
  if entry.state = state then (entry, epochs)
  else ({ entry with state, buildEpoch := epochs.next }, epochs.advance)

def setMessageStamp (entry : OutboundEntry) (stamp : Bytes) (epochs : BuildEpochs) :
    Except MessageError (OutboundEntry × BuildEpochs) :=
  if entry.message.stamp = some stamp then .ok (entry, epochs)
  else (entry.message.setStamp stamp).map
    (fun message => ({ entry with message, buildEpoch := epochs.next }, epochs.advance))

def setPropagation (entry : OutboundEntry) (propagation : Option OutboundPropagation) (epochs : BuildEpochs) :
    OutboundEntry × BuildEpochs :=
  if entry.propagation = propagation then (entry, epochs)
  else ({ entry with propagation, buildEpoch := epochs.next }, epochs.advance)

def setPropagationStamp (entry : OutboundEntry) (stamp : FixedBytes 32) (epochs : BuildEpochs) :
    OutboundEntry × BuildEpochs :=
  match entry.propagation with
  | none => (entry, epochs)
  | some prepared =>
    if prepared.stamp = some stamp then (entry, epochs)
    else
      ({ entry with propagation := some { prepared with stamp := some stamp }, buildEpoch := epochs.next },
        epochs.advance)

/-- Point the prepared envelope at another node's cost; the stamp made for the old one goes. -/
def retargetPropagation (entry : OutboundEntry) (targetCost : Option UInt8) (epochs : BuildEpochs) :
    OutboundEntry × BuildEpochs :=
  match entry.propagation with
  | none => (entry, epochs)
  | some prepared =>
    if prepared.targetCost = targetCost then (entry, epochs)
    else
      ({ entry with propagation := some { prepared with targetCost, stamp := none }, buildEpoch := epochs.next },
        epochs.advance)

def charge (entry : OutboundEntry) : OutboundEntry := { entry with attempts := min (entry.attempts + 1) 255 }

end OutboundEntry

/-- How a write moves an entry and the epoch counter: what a build was made from stays and so does the
epoch, or the entry carries a fresh one. -/
structure Revised (old new : OutboundEntry) (before after : BuildEpochs) : Prop where
  forward : before.minted ≤ after.minted
  kept : new.buildEpoch = old.buildEpoch ∧ new.substance = old.substance ∨
    ∃ minted, before.minted ≤ minted ∧ minted < after.minted ∧ new.buildEpoch = UInt64.ofNat minted
  method : new.message.method = old.message.method
  id : new.message.messageId = old.message.messageId
  destination : new.message.destinationHash = old.message.destinationHash

namespace Revised

variable {old middle new : OutboundEntry} {before during after : BuildEpochs}

theorem refl (entry : OutboundEntry) (epochs : BuildEpochs) : Revised entry entry epochs epochs :=
  ⟨Nat.le_refl _, .inl ⟨rfl, rfl⟩, rfl, rfl, rfl⟩

theorem trans (first : Revised old middle before during) (second : Revised middle new during after) :
    Revised old new before after where
  forward := first.forward.trans second.forward
  kept := by
    rcases second.kept with ⟨epoch, substance⟩ | ⟨minted, above, below, epoch⟩
    · rcases first.kept with ⟨epoch', substance'⟩ | ⟨minted, above, below, epoch'⟩
      · exact .inl ⟨epoch.trans epoch', substance.trans substance'⟩
      · exact .inr ⟨minted, above, Nat.lt_of_lt_of_le below second.forward, epoch.trans epoch'⟩
    · exact .inr ⟨minted, first.forward.trans above, below, epoch⟩
  method := second.method.trans first.method
  id := second.id.trans first.id
  destination := second.destination.trans first.destination

theorem bookkeeping (entry : OutboundEntry) (attempts nextAttemptMs : Nat) (progress : Progress)
    (epochs : BuildEpochs) : Revised entry { entry with attempts, nextAttemptMs, progress } epochs epochs :=
  ⟨Nat.le_refl _, .inl ⟨rfl, rfl⟩, rfl, rfl, rfl⟩

theorem fresh (epoch : new.buildEpoch = before.next) (method : new.message.method = old.message.method)
    (id : new.message.messageId = old.message.messageId)
    (destination : new.message.destinationHash = old.message.destinationHash) :
    Revised old new before before.advance :=
  ⟨Nat.le_succ _, .inr ⟨before.minted, Nat.le_refl _, Nat.lt_succ_self _, epoch⟩, method, id, destination⟩

theorem setState (entry : OutboundEntry) (state : MessageState) (epochs : BuildEpochs) :
    Revised entry (entry.setState state epochs).1 epochs (entry.setState state epochs).2 := by
  unfold OutboundEntry.setState
  split
  · exact refl entry epochs
  · exact fresh rfl rfl rfl rfl

theorem setPropagation (entry : OutboundEntry) (propagation : Option OutboundPropagation) (epochs : BuildEpochs) :
    Revised entry (entry.setPropagation propagation epochs).1 epochs (entry.setPropagation propagation epochs).2 := by
  unfold OutboundEntry.setPropagation
  split
  · exact refl entry epochs
  · exact fresh rfl rfl rfl rfl

theorem setPropagationStamp (entry : OutboundEntry) (stamp : FixedBytes 32) (epochs : BuildEpochs) :
    Revised entry (entry.setPropagationStamp stamp epochs).1 epochs (entry.setPropagationStamp stamp epochs).2 := by
  unfold OutboundEntry.setPropagationStamp
  split
  · exact refl entry epochs
  · split
    · exact refl entry epochs
    · exact fresh rfl rfl rfl rfl

theorem retargetPropagation (entry : OutboundEntry) (cost : Option UInt8) (epochs : BuildEpochs) :
    Revised entry (entry.retargetPropagation cost epochs).1 epochs (entry.retargetPropagation cost epochs).2 := by
  unfold OutboundEntry.retargetPropagation
  split
  · exact refl entry epochs
  · split
    · exact refl entry epochs
    · exact fresh rfl rfl rfl rfl

theorem setMessageStamp {entry stamped : OutboundEntry} {stamp : Bytes} {epochs epochs' : BuildEpochs}
    (ok : entry.setMessageStamp stamp epochs = .ok (stamped, epochs')) : Revised entry stamped epochs epochs' := by
  unfold OutboundEntry.setMessageStamp at ok
  split at ok
  · cases ok
    exact refl entry epochs
  · cases set : entry.message.setStamp stamp with
    | error _ => rw [set] at ok; cases ok
    | ok message =>
      rw [set] at ok
      cases ok
      obtain rfl := Message.setStamp_eq_ok set
      exact fresh rfl rfl rfl rfl

end Revised

end Leviculum.Router
