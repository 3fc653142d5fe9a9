import Leviculum.Propagation.Message

/-! Peer sync: what a node offers a peer, and which of the wanted messages one answer carries. -/

namespace Leviculum.Propagation

/-- What the offering side reads of a peer. -/
structure Peer where
  cursor : Nat
  stampCost : UInt8
  stampCostFlexibility : UInt8
  transferLimitKb : Nat
  syncLimitKb : Nat
  deriving DecidableEq

namespace Peer

/-- `saturating_mul(1000)` over `u64`. -/
def bytesOfKb (kb : Nat) : Nat := min (kb * 1000) (2 ^ 64 - 1)

def minAcceptedCost (peer : Peer) : Nat := peer.stampCost.toNat - peer.stampCostFlexibility.toNat

def transferLimitBytes (peer : Peer) : Nat := bytesOfKb peer.transferLimitKb

def syncLimitBytes (peer : Peer) : Nat := bytesOfKb peer.syncLimitKb

end Peer

def offerKeyBytes : Nat := 35

def offerIdBytes : Nat := 34

/-- The smallest budget that can still carry one id. -/
def offerProbeBudget : Nat := offerKeyBytes + 1 + offerIdBytes

def offerPerMessageOverhead : Nat := 16

def offerBaseSize : Nat := 24

def arrayHeaderLen (count : Nat) : Nat := if count < 16 then 1 else if count < 65536 then 3 else 5

def binHeaderLen (length : Nat) : Nat := if length < 256 then 2 else if length < 65536 then 3 else 5

def offerEncodedLen (idCount : Nat) : Nat :=
  offerKeyBytes + (if idCount ≤ 15 then 1 else if idCount ≤ 65535 then 3 else 5) + idCount * offerIdBytes

structure OfferPlan where
  ids : List TransientId
  /-- Where the cursor lands when the round concludes. -/
  cursorTarget : Nat
  skippedOversize : Nat
  skippedLowValue : Nat
  deriving DecidableEq

structure OfferBuilder where
  plan : OfferPlan
  initialCursor : Nat
  minValue : Nat
  transferLimitBytes : Nat
  syncLimitBytes : Nat
  offerBudget : Nat
  cumulative : Nat
  stopped : Bool

def OfferBuilder.new (peer : Peer) (offerBudget : Nat) : OfferBuilder where
  plan := ⟨[], peer.cursor, 0, 0⟩
  initialCursor := peer.cursor
  minValue := peer.minAcceptedCost
  transferLimitBytes := peer.transferLimitBytes
  syncLimitBytes := peer.syncLimitBytes
  offerBudget := offerBudget
  cumulative := offerBaseSize
  stopped := false

def StoredMessage.transferSize (entry : StoredMessage) : Nat := entry.size + offerPerMessageOverhead

namespace OfferBuilder

/-- Take one entry; whether the walk stops. -/
def push (builder : OfferBuilder) (entry : StoredMessage) : OfferBuilder × Bool :=
  if builder.stopped then (builder, true)
  else if entry.sequence ≤ builder.initialCursor then (builder, false)
  else if entry.stampValue.toNat < builder.minValue then
    ({ builder with plan := { builder.plan with
        skippedLowValue := builder.plan.skippedLowValue + 1, cursorTarget := entry.sequence } }, false)
  else if entry.transferSize > builder.transferLimitBytes then
    ({ builder with plan := { builder.plan with
        skippedOversize := builder.plan.skippedOversize + 1, cursorTarget := entry.sequence } }, false)
  else if builder.cumulative + entry.transferSize ≥ builder.syncLimitBytes ∨
      offerEncodedLen (builder.plan.ids.length + 1) > builder.offerBudget then
    ({ builder with stopped := true }, true)
  else
    ({ builder with
        cumulative := builder.cumulative + entry.transferSize
        plan := { builder.plan with
          ids := builder.plan.ids ++ [entry.transientId], cursorTarget := entry.sequence } }, false)

def pushAll (builder : OfferBuilder) : List StoredMessage → OfferBuilder
  | [] => builder
  | entry :: rest =>
    let pushed := builder.push entry
    if pushed.2 then pushed.1 else pushed.1.pushAll rest

def finish (builder : OfferBuilder) : Option OfferPlan :=
  if builder.plan.ids = [] ∧ builder.plan.cursorTarget = builder.initialCursor then none
  else some builder.plan

end OfferBuilder

def buildOffer (peer : Peer) (entries : List StoredMessage) (offerBudget : Nat) : Option OfferPlan :=
  ((OfferBuilder.new peer offerBudget).pushAll entries).finish

inductive PeerError where
  | noIdentity
  | noAccess
  | invalidKey
  | invalidData
  | invalidStamp
  | throttled
  | notFound
  | timeout
  deriving DecidableEq

inductive OfferResponse where
  | wantNone
  | wantAll
  | wanted (ids : List TransientId)
  | error (error : PeerError)
  deriving DecidableEq

/-- Which of a plan's ids a response asks for. -/
inductive WantedIds where
  | all
  | listed (ids : List TransientId)
  deriving DecidableEq

def WantedIds.wants (wanted : WantedIds) (id : TransientId) : Bool :=
  match wanted with
  | .all => true
  | .listed ids => decide (id ∈ ids)

def syncEnvelopeHeadBytes : Nat := 10

def syncEnvelopeLen (count bins : Nat) : Nat := syncEnvelopeHeadBytes + arrayHeaderLen count + bins

structure SyncBatch where
  count : Nat
  /-- Plan index one past the last id the batch walked. -/
  stop : Nat
  payload : Nat
  encodedLen : Nat
  /-- Wanted ids still in the store that the batch stopped before. -/
  withheld : Nat
  cursorTarget : Nat
  deriving DecidableEq

/-- One message's directory entry: the first one of a directory pass. -/
def metaOf (entries : List StoredMessage) (id : TransientId) : Option StoredMessage :=
  entries.find? (fun entry => entry.transientId == id)

/-- A batch being planned, with the bytes of its bins. -/
structure BatchPlan where
  batch : SyncBatch
  bins : Nat

def batchStep (entries : List StoredMessage) (wanted : WantedIds) (fits : Nat → Nat → Nat → Bool)
    (state : BatchPlan) (next : TransientId × Nat) : BatchPlan :=
  if wanted.wants next.1 = false then state
  else
    match metaOf entries next.1 with
    | none => state
    | some found =>
      if state.batch.withheld > 0 then
        { state with batch := { state.batch with withheld := state.batch.withheld + 1 } }
      else
        let nextBins := state.bins + binHeaderLen found.size + found.size
        let nextLen := syncEnvelopeLen (state.batch.count + 1) nextBins
        let nextPayload := state.batch.payload + found.size
        if fits (state.batch.count + 1) nextLen nextPayload = false then
          { state with batch := { state.batch with withheld := 1, cursorTarget := found.sequence - 1 } }
        else
          { bins := nextBins
            batch := { state.batch with
              count := state.batch.count + 1
              payload := nextPayload
              encodedLen := nextLen
              stop := next.2 + 1 } }

/-- The longest prefix of the wanted messages, in plan order, that fits. A directory that cannot be
read aborts the plan. -/
def planSyncBatch (directory : Except StorageError (List StoredMessage)) (plan : OfferPlan)
    (wanted : WantedIds) (fits : Nat → Nat → Nat → Bool) : Except StorageError SyncBatch :=
  match directory with
  | .error error => if plan.ids.any wanted.wants then .error error else .ok
      { count := 0, stop := 0, payload := 0, encodedLen := syncEnvelopeLen 0 0, withheld := 0
        cursorTarget := plan.cursorTarget }
  | .ok entries =>
    let planned := plan.ids.zipIdx.foldl (batchStep entries wanted fits)
      { batch := { count := 0, stop := 0, payload := 0, encodedLen := syncEnvelopeLen 0 0, withheld := 0
                   cursorTarget := plan.cursorTarget }
        bins := 0 }
    .ok { planned.batch with encodedLen := syncEnvelopeLen planned.batch.count planned.bins }

end Leviculum.Propagation
