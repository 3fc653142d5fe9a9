import Leviculum.Store.Ring

/-! What saving or removing a peer leaves of the announces that share its log. -/

namespace Leviculum.Store

open Propagation RecordLog PnPeerStore

def isAnnounce (key : Key) (record : RawRecord) : Bool :=
  record.live && record.tag == tagRecall && record.key == key

def drained (log : RecordLog) (store : PnPeerStore) : PnPeerStore := ⟨(log.flushed store.queue).region, [], [], []⟩

/-- The record is an announce of the key, or one of the key's that a queued purge is aimed at. -/
def Matters (queue : List FlushOp) (key : Key) (record : RawRecord) : Prop :=
  isAnnounce key record = true ∨ record.key = key ∧ ∃ op ∈ queue, op.target = some (record.offset, key)

/-- The flush reclaims no page with a record on it that matters to the key, and is shorter than a lap. -/
def Spares (log : RecordLog) (queue : List FlushOp) (key : Key) : Prop :=
  (log.flushed queue).seq < log.seq + log.region.length ∧
    ∀ record ∈ scan log.region, Matters queue key record →
      (log.flushed queue).seq < record.pageSeq + log.region.length

section Flush

variable {log : RecordLog} {store : PnPeerStore} {key : Key}

end Flush

inductive PeerChange where
  | save (record : PeerRecord)
  | remove (destinationHash : DestinationHash)

namespace PeerChange

def destination : PeerChange → DestinationHash
  | .save record => record.destinationHash
  | .remove destinationHash => destinationHash

def apply (store : PnPeerStore) : PeerChange → PnPeerStore
  | .save record => store.save record
  | .remove destinationHash => store.remove destinationHash

def append : PeerChange → List FlushOp
  | .save record => [.append (savedEntry record)]
  | .remove _ => []

end PeerChange

section Change

variable {log : RecordLog} {store : PnPeerStore} {change : PeerChange}

end Change

instance (queue : List FlushOp) (key : Key) (record : RawRecord) : Decidable (Matters queue key record) :=
  inferInstanceAs (Decidable (_ ∨ _))

instance (log : RecordLog) (queue : List FlushOp) (key : Key) : Decidable (Spares log queue key) :=
  inferInstanceAs (Decidable (_ ∧ _))

end Leviculum.Store
