import Leviculum.Store.BoardList
import Leviculum.Store.PnStore

/-! The peer table of the board and the announces it recalls, both records of the message log. -/

namespace Leviculum.Store

open Propagation

def tagPeer : UInt8 := 0xA0

def tagRecall : UInt8 := 0xA2

structure PeerRecord where
  destinationHash : DestinationHash
  identityHash : Option (FixedBytes 16)
  publicKeys : Option (FixedBytes 64)
  peeringKey : Option (FixedBytes 32 × UInt16)
  transferLimitKb : Nat
  syncLimitKb : Nat
  stampCost : UInt8
  stampCostFlexibility : UInt8
  peeringCost : UInt8
  peeringTimebase : Nat
  lastHeard : Nat
  cursor : Nat
  isStatic : Bool
  deriving DecidableEq

def peerVersion : UInt8 := 1

def peerRecordLen : Nat := 167

def u32Max : Nat := 2 ^ 32 - 1

def peerFlags (record : PeerRecord) : UInt8 :=
  (if record.identityHash.isSome then 0x01 else 0) ||| (if record.peeringKey.isSome then 0x02 else 0) |||
    (if record.isStatic then 0x04 else 0) ||| (if record.publicKeys.isSome then 0x08 else 0)

def slotOf {n : Nat} (field : Option (FixedBytes n)) : Bytes := field.elim (List.replicate n 0) Subtype.val

def encodePeerRecord (record : PeerRecord) : Bytes :=
  [peerVersion, peerFlags record] ++ record.destinationHash.val ++ slotOf record.identityHash ++
    slotOf (record.peeringKey.map Prod.fst) ++
    Bytes.le 2 (record.peeringKey.elim 0 (fun key => key.2.toNat)) ++
    Bytes.le 4 (min record.transferLimitKb u32Max) ++ Bytes.le 4 (min record.syncLimitKb u32Max) ++
    [record.stampCost, record.stampCostFlexibility, record.peeringCost] ++
    Bytes.le 8 record.peeringTimebase ++ Bytes.le 8 record.lastHeard ++ Bytes.le 8 record.cursor ++
    slotOf record.publicKeys

theorem length_slotOf {n : Nat} (field : Option (FixedBytes n)) : (slotOf field).length = n := by
  cases field with
  | none => exact List.length_replicate ..
  | some bytes => exact bytes.property

theorem length_encodePeerRecord (record : PeerRecord) : (encodePeerRecord record).length = peerRecordLen := by
  have destination := record.destinationHash.property
  simp only [encodePeerRecord, List.length_append, length_slotOf, Bytes.length_le, destination,
    List.length_cons, List.length_nil]
  rfl

/-- A peer record's log key: the destination hash, zero-padded. -/
def peerKey (destinationHash : DestinationHash) : Key :=
  ⟨destinationHash.val ++ List.replicate 16 0, by
    rw [List.length_append, destinationHash.property, List.length_replicate]⟩

structure PnPeerStore where
  region : List Page
  queue : List FlushOp
  /-- Saves not yet flushed, newest last. -/
  pending : List PeerRecord
  /-- Destinations removed but not yet flushed. -/
  removed : List DestinationHash

namespace PnPeerStore

def isPurgeMasked (store : PnPeerStore) (offset : Nat) : Bool :=
  store.queue.any (fun op => op.purges offset)

def isPeer (key : Key) (record : RawRecord) : Bool :=
  record.live && record.tag == tagPeer && record.key == key

def supersede (queue : List FlushOp) (key : Key) : List FlushOp := queue.filter (fun op => !op.appends key)

def savedEntry (record : PeerRecord) : Entry :=
  ⟨peerKey record.destinationHash, min record.lastHeard u32Max, tagPeer, encodePeerRecord record⟩

/-- Append the new record, then purge the old ones. -/
def save (store : PnPeerStore) (record : PeerRecord) : PnPeerStore :=
  let key := peerKey record.destinationHash
  { store with
    queue := queuePurges store.region (isPeer key) key
      (supersede store.queue key ++ [.append (savedEntry record)])
    pending := store.pending.filter (fun held => held.destinationHash ≠ record.destinationHash) ++ [record]
    removed := store.removed.filter (fun held => held ≠ record.destinationHash) }

def remove (store : PnPeerStore) (destinationHash : DestinationHash) : PnPeerStore :=
  let key := peerKey destinationHash
  { store with
    queue := queuePurges store.region (isPeer key) key (supersede store.queue key)
    pending := store.pending.filter (fun held => held.destinationHash ≠ destinationHash)
    removed := store.removed ++ [destinationHash] }

def announced (key : Key) (op : FlushOp) : Option Bytes :=
  op.entry.bind (fun entry => if entry.tag = tagRecall ∧ entry.key = key then some entry.body else none)

end PnPeerStore

end Leviculum.Store
