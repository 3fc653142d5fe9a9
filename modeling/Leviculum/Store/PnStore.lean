import Leviculum.Store.Flush
import Leviculum.Propagation.Message
import Mathlib.Data.List.Sort

/-! The message store of the board: messages are the records of the log under a tag up to 0x7F,
and every write waits in a queue until the record-store task has performed it. -/

namespace Leviculum.Store

open Propagation

def messageTagMax : UInt8 := 0x7F

/-- `value.min(MESSAGE_TAG_MAX)`. -/
def messageTag (value : UInt8) : UInt8 := if value ≤ messageTagMax then value else messageTagMax

structure PnStore where
  region : List Page
  queue : List FlushOp
  deriving DecidableEq

/-- Every valid page, oldest first. -/
def pageOrder (region : List Page) : List (Nat × Nat) :=
  (region.zipIdx.filterMap (fun page => page.1.seq.map (fun seq => (seq, page.2)))).insertionSort
    (fun page other => page.1 < other.1 ∨ (page.1 = other.1 ∧ page.2 ≤ other.2))

/-- Whether this is a plain purge aimed at the offset. -/
def FlushOp.purges (op : FlushOp) (offset : Nat) : Bool :=
  match op with
  | .purge target _ => target == offset
  | _ => false

def FlushOp.appends (op : FlushOp) (key : Key) : Bool := op.entry.any (fun entry => entry.key == key)

def queuePurge (own : RawRecord → Bool) (key : Key) (queue : List FlushOp) (record : RawRecord) :
    List FlushOp :=
  if own record && !queue.any (fun op => op.purges record.offset) then queue ++ [.purge record.offset key]
  else queue

def queuePurges (region : List Page) (own : RawRecord → Bool) (key : Key) (queue : List FlushOp) :
    List FlushOp := (scan region).foldl (queuePurge own key) queue

namespace PnStore

/-- Whether a queued purge hides what stands at this offset. -/
def isPurgeMasked (store : PnStore) (offset : Nat) : Bool :=
  store.queue.any (fun op => op.target.any (fun target => target.1 == offset))

def pendingAppendBody (store : PnStore) (key : Key) : Option Bytes :=
  store.queue.reverse.findSome? (fun op =>
    op.entry.bind (fun entry => if entry.key = key then some entry.body else none))

def isMessage (record : RawRecord) : Bool := record.live && decide (record.tag ≤ messageTagMax)

/-- The durable messages no queued purge hides. -/
def scanMessages (store : PnStore) : List RawRecord :=
  (scan store.region).filter (fun record => isMessage record && !store.isPurgeMasked record.offset)

/-- The directory entry of a record, when its body is long enough for one. -/
def stored (record : RawRecord) : Option StoredMessage :=
  if record.body.length < minBodyLen then none
  else
    (FixedBytes.take? destinationLength record.body).map (fun destinationHash =>
      { transientId := record.key
        destinationHash := destinationHash
        size := record.body.length
        receivedAt := record.time
        stampValue := record.tag
        sequence := record.sequence })

def forEach (store : PnStore) : List StoredMessage := store.scanMessages.filterMap stored

def forEachOrdered (store : PnStore) : List StoredMessage :=
  (((pageOrder store.region).flatMap (fun page =>
    scanPage page.2 (store.region.getD page.2 .erased))).filter
      (fun record => isMessage record && !store.isPurgeMasked record.offset)).filterMap stored

def append (store : PnStore) (transientId : TransientId) (receivedAt : Nat) (stampValue : UInt8)
    (body : Bytes) : Except StorageError PnStore :=
  if body.length < minBodyLen then .error .corrupt
  else if body.length > maxBody then .error .full
  else
    .ok { store with queue := store.queue ++
      [.append ⟨transientId, min receivedAt (2 ^ 32 - 1), messageTag stampValue, body⟩] }

/-- What a re-price appends: the first visible record of the id under another tag. -/
def repriced (store : PnStore) (transientId : TransientId) (value : UInt8) : Option Entry :=
  (store.scanMessages.find? (fun record =>
    record.key == transientId && record.tag != messageTag value)).map (fun record =>
      ⟨transientId, record.time, messageTag value, record.body⟩)

/-- Queue the record of an id re-written under a new tag, and the purge of its older records. -/
def setStampValue (store : PnStore) (transientId : TransientId) (value : UInt8) : Bool × PnStore :=
  match store.repriced transientId value with
  | none => (false, store)
  | some entry =>
    (true, { store with
      queue := queuePurges store.region (fun record => isMessage record && record.key == transientId)
        transientId (store.queue ++ [.append entry]) })

/-- Queue the purge, or drop an append that was not flushed yet. -/
def purge (store : PnStore) (transientId : TransientId) : Bool × PnStore :=
  match store.queue.findIdx? (fun op => op.appends transientId) with
  | some found => (true, { store with queue := store.queue.eraseIdx found })
  | none =>
    match store.scanMessages.find? (fun record => record.key == transientId) with
    | some record => (true, { store with queue := store.queue ++ [.purge record.offset transientId] })
    | none => (false, store)

/-- A queued purge keeps its exact target, so that its landing can be reported. -/
def purgeConfirmed (store : PnStore) (transientId : TransientId) :
    Except StorageError ConfirmedPurge × PnStore :=
  let purged := store.purge transientId
  if purged.1 = false then (.ok .absent, purged.2)
  else if purged.2.queue.length ≤ store.queue.length then (.ok .committed, purged.2)
  else
    match purged.2.queue.getLast? with
    | some (.purge offset key) =>
      (.ok .queued, { purged.2 with queue := purged.2.queue.dropLast ++ [.confirmedPurge offset key] })
    | _ => (.error .corrupt, purged.2)

def contains (store : PnStore) (transientId : TransientId) : Bool :=
  (store.pendingAppendBody transientId).isSome ||
    store.scanMessages.any (fun record => record.key == transientId)

def capacity (store : PnStore) : Nat := store.region.length * sectorPayload

/-- Bytes a body could still use: the capacity less the live records and the queued appends. -/
def freeSpace (store : PnStore) : Nat :=
  store.capacity -
    (((scan store.region).filter (fun record => record.live && !store.isPurgeMasked record.offset)).map
      (fun record => record.stride)).sum -
    (store.queue.map (fun op => op.entry.elim 0 Entry.stride)).sum

end PnStore

end Leviculum.Store
