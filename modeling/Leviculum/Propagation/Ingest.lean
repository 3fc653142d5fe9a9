import Leviculum.Store.PnStore
import Mathlib.Data.List.AList

/-! What the propagation role asks of a store, and two stores it runs over: the one in memory, and the
one of the board. -/

namespace Leviculum.Propagation

/-- The verbs of a store. A failed append leaves the store as it was. -/
class PropagationStore (Store : Type) where
  append : Store → TransientId → Nat → UInt8 → Bytes → Except StorageError Store
  /-- Every stored message's directory entry. -/
  forEach : Store → Except StorageError (List StoredMessage)
  /-- Remove one message; whether it was present. -/
  purge : Store → TransientId → Except StorageError Bool × Store
  purgeConfirmed : Store → TransientId → Except StorageError ConfirmedPurge × Store
  freeSpace : Store → Nat
  spaceRequired : Store → Nat → Nat
  contains : Store → TransientId → Except StorageError Bool

/-- The default of the trait: a purge that found the message is committed. -/
def confirmPurge {Store : Type} (purged : Except StorageError Bool × Store) :
    Except StorageError ConfirmedPurge × Store :=
  (purged.1.map (fun present => if present then .committed else .absent), purged.2)

structure MemoryEntry where
  receivedAt : Nat
  stampValue : UInt8
  sequence : Nat
  body : Bytes
  long : minBodyLen ≤ body.length
  deriving DecidableEq

abbrev MemoryEntries := AList (fun _ : TransientId => MemoryEntry)

def bodyBytes (entries : List (Sigma (fun _ : TransientId => MemoryEntry))) : Nat :=
  (entries.map (fun entry => entry.2.body.length)).sum

theorem bodyBytes_kerase (id : TransientId) (entries : List (Sigma (fun _ : TransientId => MemoryEntry))) :
    bodyBytes (entries.kerase id) + (entries.dlookup id).elim 0 (fun entry => entry.body.length) =
      bodyBytes entries := by
  induction entries with
  | nil => rfl
  | cons entry rest ih =>
    by_cases same : id = entry.1
    · subst same
      rw [List.kerase_cons_eq rfl, List.dlookup_cons_eq]
      exact Nat.add_comm _ _
    · rw [List.kerase_cons_ne same, List.dlookup_cons_ne _ _ same]
      unfold bodyBytes at ih ⊢
      rw [List.map_cons, List.sum_cons, List.map_cons, List.sum_cons, Nat.add_assoc, ih]

/-- The store in memory: capacity counts body bytes only. -/
structure MemoryPropagationStore where
  entries : MemoryEntries
  capacity : Nat
  used : Nat
  nextSequence : Nat
  accounted : used = bodyBytes entries.entries
  bounded : used ≤ capacity

namespace MemoryPropagationStore

def new (capacity : Nat) : MemoryPropagationStore := ⟨∅, capacity, 0, 0, rfl, Nat.zero_le _⟩

/-- Body bytes an append under this id would replace. -/
def replaced (store : MemoryPropagationStore) (id : TransientId) : Nat :=
  (store.entries.lookup id).elim 0 (fun entry => entry.body.length)

theorem bodyBytes_erase (store : MemoryPropagationStore) (id : TransientId) :
    bodyBytes (store.entries.erase id).entries + store.replaced id = store.used :=
  (bodyBytes_kerase id store.entries.entries).trans store.accounted.symm

theorem bodyBytes_insert (store : MemoryPropagationStore) (id : TransientId) (entry : MemoryEntry) :
    store.used - store.replaced id + entry.body.length = bodyBytes (store.entries.insert id entry).entries := by
  rw [AList.entries_insert, bodyBytes, List.map_cons, List.sum_cons, ← bodyBytes_erase store id,
    Nat.add_sub_cancel, Nat.add_comm]
  rfl

theorem bodyBytes_purge (store : MemoryPropagationStore) (id : TransientId) :
    store.used - store.replaced id = bodyBytes (store.entries.erase id).entries := by
  rw [← bodyBytes_erase store id, Nat.add_sub_cancel]

def append (store : MemoryPropagationStore) (id : TransientId) (receivedAt : Nat) (stampValue : UInt8)
    (body : Bytes) : Except StorageError MemoryPropagationStore :=
  if long : minBodyLen ≤ body.length then
    if fits : store.used - store.replaced id + body.length ≤ store.capacity then
      .ok {
        entries := store.entries.insert id ⟨receivedAt, stampValue, store.nextSequence + 1, body, long⟩
        capacity := store.capacity
        used := store.used - store.replaced id + body.length
        nextSequence := store.nextSequence + 1
        accounted := bodyBytes_insert store id ⟨receivedAt, stampValue, store.nextSequence + 1, body, long⟩
        bounded := fits }
    else .error .full
  else .error .corrupt

def ascending (store : MemoryPropagationStore) : List (Sigma (fun _ : TransientId => MemoryEntry)) :=
  store.entries.entries.insertionSort (fun entry other => Bytes.ofBe entry.1.val ≤ Bytes.ofBe other.1.val)

theorem destination_length (entry : MemoryEntry) :
    (entry.body.take destinationLength).length = destinationLength := by
  rw [List.length_take]
  exact Nat.min_eq_left (Nat.le_trans (Nat.le_add_right _ _) entry.long)

def directoryEntry (id : TransientId) (entry : MemoryEntry) : StoredMessage where
  transientId := id
  destinationHash := ⟨entry.body.take destinationLength, destination_length entry⟩
  size := entry.body.length
  receivedAt := entry.receivedAt
  stampValue := entry.stampValue
  sequence := entry.sequence

def forEach (store : MemoryPropagationStore) : List StoredMessage :=
  store.ascending.map (fun entry => directoryEntry entry.1 entry.2)

def purge (store : MemoryPropagationStore) (id : TransientId) : Bool × MemoryPropagationStore :=
  ((store.entries.lookup id).isSome, {
    entries := store.entries.erase id
    capacity := store.capacity
    used := store.used - store.replaced id
    nextSequence := store.nextSequence
    accounted := bodyBytes_purge store id
    bounded := Nat.le_trans (Nat.sub_le _ _) store.bounded })

def freeSpace (store : MemoryPropagationStore) : Nat := store.capacity - store.used

instance : PropagationStore MemoryPropagationStore where
  append := append
  forEach store := .ok store.forEach
  purge store id := (.ok (store.purge id).1, (store.purge id).2)
  purgeConfirmed store id := confirmPurge (.ok (store.purge id).1, (store.purge id).2)
  freeSpace := freeSpace
  spaceRequired _ length := length
  contains store id := .ok (store.entries.lookup id).isSome

end MemoryPropagationStore

instance : PropagationStore Store.PnStore where
  append := Store.PnStore.append
  forEach store := .ok store.forEach
  purge store id := (.ok (store.purge id).1, (store.purge id).2)
  purgeConfirmed := Store.PnStore.purgeConfirmed
  freeSpace := Store.PnStore.freeSpace
  spaceRequired _ length := length
  contains store id := .ok (store.contains id)

end Leviculum.Propagation

/-! How the propagation role takes an upload, and how it makes room for one the store has none for. -/

namespace Leviculum.Propagation

/-- The settings the role reads. -/
structure PropagationNodeConfig where
  stampCost : UInt8
  stampCostFlexibility : UInt8
  alwaysComputeStampValue : Bool
  /-- What one fetch may serve. -/
  serveLimitBytes : Option Nat
  /-- What the heap funds of it. -/
  serveCapBytes : Option Nat
  deriving DecidableEq

structure PropagationNode (Store : Type) where
  store : Store
  config : PropagationNodeConfig
  /-- Recently processed ids and when. -/
  processed : AList (fun _ : TransientId => Nat)
  computeStampValue : Bool

inductive EvictionReason where
  | displaced
  | expired
  deriving DecidableEq

structure Eviction where
  transientId : TransientId
  size : Nat
  ageSecs : Nat
  reason : EvictionReason
  deriving DecidableEq

inductive UploadOutcome where
  | accepted (transientId : TransientId) (destinationHash : DestinationHash) (size : Nat)
      (stampValue : UInt8) (duplicate : Bool) (evicted : List Eviction)
  | invalidStamp (reject : Bytes)
  | storeFailed (error : StorageError)
  deriving DecidableEq

def lxmfOverhead : Nat := 112

/-- A decoded upload: both of its sources refuse a message not longer than the overhead. -/
structure Upload where
  unstamped : Bytes
  stamp : FixedBytes 32
  transientId : TransientId
  long : lxmfOverhead < unstamped.length

namespace Upload

/-- What is stored: the message and its stamp. -/
def body (upload : Upload) : Bytes := upload.unstamped ++ upload.stamp.val

theorem destination_length (upload : Upload) :
    (upload.unstamped.take destinationLength).length = destinationLength := by
  rw [List.length_take]
  exact Nat.min_eq_left (Nat.le_trans (by decide : destinationLength ≤ lxmfOverhead) (Nat.le_of_lt upload.long))

def destinationHash (upload : Upload) : DestinationHash :=
  ⟨upload.unstamped.take destinationLength, upload.destination_length⟩

theorem minBodyLen_le (upload : Upload) : minBodyLen ≤ upload.body.length := by
  have long := upload.long
  have stamp := upload.stamp.property
  rw [body, List.length_append, stamp]
  unfold lxmfOverhead at long
  unfold minBodyLen destinationLength stampSize
  omega

end Upload

/-- `PropagationSignal::InvalidStamp` on the wire. -/
def invalidStampSignal : Bytes := [0x91, 0xcc, 0xf5]

/-- The cull weight: bytes times age in units of four days, never below one. -/
def cullWeight (ageSecs size : Nat) : Float :=
  let ratio := Float.ofNat ageSecs / (4.0 * 24.0 * 60.0 * 60.0)
  (if ratio < 1.0 then 1.0 else ratio) * Float.ofNat size

/-- The directory as candidates for eviction, heaviest first. -/
def cullOrder (entries : List StoredMessage) (nowSecs : Nat) : List Eviction :=
  ((entries.map (fun entry =>
      (cullWeight (nowSecs - entry.receivedAt) entry.size,
        (⟨entry.transientId, entry.size, nowSecs - entry.receivedAt, .displaced⟩ : Eviction)))).insertionSort
    (fun left right => ¬ left.1 < right.1)).map Prod.snd

section Role

variable {Store : Type} [PropagationStore Store]

open PropagationStore

/-- Purge the candidates in order until the store has room. -/
def displace (needed : Nat) : Store → List Eviction → List Eviction × Store
  | store, [] => ([], store)
  | store, eviction :: rest =>
    if needed ≤ freeSpace store then ([], store)
    else
      let purged := purge store eviction.transientId
      let later := displace needed purged.2 rest
      match purged.1 with
      | .ok true => (eviction :: later.1, later.2)
      | _ => later

def makeRoom (store : Store) (needed nowSecs : Nat) : List Eviction × Store :=
  match forEach store with
  | .ok entries => displace needed store (cullOrder entries nowSecs)
  | .error _ => ([], store)

namespace PropagationNode

def minAcceptedCost (node : PropagationNode Store) : Nat :=
  node.config.stampCost.toNat - node.config.stampCostFlexibility.toNat

/-- The value to store an upload under, or nothing when its stamp does not hold. -/
def stampValue (node : PropagationNode Store) (upload : Upload)
    (validate : TransientId → FixedBytes 32 → Option UInt16) : Option UInt8 :=
  if node.minAcceptedCost = 0 ∧ (node.config.alwaysComputeStampValue || node.computeStampValue) = false then
    some 0
  else
    (validate upload.transientId upload.stamp).map (fun value =>
      if value.toNat < 255 then UInt8.ofNat value.toNat else 255)

def isDuplicate (node : PropagationNode Store) (transientId : TransientId) : Bool :=
  (node.processed.lookup transientId).isSome ||
    match contains node.store transientId with
    | .ok held => held
    | .error _ => false

/-- Take an upload: store it, after making room when the store reports that it is full. -/
def ingestSplit (node : PropagationNode Store) (upload : Upload) (nowSecs : Nat)
    (validate : TransientId → FixedBytes 32 → Option UInt16) : UploadOutcome × PropagationNode Store :=
  match node.stampValue upload validate with
  | none => (.invalidStamp invalidStampSignal, node)
  | some value =>
    if node.isDuplicate upload.transientId then
      (.accepted upload.transientId upload.destinationHash upload.body.length value true [], node)
    else
      let stored : List Eviction × Store × Option StorageError :=
        match append node.store upload.transientId nowSecs value upload.body with
        | .ok store => ([], store, none)
        | .error .full =>
          let room := makeRoom node.store (spaceRequired node.store upload.body.length) nowSecs
          match append room.2 upload.transientId nowSecs value upload.body with
          | .ok store => (room.1, store, none)
          | .error error => (room.1, room.2, some error)
        | .error error => ([], node.store, some error)
      match stored.2.2 with
      | some error => (.storeFailed error, { node with store := stored.2.1 })
      | none =>
        (.accepted upload.transientId upload.destinationHash upload.body.length value false stored.1,
          { node with
            store := stored.2.1
            processed := node.processed.insert upload.transientId nowSecs })

end PropagationNode

end Role

end Leviculum.Propagation
