import Leviculum.Propagation.Envelope
import Leviculum.Propagation.Ingest

/-! The `/get` exchange: a client lists its mailbox, or fetches from it and confirms what it took. -/

namespace Leviculum.Propagation

open Fallible (exec)
open Msgpack.Lxmf (Rmp Reader arrayLen readBin readNil readUint readNumber peekKind skip)

inductive PropagationError where
  | truncated
  | invalidType
  | invalidLength
  | multipleMessages
  | invalidValue
  | overflow
  | trailingData
  | wrongDestination
  | decryption
  deriving DecidableEq

def PropagationError.ofMsgpack : Msgpack.Error → PropagationError
  | .truncated => .truncated
  | .type => .invalidType
  | .overflow => .overflow
  | .trailing => .trailingData
  | .depth => .invalidType

/-- A limit in kilobytes as the client packed it. -/
inductive TransferLimit where
  | integer (kb : Nat)
  | float (kb : Float)

structure MessageGetRequest where
  wants : Option (List TransientId)
  haves : Option (List TransientId)
  transferLimitKb : Option TransferLimit

/-- A decoder of a request; the state is the position. -/
abbrev Decoder (Value : Type) := Parsing.Parser UInt8 PropagationError Value

/-- A msgpack reader with its errors as the decoder reports them. -/
def decoding {Value : Type} (reader : Reader Value) : Decoder Value := fun data =>
  ExceptT.adapt PropagationError.ofMsgpack (reader data)

def reserveGuard (count : Nat) : Decoder Unit := fun data => do
  let position ← get
  if count > data.length - position then throw .invalidLength

def finish : Decoder Unit := fun data => do
  let position ← get
  if position ≠ data.length then throw .trailingData

section Decoding

variable (library : Rmp)

def decodeFixedBin (n : Nat) : Decoder (FixedBytes n) := fun data => do
  let bytes ← decoding (readBin library) data
  if size : bytes.length = n then return ⟨bytes, size⟩ else throw .invalidLength

/-- The loop of `decode_ids`. -/
def decodeIdList : Nat → Decoder (List TransientId)
  | 0 => fun _ => pure []
  | count + 1 => fun data => do
    let id ← decodeFixedBin library 32 data
    let ids ← decodeIdList count data
    return id :: ids

def decodeIds : Decoder (List TransientId) := fun data => do
  let count ← decoding (arrayLen library) data
  reserveGuard count data
  decodeIdList library count data

def decodeOptionalIds : Decoder (Option (List TransientId)) := fun data => do
  let kind ← decoding (peekKind library) data
  if kind = .nil then
    decoding readNil data
    return none
  else
    let ids ← decodeIds library data
    return some ids

def decodeTransferLimit : Decoder TransferLimit := fun data => do
  let kind ← decoding (peekKind library) data
  if kind = .float then
    let kb ← decoding (readNumber library) data
    return .float (Float.ofBits kb.asF64)
  else
    let kb ← decoding (readUint library) data
    return .integer kb.toNat

def decodeThird (count : Nat) : Decoder (Option TransferLimit) := fun data => do
  if count ≥ 3 then
    let limit ← decodeTransferLimit library data
    return some limit
  else return none

def skipElements : Nat → Decoder Unit
  | 0 => fun _ => pure ()
  | count + 1 => fun data => do
    decoding (skip library.fromU8) data
    skipElements count data

namespace MessageGetRequest

/-- Elements past the third are skipped. -/
def decoder : Decoder MessageGetRequest := fun data => do
  let count ← decoding (arrayLen library) data
  if count < 2 then throw .invalidLength
  else
    let wants ← decodeOptionalIds library data
    let haves ← decodeOptionalIds library data
    let transferLimitKb ← decodeThird library count data
    skipElements library (count - 3) data
    finish data
    return ⟨wants, haves, transferLimitKb⟩

def decode (data : Bytes) : Except PropagationError MessageGetRequest := (exec (decoder library data) 0).1

end MessageGetRequest

end Decoding

inductive GetError where
  | request (error : PropagationError)
  | store (error : StorageError)
  deriving DecidableEq

/-- What a fetch serves: ids with their unstamped lengths, in wire order. -/
structure FetchPlan where
  served : List (TransientId × Nat)
  encodedLen : Nat
  servedBytes : Nat
  deriving DecidableEq

structure PreparedFetch where
  plan : FetchPlan
  /-- The confirmed ids purged before the answer goes out. -/
  purged : List TransientId
  deriving DecidableEq

inductive PreparedGet where
  /-- The list form, with its encoded response. -/
  | ready (response : Bytes) (count : Nat)
  | fetch (prepared : PreparedFetch)
  deriving DecidableEq

def listIdBytes : Nat := 34

def shrinkToFit (responseBytes : Nat) : Nat → Nat
  | 0 => 0
  | count + 1 =>
    if arrayHeaderLen (count + 1) + (count + 1) * listIdBytes > responseBytes then
      shrinkToFit responseBytes count
    else count + 1

def listCapacity (responseBytes : Nat) : Nat := shrinkToFit responseBytes (responseBytes / listIdBytes)

/-- Insert in order of size behind the equal ones, and drop the largest when there are too many. -/
def boundedInsert (capacity : Nat) (available : List (TransientId × Nat)) (entry : StoredMessage) :
    List (TransientId × Nat) :=
  let position := (available.takeWhile (fun held => held.2 ≤ entry.size)).length
  if position = capacity then available
  else
    let kept := if available.length = capacity then available.dropLast else available
    kept.take position ++ (entry.transientId, entry.size) :: kept.drop position

def listMailbox (capacity : Option Nat) (mailbox : List StoredMessage) : List (TransientId × Nat) :=
  match capacity with
  | some capacity => mailbox.foldl (boundedInsert capacity) []
  | none => (mailbox.map (fun entry => (entry.transientId, entry.size))).insertionSort
      (fun entry other => entry.2 ≤ other.2)

/-- `f64::min`: a number beats no number. -/
def floatMin (left right : Float) : Float :=
  if left.isNaN then right else if right.isNaN then left else if right < left then right else left

def floatInfinity : Float := 1.0 / 0.0

/-- The running transfer-limit arithmetic of the reference. -/
structure TransferBudget where
  cumulativeSize : Float
  limitBytes : Float

namespace TransferBudget

def new (limitBytes : Float) : TransferBudget := ⟨24.0, limitBytes⟩

def admitSize (budget : TransferBudget) (size : Nat) : Bool × TransferBudget :=
  let nextSize := budget.cumulativeSize + Float.ofNat size + 16.0
  if nextSize > budget.limitBytes then (false, budget) else (true, { budget with cumulativeSize := nextSize })

def canAdmitAny (budget : TransferBudget) : Bool :=
  decide (budget.cumulativeSize + Float.ofNat minBodyLen + 16.0 ≤ budget.limitBytes)

end TransferBudget

/-- Requested ids that the mailbox holds, with their sizes; the last entry of an id counts. -/
abbrev Owned := AList (fun _ : TransientId => Nat)

/-- The requested ids that the mailbox holds. A size of zero counts as not held. -/
def ownedOf (requested : List TransientId) (mailbox : List StoredMessage) : Owned :=
  let named : Owned := requested.foldl (fun owned id => owned.insert id 0) ∅
  let sized := mailbox.foldl (fun owned entry =>
    if entry.transientId ∈ owned then owned.insert entry.transientId entry.size else owned) named
  ⟨sized.entries.filter (fun entry => entry.2 ≠ 0), List.NodupKeys.sublist List.filter_sublist sized.nodupKeys⟩

/-- A fetch being planned. -/
structure Serving where
  owned : Owned
  budget : TransferBudget
  served : List (TransientId × Nat)
  servedBytes : Nat
  payloadBytes : Nat

/-- Serve the wanted ids in order, passing over what does not fit. -/
def serve : Serving → List TransientId → Serving
  | serving, [] => serving
  | serving, id :: rest =>
    if serving.budget.canAdmitAny = false then serving
    else
      match serving.owned.lookup id with
      | none => serve serving rest
      | some size =>
        if size < minBodyLen then serve serving rest
        else
          let admitted := serving.budget.admitSize size
          if admitted.1 = false then serve serving rest
          else
            serve {
              owned := serving.owned.erase id
              budget := admitted.2
              served := serving.served ++ [(id, size - stampSize)]
              servedBytes := serving.servedBytes + (size - stampSize)
              payloadBytes := serving.payloadBytes + binHeaderLen (size - stampSize) + (size - stampSize) } rest

section Role

variable {Store : Type} [PropagationStore Store]

open PropagationStore

/-- A confirmation walk: what was purged, what is still owned, and the node. -/
structure Confirming (Store : Type) where
  node : PropagationNode Store
  owned : Owned
  purged : List TransientId

/-- Purge what the client confirms of its own mail. A store that fails ends the walk. -/
def confirmHaves (nowSecs : Nat) : Confirming Store → List TransientId →
    Except StorageError Unit × Confirming Store
  | state, [] => (.ok (), state)
  | state, id :: rest =>
    if id ∉ state.owned then confirmHaves nowSecs state rest
    else
      let answer := purgeConfirmed state.node.store id
      let node := { state.node with store := answer.2 }
      match answer.1 with
      | .error error => (.error error, { state with node := node })
      | .ok .absent => confirmHaves nowSecs { state with node := node } rest
      | .ok .committed =>
        confirmHaves nowSecs
          { node := { node with processed := node.processed.insert id nowSecs }
            owned := state.owned.erase id
            purged := state.purged ++ [id] } rest
      | .ok .queued =>
        confirmHaves nowSecs { node := node, owned := state.owned.erase id, purged := state.purged ++ [id] } rest

def TransferLimit.bytes : TransferLimit → Float
  | .integer kb => Float.ofNat kb * 1000.0
  | .float kb => kb * 1000.0

namespace PropagationNode

def transferLimit (config : PropagationNodeConfig) (client : Option TransferLimit) : Float :=
  ([client.map TransferLimit.bytes, config.serveLimitBytes.map Float.ofNat,
    config.serveCapBytes.map Float.ofNat].filterMap (fun limit => limit)).foldl floatMin floatInfinity

/-- How many ids the configured ceilings let a list carry. -/
def listCeiling (config : PropagationNodeConfig) : Option Nat :=
  match config.serveLimitBytes, config.serveCapBytes with
  | none, none => none
  | some limit, none => some (listCapacity limit)
  | none, some cap => some (listCapacity cap)
  | some limit, some cap => some (listCapacity (min limit cap))

def mailbox (entries : List StoredMessage) (remote : DestinationHash) : List StoredMessage :=
  entries.filter (fun entry => entry.destinationHash = remote)

/-- Plan one `/get` for the mailbox of an identified client. -/
def prepareGet (library : Rmp) (node : PropagationNode Store) (request : Bytes) (remote : DestinationHash)
    (nowSecs : Nat) : Except GetError PreparedGet × PropagationNode Store :=
  match MessageGetRequest.decode library request with
  | .error error => (.error (.request error), node)
  | .ok request =>
    if request.wants = none ∧ request.haves = none then
      if listCeiling node.config = some 0 then (.ok (.ready (PeerError.throttled.encode library) 0), node)
      else
        match forEach node.store with
        | .error error => (.error (.store error), node)
        | .ok entries =>
          let available := listMailbox (listCeiling node.config) (mailbox entries remote)
          (.ok (.ready (encodeIds library (available.map Prod.fst)) available.length), node)
    else
      match forEach node.store with
      | .error error => (.error (.store error), node)
      | .ok entries =>
        let owned := ownedOf (request.wants.getD [] ++ request.haves.getD []) (mailbox entries remote)
        let confirmed := confirmHaves nowSecs ⟨node, owned, []⟩ (request.haves.getD [])
        match confirmed.1 with
        | .error error => (.error (.store error), confirmed.2.node)
        | .ok () =>
          let serving := serve
            ⟨confirmed.2.owned, .new (transferLimit node.config request.transferLimitKb), [], 0, 0⟩
            (request.wants.getD [])
          (.ok (.fetch {
            plan := {
              served := serving.served
              encodedLen := arrayHeaderLen serving.served.length + serving.payloadBytes
              servedBytes := serving.servedBytes }
            purged := confirmed.2.purged }), confirmed.2.node)

end PropagationNode

end Role

end Leviculum.Propagation
