import Leviculum.Msgpack.Lxmf
import Leviculum.Propagation.Offer
import Mathlib.Algebra.Order.BigOperators.Group.List
import Mathlib.Algebra.Order.Group.Nat

/-! What two propagation nodes send each other, as bytes: the offer and its answer inside the request framing,
and the envelope of the messages. -/

namespace Leviculum.Propagation

open Msgpack.Lxmf (Rmp array bin f64 uint)

section Encodings

variable (library : Rmp)

def encodeIds (ids : List TransientId) : Bytes :=
  array library ids.length ++ (ids.map (fun id => bin library id.val)).flatten

def encodeBinaryList (items : List Bytes) : Bytes := array library items.length ++ (items.map (bin library)).flatten

structure PeerOffer where
  peeringKey : FixedBytes 32
  transientIds : List TransientId

def PeerOffer.encode (offer : PeerOffer) : Bytes :=
  array library 2 ++ bin library offer.peeringKey.val ++ encodeIds library offer.transientIds

def PeerError.code : PeerError → UInt8
  | .noIdentity => 0xf0
  | .noAccess => 0xf1
  | .invalidKey => 0xf3
  | .invalidData => 0xf4
  | .invalidStamp => 0xf5
  | .throttled => 0xf6
  | .notFound => 0xfd
  | .timeout => 0xfe

def PeerError.encode (error : PeerError) : Bytes := uint library error.code.toUInt64

def OfferResponse.encode : OfferResponse → Bytes
  | .wantNone => Msgpack.Lxmf.bool library false
  | .wantAll => Msgpack.Lxmf.bool library true
  | .wanted ids => encodeIds library ids
  | .error reason => reason.encode library

/-- The membership half of an answer: the ids that are not in the store. -/
def answerOffer (transientIds : List TransientId) (contains : TransientId → Bool) : OfferResponse :=
  let wanted := transientIds.filter (fun id => !contains id)
  if wanted = [] then .wantNone
  else if wanted.length = transientIds.length then .wantAll
  else .wanted wanted

structure PeerSyncEnvelope where
  timestamp : UInt64
  messages : List Bytes

def PeerSyncEnvelope.encode (envelope : PeerSyncEnvelope) : Bytes :=
  array library 2 ++ f64 library envelope.timestamp ++ encodeBinaryList library envelope.messages

end Encodings

/-- `REQUEST_ENVELOPE_BYTES`. -/
def requestEnvelopeBytes : Nat := 28

def offerBytesLimit : Nat := 6144

def offerBudgetForMdu (linkMdu : Nat) : Nat := min (linkMdu - requestEnvelopeBytes) offerBytesLimit

/-- What `send_request` makes of a request body before it meets the link MDU. -/
def packRequest (timestamp : UInt64) (pathHash : FixedBytes 16) (data : Option Bytes) : Bytes :=
  let packed := Msgpack.Core.writeBin
    (Msgpack.Core.writeFloat64 (Msgpack.Core.writeFixarrayHeader [] 3) timestamp) pathHash.val
  match data with
  | some data => packed ++ data
  | none => Msgpack.Core.writeNil packed

/-- What `send_response` makes of a response body before it meets the link MDU. -/
def packResponse (requestId : FixedBytes 16) (responseData : Bytes) : Bytes :=
  Msgpack.Core.writeBin (Msgpack.Core.writeFixarrayHeader [] 2) requestId.val ++ responseData

/-! ### Their lengths -/

theorem arrayHeaderLen_le (count : Nat) : arrayHeaderLen count ≤ 5 := by
  unfold arrayHeaderLen
  split_ifs <;> decide

theorem binHeaderLen_le (length : Nat) : binHeaderLen length ≤ 5 := by
  unfold binHeaderLen
  split_ifs <;> decide

theorem arrayHeaderLen_mono {few many : Nat} (le : few ≤ many) : arrayHeaderLen few ≤ arrayHeaderLen many := by
  unfold arrayHeaderLen
  split_ifs <;> omega

theorem offerEncodedLen_eq (count : Nat) :
    offerEncodedLen count = offerKeyBytes + arrayHeaderLen count + count * offerIdBytes := by
  unfold offerEncodedLen arrayHeaderLen
  split_ifs <;> omega

theorem length_packRequest (timestamp : UInt64) (pathHash : FixedBytes 16) (data : Bytes) :
    (packRequest timestamp pathHash (some data)).length = requestEnvelopeBytes + data.length := by
  have framing : (Msgpack.Core.writeBin
      (Msgpack.Core.writeFloat64 (Msgpack.Core.writeFixarrayHeader [] 3) timestamp) pathHash.val).length =
      requestEnvelopeBytes := by
    simp only [Msgpack.Core.writeBin, Msgpack.Core.writeFloat64, Msgpack.Core.writeFixarrayHeader, pathHash.2,
      List.length_append, List.length_cons, Bytes.length_be]
    rfl
  rw [packRequest, List.length_append, framing]

theorem length_packResponse (requestId : FixedBytes 16) (responseData : Bytes) :
    (packResponse requestId responseData).length = 19 + responseData.length := by
  have framing : (Msgpack.Core.writeBin (Msgpack.Core.writeFixarrayHeader [] 2) requestId.val).length = 19 := by
    simp only [Msgpack.Core.writeBin, Msgpack.Core.writeFixarrayHeader, requestId.2, List.length_append]
    rfl
  rw [packResponse, List.length_append, framing]

section Lengths

variable {library : Rmp} (compact : library.Compact)

include compact

theorem length_array (count : Nat) : (array library count).length = arrayHeaderLen (count % 2 ^ 32) := by
  rw [array, compact.arrays, UInt32.toNat_ofNat']
  unfold Msgpack.Core.header arrayHeaderLen
  split_ifs
  · rfl
  · rw [List.length_append, Bytes.length_be]
    rfl
  · rw [List.length_append, Bytes.length_be]
    rfl

theorem length_bin {bytes : Bytes} (short : bytes.length < 2 ^ 32) :
    (bin library bytes).length = binHeaderLen bytes.length + bytes.length := by
  rw [bin, compact.bins bytes short, List.length_append]
  congr 1
  unfold Msgpack.Core.binHeader binHeaderLen
  split_ifs <;> first | omega | skip
  · rfl
  · rw [List.length_cons, Bytes.length_be]
  · rw [List.length_cons, Bytes.length_be]

theorem length_bin_le (bytes : Bytes) : (bin library bytes).length ≤ 5 + bytes.length := by
  obtain ⟨before, written, short⟩ := compact.longest bytes
  rw [bin, written, List.length_append]
  exact Nat.add_le_add_right short _

theorem length_encodeIds (ids : List TransientId) :
    (encodeIds library ids).length = arrayHeaderLen (ids.length % 2 ^ 32) + ids.length * offerIdBytes := by
  have each : ids.map (List.length ∘ fun id => bin library id.val) = ids.map (fun _ => offerIdBytes) := by
    apply List.map_congr_left
    intro id _
    have size : id.val.length < 2 ^ 32 := by
      rw [id.2]
      decide
    rw [Function.comp, length_bin compact size, id.2]
    rfl
  rw [encodeIds, List.length_append, length_array compact, List.length_flatten, List.map_map, each,
    List.map_const', List.sum_replicate_nat]

theorem PeerOffer.length_encode {offer : PeerOffer} (few : offer.transientIds.length < 2 ^ 32) :
    (offer.encode library).length = offerEncodedLen offer.transientIds.length := by
  have size : offer.peeringKey.val.length < 2 ^ 32 := by
    rw [offer.peeringKey.2]
    decide
  have key : (array library 2 ++ bin library offer.peeringKey.val).length = offerKeyBytes := by
    rw [List.length_append, length_array compact, length_bin compact size, offer.peeringKey.2]
    rfl
  rw [encode, List.length_append, key, length_encodeIds compact, Nat.mod_eq_of_lt few, offerEncodedLen_eq, Nat.add_assoc]

theorem PeerError.length_encode (error : PeerError) : (error.encode library).length = 2 := by
  rw [encode, uint, compact.uints]
  cases error <;> rfl

theorem PeerSyncEnvelope.length_encode_le (envelope : PeerSyncEnvelope) :
    (envelope.encode library).length ≤ 15 + (envelope.messages.map (fun message => 5 + message.length)).sum := by
  have head : (array library 2 ++ f64 library envelope.timestamp).length = 10 := by
    rw [List.length_append, length_array compact, f64, compact.floats, List.length_append, Bytes.length_be]
    rfl
  have bins : (envelope.messages.map (List.length ∘ bin library)).sum ≤
      (envelope.messages.map (fun message => 5 + message.length)).sum := by
    apply List.sum_le_sum
    intro message _
    exact length_bin_le compact message
  have header := arrayHeaderLen_le (envelope.messages.length % 2 ^ 32)
  rw [encode, List.length_append, head, encodeBinaryList, List.length_append, length_array compact, List.length_flatten,
    List.map_map]
  omega

end Lengths

end Leviculum.Propagation
