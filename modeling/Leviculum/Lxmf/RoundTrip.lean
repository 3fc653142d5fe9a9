import Leviculum.Lxmf.Decoder
import Leviculum.Msgpack.Shortest
import Leviculum.Transport.PacketCodec

/-! A packed message is unpacked as itself, with any stamp. -/

namespace Leviculum.Lxmf

open Fallible (exec)
open Msgpack (WellFormed)
open Msgpack.Lxmf
open Router (DeliveryMethod Verification MessageError)

namespace Message

variable {library : Rmp} {fullHash : Bytes → FixedBytes 32} {fieldSize : Nat}

/-- The result is a message with the id, the addresses, the time and the contents of this one, and its signature
holds. -/
def Same (message : Message) (result : Except MessageError Message) : Prop :=
  ∃ received, result = .ok received ∧ received.messageId = message.messageId ∧ received.sourceHash = message.sourceHash ∧
    received.destinationHash = message.destinationHash ∧ received.timestamp = message.timestamp ∧
    received.title = message.title ∧ received.content = message.content ∧ received.fields = message.fields ∧
    received.verification = .valid

/-- Packed under the stamp and unpacked, the message is the same; an opportunistic one goes without its destination. -/
def ComesBack (library : Rmp) (fullHash : Bytes → FixedBytes 32) (fieldSize : Nat) (message : Message) (stamp : Option Bytes)
    (source : Identity) : Prop :=
  (∀ method inferred, method ≠ .opportunistic →
    message.Same (unpack library fullHash fieldSize ((message.withStamp stamp).pack library) inferred (some source) method).1) ∧
  message.Same (unpack library fullHash fieldSize (((message.withStamp stamp).pack library).drop 16)
    (some message.destinationHash) (some source) .opportunistic).1

theorem create_eq_ok {destinationHash sourceHash : Hash} {source : Identity} {timestamp : UInt64} {title content : Bytes}
    {fields : List Field} {method : DeliveryMethod} {message : Message}
    (made : create library fullHash destinationHash sourceHash source timestamp title content fields method = .ok message) :
    (∀ field ∈ fields, validField library field = true) ∧
    ∃ hashedPart signature,
      hashedPart = hashed destinationHash sourceHash (encodePayload library (.float timestamp) title content fields none) ∧
      source.sign (signedPart fullHash hashedPart) = some signature ∧
      message = {
        destinationHash, sourceHash, signature, timestamp, title, content, fields, stamp := none,
        messageId := fullHash hashedPart, verification := .valid, method, packed := none } := by
  unfold create at made
  split at made
  · cases made
  · split at made
    · cases made
    · next valid =>
      refine ⟨List.all_eq_true.mp ((Bool.not_eq_false _).mp valid), ?_⟩
      dsimp only at made
      split at made
      · cases made
      · next signature signed => exact ⟨_, signature, rfl, signed, (Except.ok.inj made).symm⟩

theorem unpackWhole_append (source : Option Identity) (method : DeliveryMethod) (destinationHash sourceHash : Hash)
    (signature : Signature) {payload : Bytes} (some : 0 < payload.length) :
    unpackWhole library fullHash fieldSize source method
        (destinationHash.val ++ sourceHash.val ++ signature.val ++ payload) =
      match exec (decodePayload library fieldSize payload) ⟨0, []⟩ with
      | (.ok decoded, decoder) =>
        (ofPayload fullHash source method (destinationHash.val ++ sourceHash.val ++ signature.val ++ payload) destinationHash
          sourceHash signature decoded, decoder.reserved)
      | (.error error, decoder) => (.error error, decoder.reserved) := by
  obtain ⟨data, named⟩ : ∃ data, data = destinationHash.val ++ sourceHash.val ++ signature.val ++ payload := ⟨_, rfl⟩
  have cut : data = destinationHash.val ++ (sourceHash.val ++ (signature.val ++ payload)) := by
    rw [named, List.append_assoc, List.append_assoc]
  have long : ¬ data.length < 97 := by
    rw [cut, List.length_append, List.length_append, List.length_append, destinationHash.2, sourceHash.2, signature.2]
    omega
  have after : data.drop 16 = sourceHash.val ++ (signature.val ++ payload) := by
    rw [cut]
    exact List.drop_left' destinationHash.2
  have behind : data.drop 32 = signature.val ++ payload := by
    have step : data.drop 32 = (data.drop 16).drop 16 := by rw [List.drop_drop]
    rw [step, after]
    exact List.drop_left' sourceHash.2
  have last : data.drop 96 = payload := by
    have step : data.drop 96 = (data.drop 32).drop 64 := by rw [List.drop_drop]
    rw [step, behind]
    exact List.drop_left' signature.2
  have first : FixedBytes.take? 16 data = Option.some destinationHash := by
    rw [cut]
    exact FixedBytes.take?_append destinationHash _
  rw [← named]
  unfold unpackWhole
  rw [last]
  rcases exec (decodePayload library fieldSize payload) ⟨0, []⟩ with ⟨outcome, decoder⟩
  cases outcome with
  | error error => simp only [if_neg long, after, behind, first, FixedBytes.take?_append]
  | ok decoded => simp only [if_neg long, after, behind, first, FixedBytes.take?_append]

section RoundTrip

variable (documented : library.Documented) {source : Identity} {destinationHash sourceHash : Hash} {timestamp : UInt64}
  {title content : Bytes} {fields : List Field} {method : DeliveryMethod} {message : Message} {stamp : Option Bytes}
  (made : create library fullHash destinationHash sourceHash source timestamp title content fields method = .ok message)
  (titleBack : library.InvertsBin title) (contentBack : library.InvertsBin content)

include documented in
theorem encodePayload_pos : 0 < (encodePayload library (.float timestamp) title content fields stamp).length := by
  obtain ⟨rest, tagged⟩ := documented.floatTag timestamp
  rw [encodePayload_eq, f64, tagged, List.length_append, List.length_append, List.length_cons]
  omega

include made in
theorem pack_withStamp :
    (message.withStamp stamp).pack library = message.destinationHash.val ++ message.sourceHash.val ++ message.signature.val ++
      encodePayload library (.float timestamp) title content fields stamp := by
  obtain ⟨_, _, _, _, _, rfl⟩ := create_eq_ok made
  rfl

include documented made titleBack contentBack

theorem same_unpackWhole (verifies : ∀ text signature, source.sign text = some signature →
      source.verify text signature = some true)
    (stampBack : ∀ bytes ∈ stamp, library.InvertsBin bytes) (few : fields.length < 2 ^ 32) (onto : DeliveryMethod) :
    message.Same (unpackWhole library fullHash fieldSize (some source) onto ((message.withStamp stamp).pack library)).1 := by
  rw [pack_withStamp made, unpackWhole_append _ _ _ _ _ (encodePayload_pos documented)]
  obtain ⟨valid, hashedPart, signature, named, signed, rfl⟩ := create_eq_ok made
  have formed : ∀ field ∈ fields, WellFormed 64 field.2 := fun field member =>
    wellFormed_of_validField documented (valid field member)
  obtain ⟨decoder, decoded⟩ := @decodePayload_encodePayload library documented timestamp title content fields stamp titleBack
    contentBack stampBack formed few fieldSize
  rw [decoded]
  dsimp only [ofPayload, verify]
  rw [← named, verifies _ _ signed]
  exact ⟨_, rfl, rfl, rfl, rfl, rfl, rfl, rfl, rfl, rfl⟩

omit documented made titleBack contentBack in
theorem ofPayload_fields {unsigned : Option Identity} {onto : DeliveryMethod} {data : Bytes} {signature : Signature}
    {payload : Payload} {received : Message}
    (ok : ofPayload fullHash unsigned onto data destinationHash sourceHash signature payload = .ok received) :
    received.fields = payload.fields := by
  unfold ofPayload at ok
  dsimp only at ok
  rcases shown : verify unsigned (signedPart fullHash (hashed destinationHash sourceHash payload.signed)) signature with
    error | verification
  · rw [shown] at ok
    cases ok
  · rw [shown] at ok
    obtain rfl := Except.ok.inj ok
    rfl

theorem few_of_same {onto : DeliveryMethod} (unsigned : Option Identity)
    (same : message.Same (unpackWhole library fullHash fieldSize unsigned onto ((message.withStamp stamp).pack library)).1) :
    fields.length < 2 ^ 32 := by
  obtain ⟨received, ok, -, -, -, -, -, -, fieldsBack, -⟩ := same
  rw [pack_withStamp made, unpackWhole_append _ _ _ _ _ (encodePayload_pos documented)] at ok
  obtain ⟨_, _, _, _, _, rfl⟩ := create_eq_ok made
  rcases decoded : exec (decodePayload library fieldSize (encodePayload library (.float timestamp) title content fields stamp))
    ⟨0, []⟩ with ⟨outcome, decoder⟩
  rw [decoded] at ok
  cases outcome with
  | error error => cases ok
  | ok payload =>
    have cut := length_decoded documented titleBack contentBack decoded
    have kept : payload.fields = fields := (ofPayload_fields ok).symm.trans fieldsBack
    rw [kept] at cut
    rw [cut]
    exact Nat.mod_lt _ (by decide)

omit documented titleBack contentBack in
theorem comesBack_iff_same : message.ComesBack library fullHash fieldSize stamp source ↔
    ∀ onto, message.Same
      (unpackWhole library fullHash fieldSize (some source) onto ((message.withStamp stamp).pack library)).1 := by
  have whole : message.destinationHash.val ++ ((message.withStamp stamp).pack library).drop 16 =
      (message.withStamp stamp).pack library := by
    rw [pack_withStamp made, List.append_assoc, List.append_assoc, List.drop_left' message.destinationHash.2]
  have opportunistic : unpack library fullHash fieldSize (((message.withStamp stamp).pack library).drop 16)
      (some message.destinationHash) (some source) .opportunistic =
        unpackWhole library fullHash fieldSize (some source) .opportunistic ((message.withStamp stamp).pack library) := by
    unfold unpack
    rw [if_pos rfl]
    dsimp only
    rw [whole]
  have other : ∀ onto inferred, onto ≠ .opportunistic →
      unpack library fullHash fieldSize ((message.withStamp stamp).pack library) inferred (some source) onto =
        unpackWhole library fullHash fieldSize (some source) onto ((message.withStamp stamp).pack library) :=
    fun onto inferred apart => if_neg apart
  unfold ComesBack
  rw [opportunistic]
  constructor
  · rintro ⟨direct, dropped⟩ onto
    by_cases same : onto = .opportunistic
    · rw [same]
      exact dropped
    · rw [← other onto none same]
      exact direct onto none same
  · intro all
    refine ⟨fun onto inferred apart => ?_, all _⟩
    rw [other onto inferred apart]
    exact all onto

theorem comesBack_iff (verifies : ∀ text signature, source.sign text = some signature → source.verify text signature = some true)
    (stampBack : ∀ bytes ∈ stamp, library.InvertsBin bytes) :
    message.ComesBack library fullHash fieldSize stamp source ↔ fields.length < 2 ^ 32 := by
  rw [comesBack_iff_same made]
  constructor
  · intro all
    exact few_of_same documented made titleBack contentBack (some source) (all .direct)
  · intro few onto
    exact same_unpackWhole documented made titleBack contentBack verifies stampBack few onto

end RoundTrip

/-- Every message that `create` makes comes back from its packed form, under any stamp, exactly when its fields are
fewer than 2^32: the header of the field map carries the count as a `u32`. -/
theorem message_comes_back {library : Rmp} {fullHash : Bytes → FixedBytes 32} {fieldSize : Nat} {source : Identity}
    {destinationHash sourceHash : Hash} {timestamp : UInt64} {title content : Bytes} {fields : List Field}
    {method : DeliveryMethod} {message : Message} {stamp : Option Bytes} (documented : library.Documented)
    (verifies : ∀ text signature, source.sign text = some signature → source.verify text signature = some true)
    (titleBack : library.InvertsBin title) (contentBack : library.InvertsBin content)
    (stampBack : ∀ bytes ∈ stamp, library.InvertsBin bytes)
    (made : create library fullHash destinationHash sourceHash source timestamp title content fields method = .ok message) :
    message.ComesBack library fullHash fieldSize stamp source ↔ fields.length < 2 ^ 32 :=
  comesBack_iff documented made titleBack contentBack verifies stampBack

/-- An identity whose signature is the start of the text, filled up. -/
def sampleIdentity : Identity where
  sign := fun text => some (FixedBytes.pad 64 text)
  verify := fun text signature => some (decide (signature = FixedBytes.pad 64 text))

theorem sampleIdentity_verifies (text : Bytes) (signature : Signature) (signed : sampleIdentity.sign text = some signature) :
    sampleIdentity.verify text signature = some true := by
  obtain rfl := Option.some.inj signed
  exact congrArg some (decide_eq_true rfl)

def sampleHash (bytes : Bytes) : FixedBytes 32 := FixedBytes.pad 32 (Bytes.be 8 bytes.length)

def sampleMessage (fields : List Field) : Message :=
  let hashedPart := hashed (FixedBytes.replicate 16 1) (FixedBytes.replicate 16 2)
    (encodePayload shortest (.float 0x41d954fc40000000) [72, 105] [72, 101, 108, 108, 111] fields none)
  { destinationHash := FixedBytes.replicate 16 1, sourceHash := FixedBytes.replicate 16 2,
    signature := FixedBytes.pad 64 (signedPart sampleHash hashedPart), timestamp := 0x41d954fc40000000, title := [72, 105],
    content := [72, 101, 108, 108, 111], fields, stamp := none, messageId := sampleHash hashedPart, verification := .valid,
    method := .direct, packed := none }

theorem create_sampleMessage {fields : List Field} (valid : fields.all (validField shortest) = true) :
    create shortest sampleHash (FixedBytes.replicate 16 1) (FixedBytes.replicate 16 2) sampleIdentity 0x41d954fc40000000 [72, 105]
      [72, 101, 108, 108, 111] fields .direct = .ok (sampleMessage fields) := by
  have finite : isFinite 0x41d954fc40000000 = true := by decide
  unfold create
  rw [if_neg (by rw [finite]; decide), if_neg (by rw [valid]; decide)]
  rfl

/-- A nested list under a negative key and a string under a large one, with a stamp of 32 bytes. -/
theorem message_comes_back_stamped :
    (sampleMessage [(-3, [0x92, 0x01, 0x91, 0xc0]), (70000, [0xa1, 0x78])]).ComesBack shortest sampleHash 32
      (some (List.replicate 32 9)) sampleIdentity := by
  refine (message_comes_back shortest_documented sampleIdentity_verifies (shortest_invertsBin (by decide))
    (shortest_invertsBin (by decide)) ?_ (create_sampleMessage (by decide))).mpr (by decide)
  intro bytes known
  cases known
  exact shortest_invertsBin (by decide)

/-- With 2^32 fields the count reads zero, and the message does not come back. -/
theorem message_lost_in_count :
    create shortest sampleHash (FixedBytes.replicate 16 1) (FixedBytes.replicate 16 2) sampleIdentity 0x41d954fc40000000 [72, 105]
      [72, 101, 108, 108, 111] (List.replicate (2 ^ 32) (0, [0xc0])) .direct =
        .ok (sampleMessage (List.replicate (2 ^ 32) (0, [0xc0]))) ∧
    ¬ (sampleMessage (List.replicate (2 ^ 32) (0, [0xc0]))).ComesBack shortest sampleHash 32 none sampleIdentity := by
  obtain ⟨many, named⟩ : ∃ many, many = 2 ^ 32 := ⟨_, rfl⟩
  rw [← named]
  have valid : (List.replicate many ((0, [0xc0]) : Field)).all (validField shortest) = true := by
    refine List.all_eq_true.mpr (fun field member => ?_)
    obtain rfl := List.eq_of_mem_replicate member
    decide
  have made := create_sampleMessage valid
  refine ⟨made, fun back => ?_⟩
  have few := (comesBack_iff shortest_documented made (shortest_invertsBin (by decide)) (shortest_invertsBin (by decide))
    sampleIdentity_verifies (fun _ known => by cases known)).mp back
  rw [List.length_replicate, named] at few
  exact Nat.lt_irrefl _ few

end Message

end Leviculum.Lxmf
