import Leviculum.DirectLink.Wire
import Leviculum.Resource.AdvertisementOrder

/-! The readers of the values under the keys of a signal read back what the writers write. -/

namespace Leviculum.DirectLink

open Fallible (exec)
open Msgpack.Core
open Parsing (Parses)
open Resource.Wire (StrForm parses_writeUint_nil parses_writeBin_nil)

/-! ### Endpoints -/

def SocketAddr.Flat : SocketAddr → Prop
  | v4 _ _ => True
  | v6 _ _ flow scope => flow = 0 ∧ scope = 0

def SocketAddr.octets : SocketAddr → Bytes
  | v4 ip _ => ip.val
  | v6 ip _ _ _ => ip.val

def endpointBytes (address : SocketAddr) : Bytes :=
  [0x92] ++ (writeBin [] address.octets ++ writeUint [] address.port.toUInt64)

theorem writeEndpoint_eq (buf : Bytes) (address : SocketAddr) : writeEndpoint buf address = buf ++ endpointBytes address := by
  have two : (0x90 : UInt8) ||| UInt8.ofNat 2 = 0x92 := by decide
  cases address <;>
    simp only [writeEndpoint, endpointBytes, writeFixarrayHeader, writeBin_eq, writeUint_eq, SocketAddr.ip, SocketAddr.octets,
      two, List.append_assoc, List.nil_append]

theorem new_ip_port {address : SocketAddr} (flat : address.Flat) : SocketAddr.new address.ip address.port = address := by
  cases address with
  | v4 ip port => rfl
  | v6 ip port flow scope =>
    obtain ⟨rfl, rfl⟩ := flat
    rfl

theorem ipFromBytes_octets (address : SocketAddr) : ipFromBytes address.octets = some address.ip := by
  cases address with
  | v4 ip port => exact dif_pos ip.2
  | v6 ip port flow scope =>
    have four : ¬ ip.val.length = 4 := by rw [ip.2]; decide
    exact (dif_neg four).trans (dif_pos ip.2)

theorem toU16_port (port : UInt16) : toU16 port.toUInt64 = some port := by
  have small : port.toUInt64.toNat < 2 ^ 16 := by
    rw [UInt16.toNat_toUInt64]
    exact port.toNat_lt
  rw [toU16, if_pos small, UInt16.toUInt16_toUInt64]

theorem parses_orFail {V : Type} (value : V) : Parses (orFail (some value)) [] value := by
  intro data pos rest inside here
  rfl

theorem parses_readEndpoint {address : SocketAddr} (flat : address.Flat) : Parses readEndpoint (endpointBytes address) address := by
  have header : Parses readArrayLen [0x92] 2 := parses_readArrayLen (.fixed (n := 2) (by decide))
  have short : address.octets.length < 2 ^ 32 := by
    cases address with
    | v4 ip port => rw [SocketAddr.octets, ip.2]; decide
    | v6 ip port flow scope => rw [SocketAddr.octets, ip.2]; decide
  have last : Parses (fun data => Parsing.times skipMsgpackValue (2 - 2) data >>= fun _ =>
      pure (SocketAddr.new address.ip address.port)) [] address := by
    rw [new_ip_port flat]
    intro data pos rest _ _
    rfl
  have port : Parses (fun data => orFail (toU16 address.port.toUInt64) data >>= fun port =>
      Parsing.times skipMsgpackValue (2 - 2) data >>= fun _ => pure (SocketAddr.new address.ip port)) ([] ++ []) address := by
    rw [toU16_port]
    exact (parses_orFail address.port).andThen last
  have number : Parses (fun data => readMsgpackUint data >>= fun value => orFail (toU16 value) data >>= fun port =>
      Parsing.times skipMsgpackValue (2 - 2) data >>= fun _ => pure (SocketAddr.new address.ip port))
      (writeUint [] address.port.toUInt64 ++ ([] ++ [])) address := (parses_writeUint_nil _).andThen port
  have ip : Parses (fun data => orFail (ipFromBytes address.octets) data >>= fun ip => readMsgpackUint data >>= fun value =>
      orFail (toU16 value) data >>= fun port => Parsing.times skipMsgpackValue (2 - 2) data >>= fun _ =>
      pure (SocketAddr.new ip port)) ([] ++ (writeUint [] address.port.toUInt64 ++ ([] ++ []))) address := by
    rw [ipFromBytes_octets]
    exact (parses_orFail address.ip).andThen number
  have elements : Parses (endpointElements 2) (writeBin [] address.octets ++ ([] ++ (writeUint [] address.port.toUInt64 ++
      ([] ++ [])))) address := by
    have skipped : endpointElements 2 = fun data => readMsgpackBin data >>= fun bytes => orFail (ipFromBytes bytes) data >>=
        fun ip => readMsgpackUint data >>= fun value => orFail (toU16 value) data >>= fun port =>
        Parsing.times skipMsgpackValue (2 - 2) data >>= fun _ => pure (SocketAddr.new ip port) := by
      funext data
      exact if_neg (by decide)
    rw [skipped]
    exact (parses_writeBin_nil short).andThen ip
  have parses : Parses readEndpoint ([0x92] ++ _) address := header.andThen elements
  simp only [List.append_nil, List.nil_append] at parses
  exact parses

/-! ### Candidates, session, payload -/

theorem parses_readCandidates (candidates out : List SocketAddr) (flat : ∀ address ∈ candidates, address.Flat)
    (few : out.length + candidates.length ≤ maxLocalCandidates) :
    Parses (readCandidates candidates.length out) (candidates.map endpointBytes).flatten (out ++ candidates) := by
  induction candidates generalizing out with
  | nil =>
    rw [List.append_nil]
    exact (Parsing.Reads.ofPure out).parses [] out ⟨rfl, rfl⟩
  | cons address rest ih =>
    have room : out.length < maxLocalCandidates := by
      rw [List.length_cons] at few
      omega
    have later := ih (out ++ [address]) (fun other member => flat other (List.mem_cons_of_mem _ member)) (by
      rw [List.length_append, List.length_singleton]
      rw [List.length_cons] at few
      omega)
    rw [List.append_assoc, List.singleton_append] at later
    have reads : readCandidates (rest.length + 1) out = fun data => readEndpoint data >>= fun address =>
        readCandidates rest.length (out ++ [address]) data := by
      funext data
      exact if_pos room
    rw [List.length_cons, reads]
    exact (parses_readEndpoint (flat address List.mem_cons_self)).andThen later

def localBytes (candidates : List SocketAddr) : Bytes :=
  [0x90 ||| UInt8.ofNat candidates.length] ++ (candidates.map endpointBytes).flatten

theorem foldl_writeEndpoint (candidates : List SocketAddr) (buf : Bytes) :
    candidates.foldl writeEndpoint buf = buf ++ (candidates.map endpointBytes).flatten := by
  induction candidates generalizing buf with
  | nil => exact (List.append_nil buf).symm
  | cons address rest ih =>
    rw [List.foldl_cons, ih, writeEndpoint_eq, List.append_assoc]
    rfl

theorem parses_readLocal {candidates : List SocketAddr} (flat : ∀ address ∈ candidates, address.Flat)
    (few : candidates.length ≤ maxLocalCandidates) : Parses readLocal (localBytes candidates) candidates := by
  have small : candidates.length < 16 := Nat.lt_of_le_of_lt few (by decide)
  have later := parses_readCandidates candidates [] flat (by rwa [List.length_nil, Nat.zero_add])
  exact (parses_readArrayLen (.fixed small)).andThen later

theorem parses_readSession (session : SessionId) : Parses Fields.readSession (writeBin [] session.val) session := by
  have short : session.val.length < 2 ^ 32 := by
    rw [session.2]
    decide
  intro data pos rest inside here
  unfold Fields.readSession
  rw [Fallible.exec_bind_ok (parses_writeBin_nil short data pos rest inside here), dif_pos session.2]
  rfl

theorem parses_readPayload {payload : Bytes} (small : payload.length ≤ maxHostPayload) :
    Parses Fields.readPayload (writeBin [] payload) payload := by
  have short : payload.length < 2 ^ 32 := Nat.lt_of_le_of_lt small (by decide)
  intro data pos rest inside here
  unfold Fields.readPayload
  rw [Fallible.exec_bind_ok (parses_writeBin_nil short data pos rest inside here), if_neg (Nat.not_lt.mpr small)]
  rfl

theorem parses_readBool (flag : Bool) : Parses readBool (writeBool [] flag) flag := by
  intro data pos rest inside here
  unfold readBool
  rw [Fallible.exec_bind_ok (parses_readByte _ data pos rest inside here)]
  cases flag <;> rfl

end Leviculum.DirectLink

/-! A signal is read back whatever the order of its keys and whatever unknown keys stand between them. -/

namespace Leviculum.DirectLink

open Fallible (exec)
open Msgpack (WellFormed)
open Msgpack.Core
open Parsing (Parses)
open Resource.Wire (StrForm parses_writeUint_nil)

/-- What a signal carries, as the union of fields a decoder collects. -/
def Signal.fields : Signal → Fields
  | request session facilitator initiatorPublic protocol initiatorLocal commit hostPayload =>
    { session := some session, facilitator := some facilitator, address := some initiatorPublic,
      protocol := if protocol = .rnsp then none else some protocol.wireValue, reason := none,
      localAddresses := initiatorLocal, commit, hostPayload }
  | accept session | complete session => { Fields.default with session := some session }
  | reject session reason => { Fields.default with session := some session, reason := some reason.toUInt64 }
  | ready session responderPublic responderLocal commit =>
    { Fields.default with
      session := some session, address := some responderPublic, localAddresses := responderLocal, commit }

/-- An entry under a key that is none of the eight. -/
structure UnknownEntry where
  key : Bytes
  other : ∀ known : Key, key ≠ known.text
  keyBytes : Bytes
  written : StrForm keyBytes key
  value : Bytes
  formed : WellFormed 64 value

inductive Entry where
  | known (key : Key)
  | unknown (entry : UnknownEntry)

namespace Fields

def written (target : Fields) : Key → Option Bytes
  | .s => target.session.map (fun session => writeBin [] session.val)
  | .f => target.facilitator.map endpointBytes
  | .a => target.address.map endpointBytes
  | .p => target.protocol.map (writeUint [])
  | .r => target.reason.map (writeUint [])
  | .l => if target.localAddresses.isEmpty then none else some (localBytes target.localAddresses)
  | .c => if target.commit then some (writeBool [] true) else none
  | .h => target.hostPayload.map (writeBin [])

/-- The keys that are written, in the order of `encode`. -/
def keys (target : Fields) : List Key := Key.all.filter (fun key => (target.written key).isSome)

def entryBytes (target : Fields) : Entry → Bytes
  | .known key => ([0xa0 ||| UInt8.ofNat key.text.length] ++ key.text) ++ (target.written key).getD []
  | .unknown entry => entry.keyBytes ++ entry.value

/-- The values fit: addresses without flow and scope, at most four candidates, a small payload. -/
structure Fits (target : Fields) : Prop where
  facilitator : ∀ address ∈ target.facilitator, address.Flat
  address : ∀ address ∈ target.address, address.Flat
  flat : ∀ address ∈ target.localAddresses, address.Flat
  few : target.localAddresses.length ≤ maxLocalCandidates
  small : ∀ payload ∈ target.hostPayload, payload.length ≤ maxHostPayload

/-! ### Reading one entry -/

/-- What `parse` has read once it has read this key. -/
def setKey (target fields : Fields) : Key → Fields
  | .s => { fields with session := target.session }
  | .f => { fields with facilitator := target.facilitator }
  | .a => { fields with address := target.address }
  | .p => { fields with protocol := target.protocol }
  | .r => { fields with reason := target.reason }
  | .l => { fields with localAddresses := target.localAddresses }
  | .c => { fields with commit := target.commit }
  | .h => { fields with hostPayload := target.hostPayload }

theorem parses_some {V : Type} {reader : Reader V} {write : V → Bytes} {value : Option V} {bytes : Bytes}
    (set : Option V → Fields) (reads : ∀ v ∈ value, Parses reader (write v) v) (here : value.map write = some bytes) :
    Parses (fun data => reader data >>= fun v => pure (set (some v))) bytes (set value) := by
  obtain ⟨v, known, rfl⟩ := Option.map_eq_some_iff.mp here
  rw [known]
  exact (reads v known).map (fun v => set (some v))

theorem parses_readValue {target : Fields} (fits : target.Fits) (fields : Fields) {key : Key} {bytes : Bytes}
    (here : target.written key = some bytes) : Parses (readValue fields key.text) bytes (target.setKey fields key) := by
  cases key with
  | s => exact parses_some (fun value => { fields with session := value }) (fun v _ => parses_readSession v) here
  | f =>
    exact parses_some (fun value => { fields with facilitator := value })
      (fun v known => parses_readEndpoint (fits.facilitator v known)) here
  | a =>
    exact parses_some (fun value => { fields with address := value })
      (fun v known => parses_readEndpoint (fits.address v known)) here
  | p => exact parses_some (fun value => { fields with protocol := value }) (fun v _ => parses_writeUint_nil v) here
  | r => exact parses_some (fun value => { fields with reason := value }) (fun v _ => parses_writeUint_nil v) here
  | l =>
    obtain ⟨_, written⟩ := Option.ite_none_left_eq_some.mp here
    obtain rfl := Option.some.inj written
    exact (parses_readLocal fits.flat fits.few).map (fun value => { fields with localAddresses := value })
  | c =>
    obtain ⟨set, written⟩ := Option.ite_none_right_eq_some.mp here
    obtain rfl := Option.some.inj written
    have read := (parses_readBool true).map (fun value => { fields with commit := value })
    rw [← set] at read
    rw [← set]
    exact read
  | h =>
    exact parses_some (fun value => { fields with hostPayload := value })
      (fun v known => parses_readPayload (fits.small v known)) here

theorem parses_readValue_unknown (fields : Fields) (entry : UnknownEntry) :
    Parses (readValue fields entry.key) entry.value fields := by
  have skips : readValue fields entry.key = fun data => skipMsgpackValue data >>= fun _ => pure fields := by
    funext data
    simp only [readValue, if_neg (entry.other _)]
  rw [skips]
  exact (reads_skipMsgpackValue.parses entry.value () entry.formed).map (fun _ => fields)

/-- What `parse` has read once it has read this entry. -/
def setEntry (target fields : Fields) : Entry → Fields
  | .known key => target.setKey fields key
  | .unknown _ => fields

def Belongs (target : Fields) : Entry → Prop
  | .known key => key ∈ target.keys
  | .unknown _ => True

theorem mem_keys {target : Fields} {key : Key} : key ∈ target.keys ↔ (target.written key).isSome = true := by
  have every : key ∈ Key.all := by cases key <;> decide
  rw [keys, List.mem_filter]
  exact and_iff_right every

theorem parses_entry {target : Fields} (fits : target.Fits) (fields : Fields) {entry : Entry}
    (belongs : target.Belongs entry) :
    Parses (fun data => readMsgpackStr data >>= fun key => readValue fields key data) (target.entryBytes entry)
      (target.setEntry fields entry) := by
  cases entry with
  | known key =>
    obtain ⟨bytes, here⟩ := Option.isSome_iff_exists.mp (mem_keys.mp belongs)
    have short : key.text.length < 32 := by cases key <;> decide
    rw [entryBytes, here]
    exact (parses_fixstr short).andThen (parses_readValue fits fields here)
  | unknown entry => exact entry.written.parses.andThen (parses_readValue_unknown fields entry)

theorem parses_readEntries {target : Fields} (fits : target.Fits) (order : List Entry)
    (belong : ∀ entry ∈ order, target.Belongs entry) (fields : Fields) :
    Parses (readEntries order.length fields) (order.map target.entryBytes).flatten (order.foldl target.setEntry fields) := by
  induction order generalizing fields with
  | nil => exact (Parsing.Reads.ofPure fields).parses [] fields ⟨rfl, rfl⟩
  | cons entry rest ih =>
    have later := ih (fun other member => belong other (List.mem_cons_of_mem _ member)) (target.setEntry fields entry)
    have loop := (parses_entry fits fields (belong entry List.mem_cons_self)).andThen later
    simp only [bind_assoc] at loop
    exact loop

/-! ### The order does not matter -/

def Same (target fields : Fields) : Key → Prop
  | .s => fields.session = target.session
  | .f => fields.facilitator = target.facilitator
  | .a => fields.address = target.address
  | .p => fields.protocol = target.protocol
  | .r => fields.reason = target.reason
  | .l => fields.localAddresses = target.localAddresses
  | .c => fields.commit = target.commit
  | .h => fields.hostPayload = target.hostPayload

theorem same_setKey_self (target fields : Fields) (key : Key) : target.Same (target.setKey fields key) key := by
  cases key <;> rfl

theorem Same.setKey {target fields : Fields} {key : Key} (same : target.Same fields key) (other : Key) :
    target.Same (target.setKey fields other) key := by
  by_cases equal : other = key
  · subst equal
    exact same_setKey_self target fields other
  · cases key <;> cases other <;> first | exact same | exact absurd rfl equal

theorem Same.setEntry {target fields : Fields} {key : Key} (same : target.Same fields key) (entry : Entry) :
    target.Same (target.setEntry fields entry) key := by
  cases entry with
  | known other => exact same.setKey other
  | unknown entry => exact same

theorem same_foldl (target : Fields) (order : List Entry) (fields : Fields) (key : Key)
    (among : .known key ∈ order ∨ target.Same fields key) : target.Same (order.foldl target.setEntry fields) key := by
  induction order generalizing fields with
  | nil => exact among.resolve_left List.not_mem_nil
  | cons entry rest ih =>
    refine ih (target.setEntry fields entry) ?_
    rcases among with member | same
    · rcases List.mem_cons.mp member with rfl | later
      · exact .inr (same_setKey_self target fields key)
      · exact .inl later
    · exact .inr (same.setEntry entry)

theorem same_default {target : Fields} {key : Key} (absent : target.written key = none) : target.Same default key := by
  cases key with
  | l =>
    have empty : target.localAddresses.isEmpty = true := by
      by_contra some
      exact nomatch (if_neg some).symm.trans absent
    exact (List.isEmpty_iff.mp empty).symm
  | c =>
    have unset : target.commit = false := by
      by_contra set
      exact nomatch (if_pos ((Bool.not_eq_false _).mp set)).symm.trans absent
    exact unset.symm
  | _ => exact (Option.map_eq_none_iff.mp absent).symm

theorem eq_of_same {target fields : Fields} (same : ∀ key, target.Same fields key) : fields = target := by
  obtain ⟨session, facilitator, address, protocol, reason, localAddresses, commit, hostPayload⟩ := fields
  obtain rfl := same .s
  obtain rfl := same .f
  obtain rfl := same .a
  obtain rfl := same .p
  obtain rfl := same .r
  obtain rfl := same .l
  obtain rfl := same .c
  obtain rfl := same .h
  rfl

theorem parse_inOrder {target : Fields} (fits : target.Fits) {order : List Entry} {header : Bytes}
    (counted : MapHeader order.length header) (belong : ∀ entry ∈ order, target.Belongs entry)
    (complete : ∀ key ∈ target.keys, .known key ∈ order) :
    (exec (parse (header ++ (order.map target.entryBytes).flatten)) 0).1 = .ok target := by
  let entries (count : Nat) : Reader Fields := readEntries count default
  have loop : Parses (entries order.length) _ _ := parses_readEntries fits order belong default
  have parses : Parses parse (header ++ (order.map target.entryBytes).flatten) _ := (parses_readMapLen counted).andThen loop
  have read := parses (header ++ (order.map target.entryBytes).flatten) 0 [] (Nat.zero_le _) (List.append_nil _).symm
  have all : order.foldl target.setEntry default = target := by
    refine eq_of_same (fun key => same_foldl target order default key ?_)
    by_cases written : key ∈ target.keys
    · exact .inl (complete key written)
    · rw [mem_keys, Bool.not_eq_true, Option.isSome_eq_false_iff, Option.isNone_iff_eq_none] at written
      exact .inr (same_default written)
  rw [read, all]

end Fields

/-! ### What `encode` writes -/

theorem writeFixstr_eq (buf text : Bytes) : writeFixstr buf text = buf ++ ([0xa0 ||| UInt8.ofNat text.length] ++ text) :=
  List.append_assoc _ _ _

theorem writeSession_eq (buf : Bytes) (session : SessionId) :
    writeSession buf session = buf ++ (([0xa0 ||| UInt8.ofNat Key.s.text.length] ++ Key.s.text) ++ writeBin [] session.val) := by
  simp only [writeSession, writeFixstr_eq, writeBin_eq, List.append_assoc, List.nil_append]

theorem writeLocal_eq (buf : Bytes) {candidates : List SocketAddr} (few : candidates.length ≤ maxLocalCandidates) :
    writeLocal buf candidates =
      buf ++ (([0xa0 ||| UInt8.ofNat Key.l.text.length] ++ Key.l.text) ++ localBytes candidates) := by
  have kept : candidates.take maxLocalCandidates = candidates := List.take_of_length_le few
  simp only [writeLocal, kept, foldl_writeEndpoint, writeFixarrayHeader, localBytes, writeFixstr_eq, List.append_assoc]

namespace Signal

def inOrder (signal : Signal) (header : Bytes) (order : List Entry) : Bytes :=
  header ++ (order.map signal.fields.entryBytes).flatten

theorem encode_eq {signal : Signal} (few : signal.fields.localAddresses.length ≤ maxLocalCandidates) :
    signal.encode = signal.inOrder [0x80 ||| UInt8.ofNat signal.fields.keys.length] (signal.fields.keys.map Entry.known) := by
  cases signal with
  | request session facilitator initiatorPublic protocol initiatorLocal commit hostPayload =>
    have kept : ∀ buf, writeLocal buf initiatorLocal = _ := fun buf => writeLocal_eq buf few
    cases protocol <;> cases initiatorLocal <;> cases commit <;> cases hostPayload <;>
      simp [encode, inOrder, fields, Fields.keys, Key.all, Fields.written, Fields.entryBytes, writeFixmapHeader, flagByte,
        writeSession_eq, writeEndpoint_eq, writeFixstr_eq, writeUint_eq, writeBin_eq, writeExtras, writeBool, kept]
  | accept session =>
    simp [encode, inOrder, fields, Fields.default, Fields.keys, Key.all, Fields.written, Fields.entryBytes, writeFixmapHeader,
        writeSession_eq]
  | reject session reason =>
    simp [encode, inOrder, fields, Fields.default, Fields.keys, Key.all, Fields.written, Fields.entryBytes, writeFixmapHeader,
        writeSession_eq, writeFixstr_eq, writeUint_eq]
  | ready session responderPublic responderLocal commit =>
    have kept : ∀ buf, writeLocal buf responderLocal = _ := fun buf => writeLocal_eq buf few
    cases responderLocal <;> cases commit <;>
      simp [encode, inOrder, fields, Fields.default, Fields.keys, Key.all, Fields.written, Fields.entryBytes, writeFixmapHeader, flagByte,
        writeSession_eq, writeEndpoint_eq, writeFixstr_eq, writeExtras, writeBool, kept]
  | complete session =>
    simp [encode, inOrder, fields, Fields.default, Fields.keys, Key.all, Fields.written, Fields.entryBytes, writeFixmapHeader,
        writeSession_eq]

theorem finish_fields (signal : Signal) : signal.fields.finish signal.msgtype = some signal := by
  cases signal with
  | request session facilitator initiatorPublic protocol initiatorLocal commit hostPayload => cases protocol <;> rfl
  | reject session reason =>
    have small : reason.toUInt64.toNat < 2 ^ 8 := by
      rw [UInt8.toNat_toUInt64]
      exact reason.toNat_lt
    have whole : toU8 reason.toUInt64 = some reason := by rw [toU8, if_pos small, UInt8.toUInt8_toUInt64]
    simp [fields, Fields.finish, msgtype, msgUpgradeRequest, msgUpgradeAccept, msgUpgradeReject, whole]
  | accept session => rfl
  | ready session responderPublic responderLocal commit => rfl
  | complete session => rfl

theorem length_keys_le (target : Fields) : target.keys.length ≤ 8 := List.length_filter_le _ Key.all

theorem decode_inOrder {signal : Signal} (fits : signal.fields.Fits) {order : List Entry} {header : Bytes}
    (counted : MapHeader order.length header) (belong : ∀ entry ∈ order, signal.fields.Belongs entry)
    (complete : ∀ key ∈ signal.fields.keys, .known key ∈ order) :
    decode signal.msgtype (signal.inOrder header order) = .ok signal := by
  have ours : isSignalMsgtype signal.msgtype = true := by cases signal <;> rfl
  have read := Fields.parse_inOrder fits counted belong complete
  unfold decode
  rw [ours, if_neg (by decide), inOrder, read]
  dsimp only
  rw [finish_fields]

/-- A signal is read back from what `encode` writes, and from its entries in any order with any entries under
unknown string keys between them, behind a header of any form. -/
theorem signal_round_trip {signal : Signal} (fits : signal.fields.Fits) :
    decode signal.msgtype signal.encode = .ok signal ∧
    ∀ (unknown : List UnknownEntry) (order : List Entry) (header : Bytes),
      order.Perm (signal.fields.keys.map Entry.known ++ unknown.map Entry.unknown) → MapHeader order.length header →
      decode signal.msgtype (signal.inOrder header order) = .ok signal := by
  constructor
  · have few : (signal.fields.keys.map Entry.known).length < 16 := by
      rw [List.length_map]
      exact Nat.lt_of_le_of_lt (length_keys_le _) (by decide)
    have counted := @HeaderForm.fixed 0x80 0xde 0xdf _ few
    rw [List.length_map] at counted
    rw [encode_eq fits.few]
    refine decode_inOrder fits (by rwa [List.length_map]) (fun entry member => ?_) (fun key => List.mem_map_of_mem)
    obtain ⟨key, written, rfl⟩ := List.mem_map.mp member
    exact written
  · intro unknown order header shuffled counted
    refine decode_inOrder fits counted (fun entry member => ?_) (fun key written => ?_)
    · rcases List.mem_append.mp (shuffled.mem_iff.mp member) with known | other
      · obtain ⟨key, written, rfl⟩ := List.mem_map.mp known
        exact written
      · obtain ⟨entry, _, rfl⟩ := List.mem_map.mp other
        trivial
    · exact shuffled.mem_iff.mpr (List.mem_append_left _ (List.mem_map_of_mem written))

/-- A request over STUN with one candidate of each family and a payload. -/
def sample : Signal :=
  request (FixedBytes.replicate 16 7) (.v4 (FixedBytes.replicate 4 10) 4965) (.v6 (FixedBytes.replicate 16 1) 65535 0 0) .stun
    [.v4 (FixedBytes.replicate 4 2) 1, .v6 (FixedBytes.replicate 16 3) 2 0 0] true (some [1, 2, 3])

theorem sample_fits : sample.fields.Fits where
  facilitator := by
    intro address known
    cases known
    trivial
  address := by
    intro address known
    cases known
    exact ⟨rfl, rfl⟩
  flat := by
    intro address member
    rcases List.mem_cons.mp member with rfl | member
    · trivial
    · obtain rfl := List.mem_singleton.mp member
      exact ⟨rfl, rfl⟩
  few := by decide
  small := by
    intro payload known
    cases known
    decide

theorem strForm_spare : StrForm [0xa1, 0x78] [0x78] := @StrForm.fixstr [0x78] (by decide)

theorem wellFormed_spare : WellFormed 64 [0xc0] := .alone (by decide)

/-- Nil under the key `x`. -/
def spare : UnknownEntry where
  key := [0x78]
  other := by
    intro known
    cases known <;> decide
  keyBytes := [0xa1, 0x78]
  written := strForm_spare
  value := [0xc0]
  formed := wellFormed_spare

/-- The entries backwards, with an unknown one in front and a count of four bytes. -/
theorem signal_round_trip_backwards :
    decode sample.msgtype (sample.inOrder ([0xdf] ++ Bytes.be 4 8)
      (.unknown spare :: (sample.fields.keys.map Entry.known).reverse)) = .ok sample := by
  refine (signal_round_trip sample_fits).2 [spare] _ _ ?_ (.four (by decide))
  exact ((List.reverse_perm _).cons _).trans (List.perm_append_singleton _ _).symm

/-- Nil inside as many lists of one element. -/
def nested : Nat → Bytes
  | 0 => [0xc0]
  | depth + 1 => 0x91 :: nested depth

theorem wellFormed_nested (depth : Nat) : WellFormed depth (nested depth) := by
  induction depth with
  | zero => exact .alone (by decide)
  | succ depth ih =>
    have items := @WellFormed.items depth 1 0x91 [nested depth] (by decide) rfl (by
      intro item member
      obtain rfl := List.mem_singleton.mp member
      exact ih)
    rwa [List.flatten_singleton] at items

/-- Not every unknown entry can be passed over: the body is refused when the value is nested deeper than the walk goes,
when the key is written with a length of four bytes, and when the key is a number. -/
theorem unknown_entries_refused :
    sample.fields.Fits ∧ WellFormed 65 (nested 65) ∧
    decode sample.msgtype (sample.inOrder [0x88] (sample.fields.keys.map Entry.known) ++ ([0xa1, 0x78] ++ nested 65)) =
      .error .malformed ∧
    decode sample.msgtype (sample.inOrder [0x88] (sample.fields.keys.map Entry.known) ++ [0xdb, 0, 0, 0, 1, 0x78, 0xc0]) =
      .error .malformed ∧
    decode sample.msgtype (sample.inOrder [0x88] (sample.fields.keys.map Entry.known) ++ [0x05, 0xc0]) = .error .malformed :=
  ⟨sample_fits, wellFormed_nested 65, by decide +kernel, by decide +kernel, by decide +kernel⟩

end Signal

end Leviculum.DirectLink
