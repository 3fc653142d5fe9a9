import Leviculum.Lxmf.Message

/-! The decoder of payloads reads back what the encoder writes. -/

namespace Leviculum.Lxmf

open Fallible (Program exec)
open Msgpack (WellFormed)
open Msgpack.Lxmf
open Parsing (Parses)
open Router (DeliveryMethod Verification MessageError)

/-! ### Readers with a record of what they reserve -/

def Takes {V : Type} (decode : Decode V) (bytes : Bytes) (value : V) : Prop :=
  ∀ (data rest : Bytes) (position : Nat) (reserved : List Nat), position ≤ data.length → data.drop position = bytes ++ rest →
    ∃ more, exec (decode data) ⟨position, reserved⟩ = (.ok value, ⟨position + bytes.length, more⟩)

namespace Takes

variable {V W : Type} {decode : Decode V} {bytes : Bytes} {value : V}

theorem bind (takes : Takes decode bytes value) {data rest : Bytes} {position : Nat} (reserved : List Nat)
    (inside : position ≤ data.length) (here : data.drop position = bytes ++ rest) (next : V → Program Decoder MessageError W) :
    ∃ more, exec (decode data >>= next) ⟨position, reserved⟩ = exec (next value) ⟨position + bytes.length, more⟩ ∧
      position + bytes.length ≤ data.length ∧ data.drop (position + bytes.length) = rest := by
  obtain ⟨more, run⟩ := takes data rest position reserved inside here
  obtain ⟨inside', there⟩ := Parsing.drop_of_append inside here
  exact ⟨more, Fallible.exec_bind_ok run next, inside', there⟩

theorem andThen (takes : Takes decode bytes value) {second : V → Decode W} {later : Bytes} {result : W}
    (next : Takes (second value) later result) :
    Takes (fun data => decode data >>= fun value => second value data) (bytes ++ later) result := by
  intro data rest position reserved inside here
  rw [List.append_assoc] at here
  obtain ⟨middle, run, inside', there⟩ := takes.bind reserved inside here (fun value => second value data)
  obtain ⟨more, run'⟩ := next data rest _ middle inside' there
  refine ⟨more, ?_⟩
  rw [run, run', List.length_append, Nat.add_assoc]

theorem ofPure (value : V) : Takes (fun _ => pure value) [] value := by
  intro data rest position reserved _ _
  exact ⟨reserved, rfl⟩

end Takes

theorem exec_within {V : Type} (onError : Msgpack.Error → MessageError) (reader : Reader V) (data : Bytes) (decoder : Decoder) :
    exec (within onError reader data) decoder =
      ((exec (reader data) decoder.position).1.mapError onError,
        { decoder with position := (exec (reader data) decoder.position).2 }) := by
  unfold within
  rw [Fallible.exec_get_bind]
  dsimp only
  rw [Fallible.exec_modify_bind]
  rcases (exec (reader data) decoder.position).1 with error | value <;> rfl

theorem takes_within {V : Type} {onError : Msgpack.Error → MessageError} {reader : Reader V} {bytes : Bytes} {value : V}
    (parses : Parses reader bytes value) : Takes (within onError reader) bytes value := by
  intro data rest position reserved inside here
  refine ⟨reserved, ?_⟩
  rw [exec_within, parses data position rest inside here]
  rfl

theorem takes_reserve (size : Nat) : Takes (fun _ => reserve size) [] () := by
  intro data rest position reserved _ _
  exact ⟨reserved ++ [size], rfl⟩

theorem takes_owned {onError : Msgpack.Error → MessageError} {reader : Reader Bytes} {bytes value : Bytes}
    (parses : Parses reader bytes value) : Takes (owned onError reader) bytes value := by
  let kept (bytes : Bytes) : Decode Bytes := fun _ => reserve bytes.length >>= fun _ => pure bytes
  have keeps : Takes (kept value) ([] ++ []) value := (takes_reserve value.length).andThen (Takes.ofPure value)
  have whole := (@takes_within _ onError _ _ _ parses).andThen keeps
  rw [List.append_nil, List.append_nil] at whole
  exact whole

/-! ### The parts of a payload -/

section Parts

variable {library : Rmp} (documented : library.Documented)

include documented

theorem wellFormed_of_validField {field : Field} (valid : Message.validField library field = true) : WellFormed 64 field.2 := by
  unfold Message.validField at valid
  rcases ran : exec (skip library.fromU8 field.2) 0 with ⟨outcome, last⟩
  rw [ran] at valid
  cases outcome with
  | error error => cases valid
  | ok _ =>
    have ended : last = field.2.length := of_decide_eq_true valid
    obtain ⟨bytes, rest, here, reached, formed⟩ :=
      (reads_skip documented.markers).recognises field.2 0 last () (Nat.zero_le _) ran
    have same := congrArg List.length here
    rw [List.length_append, List.drop_zero] at same
    have nothing : rest = [] := List.eq_nil_of_length_eq_zero (by omega)
    rw [List.drop_zero, nothing, List.append_nil] at here
    rw [here]
    exact formed

theorem takes_readFields {fields : List Field} (formed : ∀ field ∈ fields, WellFormed 64 field.2) (before : List Field) :
    Takes (readFields library fields.length before) (fields.map (encodeField library)).flatten (before ++ fields) := by
  induction fields generalizing before with
  | nil =>
    rw [List.append_nil]
    exact Takes.ofPure before
  | cons field rest ih =>
    have later := ih (fun other member => formed other (List.mem_cons_of_mem _ member)) (before ++ [field])
    rw [List.append_assoc, List.singleton_append] at later
    have value : Takes (owned malformed (raw library)) field.2 field.2 :=
      takes_owned (parses_raw documented (formed field List.mem_cons_self))
    have key : Takes (within malformed (readInt library)) (int library field.1) field.1 :=
      takes_within (parses_readInt documented field.1)
    let valued (key : Int64) : Decode (List Field) := fun data => owned malformed (raw library) data >>= fun value =>
      readFields library rest.length (before ++ [(key, value)]) data
    have second : Takes (valued field.1) _ _ := value.andThen later
    have whole := key.andThen second
    rw [← List.append_assoc] at whole
    exact whole

theorem takes_readFieldMap {fields : List Field} (formed : ∀ field ∈ fields, WellFormed 64 field.2)
    (few : fields.length < 2 ^ 32) (fieldSize : Nat) :
    Takes (readFieldMap library fieldSize) (map library fields.length ++ (fields.map (encodeField library)).flatten) fields := by
  have count : Takes (within malformed (mapLen library)) (map library fields.length) fields.length := by
    have parses := parses_mapLen documented fields.length
    rw [Nat.mod_eq_of_lt few] at parses
    exact takes_within parses
  let counted (count : Nat) : Decode (List Field) := fun data => reserve (count * fieldSize) >>= fun _ =>
    readFields library count [] data
  have second : Takes (counted fields.length) ([] ++ _) _ :=
    (takes_reserve (fields.length * fieldSize)).andThen (takes_readFields documented formed [])
  exact count.andThen second

theorem takes_readStamp {stamp : Bytes} (back : library.InvertsBin stamp) :
    Takes (readStamp library) (bin library stamp) (some stamp) := by
  intro data rest position reserved inside here
  obtain ⟨more, run⟩ := @takes_owned stampError _ _ _ (parses_readBin back) data rest position reserved inside here
  have peeked : exec (within malformed (peekNil library) data) ⟨position, reserved⟩ = (.ok false, ⟨position, reserved⟩) := by
    rw [exec_within, exec_peekNil_bin documented stamp here]
    rfl
  refine ⟨more, ?_⟩
  unfold readStamp
  rw [Fallible.exec_bind_ok peeked, if_neg (by decide), Fallible.exec_bind_ok run]
  rfl

/-- The number of elements the payload announces. -/
def elements (stamp : Option Bytes) : Nat := if stamp.isSome then 5 else 4

theorem takes_readExtras {stamp : Option Bytes} (back : ∀ bytes ∈ stamp, library.InvertsBin bytes) :
    Takes (readExtras library (elements stamp)) (stamp.elim [] (bin library)) stamp := by
  cases stamp with
  | none => exact Takes.ofPure none
  | some bytes =>
    have skipped : Takes (within malformed (Parsing.times (skip library.fromU8) 0)) [] () :=
      takes_within ((Parsing.Reads.ofPure ()).parses [] () ⟨rfl, rfl⟩)
    let finished (stamp : Option Bytes) : Decode (Option Bytes) := fun data =>
      within malformed (Parsing.times (skip library.fromU8) 0) data >>= fun _ => pure stamp
    have second : Takes (finished (some bytes)) ([] ++ []) (some bytes) := skipped.andThen (Takes.ofPure (some bytes))
    have whole := (takes_readStamp documented (back bytes rfl)).andThen second
    rw [List.append_nil, List.append_nil] at whole
    exact whole

theorem exec_decodePayload_front {timestamp : UInt64} {title content : Bytes} (titleBack : library.InvertsBin title)
    (contentBack : library.InvertsBin content) (stamp : Option Bytes) (fieldSize : Nat) {data rest : Bytes}
    (whole : data = array library (elements stamp) ++ (f64 library timestamp ++ (bin library title ++
      (bin library content ++ rest)))) :
    ∃ position reserved,
      exec (decodePayload library fieldSize data) ⟨0, []⟩ =
        exec (readFieldMap library fieldSize data >>= fun fields => readExtras library (elements stamp) data >>= fun stamped =>
          finishPayload library (elements stamp) (.float timestamp) title content fields stamped data) ⟨position, reserved⟩ ∧
      position ≤ data.length ∧ data.drop position = rest := by
  have few : elements stamp < 2 ^ 32 ∧ ¬ elements stamp < 4 := by
    unfold elements
    split <;> decide
  have count : Takes (within malformed (arrayLen library)) (array library (elements stamp)) (elements stamp) :=
    takes_within (parses_arrayLen documented few.1)
  have time : Takes (within (fun _ => MessageError.invalidTimestamp) (readNumber library)) (f64 library timestamp)
      (.float timestamp) := takes_within (parses_readNumber documented timestamp)
  have first : Takes (owned malformed (readBin library)) (bin library title) title := takes_owned (parses_readBin titleBack)
  have second : Takes (owned malformed (readBin library)) (bin library content) content :=
    takes_owned (parses_readBin contentBack)
  unfold decodePayload
  obtain ⟨log, run, inside, here⟩ := count.bind [] (Nat.zero_le _) (List.drop_zero.trans whole)
    (fun n => decodeElements library fieldSize n data)
  rw [run]
  unfold decodeElements
  rw [if_neg few.2]
  obtain ⟨log, run, inside, here⟩ := time.bind log inside here _
  rw [run]
  obtain ⟨log, run, inside, here⟩ := first.bind log inside here _
  rw [run]
  obtain ⟨log, run, inside, here⟩ := second.bind log inside here _
  rw [run]
  exact ⟨_, log, rfl, inside, here⟩

omit documented in
theorem encodePayload_eq (timestamp : UInt64) (title content : Bytes) (fields : List Field) (stamp : Option Bytes) :
    encodePayload library (.float timestamp) title content fields stamp =
      array library (elements stamp) ++ (f64 library timestamp ++ (bin library title ++ (bin library content ++
        ((map library fields.length ++ (fields.map (encodeField library)).flatten) ++
          (stamp.elim [] (bin library) ++ []))))) := by
  simp only [encodePayload, number, elements, List.append_assoc, List.append_nil]

theorem decodePayload_encodePayload {timestamp : UInt64} {title content : Bytes} {fields : List Field} {stamp : Option Bytes}
    (titleBack : library.InvertsBin title) (contentBack : library.InvertsBin content)
    (stampBack : ∀ bytes ∈ stamp, library.InvertsBin bytes) (formed : ∀ field ∈ fields, WellFormed 64 field.2)
    (few : fields.length < 2 ^ 32) (fieldSize : Nat) :
    ∃ decoder,
      exec (decodePayload library fieldSize (encodePayload library (.float timestamp) title content fields stamp)) ⟨0, []⟩ =
        (.ok ⟨timestamp, title, content, fields, stamp, encodePayload library (.float timestamp) title content fields none⟩,
          decoder) := by
  obtain ⟨data, named⟩ : ∃ data, data = encodePayload library (.float timestamp) title content fields stamp := ⟨_, rfl⟩
  obtain ⟨position, log, run, inside, here⟩ :=
    exec_decodePayload_front documented titleBack contentBack stamp fieldSize (named.trans (encodePayload_eq ..))
  rw [← named, run]
  obtain ⟨log, run, inside, here⟩ := (takes_readFieldMap documented formed few fieldSize).bind log inside here _
  rw [run]
  obtain ⟨log, run, inside, here⟩ := (takes_readExtras documented stampBack).bind log inside here _
  rw [run]
  have ended := List.drop_eq_nil_iff.mp here
  have last := Nat.le_antisymm inside ended
  unfold finishPayload
  rw [Fallible.exec_get_bind, if_neg (not_not.mpr last)]
  cases stamp with
  | none =>
    subst named
    exact ⟨_, rfl⟩
  | some bytes => exact ⟨_, rfl⟩

omit documented in
theorem length_readFields {count : Nat} {before fields : List Field} {data : Bytes} {decoder after : Decoder}
    (ok : exec (readFields library count before data) decoder = (.ok fields, after)) :
    fields.length = before.length + count := by
  induction count generalizing before decoder with
  | zero =>
    obtain rfl := Except.ok.inj (Prod.mk.inj ok).1
    rfl
  | succ count ih =>
    obtain ⟨key, middle, _, ok⟩ := Fallible.bind_eq_ok ok
    obtain ⟨value, middle', _, ok⟩ := Fallible.bind_eq_ok ok
    rw [ih ok, List.length_append, List.length_singleton]
    omega

theorem length_decoded {timestamp : UInt64} {title content : Bytes} {fields : List Field} {stamp : Option Bytes}
    (titleBack : library.InvertsBin title) (contentBack : library.InvertsBin content) {fieldSize : Nat} {payload : Payload}
    {decoder : Decoder}
    (ok : exec (decodePayload library fieldSize (encodePayload library (.float timestamp) title content fields stamp))
      ⟨0, []⟩ = (.ok payload, decoder)) : payload.fields.length = fields.length % 2 ^ 32 := by
  obtain ⟨data, named⟩ : ∃ data, data = encodePayload library (.float timestamp) title content fields stamp := ⟨_, rfl⟩
  obtain ⟨position, log, run, inside, here⟩ :=
    exec_decodePayload_front documented titleBack contentBack stamp fieldSize (named.trans (encodePayload_eq ..))
  rw [← named, run] at ok
  rw [List.append_assoc] at here
  obtain ⟨read, middle, mapped, ok⟩ := Fallible.bind_eq_ok ok
  obtain ⟨stamped, middle', _, ok⟩ := Fallible.bind_eq_ok ok
  have count : Takes (within malformed (mapLen library)) (map library fields.length) (fields.length % 2 ^ 32) :=
    takes_within (parses_mapLen documented fields.length)
  obtain ⟨log', run', _, _⟩ := count.bind log inside here (fun count => reserve (count * fieldSize) >>= fun _ =>
    readFields library count [] data)
  have counted := run'.symm.trans mapped
  rw [reserve, Fallible.exec_modify_bind] at counted
  have size := length_readFields counted
  rw [List.length_nil, Nat.zero_add] at size
  unfold finishPayload at ok
  rw [Fallible.exec_get_bind] at ok
  split at ok
  · cases ok
  · obtain rfl := Except.ok.inj (Prod.mk.inj ok).1
    exact size

end Parts

end Leviculum.Lxmf
