import Leviculum.Lxmf.RoundTrip

/-! What decoding reserves: every capacity is that of bytes at hand, but for the field map, which is as large as
its header says. -/

namespace Leviculum.Lxmf

open Fallible (exec)
open Msgpack.Lxmf
open Router (DeliveryMethod MessageError)

/-- What the decoder reserves is never more than its input. -/
def Frugal {V : Type} (decode : Decode V) : Prop :=
  ∀ (data : Bytes) (decoder : Decoder), ∃ more,
    (exec (decode data) decoder).2.reserved = decoder.reserved ++ more ∧ ∀ size ∈ more, size ≤ data.length

/-- The decoder goes where the reader goes, and reserves no more than its input. -/
structure Mirrors {V : Type} (decode : Decode V) (reader : Reader V) : Prop where
  ok : ∀ (data : Bytes) (decoder : Decoder) (value : V) (last : Nat), exec (reader data) decoder.position = (.ok value, last) →
    ∃ more, exec (decode data) decoder = (.ok value, ⟨last, decoder.reserved ++ more⟩) ∧ ∀ size ∈ more, size ≤ data.length
  error : ∀ (data : Bytes) (decoder : Decoder) (error : Msgpack.Error) (last : Nat),
    exec (reader data) decoder.position = (.error error, last) →
    ∃ wrong, exec (decode data) decoder = (.error wrong, ⟨last, decoder.reserved⟩)

/-- The values of the reader are no longer than its input. -/
def Slices (reader : Reader Bytes) : Prop :=
  ∀ (data : Bytes) (position last : Nat) (value : Bytes), exec (reader data) position = (.ok value, last) →
    value.length ≤ data.length

theorem mirrors_within {V : Type} (onError : Msgpack.Error → MessageError) (reader : Reader V) :
    Mirrors (within onError reader) reader where
  ok := by
    intro data decoder value last run
    refine ⟨[], ?_, fun size member => absurd member List.not_mem_nil⟩
    rw [exec_within, run, List.append_nil]
    rfl
  error := by
    intro data decoder error last run
    refine ⟨onError error, ?_⟩
    rw [exec_within, run]
    rfl

theorem mirrors_owned (onError : Msgpack.Error → MessageError) {reader : Reader Bytes} (slices : Slices reader) :
    Mirrors (owned onError reader) reader where
  ok := by
    intro data decoder value last run
    obtain ⟨more, within, small⟩ := (mirrors_within onError reader).ok data decoder value last run
    refine ⟨more ++ [value.length], ?_, fun size member => ?_⟩
    · unfold owned
      rw [Fallible.exec_bind_ok within, reserve, Fallible.exec_modify_bind]
      dsimp only
      rw [List.append_assoc]
      rfl
    · rcases List.mem_append.mp member with earlier | last
      · exact small size earlier
      · rw [List.mem_singleton.mp last]
        exact slices data _ _ value run
  error := by
    intro data decoder error last run
    obtain ⟨wrong, within⟩ := (mirrors_within onError reader).error data decoder error last run
    exact ⟨wrong, Fallible.exec_bind_error within _⟩

theorem Mirrors.frugal {V : Type} {decode : Decode V} {reader : Reader V} (mirrors : Mirrors decode reader) : Frugal decode := by
  intro data decoder
  rcases run : exec (reader data) decoder.position with ⟨outcome, last⟩
  cases outcome with
  | ok value =>
    obtain ⟨more, within, small⟩ := mirrors.ok data decoder value last run
    exact ⟨more, by rw [within], small⟩
  | error error =>
    obtain ⟨wrong, within⟩ := mirrors.error data decoder error last run
    refine ⟨[], ?_, fun size member => absurd member List.not_mem_nil⟩
    rw [within, List.append_nil]

theorem frugal_pure {V : Type} (value : V) : Frugal (fun _ => pure value) := by
  intro data decoder
  exact ⟨[], (List.append_nil _).symm, fun size member => absurd member List.not_mem_nil⟩

theorem Frugal.andThen {V W : Type} {decode : Decode V} {second : V → Decode W} (frugal : Frugal decode)
    (later : ∀ value, Frugal (second value)) : Frugal (fun data => decode data >>= fun value => second value data) := by
  intro data decoder
  obtain ⟨more, grown, small⟩ := frugal data decoder
  rcases run : exec (decode data) decoder with ⟨outcome, middle⟩
  rw [run] at grown
  cases outcome with
  | error error =>
    rw [Fallible.exec_bind_error run]
    exact ⟨more, grown, small⟩
  | ok value =>
    obtain ⟨extra, grown', small'⟩ := later value data middle
    rw [Fallible.exec_bind_ok run, grown', grown, List.append_assoc]
    refine ⟨more ++ extra, rfl, fun size member => ?_⟩
    exact (List.mem_append.mp member).elim (small size) (small' size)

section Parts

variable (library : Rmp)

theorem slices_readBin : Slices (readBin library) := by
  intro data position last value run
  obtain ⟨n, middle, _, taken⟩ := Fallible.bind_eq_ok run
  rw [take, Parsing.exec_take] at taken
  split at taken
  · obtain rfl := Except.ok.inj (Prod.mk.inj taken).1
    rw [List.length_take, List.length_drop]
    omega
  · cases taken

theorem slices_raw : Slices (raw library) := by
  intro data position last value run
  unfold raw at run
  rw [Fallible.exec_get_bind] at run
  obtain ⟨_, middle, _, rest⟩ := Fallible.bind_eq_ok run
  rw [Fallible.exec_get_bind] at rest
  obtain rfl := Except.ok.inj (Prod.mk.inj rest).1
  rw [List.length_take, List.length_drop]
  omega

theorem frugal_readFields (count : Nat) (fields : List Field) : Frugal (readFields library count fields) := by
  induction count generalizing fields with
  | zero => exact frugal_pure fields
  | succ count ih =>
    refine (mirrors_within malformed (readInt library)).frugal.andThen (fun key => ?_)
    exact (mirrors_owned malformed (slices_raw library)).frugal.andThen (fun value => ih (fields ++ [(key, value)]))

theorem frugal_readStamp : Frugal (readStamp library) := by
  refine (mirrors_within malformed (peekNil library)).frugal.andThen (fun absent => ?_)
  cases absent with
  | true => exact (mirrors_within malformed readNil).frugal.andThen (fun _ => frugal_pure none)
  | false => exact (mirrors_owned stampError (slices_readBin library)).frugal.andThen (fun stamp => frugal_pure (some stamp))

theorem frugal_readExtras (n : Nat) : Frugal (readExtras library n) := by
  by_cases more : 4 < n
  · have reads : readExtras library n = fun data => readStamp library data >>= fun stamp =>
        within malformed (Parsing.times (skip library.fromU8) (n - 5)) data >>= fun _ => pure stamp := by
      funext data
      exact if_pos more
    rw [reads]
    refine (frugal_readStamp library).andThen (fun stamp => ?_)
    exact (mirrors_within malformed _).frugal.andThen (fun _ => frugal_pure stamp)
  · have reads : readExtras library n = fun _ => pure none := by
      funext data
      exact if_neg more
    rw [reads]
    exact frugal_pure none

theorem frugal_finishPayload (n : Nat) (timestamp : Number) (title content : Bytes) (fields : List Field)
    (stamp : Option Bytes) : Frugal (finishPayload library n timestamp title content fields stamp) := by
  intro data decoder
  refine ⟨[], ?_, fun size member => absurd member List.not_mem_nil⟩
  unfold finishPayload
  rw [Fallible.exec_get_bind, List.append_nil]
  split <;> rfl

end Parts

/-! ### The field map -/

/-- Where the reader gets to a count, room for that many fields is reserved; all else is no more than the input. -/
def Announces {V : Type} (fieldSize : Nat) (decode : Decode V) (reader : Reader Nat) : Prop :=
  ∀ (data : Bytes) (decoder : Decoder), ∃ before after,
    (∀ size ∈ before ++ after, size ≤ data.length) ∧
    (exec (decode data) decoder).2.reserved = decoder.reserved ++
      match (exec (reader data) decoder.position).1 with
      | .ok count => before ++ [count * fieldSize] ++ after
      | .error _ => before

theorem Announces.after {V W : Type} {fieldSize : Nat} {decode : Decode V} {reader : Reader V} {second : V → Decode W}
    {count : V → Reader Nat} (mirrors : Mirrors decode reader) (later : ∀ value, Announces fieldSize (second value) (count value)) :
    Announces fieldSize (fun data => decode data >>= fun value => second value data)
      (fun data => reader data >>= fun value => count value data) := by
  intro data decoder
  rcases run : exec (reader data) decoder.position with ⟨outcome, last⟩
  cases outcome with
  | error error =>
    obtain ⟨wrong, failed⟩ := mirrors.error data decoder error last run
    refine ⟨[], [], fun size member => absurd member List.not_mem_nil, ?_⟩
    rw [Fallible.exec_bind_error failed, Fallible.exec_bind_error run, List.append_nil]
  | ok value =>
    obtain ⟨more, went, small⟩ := mirrors.ok data decoder value last run
    obtain ⟨before, after, small', grown⟩ := later value data ⟨last, decoder.reserved ++ more⟩
    refine ⟨more ++ before, after, fun size member => ?_, ?_⟩
    · rw [List.append_assoc] at member
      exact (List.mem_append.mp member).elim (small size) (small' size)
    · rw [Fallible.exec_bind_ok went, Fallible.exec_bind_ok run, grown]
      cases (exec (count value data) last).1 <;> simp only [List.append_assoc]

theorem announces_fieldMap (library : Rmp) (fieldSize : Nat) {W : Type} {next : List Field → Decode W}
    (frugal : ∀ fields, Frugal (next fields)) :
    Announces fieldSize (fun data => readFieldMap library fieldSize data >>= fun fields => next fields data) (mapLen library) := by
  intro data decoder
  rcases run : exec (mapLen library data) decoder.position with ⟨outcome, last⟩
  cases outcome with
  | error error =>
    obtain ⟨wrong, failed⟩ := (mirrors_within malformed (mapLen library)).error data decoder error last run
    refine ⟨[], [], fun size member => absurd member List.not_mem_nil, ?_⟩
    have mapped : exec (readFieldMap library fieldSize data) decoder = (.error wrong, ⟨last, decoder.reserved⟩) :=
      Fallible.exec_bind_error failed _
    rw [Fallible.exec_bind_error mapped, List.append_nil]
  | ok count =>
    obtain ⟨more, went, small⟩ := (mirrors_within malformed (mapLen library)).ok data decoder count last run
    have rest := ((frugal_readFields library count []).andThen frugal) data ⟨last, decoder.reserved ++ more ++ [count * fieldSize]⟩
    obtain ⟨after, grown, small'⟩ := rest
    refine ⟨more, after, fun size member => (List.mem_append.mp member).elim (small size) (small' size), ?_⟩
    have mapped : exec (readFieldMap library fieldSize data >>= fun fields => next fields data) decoder =
        exec (readFields library count [] data >>= fun fields => next fields data)
          ⟨last, decoder.reserved ++ more ++ [count * fieldSize]⟩ := by
      unfold readFieldMap
      rw [bind_assoc, Fallible.exec_bind_ok went, reserve, bind_assoc, Fallible.exec_modify_bind]
    rw [mapped, grown]
    simp only [List.append_assoc]

section Announced

variable (library : Rmp)

def readCount : Reader Nat := fun data => do
  let n ← arrayLen library data
  if n < 4 then throw .type
  else
    let _ ← readNumber library data
    let _ ← readBin library data
    let _ ← readBin library data
    mapLen library data

theorem announces_decodePayload (fieldSize : Nat) : Announces fieldSize (decodePayload library fieldSize) (readCount library) := by
  let elements (n : Nat) : Reader Nat := fun data =>
    if n < 4 then throw .type
    else readNumber library data >>= fun _ => readBin library data >>= fun _ => readBin library data >>= fun _ => mapLen library data
  refine @Announces.after _ _ fieldSize _ _ _ elements (mirrors_within malformed (arrayLen library)) (fun n => ?_)
  by_cases few : n < 4
  · intro data decoder
    refine ⟨[], [], fun size member => absurd member List.not_mem_nil, ?_⟩
    simp only [decodeElements, elements, if_pos few]
    exact (List.append_nil _).symm
  · have decodes : decodeElements library fieldSize n = fun data =>
        within (fun _ => MessageError.invalidTimestamp) (readNumber library) data >>= fun timestamp =>
        owned malformed (readBin library) data >>= fun title => owned malformed (readBin library) data >>= fun content =>
        readFieldMap library fieldSize data >>= fun fields => readExtras library n data >>= fun stamp =>
        finishPayload library n timestamp title content fields stamp data := by
      funext data
      exact if_neg few
    have reads : elements n = fun data => readNumber library data >>= fun _ => readBin library data >>= fun _ =>
        readBin library data >>= fun _ => mapLen library data := by
      funext data
      exact if_neg few
    rw [decodes, reads]
    refine Announces.after (mirrors_within _ (readNumber library)) (fun timestamp => ?_)
    refine Announces.after (mirrors_owned malformed (slices_readBin library)) (fun title => ?_)
    refine Announces.after (mirrors_owned malformed (slices_readBin library)) (fun content => ?_)
    refine announces_fieldMap library fieldSize (fun fields => ?_)
    exact (frugal_readExtras library n).andThen (fun stamp => frugal_finishPayload library n timestamp title content fields stamp)

/-- The number of fields a payload announces, if the decoder gets that far. -/
def announced (payload : Bytes) : Option Nat := (exec (readCount library payload) 0).1.toOption

end Announced

namespace Message

variable (library : Rmp) (fullHash : Bytes → FixedBytes 32) (fieldSize : Nat)

/-- The number of fields announced in what `unpack` is given. -/
def announcedFields (data : Bytes) (inferredDestination : Option Hash) (method : DeliveryMethod) : Option Nat :=
  let whole := if method = .opportunistic then inferredDestination.map (fun hash => hash.val ++ data) else some data
  whole.bind (fun whole => if whole.length < 97 then none else announced library (whole.drop 96))

theorem reserved_unpackWhole (source : Option Identity) (method : DeliveryMethod) (whole : Bytes) :
    ∃ before after, (∀ size ∈ before ++ after, size ≤ (whole.drop 96).length) ∧
      (unpackWhole library fullHash fieldSize source method whole).2 =
        match (if whole.length < 97 then none else announced library (whole.drop 96)) with
        | some count => before ++ [count * fieldSize] ++ after
        | none => before := by
  unfold unpackWhole
  split
  next short => exact ⟨[], [], fun size member => absurd member List.not_mem_nil, rfl⟩
  next long =>
    have header : 16 ≤ whole.length ∧ 16 ≤ (whole.drop 16).length ∧ 64 ≤ (whole.drop 32).length := by
      rw [List.length_drop, List.length_drop]
      omega
    obtain ⟨before, after, small, grown⟩ := announces_decodePayload library fieldSize (whole.drop 96) ⟨0, []⟩
    refine ⟨before, after, small, ?_⟩
    rw [List.nil_append] at grown
    rw [FixedBytes.take?, dif_pos header.1, FixedBytes.take?, dif_pos header.2.1, FixedBytes.take?, dif_pos header.2.2]
    dsimp only
    have reserved : (exec (decodePayload library fieldSize (whole.drop 96)) ⟨0, []⟩).2.reserved =
        match announced library (whole.drop 96) with
        | some count => before ++ [count * fieldSize] ++ after
        | none => before := by
      rw [grown, announced]
      cases (exec (readCount library (whole.drop 96)) 0).1 <;> rfl
    rw [← reserved]
    rcases exec (decodePayload library fieldSize (whole.drop 96)) ⟨0, []⟩ with ⟨outcome, decoder⟩
    cases outcome <;> rfl

theorem reserved_le_iff {source : Option Identity} {method : DeliveryMethod} {whole : Bytes} {limit : Nat}
    (room : (whole.drop 96).length ≤ limit) :
    (∀ size ∈ (unpackWhole library fullHash fieldSize source method whole).2, size ≤ limit) ↔
      ∀ count, (if whole.length < 97 then none else announced library (whole.drop 96)) = some count →
        count * fieldSize ≤ limit := by
  obtain ⟨before, after, small, grown⟩ := reserved_unpackWhole library fullHash fieldSize source method whole
  rw [grown]
  have fits : ∀ size ∈ before ++ after, size ≤ limit := fun size member => Nat.le_trans (small size member) room
  cases (if whole.length < 97 then none else announced library (whole.drop 96)) with
  | none =>
    constructor
    · intro _ count none
      cases none
    · intro _ size member
      exact fits size (List.mem_append_left _ member)
  | some count =>
    dsimp only
    constructor
    · intro all other same
      obtain rfl := Option.some.inj same
      exact all _ (List.mem_append_left _ (List.mem_append_right _ List.mem_cons_self))
    · intro announced size member
      rcases List.mem_append.mp member with front | last
      · rcases List.mem_append.mp front with first | middle
        · exact fits size (List.mem_append_left _ first)
        · rw [List.mem_singleton.mp middle]
          exact announced count rfl
      · exact fits size (List.mem_append_right _ last)

theorem reserved_unpack_iff (data : Bytes) (inferredDestination : Option Hash) (source : Option Identity)
    (method : DeliveryMethod) {limit : Nat} (room : data.length ≤ limit) :
    (∀ size ∈ (unpack library fullHash fieldSize data inferredDestination source method).2, size ≤ limit) ↔
      ∀ count, announcedFields library data inferredDestination method = some count → count * fieldSize ≤ limit := by
  unfold unpack announcedFields
  by_cases opportunistic : method = .opportunistic
  · rw [if_pos opportunistic, if_pos opportunistic]
    cases inferredDestination with
    | none =>
      constructor
      · intro _ count none
        cases none
      · intro _ size member
        exact absurd member List.not_mem_nil
    | some hash =>
      refine reserved_le_iff library fullHash fieldSize (Nat.le_trans ?_ room)
      rw [List.length_drop, List.length_append, hash.2]
      omega
  · rw [if_neg opportunistic, if_neg opportunistic]
    refine reserved_le_iff library fullHash fieldSize (Nat.le_trans ?_ room)
    rw [List.length_drop]
    omega

/-- Whatever `unpack` is given, and for any constant: every capacity it reserves is at most the constant times the
length of its input exactly when the field map's header, if decoding gets there, announces no more fields than
that has room for. -/
theorem reserved_in_proportion (data : Bytes) (inferredDestination : Option Hash) (source : Option Identity)
    (method : DeliveryMethod) (constant : Nat) :
    (∀ size ∈ (unpack library fullHash fieldSize data inferredDestination source method).2,
      size ≤ (constant + 1) * data.length) ↔
      ∀ count, announcedFields library data inferredDestination method = some count →
        count * fieldSize ≤ (constant + 1) * data.length :=
  reserved_unpack_iff library fullHash fieldSize data inferredDestination source method
    (Nat.le_mul_of_pos_left _ (Nat.succ_pos _))

/-- A payload of nineteen bytes with an empty title and an empty content that announces 2^32 − 1 fields. -/
def hostile : Bytes :=
  List.replicate 96 0 ++ [0x94, 0xcb, 0, 0, 0, 0, 0, 0, 0, 0, 0xc4, 0, 0xc4, 0, 0xdf, 0xff, 0xff, 0xff, 0xff]

/-- For these 115 bytes room for 2^32 − 1 fields of 32 bytes is reserved. -/
theorem hostile_reserves :
    hostile.length = 115 ∧
    ∀ constant ≤ 2 ^ 30, ¬ ∀ size ∈ (unpack shortest sampleHash 32 hostile none none .direct).2,
      size ≤ constant * hostile.length := by
  have size : hostile.length = 115 := by decide
  have count : announcedFields shortest hostile none .direct = some 4294967295 := by decide
  refine ⟨size, fun constant small all => ?_⟩
  have wider : ∀ size ∈ (unpack shortest sampleHash 32 hostile none none .direct).2, size ≤ (2 ^ 30) * hostile.length :=
    fun size member => Nat.le_trans (all size member) (Nat.mul_le_mul_right _ small)
  have room : hostile.length ≤ 2 ^ 30 * hostile.length := Nat.le_mul_of_pos_left _ (by decide)
  have fits := (reserved_unpack_iff shortest sampleHash 32 hostile none none .direct room).mp wider _ count
  rw [size] at fits
  exact absurd fits (by decide)

end Message

end Leviculum.Lxmf
