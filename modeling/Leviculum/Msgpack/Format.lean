import Leviculum.Lib.Bytes
import Leviculum.Lib.Parsing

/-! The MessagePack format: what each tag announces, which byte strings are one value, and a walk over a value
that follows the tags. -/

namespace Leviculum.Msgpack

open Parsing (Parser Reads)

/-- What stands after a tag. -/
inductive Shape where
  | reserved
  /-- The tag is the whole value. -/
  | alone
  | fixed (n : Nat)
  /-- A length in `width` bytes, then that many bytes. -/
  | sized (width : Nat)
  /-- A length in `width` bytes, a type byte, then that many bytes. -/
  | extension (width : Nat)
  | items (n : Nat)
  /-- A count in `width` bytes, then `each` values for every one counted. -/
  | counted (width each : Nat)
  deriving DecidableEq

/-- The format's table of tags. -/
def Shape.ofTag (tag : UInt8) : Shape :=
  if tag < 0x80 then .alone
  else if tag < 0x90 then .items (2 * (tag - 0x80).toNat)
  else if tag < 0xa0 then .items (tag - 0x90).toNat
  else if tag < 0xc0 then .fixed (tag - 0xa0).toNat
  else match tag with
    | 0xc0 | 0xc2 | 0xc3 => .alone
    | 0xc1 => .reserved
    | 0xc4 | 0xd9 => .sized 1
    | 0xc5 | 0xda => .sized 2
    | 0xc6 | 0xdb => .sized 4
    | 0xc7 => .extension 1
    | 0xc8 => .extension 2
    | 0xc9 => .extension 4
    | 0xcc | 0xd0 => .fixed 1
    | 0xcd | 0xd1 => .fixed 2
    | 0xca | 0xce | 0xd2 => .fixed 4
    | 0xcb | 0xcf | 0xd3 => .fixed 8
    | 0xd4 => .fixed 2
    | 0xd5 => .fixed 3
    | 0xd6 => .fixed 5
    | 0xd7 => .fixed 9
    | 0xd8 => .fixed 17
    | 0xdc => .counted 2 1
    | 0xdd => .counted 4 1
    | 0xde => .counted 2 2
    | 0xdf => .counted 4 2
    | _ => .alone

/-- A byte string that is one value with containers nested at most `depth` deep. -/
inductive WellFormed : Nat → Bytes → Prop
  | alone {depth : Nat} {tag : UInt8} (shape : Shape.ofTag tag = .alone) : WellFormed depth [tag]
  | fixed {depth n : Nat} {tag : UInt8} {payload : Bytes} (shape : Shape.ofTag tag = .fixed n)
      (size : payload.length = n) : WellFormed depth (tag :: payload)
  | sized {depth width : Nat} {tag : UInt8} {length payload : Bytes} (shape : Shape.ofTag tag = .sized width)
      (prefixed : length.length = width) (size : payload.length = Bytes.ofBe length) :
      WellFormed depth (tag :: (length ++ payload))
  | extension {depth width : Nat} {tag kind : UInt8} {length payload : Bytes}
      (shape : Shape.ofTag tag = .extension width) (prefixed : length.length = width)
      (size : payload.length = Bytes.ofBe length) : WellFormed depth (tag :: (length ++ kind :: payload))
  | items {depth n : Nat} {tag : UInt8} {items : List Bytes} (shape : Shape.ofTag tag = .items n)
      (count : items.length = n) (each : ∀ item ∈ items, WellFormed depth item) :
      WellFormed (depth + 1) (tag :: items.flatten)
  | counted {depth width every : Nat} {tag : UInt8} {length : Bytes} {items : List Bytes}
      (shape : Shape.ofTag tag = .counted width every) (prefixed : length.length = width)
      (count : items.length = every * Bytes.ofBe length) (each : ∀ item ∈ items, WellFormed depth item) :
      WellFormed (depth + 1) (tag :: (length ++ items.flatten))

theorem reads_dropped {Error : Type} (error : Error) (n : Nat) :
    Reads (fun data : Bytes => Parsing.take error n data >>= fun _ => pure ()) (fun bytes _ => bytes.length = n) := by
  refine ((Parsing.reads_take error n).map (fun _ => ())).congr (fun bytes _ => ?_)
  constructor
  · rintro ⟨_, ⟨rfl, size⟩, -⟩
    exact size
  · intro size
    exact ⟨bytes, ⟨rfl, size⟩, rfl⟩

theorem reads_be {Error : Type} (error : Error) (width : Nat) :
    Reads (fun data : Bytes => Parsing.take error width data >>= fun bytes => pure (Bytes.ofBe bytes))
      (fun bytes value => bytes.length = width ∧ value = Bytes.ofBe bytes) := by
  refine ((Parsing.reads_take error width).map Bytes.ofBe).congr (fun bytes value => ?_)
  constructor
  · rintro ⟨_, ⟨rfl, size⟩, rfl⟩
    exact ⟨size, rfl⟩
  · rintro ⟨size, rfl⟩
    exact ⟨bytes, ⟨rfl, size⟩, rfl⟩

theorem ofBe_singleton (byte : UInt8) : Bytes.ofBe [byte] = byte.toNat := Nat.zero_add _

theorem reads_byte_number {Error : Type} {parser : Parser UInt8 Error UInt8}
    (reads : Reads parser (fun bytes value => bytes = [value])) :
    Reads (fun data => parser data >>= fun byte => pure byte.toNat)
      (fun bytes value => bytes.length = 1 ∧ value = Bytes.ofBe bytes) := by
  refine (reads.map UInt8.toNat).congr (fun bytes value => ?_)
  constructor
  · rintro ⟨byte, rfl, rfl⟩
    exact ⟨rfl, (ofBe_singleton byte).symm⟩
  · rintro ⟨size, rfl⟩
    obtain ⟨byte, rfl⟩ := List.length_eq_one_iff.mp size
    exact ⟨byte, rfl, ofBe_singleton byte⟩

/-- The readers a walk is made of, each with the strings it takes. -/
structure Dialect (Error : Type) where
  byte : Parser UInt8 Error UInt8
  number : Nat → Parser UInt8 Error Nat
  payload : Nat → Parser UInt8 Error Unit
  extension : Nat → Parser UInt8 Error Unit
  reserved : Error
  tooDeep : Error
  reads_byte : Reads byte (fun bytes value => bytes = [value])
  reads_number : ∀ width, Reads (number width) (fun bytes value => bytes.length = width ∧ value = Bytes.ofBe bytes)
  reads_payload : ∀ n, Reads (payload n) (fun bytes _ => bytes.length = n)
  reads_extension : ∀ n, Reads (extension n) (fun bytes _ => bytes.length = n + 1)

namespace Dialect

variable {Error : Type}

/-- What stands after a tag of this shape; `inner` reads the items of a container, if they may nest that deep. -/
def body (dialect : Dialect Error) (inner : Option (Parser UInt8 Error Unit)) : Shape → Parser UInt8 Error Unit
  | .reserved => fun _ => throw dialect.reserved
  | .alone => fun _ => pure ()
  | .fixed n => dialect.payload n
  | .sized width => fun data => dialect.number width data >>= fun n => dialect.payload n data
  | .extension width => fun data => dialect.number width data >>= fun n => dialect.extension n data
  | .items n => many n
  | .counted width each => fun data => dialect.number width data >>= fun n => many (each * n) data
where
  many (n : Nat) : Parser UInt8 Error Unit :=
    match inner with
    | none => fun _ => throw dialect.tooDeep
    | some value => Parsing.times value n

/-- One value at most `depth` deep. -/
def walk (dialect : Dialect Error) : Nat → Parser UInt8 Error Unit
  | 0 => fun data => dialect.byte data >>= fun tag => dialect.body none (Shape.ofTag tag) data
  | depth + 1 => fun data =>
    dialect.byte data >>= fun tag => dialect.body (some (dialect.walk depth)) (Shape.ofTag tag) data

end Dialect

/-- The strings `n` values make, nested at most `depth` deep with the container around them. -/
def Items (depth n : Nat) (bytes : Bytes) : Prop :=
  ∃ inner, depth = inner + 1 ∧ ∃ items : List Bytes, items.length = n ∧ bytes = items.flatten ∧
    ∀ item ∈ items, WellFormed inner item

def After (depth : Nat) : Shape → Bytes → Prop
  | .reserved, _ => False
  | .alone, rest => rest = []
  | .fixed n, rest => rest.length = n
  | .sized width, rest => ∃ length payload, rest = length ++ payload ∧ length.length = width ∧
      payload.length = Bytes.ofBe length
  | .extension width, rest => ∃ length payload, rest = length ++ payload ∧ length.length = width ∧
      payload.length = Bytes.ofBe length + 1
  | .items n, rest => Items depth n rest
  | .counted width each, rest => ∃ length payload, rest = length ++ payload ∧ length.length = width ∧
      Items depth (each * Bytes.ofBe length) payload

theorem wellFormed_cons {depth : Nat} {tag : UInt8} {rest : Bytes} (after : After depth (Shape.ofTag tag) rest) :
    WellFormed depth (tag :: rest) := by
  cases shape : Shape.ofTag tag with
  | reserved =>
    rw [shape] at after
    exact after.elim
  | alone =>
    rw [shape] at after
    obtain rfl : rest = [] := after
    exact .alone shape
  | fixed n =>
    rw [shape] at after
    exact .fixed shape after
  | sized width =>
    rw [shape] at after
    obtain ⟨length, payload, rfl, prefixed, size⟩ := after
    exact .sized shape prefixed size
  | extension width =>
    rw [shape] at after
    obtain ⟨length, payload, rfl, prefixed, size⟩ := after
    cases payload with
    | nil => cases size
    | cons kind payload => exact .extension shape prefixed (Nat.succ.inj size)
  | items n =>
    rw [shape] at after
    obtain ⟨inner, rfl, items, count, rfl, each⟩ := after
    exact .items shape count each
  | counted width every =>
    rw [shape] at after
    obtain ⟨length, _, rfl, prefixed, inner, rfl, items, count, rfl, each⟩ := after
    exact .counted shape prefixed count each

theorem after_of_wellFormed {depth : Nat} {bytes : Bytes} (formed : WellFormed depth bytes) :
    ∃ tag rest, bytes = tag :: rest ∧ After depth (Shape.ofTag tag) rest := by
  cases formed with
  | alone shape =>
    refine ⟨_, _, rfl, ?_⟩
    rw [shape]
    exact rfl
  | fixed shape size =>
    refine ⟨_, _, rfl, ?_⟩
    rw [shape]
    exact size
  | sized shape prefixed size =>
    refine ⟨_, _, rfl, ?_⟩
    rw [shape]
    exact ⟨_, _, rfl, prefixed, size⟩
  | extension shape prefixed size =>
    refine ⟨_, _, rfl, ?_⟩
    rw [shape]
    exact ⟨_, _, rfl, prefixed, congrArg (· + 1) size⟩
  | items shape count each =>
    refine ⟨_, _, rfl, ?_⟩
    rw [shape]
    exact ⟨_, rfl, _, count, rfl, each⟩
  | counted shape prefixed count each =>
    refine ⟨_, _, rfl, ?_⟩
    rw [shape]
    exact ⟨_, _, rfl, prefixed, _, rfl, _, count, rfl, each⟩

namespace Dialect

variable {Error : Type} (dialect : Dialect Error)

theorem reads_numbered {next : Nat → Parser UInt8 Error Unit} {later : Nat → Bytes → Prop}
    (reads : ∀ n, Reads (next n) (fun bytes _ => later n bytes)) (width : Nat) :
    Reads (fun data => dialect.number width data >>= fun n => next n data)
      (fun bytes _ => ∃ length payload, bytes = length ++ payload ∧ length.length = width ∧
        later (Bytes.ofBe length) payload) := by
  refine ((dialect.reads_number width).andThen reads).congr (fun bytes _ => ?_)
  constructor
  · rintro ⟨length, payload, _, rfl, ⟨size, rfl⟩, allowed⟩
    exact ⟨length, payload, rfl, size, allowed⟩
  · rintro ⟨length, payload, rfl, size, allowed⟩
    exact ⟨length, payload, _, rfl, ⟨size, rfl⟩, allowed⟩

theorem reads_body {depth : Nat} {inner : Option (Parser UInt8 Error Unit)}
    (many : ∀ n, Reads (body.many dialect inner n) (fun bytes _ => Items depth n bytes)) (shape : Shape) :
    Reads (dialect.body inner shape) (fun bytes _ => After depth shape bytes) := by
  cases shape with
  | reserved => exact Reads.ofThrow dialect.reserved
  | alone => exact (Reads.ofPure ()).congr (fun bytes _ => and_iff_left rfl)
  | fixed n => exact dialect.reads_payload n
  | sized width => exact dialect.reads_numbered dialect.reads_payload width
  | extension width => exact dialect.reads_numbered dialect.reads_extension width
  | items n => exact many n
  | counted width each => exact dialect.reads_numbered (fun n => many (each * n)) width

theorem reads_many_none (n : Nat) : Reads (body.many dialect none n) (fun bytes _ => Items 0 n bytes) := by
  refine (Reads.ofThrow dialect.tooDeep).congr (fun bytes _ => ?_)
  constructor
  · exact False.elim
  · rintro ⟨inner, deep, -⟩
    cases deep

theorem reads_many_some {depth : Nat} {value : Parser UInt8 Error Unit}
    (reads : Reads value (fun bytes _ => WellFormed depth bytes)) (n : Nat) :
    Reads (body.many dialect (some value) n) (fun bytes _ => Items (depth + 1) n bytes) := by
  refine (Parsing.reads_times reads n).congr (fun bytes _ => ?_)
  constructor
  · intro items
    exact ⟨depth, rfl, items⟩
  · rintro ⟨inner, deep, items⟩
    obtain rfl := Nat.succ.inj deep
    exact items

theorem reads_tagged {depth : Nat} {body : UInt8 → Parser UInt8 Error Unit}
    (reads : ∀ tag, Reads (body tag) (fun bytes _ => After depth (Shape.ofTag tag) bytes)) :
    Reads (fun data => dialect.byte data >>= fun tag => body tag data) (fun bytes _ => WellFormed depth bytes) := by
  refine (dialect.reads_byte.andThen reads).congr (fun bytes _ => ?_)
  constructor
  · rintro ⟨_, rest, tag, rfl, rfl, after⟩
    exact wellFormed_cons after
  · intro formed
    obtain ⟨tag, rest, rfl, after⟩ := after_of_wellFormed formed
    exact ⟨[tag], rest, tag, rfl, rfl, after⟩

theorem reads_walk (depth : Nat) : Reads (dialect.walk depth) (fun bytes _ => WellFormed depth bytes) := by
  induction depth with
  | zero => exact dialect.reads_tagged (fun tag => dialect.reads_body dialect.reads_many_none _)
  | succ depth ih => exact dialect.reads_tagged (fun tag => dialect.reads_body (dialect.reads_many_some ih) _)

end Dialect

end Leviculum.Msgpack
