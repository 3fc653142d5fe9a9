import Leviculum.Lib.NorFlash

/-! Fields at fixed places of a byte string, all integers little-endian, as a reader that works in place gets them, and
the checks such a reader makes on the way. -/

namespace Leviculum.Reading

variable {α β ε : Type}

/-- `.ok_or(error)?` -/
def orFail (error : ε) : Option α → Except ε α
  | none => .error error
  | some value => .ok value

def ensure (holds : Bool) (error : ε) : Except ε Unit := if holds then .ok () else .error error

theorem bind_eq_ok {x : Except ε α} {f : α → Except ε β} {b : β} : (x >>= f) = .ok b ↔ ∃ a, x = .ok a ∧ f a = .ok b := by
  cases x with
  | error e => exact ⟨nofun, fun ⟨_, failed, _⟩ => nomatch failed⟩
  | ok a => exact ⟨fun ok => ⟨a, rfl, ok⟩, fun ⟨_, same, ok⟩ => by obtain rfl := Except.ok.inj same; exact ok⟩

@[simp] theorem orFail_eq_ok {error : ε} {x : Option α} {a : α} : orFail error x = .ok a ↔ x = some a := by
  cases x with
  | none => exact ⟨nofun, nofun⟩
  | some b => simp [orFail]

@[simp] theorem ensure_eq_ok {holds : Bool} {error : ε} {u : Unit} : ensure holds error = .ok u ↔ holds = true := by
  unfold ensure
  cases holds with
  | false => simp
  | true => simp

theorem forM_eq_ok {xs : List α} {f : α → Except ε Unit} : xs.forM f = .ok () ↔ ∀ x ∈ xs, f x = .ok () := by
  induction xs with
  | nil => exact ⟨fun _ => nofun, fun _ => rfl⟩
  | cons x xs ih =>
    show (f x >>= fun _ => xs.forM f) = .ok () ↔ _
    rw [bind_eq_ok, List.forall_mem_cons, ← ih]
    exact ⟨fun ⟨_, first, rest⟩ => ⟨first, rest⟩, fun ⟨first, rest⟩ => ⟨(), first, rest⟩⟩

theorem ok_bind (a : α) (f : α → Except ε β) : ((.ok a : Except ε α) >>= f) = f a := rfl

end Leviculum.Reading

namespace Leviculum.Bytes

open NorFlash

/-- `bytes.get(start..start + length)`. -/
def slice? (bytes : Bytes) (start length : Nat) : Option Bytes :=
  if start + length ≤ bytes.length then some ((bytes.drop start).take length) else none

/-- The integer of `width` bytes at a place. -/
def leAt? (bytes : Bytes) (start width : Nat) : Option Nat := (slice? bytes start width).map ofLe

/-- The same where the bytes are known to be there. -/
def leAt (bytes : Bytes) (start width : Nat) : Nat := ofLe ((bytes.drop start).take width)

/-- The byte at a place that is known to be there. -/
def byteAt (bytes : Bytes) (start : Nat) : UInt8 := bytes[start]?.getD 0

/-- `core::str::from_utf8(bytes).is_ok()`. -/
def validUtf8 (bytes : Bytes) : Bool := ByteArray.validateUTF8 ⟨bytes.toArray⟩

variable {bytes : Bytes} {start length : Nat}

theorem slice?_eq_some {part : Bytes} :
    slice? bytes start length = some part ↔ start + length ≤ bytes.length ∧ (bytes.drop start).take length = part := by
  unfold slice?
  split_ifs with inside
  · simp [inside]
  · simp [inside]

theorem length_of_slice? {part : Bytes} (some_ : slice? bytes start length = some part) : part.length = length := by
  obtain ⟨inside, rfl⟩ := slice?_eq_some.mp some_
  rw [List.length_take, List.length_drop]
  omega

theorem inside_of_leAt? {value : Nat} (read : leAt? bytes start length = some value) : start + length ≤ bytes.length := by
  obtain ⟨part, sliced, -⟩ := Option.map_eq_some_iff.mp read
  exact (slice?_eq_some.mp sliced).1

theorem slice?_of_slice? {part : Bytes} (sliced : slice? bytes start length = some part) {offset size : Nat}
    (fits : offset + size ≤ length) : slice? part offset size = slice? bytes (start + offset) size := by
  have long := length_of_slice? sliced
  obtain ⟨inside, rfl⟩ := slice?_eq_some.mp sliced
  rw [slice?, slice?, if_pos (by omega), if_pos (by omega), List.drop_take, List.drop_drop, List.take_take,
    Nat.min_eq_left (by omega)]

theorem leAt_of_slice? {part : Bytes} (sliced : slice? bytes start length = some part) {offset width : Nat}
    (fits : offset + width ≤ length) : leAt part offset width = leAt bytes (start + offset) width := by
  obtain ⟨-, rfl⟩ := slice?_eq_some.mp sliced
  unfold leAt
  rw [List.drop_take, List.drop_drop, List.take_take, Nat.min_eq_left (by omega)]

theorem leAt_take {count offset width : Nat} (fits : offset + width ≤ count) :
    leAt (bytes.take count) offset width = leAt bytes offset width := by
  unfold leAt
  rw [List.drop_take, List.take_take, Nat.min_eq_left (by omega)]

theorem slice?_drop (inside : start ≤ bytes.length) (offset size : Nat) :
    slice? (bytes.drop start) offset size = slice? bytes (start + offset) size := by
  unfold slice?
  rw [List.length_drop, List.drop_drop]
  by_cases fits : start + offset + size ≤ bytes.length
  · rw [if_pos fits, if_pos (by omega)]
  · rw [if_neg fits, if_neg (by omega)]

/-- What stands at a place, up to the end. -/
structure At (bytes : Bytes) (start : Nat) (rest : Bytes) : Prop where
  inside : start ≤ bytes.length
  drop : bytes.drop start = rest

theorem at_append (before rest : Bytes) : At (before ++ rest) before.length rest :=
  ⟨by rw [List.length_append]; omega, List.drop_left⟩

theorem At.slice {part rest : Bytes} (here : At bytes start (part ++ rest)) :
    slice? bytes start part.length = some part ∧ At bytes (start + part.length) rest := by
  have long := congrArg List.length here.drop
  rw [List.length_drop, List.length_append] at long
  have inside := here.inside
  refine ⟨slice?_eq_some.mpr ⟨by omega, ?_⟩, by omega, ?_⟩
  · rw [here.drop, List.take_left]
  · rw [← List.drop_drop, here.drop, List.drop_left]

theorem At.le {width value : Nat} {rest : Bytes} (here : At bytes start (le width value ++ rest))
    (fits : value < 256 ^ width) : leAt? bytes start width = some value ∧ At bytes (start + width) rest := by
  obtain ⟨read, after⟩ := here.slice
  rw [length_le] at read after
  refine ⟨?_, after⟩
  unfold leAt?
  rw [read, Option.map_some, ofLe_le, Nat.mod_eq_of_lt fits]

theorem At.byte {byte : UInt8} {rest : Bytes} (here : At bytes start (byte :: rest)) :
    bytes[start]? = some byte ∧ At bytes (start + 1) rest := by
  have one : At bytes start ([byte] ++ rest) := here
  refine ⟨?_, one.slice.2⟩
  have first : (bytes.drop start)[0]? = (byte :: rest)[0]? := by rw [here.drop]
  rwa [List.getElem?_drop] at first

end Leviculum.Bytes
