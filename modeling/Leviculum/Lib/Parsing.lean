import Leviculum.Lib.Fallible
import Mathlib.Data.List.Basic

/-! Readers over a buffer and a position, and the strings they take. A reader of a language takes every string
of it wherever it stands, takes nothing else, and stays inside the buffer. -/

namespace Leviculum.Parsing

open Fallible (Program exec exec_bind_ok exec_bind_error)

variable {α Error Other V W : Type}

/-- A reader of a buffer; the state is the position. -/
abbrev Parser (α Error V : Type) := List α → Program Nat Error V

/-- The reader takes `bytes` wherever they stand, whatever follows them, and gives `value`. -/
def Parses (parser : Parser α Error V) (bytes : List α) (value : V) : Prop :=
  ∀ (data : List α) (pos : Nat) (rest : List α), pos ≤ data.length → data.drop pos = bytes ++ rest →
    exec (parser data) pos = (.ok value, pos + bytes.length)

/-- When the reader goes well, it has taken bytes that `language` allows with the value it gives. -/
def Recognises (parser : Parser α Error V) (language : List α → V → Prop) : Prop :=
  ∀ (data : List α) (pos last : Nat) (value : V), pos ≤ data.length → exec (parser data) pos = (.ok value, last) →
    ∃ bytes rest, data.drop pos = bytes ++ rest ∧ last = pos + bytes.length ∧ language bytes value

/-- The reader never leaves the buffer and never goes back, whether it goes well or fails. -/
def Confined (parser : Parser α Error V) : Prop :=
  ∀ (data : List α) (pos : Nat), pos ≤ data.length →
    pos ≤ (exec (parser data) pos).2 ∧ (exec (parser data) pos).2 ≤ data.length

structure Reads (parser : Parser α Error V) (language : List α → V → Prop) : Prop where
  parses : ∀ bytes value, language bytes value → Parses parser bytes value
  recognises : Recognises parser language
  confined : Confined parser

theorem drop_of_append {data bytes rest : List α} {pos : Nat} (inside : pos ≤ data.length)
    (here : data.drop pos = bytes ++ rest) :
    pos + bytes.length ≤ data.length ∧ data.drop (pos + bytes.length) = rest := by
  have size := congrArg List.length here
  rw [List.length_drop, List.length_append] at size
  refine ⟨by omega, ?_⟩
  rw [← List.drop_drop, here, List.drop_left]

theorem Parses.andThen {first : Parser α Error V} {second : V → Parser α Error W} {bytes more : List α} {value : V}
    {result : W} (parses : Parses first bytes value) (later : Parses (second value) more result) :
    Parses (fun data => first data >>= fun value => second value data) (bytes ++ more) result := by
  intro data pos rest inside here
  rw [List.append_assoc] at here
  obtain ⟨inside', there⟩ := drop_of_append inside here
  rw [exec_bind_ok (parses data pos _ inside here), later data _ rest inside' there, List.length_append, Nat.add_assoc]

theorem Parses.map {parser : Parser α Error V} {bytes : List α} {value : V} (parses : Parses parser bytes value)
    (f : V → W) : Parses (fun data => parser data >>= fun value => pure (f value)) bytes (f value) := by
  intro data pos rest inside here
  rw [exec_bind_ok (parses data pos rest inside here)]
  rfl

theorem Recognises.andThen {first : Parser α Error V} {second : V → Parser α Error W} {language : List α → V → Prop}
    {later : V → List α → W → Prop} (recognises : Recognises first language)
    (next : ∀ value, Recognises (second value) (later value)) :
    Recognises (fun data => first data >>= fun value => second value data)
      (fun bytes result => ∃ front back value, bytes = front ++ back ∧ language front value ∧ later value back result) := by
  intro data pos last result inside ok
  obtain ⟨value, middle, went, on⟩ := Fallible.bind_eq_ok ok
  obtain ⟨front, rest, here, rfl, allowed⟩ := recognises data pos middle value inside went
  obtain ⟨inside', there⟩ := drop_of_append inside here
  obtain ⟨back, rest', here', rfl, allowed'⟩ := next value data _ last result inside' on
  refine ⟨front ++ back, rest', ?_, ?_, front, back, value, rfl, allowed, allowed'⟩
  · rw [here, ← there, here', List.append_assoc]
  · rw [List.length_append, Nat.add_assoc]

theorem Confined.andThen {first : Parser α Error V} {second : V → Parser α Error W} (confined : Confined first)
    (later : ∀ value, Confined (second value)) :
    Confined (fun data => first data >>= fun value => second value data) := by
  intro data pos inside
  have here := confined data pos inside
  rcases ran : exec (first data) pos with ⟨outcome, middle⟩
  rw [ran] at here
  cases outcome with
  | error error =>
    rw [exec_bind_error ran]
    exact here
  | ok value =>
    rw [exec_bind_ok ran]
    have there := later value data middle here.2
    exact ⟨Nat.le_trans here.1 there.1, there.2⟩

namespace Reads

theorem ofPure (value : V) :
    Reads (fun _ => (pure value : Program Nat Error V)) (fun (bytes : List α) result => bytes = [] ∧ result = value) where
  parses := by
    rintro _ _ ⟨rfl, rfl⟩ data pos rest _ _
    rfl
  recognises := by
    intro data pos last result _ ok
    cases ok
    exact ⟨[], data.drop pos, rfl, rfl, rfl, rfl⟩
  confined := fun _ _ inside => ⟨Nat.le_refl _, inside⟩

theorem ofThrow (error : Error) :
    Reads (fun _ => (throw error : Program Nat Error V)) (fun (_ : List α) _ => False) where
  parses := nofun
  recognises := nofun
  confined := fun _ _ inside => ⟨Nat.le_refl _, inside⟩

theorem andThen {first : Parser α Error V} {second : V → Parser α Error W} {language : List α → V → Prop}
    {later : V → List α → W → Prop} (reads : Reads first language) (next : ∀ value, Reads (second value) (later value)) :
    Reads (fun data => first data >>= fun value => second value data)
      (fun bytes result => ∃ front back value, bytes = front ++ back ∧ language front value ∧ later value back result) where
  parses := by
    rintro _ result ⟨front, back, value, rfl, allowed, allowed'⟩
    exact (reads.parses front value allowed).andThen ((next value).parses back result allowed')
  recognises := reads.recognises.andThen (fun value => (next value).recognises)
  confined := reads.confined.andThen (fun value => (next value).confined)

theorem congr {parser : Parser α Error V} {language other : List α → V → Prop} (reads : Reads parser language)
    (same : ∀ bytes value, language bytes value ↔ other bytes value) : Reads parser other := by
  obtain rfl : language = other := by
    funext bytes value
    exact propext (same bytes value)
  exact reads

theorem map {parser : Parser α Error V} {language : List α → V → Prop} (reads : Reads parser language) (f : V → W) :
    Reads (fun data => parser data >>= fun value => pure (f value))
      (fun bytes result => ∃ value, language bytes value ∧ result = f value) := by
  refine (reads.andThen (fun value => ofPure (f value))).congr (fun bytes result => ?_)
  constructor
  · rintro ⟨front, _, value, rfl, allowed, rfl, rfl⟩
    rw [List.append_nil]
    exact ⟨value, allowed, rfl⟩
  · rintro ⟨value, allowed, rfl⟩
    exact ⟨bytes, [], value, (List.append_nil _).symm, allowed, rfl, rfl⟩

theorem agree {first : Parser α Error V} {second : Parser α Other V} {language : List α → V → Prop}
    (reads : Reads first language) (reads' : Reads second language) (data : List α) (pos : Nat)
    (inside : pos ≤ data.length) :
    (∃ value last, exec (first data) pos = (.ok value, last) ∧ exec (second data) pos = (.ok value, last)) ∨
    ∃ error here other there, exec (first data) pos = (.error error, here) ∧
      exec (second data) pos = (.error other, there) := by
  rcases ran : exec (first data) pos with ⟨outcome, middle⟩
  cases outcome with
  | ok value =>
    obtain ⟨bytes, rest, here, rfl, allowed⟩ := reads.recognises data pos middle value inside ran
    exact .inl ⟨value, _, rfl, reads'.parses bytes value allowed data pos rest inside here⟩
  | error error =>
    rcases ran' : exec (second data) pos with ⟨outcome, middle'⟩
    cases outcome with
    | ok value =>
      obtain ⟨bytes, rest, here, -, allowed⟩ := reads'.recognises data pos middle' value inside ran'
      have went := reads.parses bytes value allowed data pos rest inside here
      rw [ran] at went
      cases went
    | error other => exact .inr ⟨error, middle, other, middle', rfl, rfl⟩

end Reads

/-! ### Entries of a known number -/

/-- `n` entries at the position, or `error`. -/
def take (error : Error) (n : Nat) : Parser α Error (List α) := fun data => do
  let pos ← get
  if pos + n ≤ data.length then
    modify (fun _ => pos + n)
    return (data.drop pos).take n
  else throw error

theorem exec_take (error : Error) (n : Nat) (data : List α) (pos : Nat) :
    exec (take error n data) pos =
      if pos + n ≤ data.length then (.ok ((data.drop pos).take n), pos + n) else (.error error, pos) := by
  unfold take
  rw [Fallible.exec_get_bind]
  split <;> rfl

theorem reads_take (error : Error) (n : Nat) :
    Reads (take error n : Parser α Error _) (fun bytes value => value = bytes ∧ bytes.length = n) where
  parses := by
    rintro bytes _ ⟨rfl, rfl⟩ data pos rest inside here
    rw [exec_take, if_pos (drop_of_append inside here).1, here, List.take_left]
  recognises := by
    intro data pos last value inside ok
    rw [exec_take] at ok
    split at ok
    next fits =>
      obtain ⟨same, rfl⟩ := Prod.mk.inj ok
      obtain rfl := Except.ok.inj same
      have size : ((data.drop pos).take n).length = n := by
        rw [List.length_take, List.length_drop]
        omega
      exact ⟨_, _, (List.take_append_drop n _).symm, by rw [size], rfl, size⟩
    next => cases ok
  confined := by
    intro data pos inside
    rw [exec_take]
    split
    next fits => exact ⟨Nat.le_add_right _ _, fits⟩
    next => exact ⟨Nat.le_refl _, inside⟩

/-- The entry at the position, or `error`. -/
def item (error : Error) : Parser α Error α := fun data => do
  let pos ← get
  match data[pos]? with
  | some entry =>
    modify (· + 1)
    return entry
  | none => throw error

theorem exec_item_some (error : Error) {data : List α} {pos : Nat} {entry : α} (here : data[pos]? = some entry) :
    exec (item error data) pos = (.ok entry, pos + 1) := by
  unfold item
  rw [Fallible.exec_get_bind, here]
  rfl

theorem exec_item_none (error : Error) {data : List α} {pos : Nat} (beyond : data.length ≤ pos) :
    exec (item error data) pos = (.error error, pos) := by
  unfold item
  rw [Fallible.exec_get_bind, List.getElem?_eq_none beyond]
  rfl

theorem reads_item (error : Error) :
    Reads (item error : Parser α Error α) (fun bytes value => bytes = [value]) where
  parses := by
    rintro _ value rfl data pos rest inside here
    refine exec_item_some error ?_
    rw [← Nat.add_zero pos, ← List.getElem?_drop, here]
    rfl
  recognises := by
    intro data pos last value inside ok
    by_cases beyond : data.length ≤ pos
    · rw [exec_item_none error beyond] at ok
      cases ok
    · have fits : pos < data.length := Nat.lt_of_not_le beyond
      rw [exec_item_some error (List.getElem?_eq_getElem fits)] at ok
      cases ok
      exact ⟨[data[pos]], data.drop (pos + 1), List.drop_eq_getElem_cons fits, rfl, rfl⟩
  confined := by
    intro data pos inside
    by_cases beyond : data.length ≤ pos
    · rw [exec_item_none error beyond]
      exact ⟨Nat.le_refl _, inside⟩
    · have fits : pos < data.length := Nat.lt_of_not_le beyond
      rw [exec_item_some error (List.getElem?_eq_getElem fits)]
      exact ⟨Nat.le_succ _, fits⟩

/-! ### One value after another -/

/-- Read `count` values. -/
def times (parser : Parser α Error Unit) : Nat → Parser α Error Unit
  | 0 => fun _ => pure ()
  | count + 1 => fun data => parser data >>= fun _ => times parser count data

theorem reads_times {parser : Parser α Error Unit} {language : List α → Prop}
    (reads : Reads parser (fun bytes _ => language bytes)) (count : Nat) :
    Reads (times parser count)
      (fun bytes _ => ∃ items : List (List α), items.length = count ∧ bytes = items.flatten ∧
        ∀ item ∈ items, language item) := by
  induction count with
  | zero =>
    refine (Reads.ofPure ()).congr (fun bytes value => ?_)
    constructor
    · rintro ⟨rfl, -⟩
      exact ⟨[], rfl, rfl, nofun⟩
    · rintro ⟨items, none, rfl, -⟩
      rw [List.length_eq_zero_iff.mp none]
      exact ⟨rfl, rfl⟩
  | succ count ih =>
    refine (reads.andThen (fun _ => ih)).congr (fun bytes value => ?_)
    constructor
    · rintro ⟨front, _, _, rfl, allowed, items, rfl, rfl, each⟩
      exact ⟨front :: items, rfl, rfl, List.forall_mem_cons.mpr ⟨allowed, each⟩⟩
    · rintro ⟨items, size, rfl, each⟩
      cases items with
      | nil => cases size
      | cons front items =>
        obtain ⟨allowed, each⟩ := List.forall_mem_cons.mp each
        exact ⟨front, items.flatten, (), rfl, allowed, items, Nat.succ.inj size, rfl, each⟩

theorem times_pairs (parser : Parser α Error Unit) (count : Nat) :
    times (fun data => parser data >>= fun _ => parser data) count = times parser (2 * count) := by
  induction count with
  | zero => rfl
  | succ count ih =>
    funext data
    rw [Nat.mul_succ]
    simp only [times, bind_assoc, ih]

end Leviculum.Parsing
