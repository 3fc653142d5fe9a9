import Leviculum.Framing.Hdlc
import Leviculum.Lib.Fields
import Mathlib.Data.List.TakeWhile

/-! Debug text and HDLC frames on one serial line. The board writes its log between the frames, with the special bytes
rendered as text, and its UART puts XON and XOFF anywhere; the host strips these and splits the rest. -/

namespace Leviculum.Framing.SerialMux

open Hdlc Wire

def xon : UInt8 := 0x11

def xoff : UInt8 := 0x13

def IsFlow (byte : UInt8) : Prop := byte = xon ∨ byte = xoff

instance (byte : UInt8) : Decidable (IsFlow byte) := inferInstanceAs (Decidable (_ ∨ _))

-- the four characters `\x7e` and so on
def escapedFlag : Bytes := [0x5C, 0x78, 0x37, 0x65]

def escapedEscape : Bytes := [0x5C, 0x78, 0x37, 0x64]

def escapedXon : Bytes := [0x5C, 0x78, 0x31, 0x31]

def escapedXoff : Bytes := [0x5C, 0x78, 0x31, 0x33]

/-! ### Writing -/

/-- The pieces a writer hands out: runs of the input, and for a byte that is replaced what `replaced` gives for it. -/
def pieces (replaced : UInt8 → Option (List Bytes)) (run : Bytes) : Bytes → List Bytes
  | [] => if run = [] then [] else [run]
  | byte :: rest =>
    match replaced byte with
    | none => pieces replaced (run ++ [byte]) rest
    | some instead => (if run = [] then [] else [run]) ++ instead ++ pieces replaced [] rest

def textLiteral (byte : UInt8) : Option (List Bytes) :=
  if byte = flag then some [escapedFlag]
  else if byte = escape then some [escapedEscape]
  else if byte = xon then some [escapedXon]
  else if byte = xoff then some [escapedXoff]
  else none

def flowLiteral (byte : UInt8) : Option (List Bytes) :=
  if IsFlow byte then some [[escape, byte ^^^ escapeXor]] else none

def flowDropped (byte : UInt8) : Option (List Bytes) := if IsFlow byte then some [] else none

def escapeText (text : Bytes) : List Bytes := pieces textLiteral [] text

def escapedLen (text : Bytes) : Nat :=
  text.length + 3 * text.countP (fun byte => byte = flag ∨ byte = escape ∨ byte = xon ∨ byte = xoff)

def escapeFlow (wire : Bytes) : List Bytes := pieces flowLiteral [] wire

inductive Flow where
  | stop
  | go

/-- The pieces without the flow bytes, and what the last of these asks for. -/
def stripFlow (input : Bytes) : List Bytes × Option Flow :=
  (pieces flowDropped [] input,
    (input.reverse.find? (fun byte => IsFlow byte)).map (fun byte => if byte = xon then .go else .stop))

theorem flatten_pieces (replaced : UInt8 → Option (List Bytes)) (run text : Bytes) :
    (pieces replaced run text).flatten =
      run ++ text.flatMap (fun byte => ((replaced byte).map List.flatten).getD [byte]) := by
  induction text generalizing run with
  | nil =>
    unfold pieces
    split_ifs with empty
    · simp [empty]
    · simp
  | cons byte rest ih =>
    have before : (if run = [] then [] else [run]).flatten = run := by
      split_ifs with empty
      · exact empty.symm
      · simp
    rw [pieces, List.flatMap_cons]
    cases replaced byte with
    | none =>
      dsimp only
      rw [ih, List.append_assoc]
      rfl
    | some instead =>
      dsimp only
      rw [List.flatten_append, List.flatten_append, ih, before, List.append_assoc]
      rfl

/-! ### Splitting -/

inductive Event where
  /-- Bytes outside a frame, at most one line. -/
  | text (bytes : Bytes)
  /-- A frame as it was on the wire, both flags included. -/
  | frame (wire : Bytes)
  deriving DecidableEq

def newline : UInt8 := 0x0A

/-- A complete line a board could have logged. -/
def isTextLine (bytes : Bytes) : Bool :=
  bytes.getLast? == some newline && bytes.validUtf8 &&
    bytes.all (fun byte => 0x20 ≤ byte || byte == 0x09 || byte == 0x0D || byte == newline) && !bytes.contains 0x7F

/-- One past the first newline, or the whole length. -/
def lineEnd (text : Bytes) : Nat :=
  match text.findIdx? (· == newline) with
  | some pos => pos + 1
  | none => text.length

theorem lineEnd_pos {text : Bytes} (filled : text ≠ []) : 0 < lineEnd text := by
  unfold lineEnd
  split
  · omega
  · exact List.length_pos_iff.mpr filled

def emitLines (text : Bytes) : List Event :=
  if _filled : text = [] then []
  else .text (text.take (lineEnd text)) :: emitLines (text.drop (lineEnd text))
termination_by text.length
decreasing_by
  have more := lineEnd_pos _filled
  have length := List.length_pos_iff.mpr _filled
  rw [List.length_drop]
  omega

/-- At most `n` bytes of a frame, flags included; a frame needs room for both of them. No bytes are held in text. -/
structure Splitter (n : Nat) where
  frame : Vector UInt8 n
  len : Nat
  wide : 2 ≤ n
  room : len < n

namespace Splitter

variable {n : Nat}

def new (wide : 2 ≤ n) : Splitter n := ⟨Vector.replicate n 0, 0, wide, by omega⟩

def inFrame (s : Splitter n) : Bool := 0 < s.len

def reset (s : Splitter n) : Splitter n := { s with len := 0, room := by have := s.wide; omega }

def opened (s : Splitter n) : Splitter n :=
  { s with frame := s.frame.set 0 flag (by have := s.wide; omega), len := 1, room := s.wide }

/-- The closing flag of what was no frame opens the next one. -/
def reopened (s : Splitter n) : Splitter n := { s with len := 1, room := s.wide }

def push (s : Splitter n) (byte : UInt8) (more : s.len ≠ n - 1) : Splitter n :=
  { s with frame := s.frame.set s.len byte s.room, len := s.len + 1, room := by have := s.room; omega }

def payload (s : Splitter n) : Bytes := (s.frame.toList.take s.len).drop 1

def closed (s : Splitter n) : Splitter n :=
  { s with frame := s.frame.set s.len flag s.room, len := 0, room := by have := s.wide; omega }

def completed (s : Splitter n) : Bytes := s.closed.frame.toList.take (s.len + 1)

def feed (s : Splitter n) (input : Bytes) : List Event × Splitter n :=
  match input with
  | [] => ([], s)
  | byte :: rest =>
    if _text : s.len = 0 then
      match _dropped : (byte :: rest).dropWhile (· ≠ flag) with
      | [] => (emitLines ((byte :: rest).takeWhile (· ≠ flag)), s)
      | _ :: later =>
        (emitLines ((byte :: rest).takeWhile (· ≠ flag)) ++ (s.opened.feed later).1, (s.opened.feed later).2)
    else if byte ≠ flag then
      if full : s.len = n - 1 then
        -- no room left for the closing flag: this was never a frame
        (emitLines s.payload ++ (s.reset.feed (byte :: rest)).1, (s.reset.feed (byte :: rest)).2)
      else (s.push byte full).feed rest
    else if s.len = 1 then s.feed rest
    else if isTextLine s.payload then
      (emitLines s.payload ++ (s.reopened.feed rest).1, (s.reopened.feed rest).2)
    else (.frame s.completed :: (s.closed.feed rest).1, (s.closed.feed rest).2)
termination_by (input.length, s.len)
decreasing_by
  all_goals first
    | (apply Prod.Lex.left; simp only [List.length_cons]; omega)
    | (apply Prod.Lex.right; simp only [reset]; omega)
    | (apply Prod.Lex.left
       have shorter := (List.dropWhile_sublist (· ≠ flag) (l := byte :: rest)).length_le
       rw [_dropped] at shorter
       simp only [List.length_cons] at shorter ⊢
       omega)

def feedAll (s : Splitter n) : List Bytes → List Event × Splitter n
  | [] => ([], s)
  | read :: reads => ((s.feed read).1 ++ ((s.feed read).2.feedAll reads).1, ((s.feed read).2.feedAll reads).2)

end Splitter

/-! ### What the splitter does to each byte -/

/-- The events without the cuts between texts. -/
inductive Token where
  | text (byte : UInt8)
  | frame (wire : Bytes)
  deriving DecidableEq

def Event.tokens : Event → List Token
  | .text bytes => bytes.map .text
  | .frame wire => [.frame wire]

/-- Nothing in text, the bytes after the opening flag in a frame. -/
abbrev Held := Option Bytes

def Held.bytes : Held → Bytes
  | none => []
  | some held => flag :: held

def separate (n : Nat) : Held → UInt8 → Option (List Token) × Held
  | none, byte => if byte = flag then (none, some []) else (some [.text byte], none)
  | some held, byte =>
    if byte ≠ flag then
      if held.length + 2 = n then (some ((held ++ [byte]).map .text), none) else (none, some (held ++ [byte]))
    else if held = [] then (none, some [])
    else if isTextLine held then (some (held.map .text), some [])
    else (some [.frame (flag :: (held ++ [flag]))], none)

def tokens (events : List Event) : List Token := events.flatMap Event.tokens

theorem tokens_append (first second : List Event) : tokens (first ++ second) = tokens first ++ tokens second :=
  List.flatMap_append

theorem tokens_emitLines (text : Bytes) : tokens (emitLines text) = text.map .text := by
  fun_induction emitLines text with
  | case1 => rfl
  | case2 text filled ih =>
    show (text.take (lineEnd text)).map Token.text ++ tokens (emitLines (text.drop (lineEnd text))) = _
    rw [ih, ← List.map_append, List.take_append_drop]

/-- The tokens of a run of the byte-wise splitter. -/
def separated (n : Nat) (held : Held) (input : Bytes) : List Token := (feed (separate n) held input).1.flatten

theorem separated_cons (n : Nat) (held : Held) (byte : UInt8) (rest : Bytes) :
    separated n held (byte :: rest) =
      (separate n held byte).1.getD [] ++ separated n (separate n held byte).2 rest := by
  unfold separated
  rw [feed_cons, List.flatten_append]
  cases (separate n held byte).1 <;> simp

theorem separated_append (n : Nat) (held : Held) (first second : Bytes) :
    separated n held (first ++ second) =
      separated n held first ++ separated n (feed (separate n) held first).2 second := by
  unfold separated
  rw [feed_append, List.flatten_append]

theorem feed_text (n : Nat) {text : Bytes} (plain : ∀ byte ∈ text, byte ≠ flag) :
    separated n none text = text.map .text ∧ (feed (separate n) none text).2 = none := by
  induction text with
  | nil => exact ⟨rfl, rfl⟩
  | cons byte rest ih =>
    obtain ⟨shown, stays⟩ := ih (fun other member => plain other (List.mem_cons_of_mem _ member))
    have first : separate n none byte = (some [.text byte], none) := by
      rw [separate, if_neg (plain byte List.mem_cons_self)]
    refine ⟨?_, ?_⟩
    · rw [separated_cons, first, List.map_cons]
      exact congrArg (Token.text byte :: ·) shown
    · rw [feed_cons, first]
      exact stays

namespace Splitter

variable {n : Nat}

def Holds (s : Splitter n) (held : Held) : Prop := s.frame.toList.take s.len = held.bytes

theorem Holds.len_eq {s : Splitter n} {held : Held} (holds : s.Holds held) : s.len = held.bytes.length := by
  have room := s.room
  have taken := congrArg List.length holds
  rw [List.length_take, Vector.length_toList] at taken
  omega

theorem holds_none {s : Splitter n} (text : s.len = 0) : s.Holds none := by
  unfold Holds
  rw [text]
  rfl

theorem holds_opened (s : Splitter n) : s.opened.Holds (some []) := by
  have wide := s.wide
  unfold Holds opened
  obtain ⟨⟨⟨list⟩, size⟩, len, wide', room⟩ := s
  cases list with
  | nil => simp at size; omega
  | cons byte rest => rfl

theorem Holds.push {s : Splitter n} {held : Bytes} (holds : s.Holds (some held)) (byte : UInt8)
    (more : s.len ≠ n - 1) : (s.push byte more).Holds (some (held ++ [byte])) := by
  have room := s.room
  unfold Holds at holds ⊢
  show (s.frame.set s.len byte room).toList.take (s.len + 1) = flag :: (held ++ [byte])
  rw [Vector.toList_set, List.take_add_one, List.take_set_of_le (Nat.le_refl _), holds,
    List.getElem?_set_self (by simpa using room)]
  rfl

theorem Holds.payload_eq {s : Splitter n} {held : Bytes} (holds : s.Holds (some held)) : s.payload = held := by
  unfold payload
  rw [holds]
  rfl

theorem Holds.completed_eq {s : Splitter n} {held : Bytes} (holds : s.Holds (some held)) :
    s.completed = flag :: (held ++ [flag]) := by
  have room := s.room
  unfold Holds at holds
  unfold completed closed
  rw [Vector.toList_set, List.take_add_one, List.take_set_of_le (Nat.le_refl _), holds,
    List.getElem?_set_self (by simpa using room)]
  rfl

theorem Holds.reopened {s : Splitter n} {held : Bytes} (holds : s.Holds (some held)) :
    s.reopened.Holds (some []) := by
  have len := holds.len_eq
  unfold Holds at holds ⊢
  have shorter := congrArg (List.take 1) holds
  rw [List.take_take, len] at shorter
  exact shorter

theorem Holds.text {s : Splitter n} {held : Held} (holds : s.Holds held) (text : s.len = 0) : held = none := by
  have len := holds.len_eq
  cases held with
  | none => rfl
  | some held =>
    unfold Held.bytes at len
    rw [text, List.length_cons] at len
    omega

theorem Holds.inside {s : Splitter n} {held : Held} (holds : s.Holds held) (inside : s.len ≠ 0) :
    ∃ bytes, held = some bytes ∧ s.len = bytes.length + 1 := by
  cases held with
  | none => exact absurd holds.len_eq inside
  | some bytes => exact ⟨bytes, rfl, holds.len_eq⟩

theorem mem_takeWhile_plain (input : Bytes) {byte : UInt8} (member : byte ∈ input.takeWhile (· ≠ flag)) : byte ≠ flag := by
  simpa using List.mem_takeWhile_imp member

/-- The splitter does byte by byte what `separate` does; only where texts are cut depends on the reads. -/
theorem feed_refines (s : Splitter n) (input : Bytes) {held : Held} (holds : s.Holds held) :
    tokens (s.feed input).1 = separated n held input ∧ (s.feed input).2.Holds (Wire.feed (separate n) held input).2 := by
  fun_induction Splitter.feed s input generalizing held with
  | case1 s => exact ⟨rfl, holds⟩
  | case2 s byte rest text after =>
    obtain rfl := holds.text text
    have whole : (byte :: rest).takeWhile (· ≠ flag) = byte :: rest := by
      have parts := List.takeWhile_append_dropWhile (p := (· ≠ flag)) (l := byte :: rest)
      rwa [after, List.append_nil] at parts
    have plain : ∀ other ∈ byte :: rest, other ≠ flag := by
      intro other member
      rw [← whole] at member
      exact mem_takeWhile_plain _ member
    obtain ⟨shown, stays⟩ := feed_text n plain
    rw [tokens_emitLines, whole, shown, stays]
    exact ⟨rfl, holds⟩
  | case3 s byte rest text opening later after ih =>
    obtain rfl := holds.text text
    have parts := List.takeWhile_append_dropWhile (p := (· ≠ flag)) (l := byte :: rest)
    rw [after] at parts
    have isFlag : opening = flag := by
      have stops := List.head?_dropWhile_not (fun other => decide (other ≠ flag)) (byte :: rest)
      rw [after] at stops
      simpa using stops
    obtain ⟨shown, stays⟩ := feed_text n (fun other => mem_takeWhile_plain (byte :: rest))
    have opens : separate n none opening = (none, some []) := by rw [separate, if_pos isFlag]
    obtain ⟨events, last⟩ := ih (holds_opened s)
    rw [tokens_append, tokens_emitLines, events]
    generalize (byte :: rest).takeWhile (· ≠ flag) = before at parts shown stays ⊢
    rw [← parts, separated_append, stays, separated_cons, opens, shown, feed_append, stays, feed_cons, opens]
    exact ⟨rfl, last⟩
  | case4 s byte rest inside plain full ih =>
    obtain ⟨bytes, rfl, len⟩ := holds.inside inside
    have wide := s.wide
    have overflow : separate n (some bytes) byte = (some ((bytes ++ [byte]).map .text), none) := by
      rw [separate, if_pos plain, if_pos (by omega)]
    have first : separate n none byte = (some [.text byte], none) := by rw [separate, if_neg plain]
    obtain ⟨events, last⟩ := ih (holds_none rfl)
    rw [tokens_append, tokens_emitLines, holds.payload_eq, events, separated_cons, separated_cons, overflow, first,
      feed_cons, overflow]
    rw [feed_cons, first] at last
    refine ⟨?_, last⟩
    simp
  | case5 s byte rest inside plain more ih =>
    obtain ⟨bytes, rfl, len⟩ := holds.inside inside
    have wide := s.wide
    have kept : separate n (some bytes) byte = (none, some (bytes ++ [byte])) := by
      rw [separate, if_pos plain, if_neg (by omega)]
    obtain ⟨events, last⟩ := ih (holds.push byte more)
    rw [separated_cons, feed_cons, kept]
    exact ⟨events, last⟩
  | case6 s byte rest inside closing single ih =>
    obtain ⟨bytes, rfl, len⟩ := holds.inside inside
    obtain rfl : bytes = [] := List.length_eq_zero_iff.mp (by omega)
    have again : separate n (some []) byte = (none, some []) := by
      rw [separate, if_neg closing, if_pos rfl]
    obtain ⟨events, last⟩ := ih holds
    rw [separated_cons, feed_cons, again]
    exact ⟨events, last⟩
  | case7 s byte rest inside closing several line ih =>
    obtain ⟨bytes, rfl, len⟩ := holds.inside inside
    have filled : bytes ≠ [] := by
      rintro rfl
      exact several len
    rw [holds.payload_eq] at line
    have text : separate n (some bytes) byte = (some (bytes.map .text), some []) := by
      rw [separate, if_neg closing, if_neg filled, if_pos line]
    obtain ⟨events, last⟩ := ih holds.reopened
    rw [tokens_append, tokens_emitLines, holds.payload_eq, separated_cons, feed_cons, text, events]
    exact ⟨rfl, last⟩
  | case8 s byte rest inside closing several noLine ih =>
    obtain ⟨bytes, rfl, len⟩ := holds.inside inside
    have filled : bytes ≠ [] := by
      rintro rfl
      exact several len
    rw [holds.payload_eq] at noLine
    have whole : separate n (some bytes) byte = (some [.frame (flag :: (bytes ++ [flag]))], none) := by
      rw [separate, if_neg closing, if_neg filled, if_neg noLine]
    obtain ⟨events, last⟩ := ih (holds_none rfl)
    rw [separated_cons, feed_cons, whole, ← events, ← holds.completed_eq]
    exact ⟨rfl, last⟩

theorem feedAll_refines {s : Splitter n} {held : Held} (holds : s.Holds held) (reads : List Bytes) :
    tokens (s.feedAll reads).1 = separated n held reads.flatten ∧
      (s.feedAll reads).2.Holds (Wire.feed (separate n) held reads.flatten).2 := by
  induction reads generalizing s held with
  | nil => exact ⟨rfl, holds⟩
  | cons read reads ih =>
    obtain ⟨events, last⟩ := feed_refines s read holds
    obtain ⟨events', last'⟩ := ih last
    rw [feedAll, List.flatten_cons, separated_append, feed_append, tokens_append, events, events']
    exact ⟨rfl, last'⟩

end Splitter

/-! ### Every input -/

def plain (bytes : Bytes) : Bytes := bytes.filter (· ≠ flag)

def Token.plain : Token → Bytes
  | .text byte => SerialMux.plain [byte]
  | .frame wire => SerialMux.plain wire

def Event.plain : Event → Bytes
  | .text bytes => SerialMux.plain bytes
  | .frame wire => SerialMux.plain wire

theorem plain_append (first second : Bytes) : plain (first ++ second) = plain first ++ plain second :=
  List.filter_append ..

theorem plain_closed (held : Bytes) : plain (flag :: (held ++ [flag])) = plain held := by
  rw [← List.singleton_append, plain_append, plain_append]
  exact List.append_nil _

theorem flatMap_plain_text (bytes : Bytes) : (bytes.map Token.text).flatMap Token.plain = plain bytes := by
  induction bytes with
  | nil => rfl
  | cons byte rest ih =>
    rw [List.map_cons, List.flatMap_cons, ih]
    exact (plain_append [byte] rest).symm

theorem plain_tokens (events : List Event) : (tokens events).flatMap Token.plain = events.flatMap Event.plain := by
  unfold tokens
  rw [List.flatMap_assoc]
  congr 1
  funext event
  cases event with
  | text bytes => exact flatMap_plain_text bytes
  | frame wire => exact List.append_nil _

theorem separate_plain (n : Nat) (held : Held) (byte : UInt8) :
    ((separate n held byte).1.getD []).flatMap Token.plain ++ plain (separate n held byte).2.bytes =
      plain held.bytes ++ plain [byte] := by
  have outside : ∀ {other : UInt8}, other = flag → plain [other] = [] := by
    rintro _ rfl
    rfl
  have opening : ∀ bytes, plain (Held.bytes (some bytes)) = plain bytes := by
    intro bytes
    exact plain_append [flag] bytes
  cases held with
  | none =>
    rw [separate]
    split_ifs with isFlag
    · rw [outside isFlag]
      rfl
    · simp [Token.plain, Held.bytes, plain]
  | some held =>
    rw [opening]
    rw [separate]
    split_ifs with inside full empty line
    · rw [Option.getD_some, flatMap_plain_text, plain_append]
      exact List.append_nil _
    · rw [Option.getD_none, opening, plain_append]
      rfl
    · rw [empty, outside (not_not.mp inside)]
      rfl
    · rw [Option.getD_some, flatMap_plain_text, opening, outside (not_not.mp inside)]
      rfl
    · rw [Option.getD_some, outside (not_not.mp inside), List.append_nil]
      show plain (flag :: (held ++ [flag])) ++ [] ++ [] = plain held
      rw [List.append_nil, List.append_nil, plain_closed]

theorem separated_plain (n : Nat) (held : Held) (input : Bytes) :
    (separated n held input).flatMap Token.plain ++ plain (feed (separate n) held input).2.bytes =
      plain held.bytes ++ plain input := by
  induction input generalizing held with
  | nil =>
    show plain held.bytes = plain held.bytes ++ []
    rw [List.append_nil]
  | cons byte rest ih =>
    rw [separated_cons, List.flatMap_append, feed_cons, List.append_assoc, ih, ← List.append_assoc, separate_plain,
      List.append_assoc, ← plain_append]
    rfl

/-- What is held of a frame has no flag and leaves room for the closing one. -/
def Held.Sound (n : Nat) (held : Held) : Prop := ∀ bytes, held = some bytes → flag ∉ bytes ∧ bytes.length + 2 ≤ n

structure WireFrame (n : Nat) (wire held : Bytes) : Prop where
  flags : wire = flag :: (held ++ [flag])
  filled : held ≠ []
  inside : flag ∉ held
  fits : wire.length ≤ n
  noLine : isTextLine held = false

theorem separate_sound {n : Nat} (wide : 2 ≤ n) {held : Held} (sound : held.Sound n) (byte : UInt8) :
    (separate n held byte).2.Sound n ∧
      ∀ wire, .frame wire ∈ (separate n held byte).1.getD [] → ∃ bytes, WireFrame n wire bytes := by
  have empty : Held.Sound n (some []) := by
    intro bytes same
    obtain rfl := Option.some.inj same
    exact ⟨List.not_mem_nil, wide⟩
  have none_ : Held.Sound n none := by
    intro bytes some_
    cases some_
  cases held with
  | none =>
    rw [separate]
    split_ifs with isFlag
    · exact ⟨empty, by simp⟩
    · exact ⟨none_, by simp⟩
  | some held =>
    obtain ⟨inside, fits⟩ := sound held rfl
    rw [separate]
    split_ifs with ordinary full nothing line
    · exact ⟨none_, by simp⟩
    · refine ⟨?_, by simp⟩
      intro bytes same
      obtain rfl := Option.some.inj same
      refine ⟨?_, ?_⟩
      · simp only [List.mem_append, List.mem_singleton, not_or]
        exact ⟨inside, fun same => ordinary same.symm⟩
      · rw [List.length_append, List.length_singleton]
        omega
    · exact ⟨empty, by simp⟩
    · exact ⟨empty, by simp⟩
    · refine ⟨none_, ?_⟩
      intro wire member
      rw [Option.getD_some, List.mem_singleton] at member
      obtain rfl := Token.frame.inj member
      refine ⟨held, rfl, nothing, inside, ?_, Bool.eq_false_iff.mpr line⟩
      rw [List.length_cons, List.length_append, List.length_singleton]
      omega

theorem separated_sound {n : Nat} (wide : 2 ≤ n) (held : Held) (sound : held.Sound n) (input wire : Bytes)
    (member : .frame wire ∈ separated n held input) : ∃ bytes, WireFrame n wire bytes := by
  induction input generalizing held with
  | nil => cases member
  | cons byte rest ih =>
    obtain ⟨sound', frames⟩ := separate_sound wide sound byte
    rw [separated_cons, List.mem_append] at member
    rcases member with here | later
    · exact frames wire here
    · exact ih _ sound' later

/-- A text event is one line or a part of one. -/
def OneLine (bytes : Bytes) : Prop := bytes ≠ [] ∧ newline ∉ bytes.dropLast

theorem oneLine_take {text : Bytes} (filled : text ≠ []) : OneLine (text.take (lineEnd text)) := by
  have positive := lineEnd_pos filled
  refine ⟨?_, ?_⟩
  · simp only [ne_eq, List.take_eq_nil_iff, not_or]
    exact ⟨by omega, filled⟩
  · unfold lineEnd
    split
    next pos found =>
      obtain ⟨inside, -, before⟩ := List.findIdx?_eq_some_iff_getElem.mp found
      rw [List.dropLast_eq_take, List.take_take, List.length_take]
      intro member
      obtain ⟨at_, bound, same⟩ := List.mem_iff_getElem.mp member
      rw [List.length_take] at bound
      have early := before at_ (by omega)
      rw [List.getElem_take] at same
      rw [same] at early
      exact early rfl
    next missing =>
      rw [List.take_length]
      intro member
      have none_ := List.findIdx?_eq_none_iff.mp missing newline ((List.dropLast_sublist _).subset member)
      exact absurd none_ (by decide)

theorem oneLine_emitLines {text bytes : Bytes} (member : .text bytes ∈ emitLines text) : OneLine bytes := by
  fun_induction emitLines text with
  | case1 => cases member
  | case2 text filled ih =>
    rcases List.mem_cons.mp member with same | later
    · obtain rfl := Event.text.inj same
      exact oneLine_take filled
    · exact ih later

namespace Splitter

variable {n : Nat}

theorem oneLine_feed (s : Splitter n) (input : Bytes) {bytes : Bytes} (member : .text bytes ∈ (s.feed input).1) :
    OneLine bytes := by
  fun_induction Splitter.feed s input with
  | case1 s => cases member
  | case2 s byte rest text after => exact oneLine_emitLines member
  | case3 s byte rest text opening later after ih => exact (List.mem_append.mp member).elim oneLine_emitLines ih
  | case4 s byte rest inside plain full ih => exact (List.mem_append.mp member).elim oneLine_emitLines ih
  | case5 s byte rest inside plain more ih => exact ih member
  | case6 s byte rest inside closing single ih => exact ih member
  | case7 s byte rest inside closing several line ih => exact (List.mem_append.mp member).elim oneLine_emitLines ih
  | case8 s byte rest inside closing several noLine ih =>
    rcases List.mem_cons.mp member with same | later
    · cases same
    · exact ih later

theorem oneLine_feedAll {s : Splitter n} {reads : List Bytes} {bytes : Bytes}
    (member : .text bytes ∈ (s.feedAll reads).1) : OneLine bytes := by
  induction reads generalizing s with
  | nil => cases member
  | cons read reads ih => exact (List.mem_append.mp member).elim (oneLine_feed s read) ih

theorem frame_mem_tokens {events : List Event} {wire : Bytes} (member : .frame wire ∈ events) :
    .frame wire ∈ tokens events :=
  List.mem_flatMap.mpr ⟨_, member, List.mem_singleton_self _⟩

theorem Holds.plain_payload {s : Splitter n} {held : Held} (holds : s.Holds held) : plain s.payload = plain held.bytes := by
  unfold payload
  rw [holds]
  cases held with
  | none => rfl
  | some bytes => exact (plain_append [flag] bytes).symm

/-- Whatever arrives and however it is cut into reads, every byte that is no flag comes out once and in order or is still
held, the cuts change nothing but where texts are cut, texts come line by line and frames are whole and fit. -/
theorem feedAll_conserves (wide : 2 ≤ n) (reads : List Bytes) :
    ((new wide).feedAll reads).1.flatMap Event.plain ++ plain ((new wide).feedAll reads).2.payload =
        plain reads.flatten ∧
      (∀ others : List Bytes, others.flatten = reads.flatten →
        tokens ((new wide).feedAll others).1 = tokens ((new wide).feedAll reads).1 ∧
          ((new wide).feedAll others).2.payload = ((new wide).feedAll reads).2.payload) ∧
      (∀ bytes, .text bytes ∈ ((new wide).feedAll reads).1 → OneLine bytes) ∧
      ∀ wire, .frame wire ∈ ((new wide).feedAll reads).1 → ∃ held, WireFrame n wire held := by
  have start : (new wide).Holds none := holds_none rfl
  obtain ⟨events, last⟩ := feedAll_refines start reads
  refine ⟨?_, ?_, fun bytes => oneLine_feedAll, ?_⟩
  · rw [← plain_tokens, events, last.plain_payload, separated_plain]
    rfl
  · intro others same
    obtain ⟨events', last'⟩ := feedAll_refines start others
    rw [events, events', same]
    rw [same] at last'
    refine ⟨rfl, ?_⟩
    unfold payload
    rw [last, last']
  · intro wire member
    refine separated_sound wide none ?_ reads.flatten wire ?_
    · intro bytes some_
      cases some_
    · rw [← events]
      exact frame_mem_tokens member

theorem feedAll_conserves_sample :
    ((new (n := 4) (by decide)).feedAll [[0x41, 0x7E, 0x42], [0x43, 0x44]]).1.flatMap Event.plain ++
        plain ((new (n := 4) (by decide)).feedAll [[0x41, 0x7E, 0x42], [0x43, 0x44]]).2.payload =
      [0x41, 0x42, 0x43, 0x44] :=
  (feedAll_conserves (n := 4) (by decide) [[0x41, 0x7E, 0x42], [0x43, 0x44]]).1

end Splitter

/-! ### A stream a board writes -/

theorem flatten_escapeText (text : Bytes) :
    (escapeText text).flatten = text.flatMap (fun byte => ((textLiteral byte).map List.flatten).getD [byte]) :=
  flatten_pieces textLiteral [] text

theorem flatten_escapeFlow (wire : Bytes) :
    (escapeFlow wire).flatten = wire.flatMap (fun byte => ((flowLiteral byte).map List.flatten).getD [byte]) :=
  flatten_pieces flowLiteral [] wire

theorem flatten_stripFlow (input : Bytes) : (stripFlow input).1.flatten = input.filter (fun byte => ¬ IsFlow byte) := by
  show (pieces flowDropped [] input).flatten = _
  rw [flatten_pieces, List.nil_append]
  induction input with
  | nil => rfl
  | cons byte rest ih =>
    rw [List.flatMap_cons, ih, List.filter_cons]
    by_cases flow : IsFlow byte
    · simp [flowDropped, flow]
    · simp [flowDropped, flow]

theorem length_escapeText (text : Bytes) : (escapeText text).flatten.length = escapedLen text := by
  rw [flatten_escapeText]
  unfold escapedLen
  induction text with
  | nil => rfl
  | cons byte rest ih =>
    rw [List.flatMap_cons, List.length_append, ih, List.countP_cons, List.length_cons]
    unfold textLiteral
    split_ifs <;> simp_all [escapedFlag, escapedEscape, escapedXon, escapedXoff] <;> omega

theorem mem_escapeText {text : Bytes} {byte : UInt8} (member : byte ∈ (escapeText text).flatten) :
    byte ≠ flag ∧ ¬ IsFlow byte := by
  rw [flatten_escapeText] at member
  obtain ⟨original, -, here⟩ := List.mem_flatMap.mp member
  unfold textLiteral at here
  split_ifs at here with isFlag isEscape isXon isXoff
  · exact (by decide +kernel : ∀ other ∈ escapedFlag, other ≠ flag ∧ ¬ IsFlow other) byte (by simpa using here)
  · exact (by decide +kernel : ∀ other ∈ escapedEscape, other ≠ flag ∧ ¬ IsFlow other) byte (by simpa using here)
  · exact (by decide +kernel : ∀ other ∈ escapedXon, other ≠ flag ∧ ¬ IsFlow other) byte (by simpa using here)
  · exact (by decide +kernel : ∀ other ∈ escapedXoff, other ≠ flag ∧ ¬ IsFlow other) byte (by simpa using here)
  · simp only [Option.map_none, Option.getD_none, List.mem_singleton] at here
    subst here
    exact ⟨isFlag, fun flow => flow.elim isXon isXoff⟩

/-- The payload of a frame as it goes over the line. -/
def flowEscaped (payload : Bytes) : Bytes := (escapeFlow (escaped payload)).flatten

theorem flatten_escapeFlow_frame (payload : Bytes) :
    (escapeFlow (frame payload)).flatten = flag :: (flowEscaped payload ++ [flag]) := by
  rw [frame, flatten_escapeFlow, flowEscaped, flatten_escapeFlow, List.flatMap_cons, List.flatMap_append]
  rfl

theorem not_mem_escaped (payload : Bytes) : flag ∉ escaped payload := by
  induction payload with
  | nil => exact List.not_mem_nil
  | cons byte rest ih =>
    unfold escaped
    split_ifs with special
    · have apart : flag ≠ byte ^^^ escapeXor := by
        rcases (Bool.or_eq_true _ _).mp special with isFlag | isEscape
        · rw [eq_of_beq isFlag]
          decide
        · rw [eq_of_beq isEscape]
          decide
      simp only [List.mem_cons, not_or]
      exact ⟨by decide, apart, ih⟩
    · simp only [List.mem_cons, not_or]
      refine ⟨?_, ih⟩
      rintro rfl
      exact special rfl

theorem mem_flowEscaped {payload : Bytes} {byte : UInt8} (member : byte ∈ flowEscaped payload) :
    byte ≠ flag ∧ ¬ IsFlow byte := by
  rw [flowEscaped, flatten_escapeFlow] at member
  obtain ⟨original, inside, here⟩ := List.mem_flatMap.mp member
  unfold flowLiteral at here
  split_ifs at here with flow
  · have pair : byte = escape ∨ byte = original ^^^ escapeXor := by simpa using here
    obtain rfl | rfl := flow
    · rcases pair with rfl | rfl <;> decide
    · rcases pair with rfl | rfl <;> decide
  · simp only [Option.map_none, Option.getD_none, List.mem_singleton] at here
    subst here
    refine ⟨?_, flow⟩
    rintro rfl
    exact not_mem_escaped payload inside

/-- What the board writes, one after the other. -/
inductive Item where
  | text (log : Bytes)
  | frame (payload : Bytes)

def Item.wire : Item → Bytes
  | .text log => (escapeText log).flatten
  | .frame payload => (escapeFlow (Hdlc.frame payload)).flatten

def Item.tokens : Item → List Token
  | .text log => (escapeText log).flatten.map .text
  | .frame payload => [.frame (escapeFlow (Hdlc.frame payload)).flatten]

def Item.payload? : Item → Option Bytes
  | .text _ => none
  | .frame payload => some payload

/-- A frame is not empty, at most `n` bytes long on the line and does not look like a line of text. -/
def Item.Fits (n : Nat) : Item → Prop
  | .text _ => True
  | .frame payload =>
    payload ≠ [] ∧ (escapeFlow (Hdlc.frame payload)).flatten.length ≤ n ∧ isTextLine (flowEscaped payload) = false

inductive WithFlow : Bytes → Bytes → Prop where
  | nil : WithFlow [] []
  | byte (byte : UInt8) {wire stream : Bytes} : WithFlow wire stream → WithFlow (byte :: wire) (byte :: stream)
  | flow (flow : UInt8) {wire stream : Bytes} : IsFlow flow → WithFlow wire stream → WithFlow wire (flow :: stream)

theorem WithFlow.stripped {wire stream : Bytes} (mixed : WithFlow wire stream) (pure : ∀ byte ∈ wire, ¬ IsFlow byte) :
    stream.filter (fun byte => ¬ IsFlow byte) = wire := by
  induction mixed with
  | nil => rfl
  | byte byte mixed ih =>
    rw [List.filter_cons_of_pos (by simpa using pure byte List.mem_cons_self),
      ih (fun other member => pure other (List.mem_cons_of_mem _ member))]
  | flow flow isFlow mixed ih => rw [List.filter_cons_of_neg (by simpa using isFlow), ih pure]

theorem flowEscaped_ne_nil {payload : Bytes} (filled : payload ≠ []) : flowEscaped payload ≠ [] := by
  have some_ : ∀ byte, ((flowLiteral byte).map List.flatten).getD [byte] ≠ [] := by
    intro byte
    unfold flowLiteral
    split_ifs <;> simp
  cases payload with
  | nil => exact absurd rfl filled
  | cons byte rest =>
    rw [flowEscaped, flatten_escapeFlow, escaped]
    split_ifs
    · rw [List.flatMap_cons]
      exact fun empty => some_ _ (List.append_eq_nil_iff.mp empty).1
    · rw [List.flatMap_cons]
      exact fun empty => some_ _ (List.append_eq_nil_iff.mp empty).1

theorem feed_inside (n : Nat) {bytes : Bytes} (inside : ∀ byte ∈ bytes, byte ≠ flag) (held : Bytes)
    (fits : held.length + bytes.length + 2 ≤ n) :
    separated n (some held) bytes = [] ∧ (feed (separate n) (some held) bytes).2 = some (held ++ bytes) := by
  induction bytes generalizing held with
  | nil => exact ⟨rfl, congrArg some (List.append_nil held).symm⟩
  | cons byte rest ih =>
    rw [List.length_cons] at fits
    have kept : separate n (some held) byte = (none, some (held ++ [byte])) := by
      rw [separate, if_pos (inside byte List.mem_cons_self), if_neg (by omega)]
    have length : (held ++ [byte]).length = held.length + 1 := List.length_append
    obtain ⟨silent, last⟩ := ih (fun other member => inside other (List.mem_cons_of_mem _ member))
      (held ++ [byte]) (by omega)
    rw [separated_cons, feed_cons, kept]
    refine ⟨silent, last.trans ?_⟩
    rw [List.append_assoc]
    rfl

theorem feed_item {n : Nat} {item : Item} (fits : item.Fits n) :
    separated n none item.wire = item.tokens ∧ (feed (separate n) none item.wire).2 = none := by
  cases item with
  | text log => exact feed_text n (fun byte member => (mem_escapeText member).1)
  | frame payload =>
    obtain ⟨filled, short, noLine⟩ := fits
    have opens : separate n none flag = (none, some []) := by rw [separate, if_pos rfl]
    rw [Item.wire, Item.tokens]
    rw [flatten_escapeFlow_frame] at short ⊢
    have room : (flowEscaped payload).length + 2 ≤ n := by
      rw [List.length_cons, List.length_append, List.length_singleton] at short
      omega
    obtain ⟨silent, last⟩ := feed_inside n (fun byte (member : byte ∈ flowEscaped payload) =>
      (mem_flowEscaped member).1) [] (by rw [List.length_nil]; omega)
    have closes : separate n (some (flowEscaped payload)) flag =
        (some [.frame (flag :: (flowEscaped payload ++ [flag]))], none) := by
      rw [separate, if_neg (by simp), if_neg (flowEscaped_ne_nil filled), if_neg (by rw [noLine]; simp)]
    rw [List.nil_append] at last
    rw [separated_cons, opens, separated_append, silent, last, List.nil_append, separated_cons, closes, feed_cons,
      opens, feed_append, last, feed_cons, closes]
    exact ⟨rfl, rfl⟩

theorem feed_items {n : Nat} {items : List Item} (fits : ∀ item ∈ items, item.Fits n) :
    separated n none (items.flatMap Item.wire) = items.flatMap Item.tokens ∧
      (feed (separate n) none (items.flatMap Item.wire)).2 = none := by
  induction items with
  | nil => exact ⟨rfl, rfl⟩
  | cons item rest ih =>
    obtain ⟨first, stays⟩ := feed_item (fits item List.mem_cons_self)
    obtain ⟨later, last⟩ := ih (fun other member => fits other (List.mem_cons_of_mem _ member))
    rw [List.flatMap_cons, separated_append, first, stays, later, feed_append, stays]
    exact ⟨rfl, last⟩

/-! ### The deframer behind the splitter -/

def Event.frame? : Event → Option Bytes
  | .text _ => none
  | .frame wire => some wire

def Token.frame? : Token → Option Bytes
  | .text _ => none
  | .frame wire => some wire

theorem frames_tokens (events : List Event) : (tokens events).filterMap Token.frame? = events.filterMap Event.frame? := by
  induction events with
  | nil => rfl
  | cons event events ih =>
    show (event.tokens ++ tokens events).filterMap Token.frame? = _
    rw [List.filterMap_append, ih]
    cases event with
    | text bytes =>
      rw [List.filterMap_cons_none rfl]
      show (bytes.map Token.text).filterMap Token.frame? ++ _ = _
      rw [List.filterMap_map]
      simp [Function.comp_def, Token.frame?]
    | frame wire => rfl

theorem frames_items (items : List Item) :
    (items.flatMap Item.tokens).filterMap Token.frame? =
      (items.filterMap Item.payload?).map (fun payload => (escapeFlow (Hdlc.frame payload)).flatten) := by
  induction items with
  | nil => rfl
  | cons item items ih =>
    rw [List.flatMap_cons, List.filterMap_append, ih]
    cases item with
    | text log =>
      rw [List.filterMap_cons_none rfl, Item.tokens, List.filterMap_map]
      simp [Function.comp_def, Token.frame?]
    | frame payload => rfl

theorem push_calm {d : Deframer} (calm : d.escapeNext = false) (byte : UInt8) : (d.push byte).2.escapeNext = false := by
  unfold Deframer.push
  split_ifs
  · rfl
  · exact calm

theorem processByte_escape {d : Deframer} (calm : d.escapeNext = false) {byte : UInt8} (apart : byte ^^^ escapeXor ≠ flag) :
    (d.processByte escape).1 = none ∧
      (d.processByte escape).2.processByte (byte ^^^ escapeXor) = if d.inFrame then d.push byte else (none, d) := by
  have back : byte ^^^ escapeXor ^^^ escapeXor = byte := by
    rw [UInt8.xor_assoc, UInt8.xor_self, UInt8.xor_zero]
  obtain ⟨buffer, inFrame, escapeNext, maxFrame⟩ := d
  obtain rfl : escapeNext = false := calm
  cases inFrame with
  | false =>
    have silent : Deframer.processByte ⟨buffer, false, false, maxFrame⟩ escape = (none, ⟨buffer, false, false, maxFrame⟩) :=
      rfl
    rw [silent]
    refine ⟨rfl, ?_⟩
    simp only [Deframer.processByte, if_neg apart, Bool.false_eq_true, if_false]
  | true =>
    have noted : Deframer.processByte ⟨buffer, true, false, maxFrame⟩ escape = (none, ⟨buffer, true, true, maxFrame⟩) := rfl
    rw [noted]
    refine ⟨rfl, ?_⟩
    simp only [Deframer.processByte, if_neg apart, if_true, back]

theorem processByte_plain {d : Deframer} (calm : d.escapeNext = false) {byte : UInt8} (noFlag : byte ≠ flag)
    (noEscape : byte ≠ escape) : d.processByte byte = if d.inFrame then d.push byte else (none, d) := by
  simp only [Deframer.processByte, if_neg noFlag, calm, if_neg noEscape, Bool.false_eq_true, if_false]

theorem ite_push_calm {d : Deframer} (calm : d.escapeNext = false) (byte : UInt8) :
    (if d.inFrame then d.push byte else (none, d)).2.escapeNext = false := by
  split_ifs
  · exact push_calm calm byte
  · exact calm

theorem feed_flowEscaped {d : Deframer} (calm : d.escapeNext = false) (payload : Bytes) :
    feed Deframer.processByte d (flowEscaped payload) = feed Deframer.processByte d (escaped payload) := by
  have single : ∀ bytes, ¬ IsFlow bytes → ((flowLiteral bytes).map List.flatten).getD [bytes] = [bytes] := by
    intro byte noFlow
    rw [flowLiteral, if_neg noFlow]
    rfl
  rw [flowEscaped, flatten_escapeFlow]
  induction payload generalizing d with
  | nil => rfl
  | cons byte rest ih =>
    rw [escaped]
    by_cases special : needsEscape byte = true
    · have apart : byte ^^^ escapeXor ≠ flag ∧ ¬ IsFlow (byte ^^^ escapeXor) ∧ byte ^^^ escapeXor ≠ escape := by
        rcases (Bool.or_eq_true _ _).mp special with isFlag | isEscape
        · rw [eq_of_beq isFlag]
          decide
        · rw [eq_of_beq isEscape]
          decide
      obtain ⟨silent, pushed⟩ := processByte_escape calm apart.1
      have calm' : (Deframer.processByte (Deframer.processByte d escape).2 (byte ^^^ escapeXor)).2.escapeNext = false := by
        rw [pushed]
        exact ite_push_calm calm byte
      rw [if_pos special, List.flatMap_cons, List.flatMap_cons, single escape (by decide), single _ apart.2.1]
      simp only [List.singleton_append, feed_cons, ih calm']
    · have plain : byte ≠ flag ∧ byte ≠ escape := by
        unfold needsEscape at special
        simpa using special
      have calm' : (d.processByte byte).2.escapeNext = false := by
        rw [processByte_plain calm plain.1 plain.2]
        exact ite_push_calm calm byte
      rw [if_neg special, List.flatMap_cons]
      by_cases flow : IsFlow byte
      · have apart : byte ^^^ escapeXor ≠ flag := by
          rcases flow with rfl | rfl <;> decide
        obtain ⟨silent, pushed⟩ := processByte_escape calm apart
        rw [← processByte_plain calm plain.1 plain.2] at pushed
        rw [flowLiteral, if_pos flow]
        simp only [Option.map_some, List.flatten_cons, List.flatten_nil, List.append_nil, Option.getD_some,
          List.cons_append, List.nil_append, feed_cons, silent, pushed, Option.toList_none, ih calm']
      · rw [single byte flow]
        simp only [List.singleton_append, feed_cons, ih calm']

theorem deframe_frame {m : Nat} {payload : Bytes} (filled : payload ≠ []) (small : payload.length ≤ m) :
    feed Deframer.processByte (Deframer.idle m) (escapeFlow (Hdlc.frame payload)).flatten =
      ([.frame payload], Deframer.idle m) := by
  have inside : (Deframer.opened m payload).stale = true := by
    simp only [Deframer.stale, Deframer.opened, Bool.true_and, Bool.not_eq_true', List.isEmpty_eq_false_iff]
    exact filled
  rw [flatten_escapeFlow_frame, feed_cons_silent (Deframer.flag_fresh rfl), feed_append,
    feed_flowEscaped rfl, Deframer.feed_payload payload (Nat.zero_le _)]
  simp only [List.length_nil, Nat.zero_add, List.nil_append]
  rw [if_pos (show payload.length ≤ (Deframer.idle m).maxFrame from small)]
  show ([] ++ (feed Deframer.processByte (Deframer.opened m payload) [flag]).1,
    (feed Deframer.processByte (Deframer.opened m payload) [flag]).2) = _
  rw [feed_cons_emit (Deframer.flag_stale inside)]
  rfl

theorem deframe_text (m : Nat) {text : Bytes} (plain : ∀ byte ∈ text, byte ≠ flag) :
    feed Deframer.processByte (Deframer.idle m) text = ([], Deframer.idle m) := by
  induction text with
  | nil => rfl
  | cons byte rest ih =>
    have ignored : (Deframer.idle m).processByte byte = (none, Deframer.idle m) := by
      simp only [Deframer.processByte, if_neg (plain byte List.mem_cons_self), Deframer.idle, Bool.false_eq_true, if_false]
    rw [feed_cons_silent ignored]
    exact ih (fun other member => plain other (List.mem_cons_of_mem _ member))

theorem deframe_frames {m : Nat} {payloads : List Bytes} (sound : ∀ payload ∈ payloads, payload ≠ [] ∧ payload.length ≤ m) :
    feed Deframer.processByte (Deframer.idle m)
        (payloads.map (fun payload => (escapeFlow (Hdlc.frame payload)).flatten)).flatten =
      (payloads.map .frame, Deframer.idle m) := by
  induction payloads with
  | nil => rfl
  | cons payload rest ih =>
    obtain ⟨filled, small⟩ := sound payload List.mem_cons_self
    rw [List.map_cons, List.flatten_cons, feed_append, deframe_frame filled small,
      ih (fun other member => sound other (List.mem_cons_of_mem _ member))]
    rfl

theorem deframe_items {m : Nat} {items : List Item}
    (sound : ∀ payload ∈ items.filterMap Item.payload?, payload ≠ [] ∧ payload.length ≤ m) :
    feed Deframer.processByte (Deframer.idle m) (items.flatMap Item.wire) =
      ((items.filterMap Item.payload?).map .frame, Deframer.idle m) := by
  induction items with
  | nil => rfl
  | cons item rest ih =>
    rw [List.flatMap_cons, feed_append]
    cases item with
    | text log =>
      rw [List.filterMap_cons_none rfl] at sound ⊢
      rw [Item.wire, deframe_text m (fun byte member => (mem_escapeText member).1), ih sound]
      rfl
    | frame payload =>
      have one : (Item.frame payload :: rest).filterMap Item.payload? = payload :: rest.filterMap Item.payload? := rfl
      rw [one] at sound ⊢
      obtain ⟨filled, small⟩ := sound payload List.mem_cons_self
      rw [Item.wire, deframe_frame filled small, ih (fun other member => sound other (List.mem_cons_of_mem _ member))]
      rfl

theorem wire_pure {items : List Item} {byte : UInt8} (member : byte ∈ items.flatMap Item.wire) : ¬ IsFlow byte := by
  obtain ⟨item, -, here⟩ := List.mem_flatMap.mp member
  cases item with
  | text log => exact (mem_escapeText here).2
  | frame payload =>
    rw [Item.wire, flatten_escapeFlow_frame] at here
    rcases List.mem_cons.mp here with rfl | later
    · decide
    · rcases List.mem_append.mp later with inside | last
      · exact (mem_flowEscaped inside).2
      · rw [List.mem_singleton.mp last]
        decide

def strippedReads (reads : List Bytes) : List Bytes := reads.flatMap (fun read => (stripFlow read).1)

theorem flatten_strippedReads (reads : List Bytes) :
    (strippedReads reads).flatten = reads.flatten.filter (fun byte => ¬ IsFlow byte) := by
  induction reads with
  | nil => rfl
  | cons read reads ih =>
    unfold strippedReads at ih ⊢
    rw [List.flatMap_cons, List.flatten_append, ih, flatten_stripFlow, List.flatten_cons, List.filter_append]

/-- Texts and frames that a board writes come apart again on the host, in their order, wherever flow bytes were put in
and however the stream was cut: the texts as they were escaped, the frames whole. A deframer reads the payloads from the
frames, and the same ones from the stream with the texts still in it. -/
theorem splitter_separates {n m : Nat} (wide : 2 ≤ n) (items : List Item) (fits : ∀ item ∈ items, item.Fits n)
    (small : ∀ payload ∈ items.filterMap Item.payload?, payload.length ≤ m) (reads : List Bytes)
    (mixed : WithFlow (items.flatMap Item.wire) reads.flatten) :
    tokens ((Splitter.new wide).feedAll (strippedReads reads)).1 = items.flatMap Item.tokens ∧
      ((Splitter.new wide).feedAll (strippedReads reads)).2.inFrame = false ∧
      ((Deframer.withMaxFrame m).processAll
        (((Splitter.new wide).feedAll (strippedReads reads)).1.filterMap Event.frame?)).1 =
          (items.filterMap Item.payload?).map .frame ∧
      ((Deframer.withMaxFrame m).processAll (strippedReads reads)).1 = (items.filterMap Item.payload?).map .frame := by
  have sound : ∀ payload ∈ items.filterMap Item.payload?, payload ≠ [] ∧ payload.length ≤ m := by
    intro payload member
    refine ⟨?_, small payload member⟩
    obtain ⟨item, here, is⟩ := List.mem_filterMap.mp member
    have ok := fits item here
    cases item with
    | text log => cases is
    | frame own =>
      obtain rfl := Option.some.inj is
      exact ok.1
  have stream : (strippedReads reads).flatten = items.flatMap Item.wire := by
    rw [flatten_strippedReads]
    exact mixed.stripped (fun byte => wire_pure)
  obtain ⟨events, last⟩ := Splitter.feedAll_refines (Splitter.holds_none rfl) (s := Splitter.new wide) (strippedReads reads)
  rw [stream] at events last
  obtain ⟨shown, stays⟩ := feed_items fits
  rw [shown] at events
  rw [stays] at last
  refine ⟨events, ?_, ?_, ?_⟩
  · unfold Splitter.inFrame
    rw [last.len_eq]
    rfl
  · rw [← frames_tokens, events, frames_items]
    unfold Deframer.processAll
    rw [feedAll_eq]
    exact congrArg Prod.fst (deframe_frames sound)
  · unfold Deframer.processAll
    rw [feedAll_eq, stream]
    exact congrArg Prod.fst (deframe_items sound)

/-- A log line with a tilde, and a frame whose payload has a flow byte and a flag. -/
def sampleItems : List Item := [.text [0x41, 0x7E, 0x0A], .frame [0x11, 0x7E, 0x01]]

/-- The stream in two reads, with XOFF inside the text and XON inside the frame. -/
def sampleReads : List Bytes :=
  [[0x41, 0x5C, 0x13, 0x78, 0x37, 0x65, 0x0A, 0x7E, 0x7D], [0x31, 0x11, 0x7D, 0x5E, 0x01, 0x7E]]

theorem sample_separates :
    tokens ((Splitter.new (n := 16) (by decide)).feedAll (strippedReads sampleReads)).1 =
        [.text 0x41, .text 0x5C, .text 0x78, .text 0x37, .text 0x65, .text 0x0A,
          .frame [0x7E, 0x7D, 0x31, 0x7D, 0x5E, 0x01, 0x7E]] ∧
      ((Deframer.withMaxFrame 8).processAll (strippedReads sampleReads)).1 = [.frame [0x11, 0x7E, 0x01]] := by
  have fits : ∀ item ∈ sampleItems, item.Fits 16 := by
    intro item member
    unfold sampleItems at member
    rcases List.mem_cons.mp member with rfl | later
    · trivial
    · rw [List.mem_singleton.mp later]
      refine ⟨by decide, by decide, ?_⟩
      have last : (flowEscaped [0x11, 0x7E, 0x01]).getLast? = some 0x01 := by decide
      rw [isTextLine, last]
      rfl
  have mixed : WithFlow (sampleItems.flatMap Item.wire) sampleReads.flatten :=
    .byte 0x41 <| .byte 0x5C <| .flow 0x13 (by decide) <| .byte 0x78 <| .byte 0x37 <| .byte 0x65 <| .byte 0x0A <|
      .byte 0x7E <| .byte 0x7D <| .byte 0x31 <| .flow 0x11 (by decide) <| .byte 0x7D <| .byte 0x5E <| .byte 0x01 <|
      .byte 0x7E .nil
  obtain ⟨shown, -, -, payloads⟩ := splitter_separates (n := 16) (m := 8) (by decide) sampleItems fits (by decide)
    sampleReads mixed
  exact ⟨shown, payloads⟩

end Leviculum.Framing.SerialMux
