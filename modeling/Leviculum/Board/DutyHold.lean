import Leviculum.Lib.Execution
import Mathlib.Data.List.Basic
import Mathlib.Algebra.GroupWithZero.Nat

/-! The duty holds that a host-side queue observes on its gate, with 32-bit stamps, against the
closures of the gate in true time. -/

namespace Leviculum.Board

open Execution

def holdMaxAgeMs : BitVec 32 := 18000

inductive HoldVerdict where
  | key
  | hold (ageMs : BitVec 32)
  | dropStale (ageMs : BitVec 32)
deriving DecidableEq

def holdVerdict (enqueuedMs nowMs : BitVec 32) (locked : Bool) : HoldVerdict :=
  if locked = false then .key
  else if nowMs - enqueuedMs > holdMaxAgeMs then .dropStale (nowMs - enqueuedMs)
  else .hold (nowMs - enqueuedMs)

theorem holdVerdict_eq_key {enqueuedMs nowMs : BitVec 32} {locked : Bool} :
    holdVerdict enqueuedMs nowMs locked = .key ↔ locked = false := by
  unfold holdVerdict
  cases locked with
  | false => simp
  | true =>
    rw [if_neg (by decide)]
    split <;> simp

structure DutyHolds where
  minHoldMs : BitVec 32
  /-- Start of the closure in progress. -/
  current : Option (BitVec 32)
  /-- Start and end of the most recent closure that qualified. -/
  last : Option (BitVec 32 × BitVec 32)
deriving DecidableEq

namespace DutyHolds

def new (minHoldMs : BitVec 32) : DutyHolds := ⟨minHoldMs, none, none⟩

def observe (holds : DutyHolds) (holding : Bool) (nowMs : BitVec 32) : DutyHolds :=
  match holding, holds.current with
  | true, none => { holds with current := some nowMs }
  | false, some start =>
    if nowMs - start ≥ holds.minHoldMs then { holds with current := none, last := some (start, nowMs) }
    else { holds with current := none }
  | _, _ => holds

/-- The hold that a frame is measured against: the one in progress once it qualifies, else the last. -/
def consulted (holds : DutyHolds) (nowMs : BitVec 32) : Option (BitVec 32 × BitVec 32) :=
  match holds.current with
  | some start => if nowMs - start ≥ holds.minHoldMs then some (start, nowMs) else holds.last
  | none => holds.last

def heldMs (holds : DutyHolds) (enqueuedMs nowMs : BitVec 32) : BitVec 32 :=
  match holds.consulted nowMs with
  | none => 0
  | some (start, finish) =>
    let waited := nowMs - enqueuedMs
    let sinceStart := nowMs - start
    let sinceEnd := nowMs - finish
    .ofNat 32 (min waited.toNat sinceStart.toNat - sinceEnd.toNat)

def verdict (holds : DutyHolds) (enqueuedMs nowMs : BitVec 32) : HoldVerdict × BitVec 32 :=
  let heldMs := holds.heldMs enqueuedMs nowMs
  (holdVerdict enqueuedMs nowMs (decide (heldMs > 0)), heldMs)

theorem verdict_ne_key {holds : DutyHolds} {enqueuedMs nowMs : BitVec 32} :
    (holds.verdict enqueuedMs nowMs).1 ≠ .key ↔ 0 < (holds.heldMs enqueuedMs nowMs).toNat := by
  unfold verdict
  rw [ne_eq, holdVerdict_eq_key, decide_eq_false_iff_not, not_not]
  exact BitVec.lt_def

end DutyHolds

/-- The clock as the tracker is given it. -/
def stampMs (elapsedMs : Nat) : BitVec 32 := .ofNat 32 elapsedMs

theorem toNat_stampMs_sub {early late : Nat} (order : early ≤ late) (near : late < early + 2 ^ 32) :
    (stampMs late - stampMs early).toNat = late - early := by
  simp only [stampMs, BitVec.toNat_sub, BitVec.toNat_ofNat]
  omega

/-- The start and the end of a closure of the gate. -/
def qualifies (minHoldMs : BitVec 32) (closure : Nat × Nat) : Bool :=
  minHoldMs.toNat ≤ closure.2 - closure.1

/-- The tracker and, in true time, what the gate did: the closure in progress and those that ended,
the latest first. -/
structure Watch where
  holds : DutyHolds
  nowMs : Nat
  opened : Option Nat
  closed : List (Nat × Nat)
deriving DecidableEq

namespace Watch

def start (minHoldMs : BitVec 32) : Watch := ⟨.new minHoldMs, 0, none, []⟩

/-- One turn of the loop: the gate is observed. No closure lasts 2^32 ms. -/
def turn (w : Watch) (observed : Bool × Nat) : Option Watch :=
  if w.nowMs ≤ observed.2 ∧ w.opened.all (fun start => observed.2 < start + 2 ^ 32) then
    some
      { holds := w.holds.observe observed.1 (stampMs observed.2)
        nowMs := observed.2
        opened := if observed.1 then some (w.opened.getD observed.2) else none
        closed :=
          match observed.1, w.opened with
          | false, some start => (start, observed.2) :: w.closed
          | _, _ => w.closed }
  else none

def closures (w : Watch) (nowMs : Nat) : List (Nat × Nat) :=
  (w.opened.map (fun start => (start, nowMs))).toList ++ w.closed

/-- Closures one after the other, all over by `nowMs`. -/
structure Ordered (closures : List (Nat × Nat)) (nowMs : Nat) : Prop where
  apart : closures.Pairwise (fun late early => early.2 ≤ late.1)
  forward : ∀ closure ∈ closures, closure.1 ≤ closure.2 ∧ closure.2 ≤ nowMs

theorem Ordered.find?_latest {closures : List (Nat × Nat)} {nowMs : Nat} {minHoldMs : BitVec 32}
    {found closure : Nat × Nat} (ordered : Ordered closures nowMs)
    (first : closures.find? (qualifies minHoldMs) = some found) (member : closure ∈ closures)
    (qualified : qualifies minHoldMs closure = true) : closure.2 ≤ found.2 := by
  obtain ⟨-, before, after, rfl, skipped⟩ := List.find?_eq_some_iff_append.mp first
  rcases List.mem_append.mp member with early | late
  · exact absurd qualified (by simpa using skipped closure early)
  · rcases List.mem_cons.mp late with rfl | behind
    · exact Nat.le_refl _
    · have apart := (List.pairwise_cons.mp (List.pairwise_append.mp ordered.apart).2.1).1 closure behind
      have forward := ordered.forward found (List.mem_append_right _ (List.mem_cons_self ..))
      omega

structure Tracks (minHoldMs : BitVec 32) (w : Watch) : Prop where
  minHold : w.holds.minHoldMs = minHoldMs
  current : w.holds.current = w.opened.map stampMs
  last : w.holds.last =
    (w.closed.find? (qualifies minHoldMs)).map (fun closure => (stampMs closure.1, stampMs closure.2))
  ordered : Ordered (w.closures w.nowMs) w.nowMs

theorem Tracks.ordered_later {minHoldMs : BitVec 32} {w : Watch} (tracks : w.Tracks minHoldMs)
    {nowMs : Nat} (later : w.nowMs ≤ nowMs) : Ordered (w.closures nowMs) nowMs := by
  obtain ⟨apart, forward⟩ := tracks.ordered
  unfold closures at apart forward ⊢
  cases opened : w.opened with
  | none =>
    rw [opened] at apart forward
    refine ⟨apart, fun closure member => ?_⟩
    have early := forward closure member
    omega
  | some start =>
    rw [opened] at apart forward
    refine ⟨List.pairwise_cons.mpr (List.pairwise_cons.mp apart), ?_⟩
    intro closure member
    rcases List.mem_cons.mp member with rfl | ended
    · have began := forward (start, w.nowMs) (List.mem_cons_self ..)
      dsimp only at began ⊢
      omega
    · have early := forward closure (List.mem_cons_of_mem _ ended)
      omega

theorem stamps_qualify {minHoldMs : BitVec 32} {early late : Nat} (order : early ≤ late)
    (near : late < early + 2 ^ 32) :
    stampMs late - stampMs early ≥ minHoldMs ↔ qualifies minHoldMs (early, late) = true := by
  unfold qualifies
  rw [ge_iff_le, BitVec.le_def, toNat_stampMs_sub order near, decide_eq_true_eq]

theorem Tracks.turn {minHoldMs : BitVec 32} {w w' : Watch} {observed : Bool × Nat}
    (tracks : w.Tracks minHoldMs) (stepped : w.turn observed = some w') : w'.Tracks minHoldMs := by
  obtain ⟨holding, nowMs⟩ := observed
  unfold Watch.turn at stepped
  dsimp only at stepped
  split at stepped
  case isFalse => cases stepped
  case isTrue guard =>
    obtain rfl := Option.some.inj stepped
    obtain ⟨later, short⟩ := guard
    have ordered := tracks.ordered_later later
    have current := tracks.current
    have last := tracks.last
    unfold closures at ordered
    cases opened : w.opened with
    | none =>
      rw [opened] at current ordered
      have current : w.holds.current = none := current
      cases holding with
      | false =>
        have same : w.holds.observe false (stampMs nowMs) = w.holds := by
          unfold DutyHolds.observe
          rw [current]
        rw [same]
        exact ⟨tracks.minHold, current, last, ordered⟩
      | true =>
        have begun : w.holds.observe true (stampMs nowMs) = { w.holds with current := some (stampMs nowMs) } := by
          unfold DutyHolds.observe
          rw [current]
        rw [begun]
        refine ⟨tracks.minHold, rfl, last, List.pairwise_cons.mpr ⟨?_, ordered.apart⟩, ?_⟩
        · exact fun closure member => (ordered.forward closure member).2
        · intro closure member
          rcases List.mem_cons.mp member with rfl | ended
          · exact ⟨Nat.le_refl _, Nat.le_refl _⟩
          · exact ordered.forward closure ended
    | some start =>
      rw [opened] at current ordered short
      have current : w.holds.current = some (stampMs start) := current
      rw [Option.all_some] at short
      have near := of_decide_eq_true short
      have began : start ≤ nowMs := (ordered.forward (start, nowMs) (List.mem_cons_self ..)).1
      cases holding with
      | true =>
        have same : w.holds.observe true (stampMs nowMs) = w.holds := by
          unfold DutyHolds.observe
          rw [current]
        rw [same]
        exact ⟨tracks.minHold, current, last, ordered⟩
      | false =>
        have ended : w.holds.observe false (stampMs nowMs) =
            if qualifies w.holds.minHoldMs (start, nowMs) then
              { w.holds with current := none, last := some (stampMs start, stampMs nowMs) }
            else { w.holds with current := none } := by
          unfold DutyHolds.observe
          rw [current]
          exact if_congr (stamps_qualify began near) rfl rfl
        rw [tracks.minHold] at ended
        rw [ended]
        cases qualified : qualifies minHoldMs (start, nowMs) with
        | true =>
          refine ⟨tracks.minHold, rfl, ?_, ordered⟩
          rw [List.find?_cons_of_pos qualified]
          rfl
        | false =>
          refine ⟨tracks.minHold, rfl, ?_, ordered⟩
          rw [List.find?_cons_of_neg (by rw [qualified]; exact Bool.false_ne_true)]
          exact last

theorem start_tracks (minHoldMs : BitVec 32) : (start minHoldMs).Tracks minHoldMs :=
  ⟨rfl, rfl, rfl, .nil, fun _ member => nomatch member⟩

theorem Tracks.consulted {minHoldMs : BitVec 32} {w : Watch} (tracks : w.Tracks minHoldMs) {nowMs : Nat}
    (later : w.nowMs ≤ nowMs) (short : ∀ start ∈ w.opened, nowMs < start + 2 ^ 32) :
    w.holds.consulted (stampMs nowMs) = ((w.closures nowMs).find? (qualifies minHoldMs)).map
      (fun closure => (stampMs closure.1, stampMs closure.2)) := by
  have ordered := tracks.ordered_later later
  have current := tracks.current
  unfold DutyHolds.consulted
  unfold closures at ordered ⊢
  cases opened : w.opened with
  | none =>
    rw [opened] at current
    have current : w.holds.current = none := current
    rw [current]
    exact tracks.last
  | some start =>
    rw [opened] at current ordered
    have current : w.holds.current = some (stampMs start) := current
    have near := short start opened
    have began : start ≤ nowMs := (ordered.forward (start, nowMs) (List.mem_cons_self ..)).1
    rw [current, tracks.minHold]
    calc (if stampMs nowMs - stampMs start ≥ minHoldMs then some (stampMs start, stampMs nowMs) else w.holds.last)
      _ = if qualifies minHoldMs (start, nowMs) then some (stampMs start, stampMs nowMs) else w.holds.last :=
        if_congr (stamps_qualify began near) rfl rfl
      _ = (((start, nowMs) :: w.closed).find? (qualifies minHoldMs)).map
          (fun closure => (stampMs closure.1, stampMs closure.2)) := by
        rw [List.find?_cons]
        cases qualifies minHoldMs (start, nowMs) with
        | true => rfl
        | false => exact tracks.last

theorem Tracks.heldMs_pos {minHoldMs : BitVec 32} {w : Watch} (tracks : w.Tracks minHoldMs)
    {enqueuedMs nowMs : Nat} (later : w.nowMs ≤ nowMs) (short : ∀ start ∈ w.opened, nowMs < start + 2 ^ 32)
    (waits : enqueuedMs ≤ nowMs) (young : nowMs < enqueuedMs + 2 ^ 32)
    (recent : ∀ closure ∈ (w.closures nowMs).find? (qualifies minHoldMs),
      closure.1 < closure.2 ∧ nowMs < closure.1 + 2 ^ 32) :
    0 < (w.holds.heldMs (stampMs enqueuedMs) (stampMs nowMs)).toNat ↔
      ∃ closure ∈ (w.closures nowMs).find? (qualifies minHoldMs), enqueuedMs < closure.2 := by
  have ordered := tracks.ordered_later later
  unfold DutyHolds.heldMs
  rw [tracks.consulted later short]
  cases found : (w.closures nowMs).find? (qualifies minHoldMs) with
  | none => simp
  | some closure =>
    obtain ⟨lasted, near⟩ := recent closure found
    have forward := ordered.forward closure (List.mem_of_find?_eq_some found)
    have waited := toNat_stampMs_sub waits young
    have sinceStart := @toNat_stampMs_sub closure.1 nowMs (by omega) near
    have sinceEnd := @toNat_stampMs_sub closure.2 nowMs forward.2 (by omega)
    simp only [Option.map_some, waited, sinceStart, sinceEnd, BitVec.toNat_ofNat, Option.mem_def,
      Option.some.injEq, exists_eq_left']
    omega

end Watch

/-- A frame counts as held exactly when its wait overlapped a closure that qualified, as long as the
latest such closure lasted a millisecond and began less than 2^32 ms ago. -/
theorem verdict_held_iff {minHoldMs : BitVec 32} {turns : List (Bool × Nat)} {w : Watch}
    (ran : exec Watch.turn (.start minHoldMs) turns = some w) {enqueuedMs nowMs : Nat}
    (later : w.nowMs ≤ nowMs) (short : ∀ start ∈ w.opened, nowMs < start + 2 ^ 32)
    (waits : enqueuedMs ≤ nowMs) (young : nowMs < enqueuedMs + 2 ^ 32)
    (recent : ∀ closure ∈ (w.closures nowMs).find? (qualifies minHoldMs),
      closure.1 < closure.2 ∧ nowMs < closure.1 + 2 ^ 32) :
    (w.holds.verdict (stampMs enqueuedMs) (stampMs nowMs)).1 ≠ .key ↔
      ∃ closure ∈ w.closures nowMs, qualifies minHoldMs closure ∧
        1 ≤ min nowMs closure.2 - max enqueuedMs closure.1 := by
  have tracks : w.Tracks minHoldMs :=
    exec_invariant (fun _ _ _ => Watch.Tracks.turn) (Watch.start_tracks minHoldMs) ran
  have ordered := tracks.ordered_later later
  rw [DutyHolds.verdict_ne_key, tracks.heldMs_pos later short waits young recent]
  constructor
  · rintro ⟨closure, found, overlap⟩
    have member := List.mem_of_find?_eq_some found
    have forward := ordered.forward closure member
    have lasted := (recent closure found).1
    exact ⟨closure, member, List.find?_some found, by omega⟩
  · rintro ⟨closure, member, qualified, overlap⟩
    cases found : (w.closures nowMs).find? (qualifies minHoldMs) with
    | none => exact absurd qualified (List.find?_eq_none.mp found closure member)
    | some latest =>
      have latest_ends := ordered.find?_latest found member qualified
      exact ⟨latest, rfl, by omega⟩

/-- A frame that came in half a second before a hold of five seconds ended. -/
theorem verdict_held_five_seconds :
    ∃ w, exec Watch.turn (.start 1000) [(true, 0), (true, 3000), (false, 5000)] = some w ∧
      (w.holds.verdict (stampMs 4500) (stampMs 5000)).1 ≠ .key := by
  refine ⟨⟨⟨1000, none, some (0, 5000)⟩, 5000, none, [(0, 5000)]⟩, by decide, ?_⟩
  have recent : ∀ closure ∈ ([(0, 5000)] : List (Nat × Nat)).find? (qualifies 1000),
      closure.1 < closure.2 ∧ 5000 < closure.1 + 2 ^ 32 := by decide
  have held := @verdict_held_iff 1000 [(true, 0), (true, 3000), (false, 5000)]
    ⟨⟨1000, none, some (0, 5000)⟩, 5000, none, [(0, 5000)]⟩ (by decide) 4500 5000 (by decide) (by decide)
    (by decide) (by decide) recent
  exact held.mpr ⟨(0, 5000), by decide, by decide, by decide⟩

/-- Seven weeks after the one hold there was, a frame that waited twenty seconds at an open gate is
dropped as stale. -/
theorem verdict_old_hold :
    ∃ w, exec Watch.turn (.start 1000)
        [(true, 0), (true, 50000), (false, 100000), (false, 2 ^ 32 + 80010), (false, 2 ^ 32 + 100010)] = some w ∧
      (w.holds.verdict (stampMs (2 ^ 32 + 80010)) (stampMs (2 ^ 32 + 100010))).1 = .dropStale 20000 ∧
      ¬ ∃ closure ∈ w.closures (2 ^ 32 + 100010), qualifies 1000 closure ∧
        1 ≤ min (2 ^ 32 + 100010) closure.2 - max (2 ^ 32 + 80010) closure.1 := by
  refine ⟨⟨⟨1000, none, some (0, 100000)⟩, 2 ^ 32 + 100010, none, [(0, 100000)]⟩, by decide, by decide, ?_⟩
  rintro ⟨closure, member, -, overlap⟩
  obtain rfl := List.mem_singleton.mp member
  exact absurd overlap (by decide)

end Leviculum.Board
