import Mathlib.Algebra.GroupWithZero.Nat
import Mathlib.Data.List.Basic
import Mathlib.Order.Lattice

/-! The calendar a node stamps its announces from: the platform clock, or an anchor advanced by the
monotonic clock and seated by injection, by a restored floor or by an announce it overheard. -/

namespace Leviculum.Transport

/-- `u64::saturating_add`. -/
def addSaturating (a b : Nat) : Nat := min (a + b) (2 ^ 64 - 1)

/-- `u64::saturating_mul`. -/
def mulSaturating (a b : Nat) : Nat := min (a * b) (2 ^ 64 - 1)

inductive TimeSource where
  | gnss
  | host
  | platformClock
  | overheard
  | buildFloor
  | restoredFloor
  deriving DecidableEq

def birthAnchorRank : Nat := 5

/-- One is hardest to fool; both birth anchors are last. -/
def TimeSource.rank : TimeSource → Nat
  | .gnss => 1
  | .host => 2
  | .platformClock => 3
  | .overheard => 4
  | .buildFloor | .restoredFloor => birthAnchorRank

theorem TimeSource.birth_of_rank {source : TimeSource} (last : source.rank > TimeSource.overheard.rank) :
    source.rank = birthAnchorRank := by
  cases source <;> revert last <;> decide

def randomHashTimestampSize : Nat := 5

def emissionTimestampMaxSecs : Nat := 2 ^ (8 * randomHashTimestampSize) - 1

def emissionLearnCeilingSecs : Nat := 7258118400

def emissionPlausibleMinSecs : Nat := 1600000000

def emissionLearnMaxAdvanceSecs : Nat := 86400

/-- `Clock::wall_unix_secs` and `Clock::wall_unix_micros`, read at one call. -/
structure WallClock where
  secs : Option Nat
  micros : Option Nat

def WallClock.absent : WallClock := ⟨none, none⟩

/-- The anchor, with the monotonic time it was seated at, and where it came from. -/
structure Calendar where
  emissionFloor : Option (Nat × Nat)
  timeSource : TimeSource

namespace Calendar

def new : Calendar := ⟨none, .buildFloor⟩

section Build

-- `BUILD_UNIX_SECS`, the stamp the build script leaves.
variable (buildUnixSecs : Nat)

def emissionSanityFloorSecs : Nat :=
  if buildUnixSecs > emissionPlausibleMinSecs then buildUnixSecs else emissionPlausibleMinSecs

/-- The window every source of time has to pass. -/
def sane (secs : Nat) : Prop := emissionSanityFloorSecs buildUnixSecs ≤ secs ∧ secs ≤ emissionLearnCeilingSecs

instance (secs : Nat) : Decidable (sane buildUnixSecs secs) := inferInstanceAs (Decidable (_ ∧ _))

def emissionSecs (calendar : Calendar) (wall : WallClock) (nowMs : Nat) : Nat :=
  let secs := match wall.secs with
    | some secs => secs
    | none => match calendar.emissionFloor with
      | some (floorSecs, floorAtMs) => addSaturating floorSecs ((nowMs - floorAtMs) / 1000)
      | none => addSaturating buildUnixSecs (nowMs / 1000)
  min secs emissionTimestampMaxSecs

def emissionMicros (calendar : Calendar) (wall : WallClock) (nowMs : Nat) : Nat :=
  let micros := match wall.micros with
    | some micros => micros
    | none => match calendar.emissionFloor with
      | some (floorSecs, floorAtMs) =>
        addSaturating (mulSaturating floorSecs 1000000) (mulSaturating (nowMs - floorAtMs) 1000)
      | none => addSaturating (mulSaturating buildUnixSecs 1000000) (mulSaturating nowMs 1000)
  min micros (mulSaturating emissionTimestampMaxSecs 1000000)

/-- `time_source`: a plausible platform clock answers for itself. -/
def currentSource (calendar : Calendar) (wall : WallClock) : TimeSource :=
  match wall.secs with
  | some secs => if sane buildUnixSecs secs then .platformClock else calendar.timeSource
  | none => calendar.timeSource

def anchorRank (calendar : Calendar) (wall : WallClock) : Nat := (calendar.currentSource buildUnixSecs wall).rank

def restoreEmissionFloor (calendar : Calendar) (wall : WallClock) (unixSecs nowMs : Nat) : Bool × Calendar :=
  if ¬ sane buildUnixSecs unixSecs then (false, calendar)
  else if calendar.anchorRank buildUnixSecs wall < birthAnchorRank then (false, calendar)
  else if unixSecs ≤ calendar.emissionSecs buildUnixSecs wall nowMs then (false, calendar)
  else (true, ⟨some (unixSecs, nowMs), .restoredFloor⟩)

def learnEmissionTimebase (calendar : Calendar) (wall : WallClock) (emittedSecs nowMs : Nat) : Calendar :=
  if wall.secs.isSome then calendar
  else if emittedSecs > emissionLearnCeilingSecs then calendar
  else if emittedSecs < emissionSanityFloorSecs buildUnixSecs then calendar
  else
    let current := calendar.emissionSecs buildUnixSecs wall nowMs
    if emittedSecs ≤ current then calendar
    else
      let adopted :=
        if calendar.anchorRank buildUnixSecs wall = birthAnchorRank then emittedSecs
        else min emittedSecs (addSaturating current emissionLearnMaxAdvanceSecs)
      let timeSource :=
        if calendar.timeSource.rank > TimeSource.overheard.rank then .overheard else calendar.timeSource
      ⟨some (adopted, nowMs), timeSource⟩

end Build

end Calendar

/-! ### A node with neither a platform clock nor time injection -/

structure ClocklessNode where
  calendar : Calendar
  nowMs : Nat

/-- A validated announce with its emission value, a restored floor, or time that passes. -/
inductive CalendarEvent where
  | announce (emittedSecs : Nat)
  | restore (unixSecs : Nat)
  | wait (ms : Nat)

namespace ClocklessNode

variable (buildUnixSecs : Nat)

def boot (nowMs : Nat) : ClocklessNode := ⟨.new, nowMs⟩

def step (node : ClocklessNode) : CalendarEvent → ClocklessNode
  | .announce emittedSecs =>
    { node with calendar := node.calendar.learnEmissionTimebase buildUnixSecs .absent emittedSecs node.nowMs }
  | .restore unixSecs =>
    { node with calendar := (node.calendar.restoreEmissionFloor buildUnixSecs .absent unixSecs node.nowMs).2 }
  | .wait ms => { node with nowMs := node.nowMs + ms }

def run (node : ClocklessNode) (events : List CalendarEvent) : ClocklessNode :=
  events.foldl (step buildUnixSecs) node

def secs (node : ClocklessNode) : Nat := node.calendar.emissionSecs buildUnixSecs .absent node.nowMs

def micros (node : ClocklessNode) : Nat := node.calendar.emissionMicros buildUnixSecs .absent node.nowMs

def rank (node : ClocklessNode) : Nat := node.calendar.anchorRank buildUnixSecs .absent

/-- The announce reseats the anchor. -/
def Adopts (node : ClocklessNode) (emittedSecs : Nat) : Prop :=
  (node.step buildUnixSecs (.announce emittedSecs)).calendar.emissionFloor ≠ node.calendar.emissionFloor

theorem secs_le_max (node : ClocklessNode) : node.secs buildUnixSecs ≤ emissionTimestampMaxSecs := Nat.min_le_right _ _

variable {buildUnixSecs}

theorem min_addSaturating {ceiling : Nat} (below : ceiling ≤ 2 ^ 64 - 1) (a b : Nat) :
    min (addSaturating a b) ceiling = min (a + b) ceiling := by
  unfold addSaturating
  generalize 2 ^ 64 - 1 = most at below ⊢
  omega

theorem min_add_mulSaturating {ceiling : Nat} (below : ceiling ≤ 2 ^ 64 - 1) (a b m n : Nat) :
    min (addSaturating (mulSaturating a m) (mulSaturating b n)) ceiling = min (a * m + b * n) ceiling := by
  rw [min_addSaturating below]
  unfold mulSaturating
  generalize 2 ^ 64 - 1 = most at below ⊢
  omega

theorem micros_div (base elapsedMs : Nat) :
    min (addSaturating (mulSaturating base 1000000) (mulSaturating elapsedMs 1000))
        (mulSaturating emissionTimestampMaxSecs 1000000) / 1000000 =
      min (addSaturating base (elapsedMs / 1000)) emissionTimestampMaxSecs := by
  have ceiling : mulSaturating emissionTimestampMaxSecs 1000000 = emissionTimestampMaxSecs * 1000000 := by decide
  have below : emissionTimestampMaxSecs * 1000000 ≤ 2 ^ 64 - 1 := by decide
  have small : emissionTimestampMaxSecs ≤ 2 ^ 64 - 1 := by decide
  rw [ceiling, min_add_mulSaturating below, min_addSaturating small]
  generalize emissionTimestampMaxSecs = most
  omega

theorem micros_eq_secs (node : ClocklessNode) : node.micros buildUnixSecs / 1000000 = node.secs buildUnixSecs := by
  unfold micros secs Calendar.emissionMicros Calendar.emissionSecs WallClock.absent
  rcases node.calendar.emissionFloor with - | ⟨floorSecs, floorAtMs⟩
  · exact micros_div buildUnixSecs node.nowMs
  · exact micros_div floorSecs (node.nowMs - floorAtMs)

theorem secs_seated (secs nowMs : Nat) (source : TimeSource) (below : secs ≤ emissionLearnCeilingSecs) :
    ClocklessNode.secs buildUnixSecs ⟨⟨some (secs, nowMs), source⟩, nowMs⟩ = secs := by
  have ceiling : emissionLearnCeilingSecs = 7258118400 := rfl
  have largest : emissionTimestampMaxSecs = 1099511627775 := by decide
  simp only [ClocklessNode.secs, Calendar.emissionSecs, WallClock.absent, addSaturating, Nat.sub_self, Nat.zero_div,
    Nat.add_zero]
  omega

theorem announce_cases (node : ClocklessNode) (emittedSecs : Nat) :
    node.step buildUnixSecs (.announce emittedSecs) = node ∨
      ∃ adopted source,
        node.step buildUnixSecs (.announce emittedSecs) = ⟨⟨some (adopted, node.nowMs), source⟩, node.nowMs⟩ ∧
        node.secs buildUnixSecs < adopted ∧ adopted ≤ emissionLearnCeilingSecs ∧
        source.rank < birthAnchorRank ∧ source.rank ≤ node.rank buildUnixSecs ∧
        (node.rank buildUnixSecs < birthAnchorRank →
          adopted ≤ node.secs buildUnixSecs + emissionLearnMaxAdvanceSecs) := by
  simp only [step, Calendar.learnEmissionTimebase]
  split_ifs with clock high low stale birth known known
  · exact .inl rfl
  · exact .inl rfl
  · exact .inl rfl
  · exact .inl rfl
  · refine .inr ⟨_, _, rfl, Nat.not_le.mp stale, Nat.not_lt.mp high, by decide, Nat.le_of_lt known, ?_⟩
    intro seated
    exact absurd birth (Nat.ne_of_lt seated)
  · exact absurd birth (Nat.ne_of_lt (Nat.lt_of_le_of_lt (Nat.not_lt.mp known) (by decide)))
  · exact absurd (TimeSource.birth_of_rank known) birth
  · have better : node.calendar.timeSource.rank < birthAnchorRank :=
      Nat.lt_of_le_of_lt (Nat.not_lt.mp known) (by decide)
    have further : node.secs buildUnixSecs < addSaturating (node.secs buildUnixSecs) emissionLearnMaxAdvanceSecs := by
      have wire := node.secs_le_max buildUnixSecs
      have largest : emissionTimestampMaxSecs = 1099511627775 := by decide
      unfold addSaturating emissionLearnMaxAdvanceSecs
      omega
    refine .inr ⟨_, _, rfl, ?_, ?_, better, Nat.le_refl _, fun _ => ?_⟩
    · exact Nat.lt_min.mpr ⟨Nat.not_le.mp stale, further⟩
    · exact (Nat.min_le_left _ _).trans (Nat.not_lt.mp high)
    · exact (Nat.min_le_right _ _).trans (Nat.min_le_left _ _)

theorem restore_cases (node : ClocklessNode) (unixSecs : Nat) :
    node.step buildUnixSecs (.restore unixSecs) = node ∨
      (node.step buildUnixSecs (.restore unixSecs) = ⟨⟨some (unixSecs, node.nowMs), .restoredFloor⟩, node.nowMs⟩ ∧
        node.secs buildUnixSecs < unixSecs ∧ unixSecs ≤ emissionLearnCeilingSecs ∧
        birthAnchorRank ≤ node.rank buildUnixSecs) := by
  simp only [step, Calendar.restoreEmissionFloor]
  split_ifs with window better stale
  · exact .inl rfl
  · exact .inl rfl
  · exact .inr ⟨rfl, Nat.not_le.mp stale, window.2, Nat.not_lt.mp better⟩
  · exact .inl rfl

theorem secs_wait (node : ClocklessNode) (ms : Nat) :
    node.secs buildUnixSecs ≤ secs buildUnixSecs { node with nowMs := node.nowMs + ms } := by
  simp only [secs, Calendar.emissionSecs, WallClock.absent, addSaturating]
  rcases node.calendar.emissionFloor with - | ⟨floorSecs, floorAtMs⟩
  · dsimp only
    omega
  · dsimp only
    omega

theorem step_forward (node : ClocklessNode) (event : CalendarEvent) :
    node.secs buildUnixSecs ≤ (node.step buildUnixSecs event).secs buildUnixSecs ∧
      (node.step buildUnixSecs event).rank buildUnixSecs ≤ node.rank buildUnixSecs := by
  cases event with
  | announce emittedSecs =>
    rcases announce_cases node emittedSecs with ignored | ⟨adopted, source, seated, later, below, -, better, -⟩
    · rw [ignored]
      exact ⟨Nat.le_refl _, Nat.le_refl _⟩
    · rw [seated, secs_seated adopted node.nowMs source below]
      exact ⟨Nat.le_of_lt later, better⟩
  | restore unixSecs =>
    rcases restore_cases node unixSecs with ignored | ⟨seated, later, below, birth⟩
    · rw [ignored]
      exact ⟨Nat.le_refl _, Nat.le_refl _⟩
    · rw [seated, secs_seated unixSecs node.nowMs .restoredFloor below]
      exact ⟨Nat.le_of_lt later, birth⟩
  | wait ms => exact ⟨secs_wait node ms, Nat.le_refl _⟩

theorem run_forward (node : ClocklessNode) (events : List CalendarEvent) :
    node.secs buildUnixSecs ≤ (node.run buildUnixSecs events).secs buildUnixSecs ∧
      (node.run buildUnixSecs events).rank buildUnixSecs ≤ node.rank buildUnixSecs := by
  induction events generalizing node with
  | nil => exact ⟨Nat.le_refl _, Nat.le_refl _⟩
  | cons event events ih =>
    obtain ⟨later, better⟩ := node.step_forward event
    obtain ⟨later', better'⟩ := ih (node.step buildUnixSecs event)
    exact ⟨later.trans later', better'.trans better⟩

theorem rank_of_adopts {node : ClocklessNode} {emittedSecs : Nat} (adopts : node.Adopts buildUnixSecs emittedSecs) :
    (node.step buildUnixSecs (.announce emittedSecs)).rank buildUnixSecs < birthAnchorRank := by
  rcases announce_cases node emittedSecs with ignored | ⟨adopted, source, seated, -, -, rank, -⟩
  · exact absurd (by rw [ignored]) adopts
  · rw [seated]
    exact rank

theorem announce_advance {node : ClocklessNode} (seated : node.rank buildUnixSecs < birthAnchorRank) (emittedSecs : Nat) :
    (node.step buildUnixSecs (.announce emittedSecs)).secs buildUnixSecs ≤
      node.secs buildUnixSecs + emissionLearnMaxAdvanceSecs := by
  rcases announce_cases node emittedSecs with ignored | ⟨adopted, source, reseated, -, below, -, -, bounded⟩
  · rw [ignored]
    exact Nat.le_add_right _ _
  · rw [reseated, secs_seated adopted node.nowMs source below]
    exact bounded seated

end ClocklessNode

/-- Over every run of a clockless node its stamps never go back and fit the wire, the two units agree, the
source only gets better, and after the first adopted announce none moves the calendar by more than a day. -/
theorem clockless_calendar (buildUnixSecs bootMs : Nat) (before : List CalendarEvent) :
    let node := (ClocklessNode.boot bootMs).run buildUnixSecs before
    node.secs buildUnixSecs ≤ emissionTimestampMaxSecs ∧
    node.micros buildUnixSecs / 1000000 = node.secs buildUnixSecs ∧
    (∀ later, node.secs buildUnixSecs ≤ (node.run buildUnixSecs later).secs buildUnixSecs ∧
      (node.run buildUnixSecs later).rank buildUnixSecs ≤ node.rank buildUnixSecs) ∧
    ∀ adoptedSecs, node.Adopts buildUnixSecs adoptedSecs → ∀ between emittedSecs,
      let anchored := (node.step buildUnixSecs (.announce adoptedSecs)).run buildUnixSecs between
      (anchored.step buildUnixSecs (.announce emittedSecs)).secs buildUnixSecs ≤
        anchored.secs buildUnixSecs + emissionLearnMaxAdvanceSecs := by
  intro node
  refine ⟨node.secs_le_max buildUnixSecs, ClocklessNode.micros_eq_secs node, ClocklessNode.run_forward node, ?_⟩
  intro adoptedSecs adopts between emittedSecs anchored
  apply ClocklessNode.announce_advance
  exact lt_of_le_of_lt (ClocklessNode.run_forward _ between).2 (ClocklessNode.rank_of_adopts adopts)

/-- A node built in 2023 adopts an announce of 2026; the next, years ahead, moves it by a day at most. -/
theorem clockless_calendar_anchored :
    let node := ClocklessNode.boot 5000
    node.Adopts 1700000000 1790000000 ∧
      let anchored := node.step 1700000000 (.announce 1790000000)
      1790000000 ≤ anchored.secs 1700000000 ∧
      (anchored.step 1700000000 (.announce 1900000000)).secs 1700000000 ≤
        anchored.secs 1700000000 + emissionLearnMaxAdvanceSecs := by
  have adopts : (ClocklessNode.boot 5000).Adopts 1700000000 1790000000 := by
    unfold ClocklessNode.Adopts
    decide
  exact ⟨adopts, by decide, (clockless_calendar 1700000000 5000 []).2.2.2 1790000000 adopts [] 1900000000⟩

end Leviculum.Transport
