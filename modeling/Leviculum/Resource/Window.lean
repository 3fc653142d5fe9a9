import Mathlib.Order.Basic
import Leviculum.Lib.Execution

/-! The receive window of a resource and the policies that adapt it. -/

namespace Leviculum.Resource

def windowInitial : Nat := 4
def windowMinimum : Nat := 2
def windowMaxSlow : Nat := 10
def windowMaxFast : Nat := 75
def windowMaxVerySlow : Nat := 4
def windowFlexibility : Nat := 4
def fastRateThreshold : Nat := 50000
def slowRateThreshold : Nat := 15000
def verySlowRateThreshold : Nat := 1000
def rateFast : Nat := 50 * 1000 / 8
def rateVerySlow : Nat := 2 * 1000 / 8
def fastRateRounds : Nat := windowMaxSlow - windowInitial - 2
def verySlowRateRounds : Nat := 2

structure RateSample where
  firstPartRate : Nat
  roundRate : Nat

inductive WindowPolicy where
  | current
  | pythonLike
  | adaptive
  | byMedium
  deriving DecidableEq, Repr

structure WindowState where
  window : Nat
  windowMax : Nat
  partsReceivedThisWindow : Nat
  bytesReceivedThisWindow : Nat
  consecutiveCompletedWindows : Nat
  roundsCompleted : Nat
  windowMin : Nat
  fastRounds : Nat
  verySlowRounds : Nat
  deriving DecidableEq, Repr

namespace WindowState

def new : WindowState where
  window := windowInitial
  windowMax := windowMaxSlow
  partsReceivedThisWindow := 0
  bytesReceivedThisWindow := 0
  consecutiveCompletedWindows := 0
  roundsCompleted := 0
  windowMin := windowMinimum
  fastRounds := 0
  verySlowRounds := 0

def recordPart (w : WindowState) (bytes : Nat) : WindowState :=
  { w with
    partsReceivedThisWindow := w.partsReceivedThisWindow + 1
    bytesReceivedThisWindow := w.bytesReceivedThisWindow + bytes }

def startRound (w : WindowState) : WindowState :=
  { w with partsReceivedThisWindow := 0, bytesReceivedThisWindow := 0 }

/-- A tier that lowers the ceiling takes the window down with it. -/
def clampTo (w : WindowState) (ceiling : Nat) : WindowState :=
  { w with windowMax := ceiling, window := if w.window > ceiling then ceiling else w.window }

def roundCompleteCurrent (w : WindowState) (rate : Nat) : WindowState :=
  let w := { w with consecutiveCompletedWindows := w.consecutiveCompletedWindows + 1 }
  let w :=
    if w.consecutiveCompletedWindows ≥ w.window + windowFlexibility then
      { w with
        window := if w.window < w.windowMax then w.window + 1 else w.window
        consecutiveCompletedWindows := 0 }
    else w
  if rate > fastRateThreshold then { w with windowMax := windowMaxFast }
  else if rate < verySlowRateThreshold then w.clampTo windowMaxVerySlow
  else if rate < slowRateThreshold then w.clampTo windowMaxSlow
  else w

def growPythonLike (w : WindowState) : WindowState :=
  if w.window < w.windowMax then
    let w := { w with window := w.window + 1 }
    if w.window - w.windowMin > windowFlexibility - 1 then { w with windowMin := w.windowMin + 1 } else w
  else w

def countFastRound (w : WindowState) (roundRate : Nat) : WindowState :=
  if roundRate > rateFast ∧ w.fastRounds < fastRateRounds then
    let w := { w with fastRounds := w.fastRounds + 1 }
    if w.fastRounds = fastRateRounds then { w with windowMax := windowMaxFast } else w
  else w

def countVerySlowRound (w : WindowState) (roundRate : Nat) : WindowState :=
  if w.fastRounds = 0 ∧ roundRate < rateVerySlow ∧ w.verySlowRounds < verySlowRateRounds then
    let w := { w with verySlowRounds := w.verySlowRounds + 1 }
    if w.verySlowRounds = verySlowRateRounds then { w with windowMax := windowMaxVerySlow } else w
  else w

/-- Growth comes before the tiers: the round that opens a tier does not use it yet. -/
def roundCompletePythonLike (w : WindowState) (roundRate : Nat) : WindowState :=
  (w.growPythonLike.countFastRound roundRate).countVerySlowRound roundRate

def onRoundComplete (w : WindowState) (policy : WindowPolicy) (sample : RateSample) : WindowState :=
  let w := { w with roundsCompleted := w.roundsCompleted + 1 }
  match policy with
  | .current | .byMedium => w.roundCompleteCurrent sample.firstPartRate
  | .pythonLike | .adaptive => w.roundCompletePythonLike sample.roundRate

def timeoutPythonLike (w : WindowState) : WindowState :=
  if w.window > w.windowMin then
    let w := { w with window := w.window - 1 }
    if w.windowMax > w.windowMin then
      let w := { w with windowMax := w.windowMax - 1 }
      if w.windowMax - w.window > windowFlexibility - 1 then { w with windowMax := w.windowMax - 1 } else w
    else w
  else w

def timeoutAdaptive (w : WindowState) : WindowState :=
  if w.window > w.windowMin then { w with window := w.window - 1 } else w

def onTimeout (w : WindowState) (policy : WindowPolicy) : WindowState :=
  match policy with
  | .current | .byMedium => w
  | .pythonLike => w.timeoutPythonLike
  | .adaptive => w.timeoutAdaptive

def Bounded (w : WindowState) : Prop := w.window ≤ windowMaxFast ∧ w.windowMax ≤ windowMaxFast

theorem bounded_new : Bounded new := ⟨by decide, by decide⟩

theorem bounded_startRound {w : WindowState} (bounded : w.Bounded) : w.startRound.Bounded := bounded

theorem bounded_clampTo {w : WindowState} (bounded : w.Bounded) {ceiling : Nat}
    (low : ceiling ≤ windowMaxFast) : (w.clampTo ceiling).Bounded := by
  refine ⟨?_, low⟩
  show (if w.window > ceiling then ceiling else w.window) ≤ windowMaxFast
  split
  · exact low
  · exact bounded.1

theorem bounded_roundCompleteCurrent {w : WindowState} (bounded : w.Bounded) (rate : Nat) :
    (w.roundCompleteCurrent rate).Bounded := by
  -- the growth step stays under the old ceiling
  have grown : ∀ w' : WindowState, w'.Bounded →
      (if rate > fastRateThreshold then { w' with windowMax := windowMaxFast }
        else if rate < verySlowRateThreshold then w'.clampTo windowMaxVerySlow
        else if rate < slowRateThreshold then w'.clampTo windowMaxSlow
        else w').Bounded := by
    intro w' bounded'
    split_ifs
    · exact ⟨bounded'.1, Nat.le_refl _⟩
    · exact bounded_clampTo bounded' (by decide)
    · exact bounded_clampTo bounded' (by decide)
    · exact bounded'
  obtain ⟨small, ceiling⟩ := bounded
  apply grown
  dsimp only
  split_ifs with enough room
  · refine ⟨?_, ceiling⟩
    show w.window + 1 ≤ windowMaxFast
    omega
  · exact ⟨small, ceiling⟩
  · exact ⟨small, ceiling⟩

theorem bounded_growPythonLike {w : WindowState} (bounded : w.Bounded) :
    w.growPythonLike.Bounded := by
  obtain ⟨small, ceiling⟩ := bounded
  unfold growPythonLike
  dsimp only
  split_ifs with room creep
  · exact ⟨by show w.window + 1 ≤ windowMaxFast; omega, ceiling⟩
  · exact ⟨by show w.window + 1 ≤ windowMaxFast; omega, ceiling⟩
  · exact ⟨small, ceiling⟩

theorem bounded_countFastRound {w : WindowState} (bounded : w.Bounded) (rate : Nat) :
    (w.countFastRound rate).Bounded := by
  unfold countFastRound
  dsimp only
  split_ifs
  · exact ⟨bounded.1, Nat.le_refl _⟩
  · exact bounded
  · exact bounded

theorem bounded_countVerySlowRound {w : WindowState} (bounded : w.Bounded) (rate : Nat) :
    (w.countVerySlowRound rate).Bounded := by
  unfold countVerySlowRound
  dsimp only
  split_ifs
  · exact ⟨bounded.1, show windowMaxVerySlow ≤ windowMaxFast by decide⟩
  · exact bounded
  · exact bounded

theorem bounded_onRoundComplete {w : WindowState} (bounded : w.Bounded) (policy : WindowPolicy)
    (sample : RateSample) : (w.onRoundComplete policy sample).Bounded := by
  have counted : Bounded { w with roundsCompleted := w.roundsCompleted + 1 } := bounded
  cases policy with
  | current | byMedium => exact bounded_roundCompleteCurrent counted _
  | pythonLike | adaptive =>
    exact bounded_countVerySlowRound (bounded_countFastRound (bounded_growPythonLike counted) _) _

theorem bounded_onTimeout {w : WindowState} (bounded : w.Bounded) (policy : WindowPolicy) :
    (w.onTimeout policy).Bounded := by
  obtain ⟨small, ceiling⟩ := bounded
  cases policy with
  | current | byMedium => exact ⟨small, ceiling⟩
  | pythonLike =>
    show (timeoutPythonLike w).Bounded
    unfold timeoutPythonLike
    dsimp only
    split_ifs with above high far
    · exact ⟨Nat.le_trans (Nat.sub_le _ _) small,
        Nat.le_trans (Nat.sub_le _ _) (Nat.le_trans (Nat.sub_le _ _) ceiling)⟩
    · exact ⟨Nat.le_trans (Nat.sub_le _ _) small, Nat.le_trans (Nat.sub_le _ _) ceiling⟩
    · exact ⟨Nat.le_trans (Nat.sub_le _ _) small, ceiling⟩
    · exact ⟨small, ceiling⟩
  | adaptive =>
    show (timeoutAdaptive w).Bounded
    unfold timeoutAdaptive
    split_ifs
    · exact ⟨Nat.le_trans (Nat.sub_le _ _) small, ceiling⟩
    · exact ⟨small, ceiling⟩

/-- `a - b` on `usize`: nothing where it would underflow. -/
def checkedSub (a b : Nat) : Option Nat := if b ≤ a then some (a - b) else none

theorem checkedSub_of_le {a b : Nat} (le : b ≤ a) : checkedSub a b = some (a - b) := if_pos le

/-! The functions above with every subtraction checked. -/

def growChecked (w : WindowState) : Option WindowState :=
  if w.window < w.windowMax then
    let w := { w with window := w.window + 1 }
    (checkedSub w.window w.windowMin).map fun gap =>
      if gap > windowFlexibility - 1 then { w with windowMin := w.windowMin + 1 } else w
  else some w

def onRoundCompleteChecked (w : WindowState) (policy : WindowPolicy) (sample : RateSample) :
    Option WindowState :=
  let w := { w with roundsCompleted := w.roundsCompleted + 1 }
  match policy with
  | .current | .byMedium => some (w.roundCompleteCurrent sample.firstPartRate)
  | .pythonLike | .adaptive =>
    w.growChecked.map fun w => (w.countFastRound sample.roundRate).countVerySlowRound sample.roundRate

/-- The distance of the ceiling to the window saturates in the source too, so only the steps down are checked. -/
def timeoutPythonLikeChecked (w : WindowState) : Option WindowState :=
  if w.window > w.windowMin then
    (checkedSub w.window 1).bind fun window =>
      let w := { w with window }
      if w.windowMax > w.windowMin then
        (checkedSub w.windowMax 1).bind fun windowMax =>
          let w := { w with windowMax }
          if w.windowMax - w.window > windowFlexibility - 1 then
            (checkedSub w.windowMax 1).map fun windowMax => { w with windowMax }
          else some w
      else some w
  else some w

def timeoutAdaptiveChecked (w : WindowState) : Option WindowState :=
  if w.window > w.windowMin then (checkedSub w.window 1).map fun window => { w with window } else some w

def onTimeoutChecked (w : WindowState) (policy : WindowPolicy) : Option WindowState :=
  match policy with
  | .current | .byMedium => some w
  | .pythonLike => w.timeoutPythonLikeChecked
  | .adaptive => w.timeoutAdaptiveChecked

inductive Call where
  | roundComplete (sample : RateSample)
  | timeout

def call (policy : WindowPolicy) (w : WindowState) : Call → WindowState
  | .roundComplete sample => w.onRoundComplete policy sample
  | .timeout => w.onTimeout policy

def callChecked (policy : WindowPolicy) (w : WindowState) : Call → Option WindowState
  | .roundComplete sample => w.onRoundCompleteChecked policy sample
  | .timeout => w.onTimeoutChecked policy

/-- The window between its floor and the fast tier. The ceiling may lie below the window: the very slow tier
lowers it without taking the window down. -/
structure InRange (w : WindowState) : Prop where
  floor : windowMinimum ≤ w.windowMin
  ordered : w.windowMin ≤ w.window
  ceilingFloor : windowMinimum ≤ w.windowMax
  bounded : w.Bounded

theorem inRange_new : InRange new := ⟨by decide, by decide, by decide, bounded_new⟩

theorem inRange_growPythonLike {w : WindowState} (range : w.InRange) : w.growPythonLike.InRange := by
  have bounded := bounded_growPythonLike range.bounded
  obtain ⟨floor, ordered, ceilingFloor, -⟩ := range
  unfold growPythonLike at bounded ⊢
  dsimp only at bounded ⊢
  split_ifs at bounded ⊢ with room creep
  · refine ⟨?_, ?_, ceilingFloor, bounded⟩
    · show windowMinimum ≤ w.windowMin + 1
      omega
    · show w.windowMin + 1 ≤ w.window + 1
      omega
  · refine ⟨floor, ?_, ceilingFloor, bounded⟩
    show w.windowMin ≤ w.window + 1
    omega
  · exact ⟨floor, ordered, ceilingFloor, bounded⟩

theorem inRange_countFastRound {w : WindowState} (range : w.InRange) (rate : Nat) :
    (w.countFastRound rate).InRange := by
  have bounded := bounded_countFastRound range.bounded rate
  unfold countFastRound at bounded ⊢
  dsimp only at bounded ⊢
  split_ifs at bounded ⊢
  · exact ⟨range.floor, range.ordered, show windowMinimum ≤ windowMaxFast by decide, bounded⟩
  · exact ⟨range.floor, range.ordered, range.ceilingFloor, bounded⟩
  · exact range

theorem inRange_countVerySlowRound {w : WindowState} (range : w.InRange) (rate : Nat) :
    (w.countVerySlowRound rate).InRange := by
  have bounded := bounded_countVerySlowRound range.bounded rate
  unfold countVerySlowRound at bounded ⊢
  dsimp only at bounded ⊢
  split_ifs at bounded ⊢
  · exact ⟨range.floor, range.ordered, show windowMinimum ≤ windowMaxVerySlow by decide, bounded⟩
  · exact ⟨range.floor, range.ordered, range.ceilingFloor, bounded⟩
  · exact range

theorem inRange_timeoutPythonLike {w : WindowState} (range : w.InRange) : w.timeoutPythonLike.InRange := by
  have bounded : w.timeoutPythonLike.Bounded := bounded_onTimeout range.bounded .pythonLike
  obtain ⟨floor, ordered, ceilingFloor, -⟩ := range
  unfold timeoutPythonLike at bounded ⊢
  dsimp only at bounded ⊢
  split_ifs at bounded ⊢ with above high far
  · refine ⟨floor, ?_, ?_, bounded⟩
    · show w.windowMin ≤ w.window - 1
      omega
    · show windowMinimum ≤ w.windowMax - 1 - 1
      -- the second step is only taken from more than three above the window
      have three : windowFlexibility - 1 = 3 := rfl
      omega
  · refine ⟨floor, ?_, ?_, bounded⟩
    · show w.windowMin ≤ w.window - 1
      omega
    · show windowMinimum ≤ w.windowMax - 1
      omega
  · refine ⟨floor, ?_, ceilingFloor, bounded⟩
    show w.windowMin ≤ w.window - 1
    omega
  · exact ⟨floor, ordered, ceilingFloor, bounded⟩

theorem inRange_timeoutAdaptive {w : WindowState} (range : w.InRange) : w.timeoutAdaptive.InRange := by
  have bounded : w.timeoutAdaptive.Bounded := bounded_onTimeout range.bounded .adaptive
  obtain ⟨floor, ordered, ceilingFloor, -⟩ := range
  unfold timeoutAdaptive at bounded ⊢
  split_ifs at bounded ⊢ with above
  · refine ⟨floor, ?_, ceilingFloor, bounded⟩
    show w.windowMin ≤ w.window - 1
    omega
  · exact ⟨floor, ordered, ceilingFloor, bounded⟩

theorem roundCompleteCurrent_spec (w : WindowState) (rate : Nat) :
    (w.roundCompleteCurrent rate).windowMin = w.windowMin ∧
      (windowMinimum ≤ w.window → windowMinimum ≤ (w.roundCompleteCurrent rate).window) ∧
      (windowMinimum ≤ w.windowMax → windowMinimum ≤ (w.roundCompleteCurrent rate).windowMax) := by
  have fast : windowMinimum ≤ windowMaxFast := by decide
  have slow : windowMinimum ≤ windowMaxSlow := by decide
  have verySlow : windowMinimum ≤ windowMaxVerySlow := by decide
  unfold roundCompleteCurrent clampTo
  dsimp only
  refine ⟨?_, ?_, ?_⟩
  · split_ifs <;> rfl
  · intro low
    split_ifs <;> dsimp only <;> omega
  · intro low
    split_ifs <;> dsimp only <;> omega

/-- What a run of one policy keeps: the two policies without a creeping floor leave it where it started. -/
def Kept (policy : WindowPolicy) (w : WindowState) : Prop :=
  w.InRange ∧ (policy = .current ∨ policy = .byMedium → w.windowMin = windowMinimum)

theorem kept_onRoundComplete {policy : WindowPolicy} {w : WindowState} (kept : Kept policy w)
    (sample : RateSample) : Kept policy (w.onRoundComplete policy sample) := by
  obtain ⟨range, still⟩ := kept
  have counted : InRange { w with roundsCompleted := w.roundsCompleted + 1 } :=
    ⟨range.floor, range.ordered, range.ceilingFloor, range.bounded⟩
  have bounded := bounded_onRoundComplete range.bounded policy sample
  cases policy with
  | current | byMedium =>
    obtain ⟨same, window, ceiling⟩ := roundCompleteCurrent_spec
      { w with roundsCompleted := w.roundsCompleted + 1 } sample.firstPartRate
    have atFloor := same.trans (still (by simp))
    refine ⟨⟨Nat.le_of_eq atFloor.symm, ?_, ceiling range.ceilingFloor, bounded⟩, fun _ => atFloor⟩
    exact Nat.le_trans (Nat.le_of_eq atFloor) (window (Nat.le_trans range.floor range.ordered))
  | pythonLike | adaptive =>
    refine ⟨?_, by simp⟩
    exact inRange_countVerySlowRound (inRange_countFastRound (inRange_growPythonLike counted) _) _

theorem kept_onTimeout {policy : WindowPolicy} {w : WindowState} (kept : Kept policy w) :
    Kept policy (w.onTimeout policy) := by
  cases policy with
  | current | byMedium => exact kept
  | pythonLike => exact ⟨inRange_timeoutPythonLike kept.1, by simp⟩
  | adaptive => exact ⟨inRange_timeoutAdaptive kept.1, by simp⟩

theorem growChecked_of_inRange {w : WindowState} (range : w.InRange) :
    w.growChecked = some w.growPythonLike := by
  unfold growChecked growPythonLike
  split
  · have above : w.windowMin ≤ w.window + 1 := Nat.le_succ_of_le range.ordered
    simp only [checkedSub_of_le above, Option.map_some]
  · rfl

theorem timeoutPythonLikeChecked_of_inRange {w : WindowState} (range : w.InRange) :
    w.timeoutPythonLikeChecked = some w.timeoutPythonLike := by
  have ceiling : 2 ≤ w.windowMax := range.ceilingFloor
  unfold timeoutPythonLikeChecked timeoutPythonLike
  split_ifs with above
  · simp only [checkedSub_of_le (show 1 ≤ w.window by omega), checkedSub_of_le (show 1 ≤ w.windowMax by omega),
      checkedSub_of_le (show 1 ≤ w.windowMax - 1 by omega), Option.bind_some, Option.map_some]
    split_ifs <;> rfl
  · rfl

theorem timeoutAdaptiveChecked_of_inRange {w : WindowState} :
    w.timeoutAdaptiveChecked = some w.timeoutAdaptive := by
  unfold timeoutAdaptiveChecked timeoutAdaptive
  split_ifs with above
  · rw [checkedSub_of_le (show 1 ≤ w.window by omega), Option.map_some]
  · rfl

theorem callChecked_of_kept {policy : WindowPolicy} {w : WindowState} (kept : Kept policy w) (event : Call) :
    w.callChecked policy event = some (w.call policy event) ∧ Kept policy (w.call policy event) := by
  have range := kept.1
  cases event with
  | roundComplete sample =>
    refine ⟨?_, kept_onRoundComplete kept sample⟩
    have counted : InRange { w with roundsCompleted := w.roundsCompleted + 1 } :=
      ⟨range.floor, range.ordered, range.ceilingFloor, range.bounded⟩
    cases policy with
    | current | byMedium => rfl
    | pythonLike | adaptive =>
      show Option.map _ (growChecked _) = _
      rw [growChecked_of_inRange counted]
      rfl
  | timeout =>
    refine ⟨?_, kept_onTimeout kept⟩
    cases policy with
    | current | byMedium => rfl
    | pythonLike => exact timeoutPythonLikeChecked_of_inRange range
    | adaptive => exact timeoutAdaptiveChecked_of_inRange

/-- Over every sequence of calls under every policy no subtraction underflows, and at its end the floor, the
window and the ceiling are in range. -/
theorem window_in_range (policy : WindowPolicy) (calls : List Call) :
    Execution.exec (callChecked policy) new calls = some (calls.foldl (call policy) new) ∧
      windowMinimum ≤ (calls.foldl (call policy) new).windowMin ∧
      (calls.foldl (call policy) new).windowMin ≤ (calls.foldl (call policy) new).window ∧
      (calls.foldl (call policy) new).window ≤ windowMaxFast ∧
      windowMinimum ≤ (calls.foldl (call policy) new).windowMax ∧
      (calls.foldl (call policy) new).windowMax ≤ windowMaxFast := by
  have loop : ∀ (calls : List Call) (w : WindowState), Kept policy w →
      Execution.exec (callChecked policy) w calls = some (calls.foldl (call policy) w) ∧
        Kept policy (calls.foldl (call policy) w) := by
    intro calls
    induction calls with
    | nil => exact fun w kept => ⟨rfl, kept⟩
    | cons event later ih =>
      intro w kept
      obtain ⟨passed, next⟩ := callChecked_of_kept kept event
      rw [Execution.exec, passed, Option.bind_some, List.foldl_cons]
      exact ih _ next
  obtain ⟨passed, range, -⟩ := loop calls new ⟨inRange_new, fun _ => rfl⟩
  exact ⟨passed, range.floor, range.ordered, range.bounded.1, range.ceilingFloor, range.bounded.2⟩

end WindowState

end Leviculum.Resource
