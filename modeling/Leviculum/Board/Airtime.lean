import Mathlib.Algebra.BigOperators.Fin
import Mathlib.Algebra.BigOperators.Ring.Finset
import Mathlib.Data.List.Induction

/-! The airtime ledger of a radio: an hour of keyed time in a ring of bins, cleaned when the next call comes. -/

namespace Leviculum.Board.Airtime

def airtimeLongtermMs : Nat := 3600 * 1000

def airtimeBinlenMs : Nat := 7500

def airtimeBins : Nat := airtimeLongtermMs / airtimeBinlenMs

def u16Max : Nat := 65535

abbrev Slot := Fin airtimeBins

/-- Whether a limit is set and reached, as the floating-point comparisons of the source decide it. -/
structure Limits where
  shortReached : Nat → Bool
  longReached : Nat → Bool

structure AirtimeTracker where
  bins : Slot → Nat
  shortTermMs : Nat
  longTermMs : Nat
  locked : Bool
  /-- The absolute bin of the last call, not taken modulo the hour. -/
  lastBin : Option Nat

namespace AirtimeTracker

def new : AirtimeTracker := ⟨fun _ => 0, 0, 0, false, none⟩

def slotOf (absolute : Nat) : Slot := ⟨absolute % airtimeBins, Nat.mod_lt _ (by decide)⟩

def currentBin (nowMs : Nat) : Slot :=
  ⟨nowMs % airtimeLongtermMs / airtimeBinlenMs,
    Nat.div_lt_of_lt_mul (Nat.mod_lt nowMs (by decide : 0 < airtimeLongtermMs))⟩

def clearBins (bins : Slot → Nat) (absolutes : List Nat) : Slot → Nat :=
  absolutes.foldl (fun bins absolute => Function.update bins (slotOf absolute) 0) bins

/-- Clear every bin time has rolled past since the last call, through the one after the current. -/
def retireSkippedBins (t : AirtimeTracker) (nowMs : Nat) : AirtimeTracker :=
  let nowBin := nowMs / airtimeBinlenMs
  let clear (first : Nat) : AirtimeTracker :=
    let last := nowBin + 1
    let count := min (last + 1 - first) airtimeBins
    { t with bins := clearBins t.bins (List.range' (last + 1 - count) count), lastBin := some nowBin }
  match t.lastBin with
  | none => clear (nowBin + 1)
  | some last => if nowBin < last then t else clear (last + 1)

def addAirtime (t : AirtimeTracker) (nowMs costMs : Nat) : AirtimeTracker :=
  let t := t.retireSkippedBins nowMs
  let cb := currentBin nowMs
  let add := min costMs u16Max
  { t with bins := Function.update t.bins cb (min (t.bins cb + add) u16Max) }

def update (limits : Limits) (t : AirtimeTracker) (nowMs : Nat) : AirtimeTracker :=
  let t := t.retireSkippedBins nowMs
  let cb := currentBin nowMs
  let pb : Slot := ⟨(cb + airtimeBins - 1) % airtimeBins, Nat.mod_lt _ (by decide)⟩
  let shortTermMs := t.bins cb + t.bins pb
  let longTermMs := ((List.finRange airtimeBins).map t.bins).sum
  { t with shortTermMs, longTermMs, locked := limits.shortReached shortTermMs || limits.longReached longTermMs }

end AirtimeTracker

open AirtimeTracker

inductive Call where
  | addAirtime (nowMs costMs : Nat)
  | update (nowMs : Nat)

def Call.nowMs : Call → Nat
  | .addAirtime nowMs _ => nowMs
  | .update nowMs => nowMs

def AirtimeTracker.call (limits : Limits) (t : AirtimeTracker) : Call → AirtimeTracker
  | .addAirtime nowMs costMs => t.addAirtime nowMs costMs
  | .update nowMs => t.update limits nowMs

/-- The frames the calls recorded: when each was keyed and its cost. -/
def frames : List Call → List (Nat × Nat)
  | [] => []
  | .addAirtime nowMs costMs :: calls => (nowMs, costMs) :: frames calls
  | .update _ :: calls => frames calls

def binOf (timeMs : Nat) : Nat := timeMs / airtimeBinlenMs

/-- The cost of the frames keyed at the times that `counted` picks. -/
def total (counted : Nat → Prop) [DecidablePred counted] (keyed : List (Nat × Nat)) : Nat :=
  ((keyed.filter (fun frame => counted frame.1)).map Prod.snd).sum

section Totals

variable {counted other : Nat → Prop} [DecidablePred counted] [DecidablePred other]

theorem total_append (one two : List (Nat × Nat)) : total counted (one ++ two) = total counted one + total counted two := by
  unfold total
  rw [List.filter_append, List.map_append, List.sum_append]

theorem total_singleton (frame : Nat × Nat) : total counted [frame] = if counted frame.1 then frame.2 else 0 := by
  unfold total
  by_cases here : counted frame.1 <;> simp [here]

theorem total_cons (frame : Nat × Nat) (keyed : List (Nat × Nat)) :
    total counted (frame :: keyed) = (if counted frame.1 then frame.2 else 0) + total counted keyed := by
  rw [← List.singleton_append, total_append, total_singleton]

theorem total_congr {keyed : List (Nat × Nat)} (same : ∀ frame ∈ keyed, counted frame.1 ↔ other frame.1) :
    total counted keyed = total other keyed := by
  unfold total
  rw [List.filter_congr]
  intro frame member
  simpa using same frame member

theorem total_eq_zero {keyed : List (Nat × Nat)} (none : ∀ frame ∈ keyed, ¬ counted frame.1) : total counted keyed = 0 := by
  unfold total
  rw [List.filter_eq_nil_iff.mpr (by simpa using none)]
  rfl

theorem total_mono {keyed : List (Nat × Nat)} (more : ∀ frame ∈ keyed, counted frame.1 → other frame.1) :
    total counted keyed ≤ total other keyed := by
  induction keyed with
  | nil => exact Nat.le_refl _
  | cons frame later ih =>
    have rest := ih (fun frame member => more frame (List.mem_cons_of_mem _ member))
    rw [total_cons, total_cons]
    refine Nat.add_le_add ?_ rest
    by_cases here : counted frame.1
    · rw [if_pos here, if_pos (more frame List.mem_cons_self here)]
    · rw [if_neg here]
      exact Nat.zero_le _

theorem total_add {either : Nat → Prop} [DecidablePred either] {keyed : List (Nat × Nat)}
    (parts : ∀ frame ∈ keyed, (either frame.1 ↔ counted frame.1 ∨ other frame.1) ∧ ¬ (counted frame.1 ∧ other frame.1)) :
    total counted keyed + total other keyed = total either keyed := by
  induction keyed with
  | nil => rfl
  | cons frame later ih =>
    have rest := ih (fun frame member => parts frame (List.mem_cons_of_mem _ member))
    obtain ⟨split, apart⟩ := parts frame List.mem_cons_self
    rw [total_cons, total_cons, total_cons, ← rest]
    by_cases one : counted frame.1
    · have two : ¬ other frame.1 := fun two => apart ⟨one, two⟩
      rw [if_pos one, if_neg two, if_pos (split.mpr (.inl one))]
      omega
    · by_cases two : other frame.1
      · rw [if_neg one, if_pos two, if_pos (split.mpr (.inr two))]
        omega
      · rw [if_neg one, if_neg two, if_neg (fun either => (split.mp either).elim one two)]
        omega

theorem sum_total_slots {size : Nat} (place : Nat → Fin size) (keyed : List (Nat × Nat)) :
    ∑ slot, total (fun timeMs => place timeMs = slot ∧ counted timeMs) keyed = total counted keyed := by
  induction keyed with
  | nil => exact Finset.sum_const_zero
  | cons frame later ih =>
    simp only [total_cons]
    rw [Finset.sum_add_distrib, ih]
    congr 1
    by_cases here : counted frame.1
    · simp only [here, and_true, if_true]
      rw [Finset.sum_ite_eq, if_pos (Finset.mem_univ _)]
    · simp only [here, and_false, if_false]
      exact Finset.sum_const_zero

end Totals

theorem frames_append (one two : List Call) : frames (one ++ two) = frames one ++ frames two := by
  induction one with
  | nil => rfl
  | cons call later ih =>
    cases call with
    | addAirtime nowMs costMs => exact congrArg ((nowMs, costMs) :: ·) ih
    | update nowMs => exact ih

theorem mem_frames {calls : List Call} {frame : Nat × Nat} (member : frame ∈ frames calls) :
    ∃ call ∈ calls, call.nowMs = frame.1 := by
  induction calls with
  | nil => cases member
  | cons call later ih =>
    cases call with
    | addAirtime nowMs costMs =>
      rcases List.mem_cons.mp member with rfl | behind
      · exact ⟨_, List.mem_cons_self, rfl⟩
      · obtain ⟨call, there, same⟩ := ih behind
        exact ⟨call, List.mem_cons_of_mem _ there, same⟩
    | update nowMs =>
      obtain ⟨call, there, same⟩ := ih member
      exact ⟨call, List.mem_cons_of_mem _ there, same⟩

theorem currentBin_eq (nowMs : Nat) : currentBin nowMs = slotOf (binOf nowMs) := by
  apply Fin.ext
  show nowMs % (airtimeBins * airtimeBinlenMs) / airtimeBinlenMs = nowMs / airtimeBinlenMs % airtimeBins
  exact Nat.mod_mul_left_div_self _ _ _

theorem clearBins_apply (bins : Slot → Nat) (absolutes : List Nat) (slot : Slot) :
    clearBins bins absolutes slot = if ∃ absolute ∈ absolutes, slotOf absolute = slot then 0 else bins slot := by
  unfold clearBins
  induction absolutes generalizing bins with
  | nil => simp
  | cons absolute later ih =>
    rw [List.foldl_cons, ih, Function.update_apply]
    by_cases here : slotOf absolute = slot
    · simp [here]
    · simp [here, Ne.symm here]

/-- After a call in bin `last`: each slot holds what was keyed in its one bin among the last 479. -/
structure Tracks (last : Nat) (keyed : List (Nat × Nat)) (bins : Slot → Nat) : Prop where
  past : ∀ frame ∈ keyed, binOf frame.1 ≤ last
  slots : ∀ slot, bins slot = total (fun timeMs => slotOf (binOf timeMs) = slot ∧ last ≤ binOf timeMs + 478) keyed

/-- What the ledger is after some calls. -/
def Kept (keyed : List (Nat × Nat)) (t : AirtimeTracker) : Prop :=
  match t.lastBin with
  | none => keyed = [] ∧ ∀ slot, t.bins slot = 0
  | some last => Tracks last keyed t.bins

theorem slotOf_eq {one two : Nat} : slotOf one = slotOf two ↔ one % airtimeBins = two % airtimeBins := by
  unfold slotOf
  rw [Fin.mk.injEq]

theorem eq_of_slotOf_eq {one two : Nat} (same : slotOf one = slotOf two) (order : one ≤ two) (near : two < one + 480) :
    one = two := by
  have ring : airtimeBins = 480 := rfl
  rw [slotOf_eq, ring] at same
  omega

theorem exists_slotOf_eq (start : Nat) (slot : Slot) :
    ∃ absolute, start ≤ absolute ∧ absolute < start + 480 ∧ slotOf absolute = slot := by
  have small : slot.val < 480 := slot.isLt
  refine ⟨start + (slot.val + 480 - start % 480) % 480, by omega, by omega, Fin.ext ?_⟩
  show (start + (slot.val + 480 - start % 480) % 480) % 480 = slot.val
  omega

theorem Tracks.retire {last now : Nat} {keyed : List (Nat × Nat)} {bins : Slot → Nat} (tracks : Tracks last keyed bins)
    (later : last ≤ now) :
    Tracks now keyed (clearBins bins (List.range' (now + 1 + 1 - min (now + 1 + 1 - (last + 1)) airtimeBins)
      (min (now + 1 + 1 - (last + 1)) airtimeBins))) := by
  have ring : airtimeBins = 480 := rfl
  refine ⟨fun frame member => (tracks.past frame member).trans later, ?_⟩
  intro slot
  rw [clearBins_apply]
  split
  next cleared =>
    obtain ⟨absolute, inside, rfl⟩ := cleared
    rw [List.mem_range'_1, ring] at inside
    symm
    apply total_eq_zero
    rintro frame member ⟨same, recent⟩
    have past := tracks.past frame member
    have equal := eq_of_slotOf_eq same (by omega) (by omega)
    omega
  next kept =>
    rw [tracks.slots]
    apply total_congr
    intro frame member
    refine and_congr_right ?_
    intro same
    constructor
    · intro recent
      by_contra old
      have past := tracks.past frame member
      by_cases long : 480 ≤ now + 1 - last
      · obtain ⟨absolute, start, below, here⟩ := exists_slotOf_eq (now + 2 - 480) slot
        refine kept ⟨absolute, ?_, here⟩
        rw [List.mem_range'_1, ring]
        omega
      · -- the bin a ring later lies in the cleared range
        refine kept ⟨binOf frame.1 + 480, ?_, ?_⟩
        · rw [List.mem_range'_1, ring]
          omega
        · rw [← same, slotOf_eq, ring, Nat.add_mod_right]
    · intro recent
      omega

theorem kept_retire {keyed : List (Nat × Nat)} {t : AirtimeTracker} (kept : Kept keyed t) {nowMs : Nat}
    (later : ∀ last ∈ t.lastBin, last ≤ binOf nowMs) :
    (t.retireSkippedBins nowMs).lastBin = some (binOf nowMs) ∧
      Tracks (binOf nowMs) keyed (t.retireSkippedBins nowMs).bins := by
  unfold Kept at kept
  unfold retireSkippedBins
  cases found : t.lastBin with
  | none =>
    rw [found] at kept
    refine ⟨rfl, ?_, ?_⟩
    · rw [kept.1]
      simp
    · intro slot
      show clearBins t.bins _ slot = _
      rw [clearBins_apply, kept.1, kept.2]
      simp [total]
  | some last =>
    rw [found] at kept
    have order := later last found
    have forward : ¬ nowMs / airtimeBinlenMs < last := Nat.not_lt.mpr order
    dsimp only
    rw [if_neg forward]
    exact ⟨rfl, kept.retire order⟩

theorem kept_addAirtime {keyed : List (Nat × Nat)} {t : AirtimeTracker} (kept : Kept keyed t) {nowMs costMs : Nat}
    (later : ∀ last ∈ t.lastBin, last ≤ binOf nowMs)
    (small : total (fun timeMs => binOf timeMs = binOf nowMs) (keyed ++ [(nowMs, costMs)]) ≤ u16Max) :
    (t.addAirtime nowMs costMs).lastBin = some (binOf nowMs) ∧ Kept (keyed ++ [(nowMs, costMs)]) (t.addAirtime nowMs costMs) := by
  obtain ⟨last, tracks⟩ := kept_retire kept later
  refine ⟨last, ?_⟩
  unfold Kept
  rw [show (t.addAirtime nowMs costMs).lastBin = some (binOf nowMs) from last]
  refine ⟨?_, ?_⟩
  · intro frame member
    rcases List.mem_append.mp member with before | here
    · exact tracks.past frame before
    · rw [List.mem_singleton.mp here]
  · intro slot
    show Function.update (t.retireSkippedBins nowMs).bins (currentBin nowMs) _ slot = _
    rw [currentBin_eq, Function.update_apply, total_append, total_singleton]
    by_cases here : slot = slotOf (binOf nowMs)
    · subst here
      have current : total (fun timeMs => slotOf (binOf timeMs) = slotOf (binOf nowMs) ∧
          binOf nowMs ≤ binOf timeMs + 478) keyed = total (fun timeMs => binOf timeMs = binOf nowMs) keyed := by
        apply total_congr
        intro frame member
        constructor
        · rintro ⟨same, recent⟩
          exact eq_of_slotOf_eq same (tracks.past frame member) (by omega)
        · intro same
          exact ⟨by rw [same], by omega⟩
      rw [total_append, total_singleton, if_pos rfl] at small
      rw [if_pos rfl, tracks.slots, current, if_pos ⟨rfl, Nat.le_add_right _ _⟩]
      dsimp only at small ⊢
      omega
    · rw [if_neg here, tracks.slots, if_neg (fun both => here both.1.symm), Nat.add_zero]

theorem kept_update {keyed : List (Nat × Nat)} {t : AirtimeTracker} (limits : Limits) (kept : Kept keyed t) {nowMs : Nat}
    (later : ∀ last ∈ t.lastBin, last ≤ binOf nowMs) :
    (t.update limits nowMs).lastBin = some (binOf nowMs) ∧ Kept keyed (t.update limits nowMs) := by
  obtain ⟨last, tracks⟩ := kept_retire kept later
  refine ⟨last, ?_⟩
  unfold Kept
  rw [show (t.update limits nowMs).lastBin = some (binOf nowMs) from last]
  exact tracks

theorem kept_calls (limits : Limits) (calls : List Call) (ordered : (calls.map Call.nowMs).Pairwise (· ≤ ·))
    (small : ∀ bin, total (fun timeMs => binOf timeMs = bin) (frames calls) ≤ u16Max) :
    Kept (frames calls) (calls.foldl (AirtimeTracker.call limits) new) ∧
      ∀ last ∈ (calls.foldl (AirtimeTracker.call limits) new).lastBin, ∃ call ∈ calls, last = binOf call.nowMs := by
  induction calls using List.reverseRecOn with
  | nil => exact ⟨⟨rfl, fun _ => rfl⟩, fun last none => by cases none⟩
  | append_singleton before call ih =>
    rw [List.map_append, List.pairwise_append] at ordered
    obtain ⟨early, -, across⟩ := ordered
    simp only [frames_append] at small ⊢
    obtain ⟨kept, known⟩ := ih early (fun bin => by
      have whole := small bin
      rw [total_append] at whole
      omega)
    rw [List.foldl_append, List.foldl_cons, List.foldl_nil]
    have later : ∀ last ∈ (before.foldl (AirtimeTracker.call limits) new).lastBin, last ≤ binOf call.nowMs := by
      intro last found
      obtain ⟨earlier, member, rfl⟩ := known last found
      exact Nat.div_le_div_right (across _ (List.mem_map.mpr ⟨earlier, member, rfl⟩) _ List.mem_cons_self)
    have stepped : (AirtimeTracker.call limits (before.foldl (AirtimeTracker.call limits) new) call).lastBin =
        some (binOf call.nowMs) ∧ Kept (frames before ++ frames [call])
          (AirtimeTracker.call limits (before.foldl (AirtimeTracker.call limits) new) call) := by
      cases call with
      | addAirtime nowMs costMs => exact kept_addAirtime kept later (small (binOf nowMs))
      | update nowMs =>
        show _ ∧ Kept (frames before ++ []) _
        rw [List.append_nil]
        exact kept_update limits kept later
    refine ⟨stepped.2, ?_⟩
    intro last found
    rw [stepped.1] at found
    exact ⟨call, by simp, (Option.some.inj found).symm⟩

theorem update_counts (limits : Limits) {keyed : List (Nat × Nat)} {t : AirtimeTracker} (kept : Kept keyed t)
    {nowMs : Nat} (later : ∀ last ∈ t.lastBin, last ≤ binOf nowMs) :
    (t.update limits nowMs).longTermMs =
        total (fun timeMs => binOf nowMs ≤ binOf timeMs + 478 ∧ binOf timeMs ≤ binOf nowMs) keyed ∧
      (t.update limits nowMs).shortTermMs =
        total (fun timeMs => binOf nowMs ≤ binOf timeMs + 1 ∧ binOf timeMs ≤ binOf nowMs) keyed := by
  obtain ⟨-, tracks⟩ := kept_retire kept later
  refine ⟨?_, ?_⟩
  · have slots : ((List.finRange airtimeBins).map (t.retireSkippedBins nowMs).bins).sum =
        total (fun timeMs => binOf nowMs ≤ binOf timeMs + 478) keyed := by
      rw [← sum_total_slots (fun timeMs => slotOf (binOf timeMs)), ← Fin.sum_univ_def]
      exact Finset.sum_congr rfl (fun slot _ => tracks.slots slot)
    refine slots.trans (total_congr ?_)
    intro frame member
    exact (and_iff_left (tracks.past frame member)).symm
  · have previous : (⟨((currentBin nowMs : Nat) + airtimeBins - 1) % airtimeBins, Nat.mod_lt _ (by decide)⟩ : Slot) =
        slotOf (binOf nowMs + 479) := by
      rw [currentBin_eq, Fin.mk.injEq]
      show (binOf nowMs % 480 + 480 - 1) % 480 = (binOf nowMs + 479) % 480
      omega
    have both : (t.update limits nowMs).shortTermMs = (t.retireSkippedBins nowMs).bins (slotOf (binOf nowMs)) +
        (t.retireSkippedBins nowMs).bins (slotOf (binOf nowMs + 479)) := by
      rw [← previous, ← currentBin_eq]
      rfl
    rw [both, tracks.slots, tracks.slots]
    apply total_add
    intro frame member
    have past := tracks.past frame member
    have ring : airtimeBins = 480 := rfl
    simp only [slotOf_eq, ring]
    omega

theorem update_locked (limits : Limits) (t : AirtimeTracker) (nowMs : Nat) :
    (t.update limits nowMs).locked =
      (limits.shortReached (t.update limits nowMs).shortTermMs ||
        limits.longReached (t.update limits nowMs).longTermMs) := by
  unfold update
  dsimp only

/-- Over any calls in order whose bins each stay in their sixteen bits, an update in bin `n` counts the costs of
the bins from `n - 478` to `n` in the long term and of the last two in the short term, and the lock is decided by
these sums. So the long term misses no frame of the last 3585 seconds and counts none that is 3592.5 seconds old. -/
theorem ledger_counts_window (limits : Limits) (calls : List Call) (nowMs : Nat)
    (ordered : (calls.map Call.nowMs ++ [nowMs]).Pairwise (· ≤ ·))
    (small : ∀ bin, total (fun timeMs => binOf timeMs = bin) (frames calls) < 65536) :
    let t := (calls.foldl (AirtimeTracker.call limits) new).update limits nowMs
    t.longTermMs = total (fun timeMs => binOf nowMs ≤ binOf timeMs + 478 ∧ binOf timeMs ≤ binOf nowMs) (frames calls) ∧
      t.shortTermMs = total (fun timeMs => binOf nowMs ≤ binOf timeMs + 1 ∧ binOf timeMs ≤ binOf nowMs) (frames calls) ∧
      t.locked = (limits.shortReached t.shortTermMs || limits.longReached t.longTermMs) ∧
      total (fun timeMs => nowMs ≤ timeMs + 3585000) (frames calls) ≤ t.longTermMs ∧
      t.longTermMs ≤ total (fun timeMs => nowMs < timeMs + 3592500) (frames calls) := by
  rw [List.pairwise_append] at ordered
  obtain ⟨early, -, across⟩ := ordered
  have before : ∀ call ∈ calls, call.nowMs ≤ nowMs :=
    fun call member => across _ (List.mem_map.mpr ⟨call, member, rfl⟩) _ List.mem_cons_self
  obtain ⟨kept, known⟩ := kept_calls limits calls early (fun bin => Nat.le_of_lt_succ (small bin))
  have later : ∀ last ∈ (calls.foldl (AirtimeTracker.call limits) new).lastBin, last ≤ binOf nowMs := by
    intro last found
    obtain ⟨call, member, rfl⟩ := known last found
    exact Nat.div_le_div_right (before call member)
  obtain ⟨long, short⟩ := update_counts limits kept later
  refine ⟨long, short, update_locked limits _ nowMs, ?_, ?_⟩
  · rw [long]
    apply total_mono
    intro frame member recent
    obtain ⟨call, there, same⟩ := mem_frames member
    have past := before call there
    unfold binOf airtimeBinlenMs
    omega
  · rw [long]
    apply total_mono
    rintro frame member ⟨recent, -⟩
    unfold binOf airtimeBinlenMs at recent
    omega

/-- A ledger that slept an hour and five bins after its first frame. -/
theorem ledger_after_gap :
    let limits : Limits := ⟨fun _ => false, fun longTermMs => 100 ≤ longTermMs⟩
    let calls : List Call := [.addAirtime 1000 400, .update 8000, .addAirtime 3637500 120]
    (calls.foldl (AirtimeTracker.call limits) new |>.update limits 3645000).longTermMs = 120 ∧
      (calls.foldl (AirtimeTracker.call limits) new |>.update limits 3645000).shortTermMs = 120 := by
  intro limits calls
  have ordered : (calls.map Call.nowMs ++ [3645000]).Pairwise (· ≤ ·) := by decide
  have small : ∀ bin, total (fun timeMs => binOf timeMs = bin) (frames calls) < 65536 := by
    intro bin
    have whole : total (fun timeMs => binOf timeMs = bin) (frames calls) ≤ total (fun _ => True) (frames calls) :=
      total_mono (fun _ _ _ => trivial)
    exact whole.trans_lt (by decide)
  obtain ⟨long, short, -⟩ := ledger_counts_window limits calls 3645000 ordered small
  exact ⟨long.trans (by decide), short.trans (by decide)⟩

end Leviculum.Board.Airtime
