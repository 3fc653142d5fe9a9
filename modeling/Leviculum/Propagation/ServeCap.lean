import Leviculum.Lib.Bisect
import Mathlib.Algebra.GroupWithZero.Nat

/-! What serving one fetch costs a heap, and the largest cap a heap funds. -/

namespace Leviculum.Propagation

def responseFrameBytes : Nat := 1 + 2 + 16
def resourceRandomHashSize : Nat := 4
def partBookkeepingBytes : Nat := 24 + 2 * 4 + 8

/-- `div_ceil`. -/
def divCeil (n d : Nat) : Nat := (n + d - 1) / d

def sduOf (resourceSdu : Nat) : Nat := if resourceSdu = 0 then 1 else resourceSdu

section Word

variable (bits : Nat)

/-- What a `usize` of this width keeps. -/
def wrap (n : Nat) : Nat := n % 2 ^ bits

def transferBytes (framed : Nat) : Nat :=
  let plaintext := wrap bits (resourceRandomHashSize + framed)
  wrap bits (wrap bits (16 + wrap bits (wrap bits (plaintext / 16 + 1) * 16)) + 32)

def servePeakBytes (capBytes resourceSdu : Nat) : Nat :=
  let framed := wrap bits (capBytes + responseFrameBytes)
  let sdu := sduOf resourceSdu
  let scratch := if sdu < framed then sdu else framed
  let transfer := transferBytes bits framed
  let parts := wrap bits (transfer + wrap bits (divCeil transfer sdu * partBookkeepingBytes))
  wrap bits (wrap bits (capBytes + scratch) + parts)

def serveLargestBlockBytes (capBytes resourceSdu : Nat) : Nat :=
  let framed := wrap bits (capBytes + responseFrameBytes)
  let sdu := sduOf resourceSdu
  let scratch := if sdu < framed then sdu else framed
  let transfer := transferBytes bits framed
  let partPayload := if transfer < sdu then transfer else sdu
  let part := wrap bits (partPayload + partBookkeepingBytes)
  let largest := if scratch > capBytes then scratch else capBytes
  if part > largest then part else largest

def capFits (freeBytes largestBytes resourceSdu capBytes : Nat) : Bool :=
  decide (servePeakBytes bits capBytes resourceSdu ≤ freeBytes ∧ serveLargestBlockBytes bits capBytes resourceSdu ≤ largestBytes)

def serveCapForHeap (freeBytes largestBytes resourceSdu : Nat) : Nat :=
  Bisect.greatest (capFits bits freeBytes largestBytes resourceSdu) 0 freeBytes

end Word

/-! ### The estimates without a word size -/

def transfer (capBytes : Nat) : Nat := 16 + ((resourceRandomHashSize + (capBytes + responseFrameBytes)) / 16 + 1) * 16 + 32

def servePeak (capBytes resourceSdu : Nat) : Nat :=
  capBytes + min (sduOf resourceSdu) (capBytes + responseFrameBytes) +
    (transfer capBytes + divCeil (transfer capBytes) (sduOf resourceSdu) * partBookkeepingBytes)

def serveLargestBlock (capBytes resourceSdu : Nat) : Nat :=
  max (min (transfer capBytes) (sduOf resourceSdu) + partBookkeepingBytes)
    (max (min (sduOf resourceSdu) (capBytes + responseFrameBytes)) capBytes)

theorem sduOf_pos (resourceSdu : Nat) : 0 < sduOf resourceSdu := by
  unfold sduOf
  split <;> omega

theorem divCeil_mono {m n : Nat} (le : m ≤ n) (d : Nat) : divCeil m d ≤ divCeil n d := Nat.div_le_div_right (by omega)

theorem divCeil_pos {n d : Nat} (some : 0 < n) (positive : 0 < d) : 0 < divCeil n d :=
  Nat.div_pos (by omega) positive

theorem transfer_mono {cap larger : Nat} (le : cap ≤ larger) : transfer cap ≤ transfer larger := by
  unfold transfer
  omega

theorem servePeak_mono {cap larger : Nat} (le : cap ≤ larger) (resourceSdu : Nat) :
    servePeak cap resourceSdu ≤ servePeak larger resourceSdu := by
  have more := transfer_mono le
  have parts := Nat.mul_le_mul_right partBookkeepingBytes (divCeil_mono more (sduOf resourceSdu))
  unfold servePeak
  omega

theorem serveLargestBlock_mono {cap larger : Nat} (le : cap ≤ larger) (resourceSdu : Nat) :
    serveLargestBlock cap resourceSdu ≤ serveLargestBlock larger resourceSdu := by
  have more := transfer_mono le
  unfold serveLargestBlock
  omega

theorem transfer_le_servePeak (cap resourceSdu : Nat) :
    cap + responseFrameBytes < transfer cap ∧ transfer cap + partBookkeepingBytes ≤ servePeak cap resourceSdu := by
  have positive := sduOf_pos resourceSdu
  have some : 0 < transfer cap := by
    unfold transfer
    omega
  have parts := Nat.mul_le_mul_right partBookkeepingBytes (divCeil_pos some positive)
  refine ⟨?_, ?_⟩
  · unfold transfer responseFrameBytes resourceRandomHashSize
    omega
  · unfold servePeak
    omega

section Exact

variable {bits cap resourceSdu : Nat} (fits : servePeak cap resourceSdu < 2 ^ bits)

include fits

theorem wrap_of_le {n : Nat} (le : n ≤ servePeak cap resourceSdu) : wrap bits n = n :=
  Nat.mod_eq_of_lt (Nat.lt_of_le_of_lt le fits)

theorem transferBytes_eq : transferBytes bits (wrap bits (cap + responseFrameBytes)) = transfer cap := by
  obtain ⟨framed, within⟩ := transfer_le_servePeak cap resourceSdu
  have small : transfer cap ≤ servePeak cap resourceSdu := by omega
  have frame : wrap bits (cap + responseFrameBytes) = cap + responseFrameBytes := wrap_of_le fits (by omega)
  have unfolded : transfer cap = 16 + ((resourceRandomHashSize + (cap + responseFrameBytes)) / 16 + 1) * 16 + 32 := rfl
  unfold transferBytes
  rw [frame]
  dsimp only
  rw [wrap_of_le fits (n := resourceRandomHashSize + (cap + responseFrameBytes)) (by omega),
    wrap_of_le fits (n := (resourceRandomHashSize + (cap + responseFrameBytes)) / 16 + 1) (by omega),
    wrap_of_le fits (n := ((resourceRandomHashSize + (cap + responseFrameBytes)) / 16 + 1) * 16) (by omega),
    wrap_of_le fits (n := 16 + ((resourceRandomHashSize + (cap + responseFrameBytes)) / 16 + 1) * 16) (by omega),
    wrap_of_le fits (by omega)]
  rfl

theorem servePeakBytes_eq : servePeakBytes bits cap resourceSdu = servePeak cap resourceSdu := by
  obtain ⟨framed, within⟩ := transfer_le_servePeak cap resourceSdu
  have frame : wrap bits (cap + responseFrameBytes) = cap + responseFrameBytes := wrap_of_le fits (by omega)
  have scratch : (if sduOf resourceSdu < cap + responseFrameBytes then sduOf resourceSdu else cap + responseFrameBytes) =
      min (sduOf resourceSdu) (cap + responseFrameBytes) := by
    split <;> omega
  have whole : servePeak cap resourceSdu = cap + min (sduOf resourceSdu) (cap + responseFrameBytes) +
    (transfer cap + divCeil (transfer cap) (sduOf resourceSdu) * partBookkeepingBytes) := rfl
  have sized := transferBytes_eq fits
  unfold servePeakBytes
  dsimp only
  rw [sized, frame, scratch, wrap_of_le fits (n := divCeil (transfer cap) (sduOf resourceSdu) * partBookkeepingBytes) (by omega),
    wrap_of_le fits (n := transfer cap + divCeil (transfer cap) (sduOf resourceSdu) * partBookkeepingBytes) (by omega),
    wrap_of_le fits (n := cap + min (sduOf resourceSdu) (cap + responseFrameBytes)) (by omega), wrap_of_le fits (by omega)]
  rfl

theorem serveLargestBlockBytes_eq : serveLargestBlockBytes bits cap resourceSdu = serveLargestBlock cap resourceSdu := by
  obtain ⟨framed, within⟩ := transfer_le_servePeak cap resourceSdu
  have frame : wrap bits (cap + responseFrameBytes) = cap + responseFrameBytes := wrap_of_le fits (by omega)
  have scratch : (if sduOf resourceSdu < cap + responseFrameBytes then sduOf resourceSdu else cap + responseFrameBytes) =
      min (sduOf resourceSdu) (cap + responseFrameBytes) := by
    split <;> omega
  have payload : (if transfer cap < sduOf resourceSdu then transfer cap else sduOf resourceSdu) =
      min (transfer cap) (sduOf resourceSdu) := by
    split <;> omega
  have sized := transferBytes_eq fits
  unfold serveLargestBlockBytes serveLargestBlock
  dsimp only
  rw [sized, frame, scratch, payload, wrap_of_le fits (n := min (transfer cap) (sduOf resourceSdu) + partBookkeepingBytes) (by omega)]
  split <;> split <;> omega

end Exact

theorem capFits_down {bits free largest resourceSdu : Nat} (exact : servePeak free resourceSdu < 2 ^ bits) (cap larger : Nat)
    (le : cap ≤ larger) (inside : larger ≤ free) (fits : capFits bits free largest resourceSdu larger = true) :
    capFits bits free largest resourceSdu cap = true := by
  have below : ∀ n ≤ free, servePeak n resourceSdu < 2 ^ bits := fun n inside =>
    Nat.lt_of_le_of_lt (servePeak_mono inside resourceSdu) exact
  have both := of_decide_eq_true fits
  rw [servePeakBytes_eq (below larger inside), serveLargestBlockBytes_eq (below larger inside)] at both
  have smaller := below cap (Nat.le_trans le inside)
  refine decide_eq_true ?_
  rw [servePeakBytes_eq smaller, serveLargestBlockBytes_eq smaller]
  exact ⟨Nat.le_trans (servePeak_mono le resourceSdu) both.1, Nat.le_trans (serveLargestBlock_mono le resourceSdu) both.2⟩

theorem serveCapForHeap_spec {bits free largest resourceSdu : Nat} (exact : servePeak free resourceSdu < 2 ^ bits) :
    serveCapForHeap bits free largest resourceSdu ≤ free ∧
    (capFits bits free largest resourceSdu (serveCapForHeap bits free largest resourceSdu) = true ∨
      serveCapForHeap bits free largest resourceSdu = 0 ∧ ∀ cap ≤ free, capFits bits free largest resourceSdu cap = false) ∧
    ∀ cap ≤ free, capFits bits free largest resourceSdu cap = true → cap ≤ serveCapForHeap bits free largest resourceSdu := by
  have most : ∀ cap ≤ free, capFits bits free largest resourceSdu cap = true →
      cap ≤ serveCapForHeap bits free largest resourceSdu := fun cap inside fits =>
    Bisect.le_greatest_of_fits (capFits_down exact) inside (Nat.zero_le _) fits
  refine ⟨(Bisect.greatest_mem (Nat.zero_le _)).2, ?_, most⟩
  rcases Bisect.greatest_fits (capFits bits free largest resourceSdu) 0 free with none | found
  · by_cases zero : capFits bits free largest resourceSdu 0 = true
    · left
      rw [serveCapForHeap, none]
      exact zero
    · refine .inr ⟨none, fun cap inside => ?_⟩
      by_contra fits
      exact zero (capFits_down exact 0 cap (Nat.zero_le _) inside ((Bool.not_eq_false _).mp fits))
  · exact .inl found

theorem serveCapForHeap_eq {bits free largest resourceSdu cap : Nat} (exact : servePeak free resourceSdu < 2 ^ bits)
    (below : cap ≤ free) (fits : capFits bits free largest resourceSdu cap = true)
    (stops : capFits bits free largest resourceSdu (cap + 1) = false) :
    serveCapForHeap bits free largest resourceSdu = cap := by
  obtain ⟨most, safe, greatest⟩ := @serveCapForHeap_spec bits free largest resourceSdu exact
  refine Nat.le_antisymm ?_ (greatest cap below fits)
  by_contra above
  rcases safe with serves | ⟨-, never⟩
  · rw [capFits_down exact (cap + 1) _ (Nat.lt_of_not_le above) most serves] at stops
    cases stops
  · rw [never cap below] at fits
    cases fits

end Leviculum.Propagation
