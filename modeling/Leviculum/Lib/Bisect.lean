import Mathlib.Data.Nat.Basic

/-! The greatest number that passes a test, by halving an interval. -/

namespace Leviculum.Bisect

def middle (low high : Nat) : Nat := low + (high - low + 1) / 2

/-- `while low < high`: the upper half is kept when its first number passes, else the lower half. -/
def greatest (fits : Nat → Bool) (low high : Nat) : Nat :=
  if low < high then
    if fits (middle low high) then greatest fits (middle low high) high else greatest fits low (middle low high - 1)
  else low
termination_by high - low
decreasing_by all_goals (unfold middle; omega)

variable {fits : Nat → Bool} {low high : Nat}

theorem greatest_upper (less : low < high) (passes : fits (middle low high) = true) :
    greatest fits low high = greatest fits (middle low high) high := by
  rw [greatest, if_pos less, if_pos passes]

theorem greatest_lower (less : low < high) (fails : ¬ fits (middle low high) = true) :
    greatest fits low high = greatest fits low (middle low high - 1) := by
  rw [greatest, if_pos less, if_neg fails]

theorem greatest_done (done : ¬ low < high) : greatest fits low high = low := by
  rw [greatest, if_neg done]

theorem middle_bounds (less : low < high) : low < middle low high ∧ middle low high ≤ high := by
  unfold middle
  omega

theorem greatest_mem (ordered : low ≤ high) : low ≤ greatest fits low high ∧ greatest fits low high ≤ high := by
  induction low, high using greatest.induct fits with
  | case1 low high less passes ih =>
    have between := middle_bounds less
    rw [greatest_upper less passes]
    have inside := ih between.2
    omega
  | case2 low high less fails ih =>
    have between := middle_bounds less
    rw [greatest_lower less fails]
    have inside := ih (by omega)
    omega
  | case3 low high done =>
    rw [greatest_done done]
    exact ⟨Nat.le_refl _, ordered⟩

theorem greatest_fits (fits : Nat → Bool) (low high : Nat) :
    greatest fits low high = low ∨ fits (greatest fits low high) = true := by
  induction low, high using greatest.induct fits with
  | case1 low high less passes ih =>
    rw [greatest_upper less passes]
    rcases ih with same | found
    · right
      rw [same]
      exact passes
    · exact .inr found
  | case2 low high less fails ih =>
    rw [greatest_lower less fails]
    exact ih
  | case3 low high done => exact .inl (greatest_done done)

theorem le_greatest_of_fits (down : ∀ m n, m ≤ n → n ≤ high → fits n = true → fits m = true) {n : Nat} (inside : n ≤ high)
    (ordered : low ≤ high) (passes : fits n = true) : n ≤ greatest fits low high := by
  induction low, high using greatest.induct fits with
  | case1 low high less found ih =>
    have between := middle_bounds less
    rw [greatest_upper less found]
    exact ih down inside between.2
  | case2 low high less fails ih =>
    have between := middle_bounds less
    have below : n < middle low high := by
      by_contra above
      exact fails (down _ n (Nat.le_of_not_lt above) inside passes)
    rw [greatest_lower less fails]
    exact ih (fun m n le le' => down m n le (by omega)) (by omega) (by omega)
  | case3 low high done =>
    rw [greatest_done done]
    omega

end Leviculum.Bisect
