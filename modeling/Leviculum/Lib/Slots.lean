import Leviculum.Lib.Bytes
import Mathlib.Algebra.Order.BigOperators.Group.List
import Mathlib.Algebra.Order.Group.Nat

/-! Numbered slots that are filled in any order: how many are filled, how much they hold, and what they
hold together once none is empty. -/

namespace Leviculum.Slots

variable {α : Type*}

def filled (slots : List (Option α)) : Nat := slots.countP Option.isSome

def held (size : α → Nat) (slot : Option α) : Nat := slot.elim 0 size

def weight (size : α → Nat) (slots : List (Option α)) : Nat := (slots.map (held size)).sum

@[simp] theorem held_none (size : α → Nat) : held size none = 0 := rfl

@[simp] theorem held_some (size : α → Nat) (value : α) : held size (some value) = size value := rfl

theorem filled_replicate_none (n : Nat) : filled (List.replicate n (none : Option α)) = 0 := by
  simp [filled]

theorem weight_replicate_none (size : α → Nat) (n : Nat) : weight size (List.replicate n none) = 0 := by
  simp [weight]

theorem filled_cons (slot : Option α) (slots : List (Option α)) :
    filled (slot :: slots) = filled slots + if slot.isSome then 1 else 0 := List.countP_cons

theorem weight_cons (size : α → Nat) (slot : Option α) (slots : List (Option α)) :
    weight size (slot :: slots) = held size slot + weight size slots := by
  simp [weight]

theorem filled_set {slots : List (Option α)} {i : Nat} {old : Option α} (found : slots[i]? = some old) (value : α) :
    filled (slots.set i (some value)) = filled slots + if old.isSome then 0 else 1 := by
  induction slots generalizing i with
  | nil => simp at found
  | cons slot slots ih =>
    cases i with
    | zero =>
      obtain rfl : slot = old := by simpa using found
      cases slot <;> simp [filled_cons]
    | succ i =>
      rw [List.set_cons_succ, filled_cons, filled_cons, ih (by simpa using found)]
      omega

theorem weight_set {slots : List (Option α)} {i : Nat} {old : Option α} (found : slots[i]? = some old)
    (size : α → Nat) (value : α) :
    weight size (slots.set i (some value)) + held size old = weight size slots + size value := by
  induction slots generalizing i with
  | nil => simp at found
  | cons slot slots ih =>
    cases i with
    | zero =>
      obtain rfl : slot = old := by simpa using found
      simp only [List.set_cons_zero, weight_cons, held_some]
      omega
    | succ i =>
      have later := ih (i := i) (by simpa using found)
      simp only [List.set_cons_succ, weight_cons]
      omega

theorem held_le_weight {slots : List (Option α)} {i : Nat} {old : Option α} (found : slots[i]? = some old)
    (size : α → Nat) : held size old ≤ weight size slots := by
  apply List.single_le_sum
  · intro share _
    exact Nat.zero_le share
  · exact List.mem_map_of_mem (List.mem_of_getElem? found)

theorem weight_map_le {ι : Type*} (size : α → Nat) (p : ι → Prop) [DecidablePred p] (value : ι → α) (indices : List ι) :
    weight size (indices.map (fun i => if p i then some (value i) else none)) ≤
      (indices.map (fun i => size (value i))).sum := by
  induction indices with
  | nil => exact Nat.le_refl _
  | cons i indices ih =>
    simp only [List.map_cons, weight_cons, List.sum_cons]
    split_ifs
    · rw [held_some]
      omega
    · rw [held_none]
      omega

theorem filled_eq_length {slots : List (Option α)} :
    filled slots = slots.length ↔ ∀ slot ∈ slots, slot.isSome := List.countP_eq_length

/-! ### Putting the slots together -/

variable {β : Type*}

/-- The contents in order, when no slot is empty. -/
def assemble : List (Option (List β)) → Option (List β)
  | [] => some []
  | none :: _ => none
  | some part :: rest => (assemble rest).map (part ++ ·)

theorem assemble_of_filled {slots : List (Option (List β))} (full : filled slots = slots.length) :
    ∃ whole, assemble slots = some whole ∧ whole.length = weight List.length slots := by
  rw [filled_eq_length] at full
  induction slots with
  | nil => exact ⟨[], rfl, rfl⟩
  | cons slot slots ih =>
    obtain ⟨whole, put, size⟩ := ih (fun slot member => full slot (List.mem_cons_of_mem _ member))
    obtain ⟨part, rfl⟩ := Option.isSome_iff_exists.mp (full slot List.mem_cons_self)
    refine ⟨part ++ whole, ?_, ?_⟩
    · rw [assemble, put, Option.map_some]
    · rw [List.length_append, weight_cons, held_some, size]

theorem assemble_map_some (parts : List (List β)) : assemble (parts.map some) = some parts.flatten := by
  induction parts with
  | nil => rfl
  | cons part parts ih => simp only [List.map_cons, assemble, ih, Option.map_some, List.flatten_cons]

end Leviculum.Slots
