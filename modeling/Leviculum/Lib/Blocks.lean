import Mathlib.Data.List.Basic

/-! A stream cut into blocks of one size: every block is full but the last, which is not
empty. -/

namespace Leviculum.Blocks

variable {α : Type*}

/-- Number of blocks of `size` that `length` entries fill. -/
def divCeil (length size : Nat) : Nat := (length + size - 1) / size

structure IsCut (size : Nat) (blocks : List (List α)) : Prop where
  full : ∀ block ∈ blocks.dropLast, block.length = size
  lastNonempty : ∀ block ∈ blocks.getLast?, 0 < block.length
  lastFits : ∀ block ∈ blocks.getLast?, block.length ≤ size

theorem isCut_nil (size : Nat) : IsCut size ([] : List (List α)) where
  full := by simp
  lastNonempty := by simp
  lastFits := by simp

theorem isCut_concat {size : Nat} {closed : List (List α)} {block : List α}
    (full : ∀ other ∈ closed, other.length = size) (nonempty : 0 < block.length)
    (fits : block.length ≤ size) : IsCut size (closed ++ [block]) where
  full := by simpa using full
  lastNonempty := by simpa using nonempty
  lastFits := by simpa using fits

theorem IsCut.cases {size : Nat} {blocks : List (List α)} (cut : IsCut size blocks) :
    blocks = [] ∨ ∃ closed block, blocks = closed ++ [block] ∧
      (∀ other ∈ closed, other.length = size) ∧ 0 < block.length ∧ block.length ≤ size := by
  rcases List.eq_nil_or_concat' blocks with empty | ⟨closed, block, rfl⟩
  · exact .inl empty
  · refine .inr ⟨closed, block, rfl, ?_, ?_, ?_⟩
    · simpa using cut.full
    · simpa using cut.lastNonempty
    · simpa using cut.lastFits

theorem flatten_length_of_full {size : Nat} {closed : List (List α)}
    (full : ∀ block ∈ closed, block.length = size) :
    closed.flatten.length = size * closed.length := by
  induction closed with
  | nil => simp
  | cons block rest ih =>
    rw [List.flatten_cons, List.length_append, full block List.mem_cons_self,
      ih (fun other member => full other (List.mem_cons_of_mem _ member)), List.length_cons,
      Nat.mul_succ, Nat.add_comm]

theorem IsCut.length_eq {size : Nat} {blocks : List (List α)} (cut : IsCut size blocks)
    (positive : 0 < size) : blocks.length = divCeil blocks.flatten.length size := by
  unfold divCeil
  rcases cut.cases with rfl | ⟨closed, block, rfl, full, nonempty, fits⟩
  · rw [List.length_nil, List.flatten_nil, List.length_nil]
    exact (Nat.div_eq_of_lt (by omega)).symm
  · rw [List.flatten_append, List.length_append, List.length_append, flatten_length_of_full full,
      List.flatten_singleton, List.length_singleton]
    have rest : size * closed.length + block.length + size - 1 =
        (block.length - 1) + size * (closed.length + 1) := by
      rw [Nat.mul_succ]
      omega
    rw [rest, Nat.add_mul_div_left _ _ positive, Nat.div_eq_of_lt (by omega)]
    omega

theorem IsCut.cons {size : Nat} {block : List α} {rest : List (List α)}
    (cut : IsCut size (block :: rest)) :
    rest = [] ∧ 0 < block.length ∧ block.length ≤ size ∨
      rest ≠ [] ∧ block.length = size ∧ IsCut size rest := by
  cases rest with
  | nil => exact .inl ⟨rfl, by simpa using cut.lastNonempty, by simpa using cut.lastFits⟩
  | cons next rest =>
    have full := cut.full
    rw [List.dropLast_cons_of_ne_nil (List.cons_ne_nil _ _)] at full
    refine .inr ⟨List.cons_ne_nil _ _, full block List.mem_cons_self, ?_, ?_, ?_⟩
    · exact fun other member => full other (List.mem_cons_of_mem _ member)
    · simpa using cut.lastNonempty
    · simpa using cut.lastFits

theorem IsCut.unique {size : Nat} {blocks others : List (List α)} (cut : IsCut size blocks)
    (cut' : IsCut size others) (positive : 0 < size) (same : blocks.flatten = others.flatten) :
    blocks = others := by
  induction blocks generalizing others with
  | nil =>
    cases others with
    | nil => rfl
    | cons block rest =>
      have empty := congrArg List.length same
      rw [List.flatten_nil, List.length_nil, List.flatten_cons, List.length_append] at empty
      rcases cut'.cons with ⟨-, nonempty, -⟩ | ⟨-, full, -⟩ <;> omega
  | cons block rest ih =>
    cases others with
    | nil =>
      have empty := congrArg List.length same
      rw [List.flatten_nil, List.length_nil, List.flatten_cons, List.length_append] at empty
      rcases cut.cons with ⟨-, nonempty, -⟩ | ⟨-, full, -⟩ <;> omega
    | cons block' rest' =>
      rw [List.flatten_cons, List.flatten_cons] at same
      have total := congrArg List.length same
      rw [List.length_append, List.length_append] at total
      rcases cut.cons with ⟨rfl, -, fits⟩ | ⟨-, full, later⟩
      · rcases cut'.cons with ⟨rfl, -, -⟩ | ⟨more, full', later'⟩
        · rw [List.flatten_nil, List.append_nil, List.append_nil] at same
          rw [same]
        · exfalso
          obtain ⟨next, tail, rfl⟩ := List.exists_cons_of_ne_nil more
          rw [List.flatten_nil, List.length_nil, List.flatten_cons, List.length_append] at total
          rcases later'.cons with ⟨-, nonempty, -⟩ | ⟨-, size', -⟩ <;> omega
      · rcases cut'.cons with ⟨rfl, -, fits'⟩ | ⟨-, full', later'⟩
        · rw [List.flatten_nil, List.length_nil] at total
          have lengths : block.length = block'.length := by omega
          obtain ⟨first, after⟩ := List.append_inj same lengths
          rw [first, ih later (isCut_nil size) after]
        · obtain ⟨first, after⟩ := List.append_inj same (full.trans full'.symm)
          rw [first, ih later later' after]

end Leviculum.Blocks
