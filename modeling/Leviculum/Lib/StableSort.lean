import Mathlib.Data.List.Induction
import Mathlib.Data.List.Sort
import Mathlib.Data.List.TakeWhile

/-! Stable sorting by a number, and keeping only the first few of it while the items arrive. -/

namespace Leviculum.StableSort

variable {α : Type*} {key : α → Nat}

/-- The items in order of their keys, those of one key in the order they came. -/
structure Stable (key : α → Nat) (input output : List α) : Prop where
  perm : output.Perm input
  sorted : output.Pairwise (fun a b => key a ≤ key b)
  ties : ∀ k, output.filter (fun a => key a = k) = input.filter (fun a => key a = k)

/-- Sorted lists whose items of each key are the same are the same. -/
theorem eq_of_ties {left right : List α} (sorted : left.Pairwise (fun a b => key a ≤ key b))
    (sorted' : right.Pairwise (fun a b => key a ≤ key b))
    (ties : ∀ k, left.filter (fun a => key a = k) = right.filter (fun a => key a = k)) : left = right := by
  induction left generalizing right with
  | nil =>
    cases right with
    | nil => rfl
    | cons b rest => simpa using ties (key b)
  | cons a rest ih =>
    cases right with
    | nil => simpa using ties (key a)
    | cons b others =>
      obtain ⟨least, tail⟩ := List.pairwise_cons.mp sorted
      obtain ⟨least', tail'⟩ := List.pairwise_cons.mp sorted'
      have inside : ∀ c ∈ a :: rest, c ∈ b :: others := by
        intro c member
        have found : c ∈ (a :: rest).filter (fun d => key d = key c) := List.mem_filter.mpr ⟨member, by simp⟩
        rw [ties] at found
        exact (List.mem_filter.mp found).1
      have outside : ∀ c ∈ b :: others, c ∈ a :: rest := by
        intro c member
        have found : c ∈ (b :: others).filter (fun d => key d = key c) := List.mem_filter.mpr ⟨member, by simp⟩
        rw [← ties] at found
        exact (List.mem_filter.mp found).1
      have same : key a = key b := by
        have below : key b ≤ key a := by
          rcases List.mem_cons.mp (inside a List.mem_cons_self) with here | there
          · rw [here]
          · exact least' a there
        have above : key a ≤ key b := by
          rcases List.mem_cons.mp (outside b List.mem_cons_self) with here | there
          · rw [here]
          · exact least b there
        exact Nat.le_antisymm above below
      have heads := ties (key a)
      rw [List.filter_cons_of_pos (by simp), List.filter_cons_of_pos (by simp [same])] at heads
      obtain ⟨rfl, -⟩ := List.cons.inj heads
      congr 1
      apply ih tail tail'
      intro k
      have both := ties k
      by_cases here : key a = k
      · rw [List.filter_cons_of_pos (by simpa using here), List.filter_cons_of_pos (by simpa using here)] at both
        exact (List.cons.inj both).2
      · rw [List.filter_cons_of_neg (by simpa using here), List.filter_cons_of_neg (by simpa using here)] at both
        exact both

theorem Stable.unique {input left right : List α} (one : Stable key input left) (two : Stable key input right) :
    left = right :=
  eq_of_ties one.sorted two.sorted (fun k => (one.ties k).trans (two.ties k).symm)

theorem stable_insertionSort (key : α → Nat) (input : List α) :
    Stable key input (input.insertionSort (fun a b => key a ≤ key b)) where
  perm := List.perm_insertionSort _ input
  sorted := by
    have : Std.Total (fun a b : α => key a ≤ key b) := ⟨fun a b => Nat.le_total _ _⟩
    have : IsTrans α (fun a b : α => key a ≤ key b) := ⟨fun a b c => Nat.le_trans⟩
    exact List.pairwise_insertionSort _ input
  ties := by
    intro k
    have : Std.Total (fun a b : α => key a ≤ key b) := ⟨fun a b => Nat.le_total _ _⟩
    have : IsTrans α (fun a b : α => key a ≤ key b) := ⟨fun a b c => Nat.le_trans⟩
    have level : (input.filter (fun a => key a = k)).Pairwise (fun a b => key a ≤ key b) := by
      apply List.pairwise_of_forall_mem_list
      intro a left b right
      have first : key a = k := by simpa using (List.mem_filter.mp left).2
      have second : key b = k := by simpa using (List.mem_filter.mp right).2
      omega
    have kept := (List.sublist_insertionSort (r := fun a b => key a ≤ key b) level List.filter_sublist).filter
      (fun a => decide (key a = k))
    rw [List.filter_filter] at kept
    simp only [Bool.and_self] at kept
    refine (kept.eq_of_length ?_).symm
    exact ((List.perm_insertionSort _ input).filter _).length_eq.symm

def insertBehind (key : α → Nat) (item : α) (list : List α) : List α :=
  list.takeWhile (fun held => key held ≤ key item) ++ item :: list.dropWhile (fun held => key held ≤ key item)

theorem lt_of_mem_dropWhile {list : List α} (sorted : list.Pairwise (fun a b => key a ≤ key b)) {item held : α}
    (member : held ∈ list.dropWhile (fun held => key held ≤ key item)) : key item < key held := by
  induction list with
  | nil => cases member
  | cons first rest ih =>
    obtain ⟨least, sorted⟩ := List.pairwise_cons.mp sorted
    by_cases small : key first ≤ key item
    · rw [List.dropWhile_cons_of_pos (by simpa using small)] at member
      exact ih sorted member
    · rw [List.dropWhile_cons_of_neg (by simpa using small)] at member
      rcases List.mem_cons.mp member with rfl | later
      · exact Nat.lt_of_not_le small
      · exact (Nat.lt_of_not_le small).trans_le (least held later)

theorem Stable.insertBehind {input output : List α} (stable : Stable key input output) (item : α) :
    Stable key (input ++ [item]) (insertBehind key item output) := by
  have parts := output.takeWhile_append_dropWhile (p := fun held => decide (key held ≤ key item))
  refine ⟨?_, ?_, ?_⟩
  · refine List.perm_middle.trans ((List.Perm.cons item ?_).trans (List.perm_append_singleton _ _).symm)
    rw [parts]
    exact stable.perm
  · have sorted := stable.sorted
    rw [← parts, List.pairwise_append] at sorted
    refine List.pairwise_append.mpr ⟨sorted.1, List.pairwise_cons.mpr ⟨?_, sorted.2.1⟩, ?_⟩
    · intro held member
      exact (lt_of_mem_dropWhile stable.sorted member).le
    · intro held before other after
      have small : key held ≤ key item := by simpa using List.mem_takeWhile_imp before
      rcases List.mem_cons.mp after with rfl | later
      · exact small
      · exact small.trans (lt_of_mem_dropWhile stable.sorted later).le
  · intro k
    have split : output.filter (fun a => key a = k) =
        (output.takeWhile (fun held => key held ≤ key item)).filter (fun a => key a = k) ++
          (output.dropWhile (fun held => key held ≤ key item)).filter (fun a => key a = k) := by
      rw [← List.filter_append, parts]
    rw [StableSort.insertBehind, List.filter_append, List.filter_append, ← stable.ties, split]
    by_cases here : key item = k
    · have none : (output.dropWhile (fun held => key held ≤ key item)).filter (fun a => key a = k) = [] := by
        apply List.filter_eq_nil_iff.mpr
        intro held member
        have above := lt_of_mem_dropWhile stable.sorted member
        simp only [decide_eq_true_eq]
        omega
      rw [List.filter_cons_of_pos (by simpa using here), none, List.filter_cons_of_pos (by simpa using here)]
      simp
    · rw [List.filter_cons_of_neg (by simpa using here), List.filter_cons_of_neg (by simpa using here)]
      simp

/-- Put an item behind those that are not larger, and keep only the first `capacity`. -/
def insertBounded (key : α → Nat) (capacity : Nat) (list : List α) (item : α) : List α :=
  let position := (list.takeWhile (fun held => key held ≤ key item)).length
  if position = capacity then list
  else
    let kept := if list.length = capacity then list.dropLast else list
    kept.take position ++ item :: kept.drop position

theorem insertBounded_take (capacity : Nat) (list : List α) (item : α) :
    insertBounded key capacity (list.take capacity) item = (insertBehind key item list).take capacity := by
  have parts := list.takeWhile_append_dropWhile (p := fun held => decide (key held ≤ key item))
  have shown : (list.take capacity).takeWhile (fun held => key held ≤ key item) =
      (list.takeWhile (fun held => key held ≤ key item)).take capacity := List.take_takeWhile.symm
  unfold insertBounded insertBehind
  rw [shown]
  generalize list.takeWhile (fun held => decide (key held ≤ key item)) = small at parts ⊢
  generalize list.dropWhile (fun held => decide (key held ≤ key item)) = large at parts ⊢
  subst parts
  simp only [List.length_take]
  by_cases long : capacity ≤ small.length
  · rw [if_pos (Nat.min_eq_left long), List.take_append_of_le_length long, List.take_append_of_le_length long]
  · have short : small.length < capacity := Nat.lt_of_not_le long
    have kept : (if min capacity (small ++ large).length = capacity then ((small ++ large).take capacity).dropLast
        else (small ++ large).take capacity) = small ++ large.take (capacity - small.length - 1) := by
      split
      next full =>
        rw [List.dropLast_eq_take, List.take_take, List.length_take, List.take_append,
          List.take_of_length_le (by omega)]
        congr 2
        omega
      next room =>
        have all : (small ++ large).length < capacity := by omega
        rw [List.length_append] at all
        rw [List.take_of_length_le (by rw [List.length_append]; omega), List.take_of_length_le (by omega)]
    rw [if_neg (by omega), Nat.min_eq_right short.le, kept, List.take_left, List.drop_left,
      List.take_append, List.take_of_length_le short.le]
    obtain ⟨more, size⟩ : ∃ more, capacity - small.length = more + 1 := ⟨capacity - small.length - 1, by omega⟩
    rw [size, List.take_succ_cons, Nat.add_sub_cancel]

theorem foldl_insertBounded (capacity : Nat) (input : List α) :
    input.foldl (insertBounded key capacity) [] = (input.insertionSort (fun a b => key a ≤ key b)).take capacity := by
  have kept : ∃ sorted, Stable key input sorted ∧ input.foldl (insertBounded key capacity) [] = sorted.take capacity := by
    induction input using List.reverseRecOn with
    | nil => exact ⟨[], ⟨.refl _, .nil, fun _ => rfl⟩, List.take_nil.symm⟩
    | append_singleton before item ih =>
      obtain ⟨sorted, stable, same⟩ := ih
      refine ⟨insertBehind key item sorted, stable.insertBehind item, ?_⟩
      rw [List.foldl_append, List.foldl_cons, List.foldl_nil, same, insertBounded_take]
  obtain ⟨sorted, stable, same⟩ := kept
  rw [same, stable.unique (stable_insertionSort key input)]

end Leviculum.StableSort
