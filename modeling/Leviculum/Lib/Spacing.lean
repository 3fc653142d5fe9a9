import Mathlib.Data.List.Basic

/-! Lists in which nearby entries differ. A key then names one position inside any
stretch no longer than the spacing, although it may come back further away. -/

namespace Leviculum.Spacing

variable {α : Type*}

/-- Entries at most `reach` positions apart differ. -/
def DistinctWithin (reach : Nat) (keys : List α) : Prop :=
  ∀ i j key, i < j → j ≤ i + reach → keys[i]? = some key → keys[j]? ≠ some key

theorem distinctWithin_nil (reach : Nat) : DistinctWithin reach ([] : List α) := by
  intro i j key _ _ first
  cases first

theorem DistinctWithin.index_unique {reach : Nat} {keys : List α}
    (spaced : DistinctWithin reach keys) {i j : Nat} {key : α}
    (first : keys[i]? = some key) (second : keys[j]? = some key)
    (below : i ≤ j + reach) (above : j ≤ i + reach) : i = j := by
  rcases Nat.lt_trichotomy i j with before | same | after
  · exact absurd second (spaced i j key before above first)
  · exact same
  · exact absurd first (spaced j i key after below second)

theorem DistinctWithin.concat {reach : Nat} {keys : List α} {key : α}
    (spaced : DistinctWithin reach keys) (fresh : key ∉ keys.drop (keys.length - reach)) :
    DistinctWithin reach (keys ++ [key]) := by
  intro i j other before close first second
  have inside : j < (keys ++ [key]).length := by
    by_contra outside
    rw [List.getElem?_eq_none (by omega)] at second
    cases second
  rw [List.length_append, List.length_singleton] at inside
  rw [List.getElem?_append_left (by omega)] at first
  by_cases old : j < keys.length
  · rw [List.getElem?_append_left old] at second
    exact spaced i j other before close first second
  · have last : j = keys.length := by omega
    subst last
    rw [List.getElem?_concat_length, Option.some.injEq] at second
    subst second
    apply fresh
    rw [List.mem_iff_getElem?]
    refine ⟨i - (keys.length - reach), ?_⟩
    rw [List.getElem?_drop]
    rw [← first]
    congr 1
    omega

theorem drop_concat_slides (entries : List α) (key : α) (size : Nat) :
    (if (entries.drop (entries.length - size) ++ [key]).length > size
      then (entries.drop (entries.length - size) ++ [key]).tail
      else entries.drop (entries.length - size) ++ [key]) =
      (entries ++ [key]).drop ((entries ++ [key]).length - size) := by
  have shorter : entries.length - size ≤ entries.length := Nat.sub_le _ _
  rw [← List.drop_append_of_le_length shorter, List.length_drop, List.length_append,
    List.length_singleton]
  split_ifs with long
  · rw [List.tail_drop]
    congr 1
    omega
  · congr 1
    omega

/-- Position after the first entry equal to `key`, counted from `index`; past the end when
there is none. -/
def scanPast [DecidableEq α] (key : α) : List α → Nat → Nat
  | [], index => index
  | entry :: rest, index => if entry = key then index + 1 else scanPast key rest (index + 1)

theorem scanPast_le [DecidableEq α] (key : α) (keys : List α) (index : Nat) :
    scanPast key keys index ≤ index + keys.length := by
  induction keys generalizing index with
  | nil => exact Nat.le_refl _
  | cons entry rest ih =>
    have later := ih (index + 1)
    rw [List.length_cons, scanPast]
    split <;> omega

theorem scanPast_found [DecidableEq α] {key : α} {keys : List α} {position : Nat} (index : Nat)
    (found : keys[position]? = some key) (first : ∀ i < position, keys[i]? ≠ some key) :
    scanPast key keys index = index + position + 1 := by
  induction keys generalizing index position with
  | nil => cases found
  | cons entry rest ih =>
    cases position with
    | zero =>
      rw [List.getElem?_cons_zero, Option.some.injEq] at found
      rw [scanPast, if_pos found]
    | succ position =>
      have other : entry ≠ key := by
        intro same
        exact first 0 (by omega) (by rw [List.getElem?_cons_zero, same])
      rw [scanPast, if_neg other]
      rw [ih (index + 1) (by simpa using found)
        (fun i before => by simpa using first (i + 1) (by omega))]
      omega

theorem DistinctWithin.scanPast_eq [DecidableEq α] {reach : Nat} {keys : List α}
    (spaced : DistinctWithin reach keys) {start position : Nat} {key : α}
    (entry : keys[position]? = some key) (after : start ≤ position)
    (near : position < start + reach) :
    scanPast key ((keys.drop start).take reach) start = position + 1 := by
  have stretch : ∀ i, i < reach → ((keys.drop start).take reach)[i]? = keys[start + i]? := by
    intro i short
    rw [List.getElem?_take_of_lt short, List.getElem?_drop]
  have stop : scanPast key ((keys.drop start).take reach) start = start + (position - start) + 1 := by
    apply scanPast_found
    · rw [stretch _ (by omega), ← entry]
      congr 1
      omega
    · intro i before earlier
      rw [stretch _ (by omega)] at earlier
      have same := spaced.index_unique earlier entry (by omega) (by omega)
      omega
  rw [stop]
  omega

theorem DistinctWithin.scanPast_le_position [DecidableEq α] {reach : Nat} {keys : List α}
    (spaced : DistinctWithin reach keys) {start position : Nat} {key : α}
    (entry : keys[position]? = some key) (after : start ≤ position) :
    scanPast key ((keys.drop start).take reach) start ≤ position + 1 := by
  by_cases near : position < start + reach
  · exact Nat.le_of_eq (spaced.scanPast_eq entry after near)
  · have bound := scanPast_le key ((keys.drop start).take reach) start
    rw [List.length_take] at bound
    omega

end Leviculum.Spacing
