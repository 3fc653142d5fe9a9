import Mathlib.Order.Lattice
import Leviculum.Lib.Fields

/-! Records read one by one, by a reader that can fail: the walk that checks that their keys ascend, and the search by
halves that relies on it. -/

namespace Leviculum.Lookup

open Reading

variable {α κ ε : Type} [LinearOrder κ]

/-- Every record from `n` on, `left` of them: each key above the last one, and each record checked. -/
def ascend (read : Nat → Except ε α) (key : α → κ) (fail : Nat → α → ε) (check : α → Except ε Unit) :
    Nat → Nat → Option κ → Except ε Unit
  | 0, _, _ => .ok ()
  | left + 1, n, last => do
    let a ← read n
    ensure (last.all (· < key a)) (fail n a)
    check a
    ascend read key fail check left (n + 1) (some (key a))

/-- The record of a key between `low` and `high`, with its place. -/
def searchFrom (read : Nat → Except ε α) (key : α → κ) (wanted : κ) : Nat → Nat → Nat → Except ε (Option (Nat × α))
  | 0, _, _ => .ok none
  | fuel + 1, low, high =>
    if low < high then do
      let a ← read (low + (high - low) / 2)
      match compare (key a) wanted with
      | .eq => .ok (some (low + (high - low) / 2, a))
      | .lt => searchFrom read key wanted fuel (low + (high - low) / 2 + 1) high
      | .gt => searchFrom read key wanted fuel low (low + (high - low) / 2)
    else .ok none

/-- The same over all of `count` records; the range halves, so as many rounds are enough. -/
def search (read : Nat → Except ε α) (key : α → κ) (wanted : κ) (count : Nat) : Except ε (Option (Nat × α)) :=
  searchFrom read key wanted count 0 count

/-- The reader gives these records, in this order, and their keys ascend. -/
structure Lists (read : Nat → Except ε α) (key : α → κ) (items : List α) : Prop where
  reads : ∀ n a, items[n]? = some a → read n = .ok a
  ascending : items.Pairwise (key · < key ·)

variable {read : Nat → Except ε α} {key : α → κ} {fail : Nat → α → ε} {check : α → Except ε Unit}

theorem items_of_ascend {left n : Nat} {last : Option κ} (ok : ascend read key fail check left n last = .ok ()) :
    ∃ items : List α, items.length = left ∧ (∀ i a, items[i]? = some a → read (n + i) = .ok a) ∧
      items.Pairwise (key · < key ·) ∧ (∀ a ∈ items, check a = .ok ()) ∧
      ∀ a ∈ items, ∀ before, last = some before → before < key a := by
  induction left generalizing n last with
  | zero => exact ⟨[], rfl, nofun, .nil, nofun, nofun⟩
  | succ left ih =>
    rw [ascend] at ok
    obtain ⟨first, here, ok⟩ := bind_eq_ok.mp ok
    obtain ⟨_, above, ok⟩ := bind_eq_ok.mp ok
    obtain ⟨_, checked, ok⟩ := bind_eq_ok.mp ok
    obtain ⟨items, length, reads, ascending, all, later⟩ := ih ok
    rw [ensure_eq_ok] at above
    have own : ∀ before, last = some before → before < key first := by
      rintro before rfl
      simpa using above
    refine ⟨first :: items, congrArg (· + 1) length, ?_, ?_, ?_, ?_⟩
    · intro i a there
      cases i with
      | zero =>
        obtain rfl := Option.some.inj there
        exact here
      | succ i =>
        have read := reads i a there
        rwa [Nat.add_right_comm, Nat.add_assoc] at read
    · exact List.pairwise_cons.mpr ⟨fun a member => later a member _ rfl, ascending⟩
    · intro a member
      rcases List.mem_cons.mp member with rfl | member
      · exact checked
      · exact all a member
    · intro a member before same
      rcases List.mem_cons.mp member with rfl | member
      · exact own before same
      · exact lt_trans (own before same) (later a member _ rfl)

theorem lists_of_ascend {count : Nat} (ok : ascend read key fail check count 0 none = .ok ()) :
    ∃ items : List α, items.length = count ∧ Lists read key items ∧ ∀ a ∈ items, check a = .ok () := by
  obtain ⟨items, length, reads, ascending, all, -⟩ := items_of_ascend ok
  refine ⟨items, length, ⟨?_, ascending⟩, all⟩
  intro n a there
  have read := reads n a there
  rwa [Nat.zero_add] at read

theorem Lists.key_lt {items : List α} (lists : Lists read key items) {m n : Nat} {a b : α} (first : items[m]? = some a)
    (second : items[n]? = some b) (order : m < n) : key a < key b := by
  obtain ⟨inside, rfl⟩ := List.getElem?_eq_some_iff.mp first
  obtain ⟨inside', rfl⟩ := List.getElem?_eq_some_iff.mp second
  exact List.pairwise_iff_getElem.mp lists.ascending m n inside inside' order

theorem Lists.searchFrom_spec {items : List α} (lists : Lists read key items) (wanted : κ) {fuel low high : Nat}
    (enough : high - low ≤ fuel) (inside : high ≤ items.length)
    (between : ∀ n a, items[n]? = some a → key a = wanted → low ≤ n ∧ n < high) :
    ∃ answer, searchFrom read key wanted fuel low high = .ok answer ∧
      ∀ n a, answer = some (n, a) ↔ items[n]? = some a ∧ key a = wanted := by
  have empty : high ≤ low → ∀ n a, (none : Option (Nat × α)) = some (n, a) ↔ items[n]? = some a ∧ key a = wanted := by
    intro done n a
    refine ⟨nofun, fun ⟨there, same⟩ => ?_⟩
    have range := between n a there same
    omega
  induction fuel generalizing low high with
  | zero => exact ⟨none, rfl, empty (by omega)⟩
  | succ fuel ih =>
    rw [searchFrom]
    split_ifs with more
    · have middle : low + (high - low) / 2 < items.length := by omega
      have here := List.getElem?_eq_getElem middle
      generalize items[low + (high - low) / 2] = item at here
      rw [lists.reads _ item here, ok_bind]
      cases side : compare (key item) wanted with
      | eq =>
        have same := compare_eq_iff_eq.mp side
        refine ⟨_, rfl, fun n a => ?_⟩
        constructor
        · rintro ⟨⟩
          exact ⟨here, same⟩
        · rintro ⟨there, found⟩
          have place : n = low + (high - low) / 2 := by
            by_contra apart
            rcases Nat.lt_or_gt_of_ne apart with before | after
            · exact absurd (lists.key_lt there here before) (by rw [found, same]; exact lt_irrefl _)
            · exact absurd (lists.key_lt here there after) (by rw [found, same]; exact lt_irrefl _)
          subst place
          rw [there] at here
          rw [Option.some.inj here]
      | lt =>
        have below := compare_lt_iff_lt.mp side
        have right : ∀ n a, items[n]? = some a → key a = wanted → low + (high - low) / 2 + 1 ≤ n ∧ n < high := by
          intro n a there found
          refine ⟨?_, (between n a there found).2⟩
          by_contra outside
          rcases Nat.lt_or_eq_of_le (by omega : n ≤ low + (high - low) / 2) with before | rfl
          · exact lt_asymm below (found ▸ lists.key_lt there here before)
          · rw [there] at here
            rw [← Option.some.inj here, found] at below
            exact lt_irrefl _ below
        refine ih (by omega) inside right ?_
        intro done n a
        refine ⟨nofun, fun ⟨there, found⟩ => ?_⟩
        have range := right n a there found
        omega
      | gt =>
        have above := compare_gt_iff_gt.mp side
        have left : ∀ n a, items[n]? = some a → key a = wanted → low ≤ n ∧ n < low + (high - low) / 2 := by
          intro n a there found
          refine ⟨(between n a there found).1, ?_⟩
          by_contra outside
          rcases Nat.lt_or_eq_of_le (by omega : low + (high - low) / 2 ≤ n) with after | rfl
          · exact lt_asymm above (found ▸ lists.key_lt here there after)
          · rw [there] at here
            rw [← Option.some.inj here, found] at above
            exact lt_irrefl _ above
        refine ih (by omega) (by omega) left ?_
        intro done n a
        refine ⟨nofun, fun ⟨there, found⟩ => ?_⟩
        have range := left n a there found
        omega
    · exact ⟨none, rfl, empty (by omega)⟩

theorem Lists.search_spec {items : List α} (lists : Lists read key items) (wanted : κ) :
    ∃ answer, search read key wanted items.length = .ok answer ∧
      ∀ n a, answer = some (n, a) ↔ items[n]? = some a ∧ key a = wanted :=
  lists.searchFrom_spec wanted (by omega) (Nat.le_refl _)
    fun _ _ there _ => ⟨Nat.zero_le _, (List.getElem?_eq_some_iff.mp there).1⟩

end Leviculum.Lookup
