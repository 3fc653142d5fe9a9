import Mathlib.Data.List.Nodup

/-! The largest or smallest item of a list, as the iterators of the source pick it among equals. -/

namespace Leviculum.Select

variable {α : Type*}

/-- `max_by`: of several largest the last. -/
def maxBy (greater : α → α → Bool) : List α → Option α
  | [] => none
  | first :: rest => some (rest.foldl (fun best item => if greater best item then best else item) first)

/-- `min_by_key`: of several smallest the first. -/
def minByKey (key : α → Nat) : List α → Option α
  | [] => none
  | first :: rest => some (rest.foldl (fun best item => if key item < key best then item else best) first)

theorem foldl_choose_mem {choose : α → α → α} (one : ∀ a b, choose a b = a ∨ choose a b = b)
    (first : α) (rest : List α) : rest.foldl choose first ∈ first :: rest := by
  induction rest generalizing first with
  | nil => exact List.mem_cons_self
  | cons item later ih =>
    rw [List.foldl_cons]
    rcases List.mem_cons.mp (ih (choose first item)) with same | there
    · rw [same]
      rcases one first item with left | right
      · rw [left]
        exact List.mem_cons_self
      · rw [right]
        exact List.mem_cons_of_mem _ List.mem_cons_self
    · exact List.mem_cons_of_mem _ (List.mem_cons_of_mem _ there)

theorem mem_of_maxBy {greater : α → α → Bool} {items : List α} {best : α}
    (found : maxBy greater items = some best) : best ∈ items := by
  cases items with
  | nil => cases found
  | cons first rest =>
    obtain rfl := Option.some.inj found
    refine foldl_choose_mem ?_ first rest
    intro a b
    by_cases above : greater a b = true <;> simp [above]

theorem mem_of_minByKey {key : α → Nat} {items : List α} {least : α}
    (found : minByKey key items = some least) : least ∈ items := by
  cases items with
  | nil => cases found
  | cons first rest =>
    obtain rfl := Option.some.inj found
    refine foldl_choose_mem ?_ first rest
    intro a b
    by_cases below : key b < key a <;> simp [below]

theorem key_le_of_maxBy (key : α → Nat) {items : List α} {best item : α}
    (found : maxBy (fun held other => key other < key held) items = some best) (member : item ∈ items) :
    key item ≤ key best := by
  have loop : ∀ (rest : List α) (start : α), ∀ item ∈ start :: rest,
      key item ≤ key (rest.foldl (fun best item => if key item < key best then best else item) start) := by
    intro rest
    induction rest with
    | nil =>
      intro start item here
      rw [List.mem_singleton.mp here]
      exact Nat.le_refl _
    | cons next later ih =>
      intro start item here
      rw [List.foldl_cons]
      have chosen := ih (if key next < key start then start else next) _ List.mem_cons_self
      rcases List.mem_cons.mp here with rfl | behind
      · refine Nat.le_trans ?_ chosen
        split <;> omega
      rcases List.mem_cons.mp behind with rfl | behind
      · refine Nat.le_trans ?_ chosen
        split <;> omega
      · exact ih _ item (List.mem_cons_of_mem _ behind)
  cases items with
  | nil => cases member
  | cons first rest =>
    obtain rfl := Option.some.inj found
    simpa using loop rest first item member

theorem maxBy_eq_of_greatest {greater : α → α → Bool} {items : List α} {best : α} (member : best ∈ items)
    (above : ∀ item ∈ items, item ≠ best → greater best item = true)
    (below : ∀ item ∈ items, item ≠ best → greater item best = false) : maxBy greater items = some best := by
  have loop : ∀ (rest : List α) (start : α), best ∈ start :: rest → (∀ item ∈ start :: rest, item ∈ items) →
      rest.foldl (fun best item => if greater best item then best else item) start = best := by
    intro rest
    induction rest with
    | nil =>
      intro start here _
      exact (List.mem_singleton.mp here).symm
    | cons item later ih =>
      intro start here inside
      rw [List.foldl_cons]
      have itemInside := inside item (List.mem_cons_of_mem _ List.mem_cons_self)
      have startInside := inside start List.mem_cons_self
      apply ih
      · by_cases isStart : start = best
        · by_cases isItem : item = best
          · split <;> simp [isStart, isItem]
          · simp [isStart, above item itemInside isItem]
        · rcases List.mem_cons.mp here with same | rest
          · exact absurd same.symm isStart
          · rcases List.mem_cons.mp rest with rfl | behind
            · simp [below start startInside isStart]
            · exact List.mem_cons_of_mem _ behind
      · intro other otherMember
        rcases List.mem_cons.mp otherMember with rfl | behind
        · split
          · exact startInside
          · exact itemInside
        · exact inside other (List.mem_cons_of_mem _ (List.mem_cons_of_mem _ behind))
  cases items with
  | nil => cases member
  | cons first rest => exact congrArg some (loop rest first member (fun _ inside => inside))

theorem find?_key_eq_some {β : Type*} [DecidableEq β] {key : α → β} {items : List α}
    (distinct : (items.map key).Nodup) {wanted : β} {item : α} :
    items.find? (fun other => key other = wanted) = some item ↔ item ∈ items ∧ key item = wanted := by
  constructor
  · intro found
    exact ⟨List.mem_of_find?_eq_some found, by simpa using List.find?_some found⟩
  · rintro ⟨member, rfl⟩
    cases found : items.find? (fun other => key other = key item) with
    | none => exact absurd (List.find?_eq_none.mp found item member) (by simp)
    | some other =>
      have same : key other = key item := by simpa using List.find?_some found
      rw [List.inj_on_of_nodup_map distinct (List.mem_of_find?_eq_some found) member same]

end Leviculum.Select
