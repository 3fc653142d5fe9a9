import Leviculum.Lib.OrdMap
import Mathlib.Data.List.Rotate
import Mathlib.Data.Prod.Lex
import Mathlib.Order.BooleanAlgebra.Basic

/-! Round robin over a map kept in the order of its keys: each search starts behind the last pick and
wraps around. The places of a round are counted from behind one waiting key, which so has the last of
them; picks move forward through the round until they reach it. -/

namespace Leviculum

namespace OrdMap

variable {K V : Type*} [LinearOrder K] {m : OrdMap K V} {f : V → K}

def positionAbove (m : OrdMap K V) (pivot : K) : Nat := (m.keys.findIdx? (fun key => pivot < key)).getD 0

theorem keys_eq_map_values (keyed : ∀ {key value}, m.get? key = some value → f value = key) :
    m.keys = m.values.map f := by
  unfold keys values
  rw [List.map_map]
  apply List.map_congr_left
  intro e member
  exact (keyed (get?_eq_some.mpr member)).symm

theorem values_sorted (keyed : ∀ {key value}, m.get? key = some value → f value = key) :
    m.values.Pairwise (fun first second => f first < f second) := by
  have ordered : m.keys.Pairwise (· < ·) := List.pairwise_map.mpr m.sorted
  rw [keys_eq_map_values keyed] at ordered
  exact List.pairwise_map.mp ordered

end OrdMap

namespace RoundRobin

variable {K α : Type*} [LinearOrder K] {key : α → K} {items : List α}

/-- The items behind the pivot, then the others: `rotate_left` at the first key above the pivot. -/
def wrapAfter (key : α → K) (pivot : K) (items : List α) : List α :=
  items.rotate (((items.map key).findIdx? (fun other => pivot < other)).getD 0)

/-- The place of a key in the round that ends with `waiting`: the keys above it come first. -/
def place (waiting other : K) : Bool ×ₗ K := toLex (decide (other ≤ waiting), other)

/-- The second key comes later in the round that ends with `waiting`. -/
def Forward (waiting first second : K) : Prop := place waiting first < place waiting second

theorem forward_of_above {waiting first second : K} (above : waiting < first) (less : first < second) :
    Forward waiting first second := by
  unfold Forward place
  rw [Prod.Lex.toLex_lt_toLex]
  simp [not_le.mpr above, not_le.mpr (above.trans less), less]

theorem forward_of_below {waiting first second : K} (less : first < second) (below : second ≤ waiting) :
    Forward waiting first second := by
  unfold Forward place
  rw [Prod.Lex.toLex_lt_toLex]
  simp [less.le.trans below, below, less]

theorem forward_of_wrapped {waiting first second : K} (above : waiting < first) (below : second ≤ waiting) :
    Forward waiting first second := by
  unfold Forward place
  rw [Prod.Lex.toLex_lt_toLex]
  simp [not_le.mpr above, below]

theorem drop_take_findIdx (sorted : items.Pairwise (fun a b => key a < key b)) (pivot : K) :
    items.drop ((items.map key).findIdx (fun other => pivot < other)) = items.filter (fun item => pivot < key item) ∧
      items.take ((items.map key).findIdx (fun other => pivot < other)) =
        items.filter (fun item => key item ≤ pivot) := by
  induction items with
  | nil => exact ⟨rfl, rfl⟩
  | cons first rest ih =>
    obtain ⟨below, sorted⟩ := List.pairwise_cons.mp sorted
    by_cases above : pivot < key first
    · have later : ∀ item ∈ first :: rest, pivot < key item := by
        intro item member
        rcases List.mem_cons.mp member with rfl | there
        · exact above
        · exact above.trans (below item there)
      have here : ((first :: rest).map key).findIdx (fun other => pivot < other) = 0 := by
        simp [List.findIdx_cons, above]
      rw [here]
      constructor
      · rw [List.drop_zero, eq_comm, List.filter_eq_self]
        simpa using later
      · rw [List.take_zero, eq_comm, List.filter_eq_nil_iff]
        simpa using later
    · have next : ((first :: rest).map key).findIdx (fun other => pivot < other) =
          (rest.map key).findIdx (fun other => pivot < other) + 1 := by
        simp [List.findIdx_cons, above]
      rw [next, List.drop_succ_cons, List.take_succ_cons, (ih sorted).1, (ih sorted).2]
      simp [above, not_lt.mp above]

theorem wrapAfter_eq (sorted : items.Pairwise (fun a b => key a < key b)) (pivot : K) :
    wrapAfter key pivot items =
      items.filter (fun item => pivot < key item) ++ items.filter (fun item => key item ≤ pivot) := by
  obtain ⟨behind, before⟩ := drop_take_findIdx sorted pivot
  have range : (items.map key).findIdx (fun other => pivot < other) ≤ items.length :=
    List.findIdx_le_length.trans_eq (List.length_map key)
  rw [← behind, ← before, ← List.rotate_eq_drop_append_take range, wrapAfter]
  cases found : (items.map key).findIdx? (fun other => pivot < other) with
  | some index => rw [List.findIdx?_eq_some_iff_findIdx_eq.mp found |>.2, Option.getD_some]
  | none =>
    -- No key lies above the pivot: a rotation by the whole length is the one by nothing.
    rw [List.findIdx?_eq_none_iff_findIdx_eq.mp found, List.length_map, List.rotate_length, Option.getD_none,
      List.rotate_zero]

theorem find?_le {due : α → Bool} {waiting picked : α} (sorted : items.Pairwise (fun a b => key a < key b))
    (member : waiting ∈ items) (isDue : due waiting = true) (found : items.find? due = some picked) :
    key picked ≤ key waiting := by
  obtain ⟨-, before, behind, rfl, early⟩ := List.find?_eq_some_iff_append.mp found
  rcases List.mem_append.mp member with passed | rest
  · have notDue : due waiting = false := by simpa using early waiting passed
    exact absurd isDue (by simp [notDue])
  · rcases List.mem_cons.mp rest with rfl | later
    · exact le_rfl
    · exact (List.rel_of_pairwise_cons (List.pairwise_append.mp sorted).2.1 later).le

theorem forward_pick {due : α → Bool} {waiting picked : α} {pivot : K}
    (sorted : items.Pairwise (fun a b => key a < key b)) (member : waiting ∈ items) (isDue : due waiting = true)
    (other : pivot ≠ key waiting) (found : (wrapAfter key pivot items).find? due = some picked) :
    Forward (key waiting) pivot (key picked) := by
  rw [wrapAfter_eq sorted, List.find?_append] at found
  cases behind : (items.filter (fun item => pivot < key item)).find? due with
  | some first =>
    obtain rfl : first = picked := by simpa [behind] using found
    have above : pivot < key first := by simpa using (List.mem_filter.mp (List.mem_of_find?_eq_some behind)).2
    rcases lt_or_gt_of_ne other with before | after
    · -- The waiting key is among those behind the pivot, so the pick is not past it.
      have candidate : waiting ∈ items.filter (fun item => pivot < key item) :=
        List.mem_filter.mpr ⟨member, by simpa using before⟩
      exact forward_of_below above (find?_le (sorted.sublist List.filter_sublist) candidate isDue behind)
    · exact forward_of_above after above
  | none =>
    have wrapped : (items.filter (fun item => key item ≤ pivot)).find? due = some picked := by
      simpa [behind] using found
    have after : key waiting < pivot := by
      refine lt_of_le_of_ne (not_lt.mp fun before => ?_) other.symm
      exact absurd isDue (List.find?_eq_none.mp behind waiting (List.mem_filter.mpr ⟨member, by simpa using before⟩))
    have candidate : waiting ∈ items.filter (fun item => key item ≤ pivot) :=
      List.mem_filter.mpr ⟨member, by simpa using after.le⟩
    exact forward_of_wrapped after (find?_le (sorted.sublist List.filter_sublist) candidate isDue wrapped)

theorem nodup_of_forward {waiting : K} {picks : List K}
    (forward : picks.IsChain (Forward waiting)) : picks.Nodup := by
  have transitive : IsTrans K (Forward waiting) := ⟨fun _ _ _ => lt_trans⟩
  refine (List.isChain_iff_pairwise.mp forward).imp ?_
  rintro first _ less rfl
  exact lt_irrefl _ less

end RoundRobin

end Leviculum
