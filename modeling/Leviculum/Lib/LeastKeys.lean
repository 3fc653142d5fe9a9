import Mathlib.Data.List.Sort
import Mathlib.Order.Bounds.Basic
import Mathlib.Order.MinMax

/-! Holding the names with the least keys while the offers arrive. A name may be offered under several keys and
counts with its least; a name that had to make room may come back under a smaller key. -/

namespace Leviculum.LeastKeys

variable {α κ : Type*} [LinearOrder κ]

/-- What is held after some offers: each name under its least key, and a name that is not held only where there was
no room for it below the keys held. -/
structure Holds (capacity : Nat) (offers held : List (α × κ)) : Prop where
  distinct : (held.map Prod.fst).Nodup
  short : held.length ≤ capacity
  offered : ∀ pick ∈ held, pick ∈ offers
  covered : ∀ offer ∈ offers, (∃ pick ∈ held, pick.1 = offer.1 ∧ pick.2 ≤ offer.2) ∨
    (held.length = capacity ∧ offer.1 ∉ held.map Prod.fst ∧ ∀ pick ∈ held, pick.2 ≤ offer.2)

variable {capacity : Nat} {offers held before after : List (α × κ)} {name : α} {key : κ} {pick : α × κ}

theorem holds_nil : Holds capacity ([] : List (α × κ)) [] where
  distinct := List.nodup_nil
  short := Nat.zero_le _
  offered := fun _ member => member
  covered := fun _ member => absurd member List.not_mem_nil

theorem Holds.lower (holds : Holds capacity offers (before ++ pick :: after)) (same : pick.1 = name) :
    Holds capacity (offers ++ [(name, key)]) (before ++ (pick.1, min pick.2 key) :: after) := by
  have names : (before ++ (pick.1, min pick.2 key) :: after).map Prod.fst =
      (before ++ pick :: after).map Prod.fst := by simp
  have lengths : (before ++ (pick.1, min pick.2 key) :: after).length = (before ++ pick :: after).length := by
    simp
  refine ⟨names ▸ holds.distinct, lengths ▸ holds.short, ?_, ?_⟩
  · intro other member
    rcases List.mem_append.mp member with early | late
    · exact List.mem_append_left _ (holds.offered other (List.mem_append_left _ early))
    rcases List.mem_cons.mp late with rfl | late
    · rcases min_choice pick.2 key with old | new
      · rw [old]
        exact List.mem_append_left _ (holds.offered pick (by simp))
      · rw [new, same]
        exact List.mem_append_right _ List.mem_cons_self
    · exact List.mem_append_left _ (holds.offered other (by simp [late]))
  · intro offer member
    rcases List.mem_append.mp member with early | late
    · rcases holds.covered offer early with ⟨other, there, sameName, least⟩ | ⟨full, absent, least⟩
      · rcases List.mem_append.mp there with first | second
        · exact .inl ⟨other, List.mem_append_left _ first, sameName, least⟩
        rcases List.mem_cons.mp second with rfl | second
        · exact .inl ⟨(other.1, min other.2 key), by simp, sameName, (min_le_left _ _).trans least⟩
        · exact .inl ⟨other, by simp [second], sameName, least⟩
      · refine .inr ⟨lengths ▸ full, names ▸ absent, ?_⟩
        intro other there
        rcases List.mem_append.mp there with first | second
        · exact least other (List.mem_append_left _ first)
        rcases List.mem_cons.mp second with rfl | second
        · exact (min_le_left _ _).trans (least pick (by simp))
        · exact least other (by simp [second])
    · obtain rfl := List.mem_singleton.mp late
      exact .inl ⟨(pick.1, min pick.2 key), by simp, same, min_le_right _ _⟩

theorem Holds.push (holds : Holds capacity offers held) (fresh : name ∉ held.map Prod.fst)
    (room : held.length < capacity) : Holds capacity (offers ++ [(name, key)]) (held ++ [(name, key)]) := by
  refine ⟨?_, ?_, ?_, ?_⟩
  · rw [List.map_append]
    refine List.nodup_append.mpr ⟨holds.distinct, by simp, ?_⟩
    intro other there name' here same
    simp only [List.map_cons, List.map_nil, List.mem_singleton] at here
    exact fresh (here ▸ same ▸ there)
  · rw [List.length_append]
    exact room
  · intro other member
    rcases List.mem_append.mp member with early | late
    · exact List.mem_append_left _ (holds.offered other early)
    · exact List.mem_append_right _ late
  · intro offer member
    rcases List.mem_append.mp member with early | late
    · rcases holds.covered offer early with ⟨other, there, sameName, least⟩ | ⟨full, -, -⟩
      · exact .inl ⟨other, List.mem_append_left _ there, sameName, least⟩
      · omega
    · obtain rfl := List.mem_singleton.mp late
      exact .inl ⟨(name, key), by simp, rfl, le_refl _⟩

/-- A new name below the largest key takes its place. -/
theorem Holds.replace (holds : Holds capacity offers (before ++ pick :: after))
    (fresh : name ∉ (before ++ pick :: after).map Prod.fst) (full : (before ++ pick :: after).length = capacity)
    (largest : ∀ other ∈ before ++ pick :: after, other.2 ≤ pick.2) (below : key < pick.2) :
    Holds capacity (offers ++ [(name, key)]) (before ++ (name, key) :: after) := by
  have distinct := holds.distinct
  rw [List.map_append, List.map_cons, List.nodup_middle, List.nodup_cons] at distinct
  obtain ⟨alone, others⟩ := distinct
  have outside : ∀ other ∈ before ++ after, other ∈ before ++ pick :: after := by
    intro other member
    rcases List.mem_append.mp member with first | second
    · exact List.mem_append_left _ first
    · exact List.mem_append_right _ (List.mem_cons_of_mem _ second)
  have freshOthers : name ∉ before.map Prod.fst ++ after.map Prod.fst := by
    intro member
    rw [← List.map_append] at member
    obtain ⟨other, there, same⟩ := List.mem_map.mp member
    exact fresh (List.mem_map.mpr ⟨other, outside other there, same⟩)
  have lengths : (before ++ (name, key) :: after).length = (before ++ pick :: after).length := by simp
  have small : ∀ bound, pick.2 ≤ bound → ∀ other ∈ before ++ (name, key) :: after, other.2 ≤ bound := by
    intro bound above other member
    rcases List.mem_cons.mp (List.perm_middle.mem_iff.mp member) with rfl | there
    · exact below.le.trans above
    · exact (largest other (outside other there)).trans above
  refine ⟨?_, lengths ▸ holds.short, ?_, ?_⟩
  · rw [List.map_append, List.map_cons, List.nodup_middle, List.nodup_cons]
    exact ⟨freshOthers, others⟩
  · intro other member
    rcases List.mem_cons.mp (List.perm_middle.mem_iff.mp member) with rfl | there
    · exact List.mem_append_right _ List.mem_cons_self
    · exact List.mem_append_left _ (holds.offered other (outside other there))
  · intro offer member
    rcases List.mem_append.mp member with early | late
    swap
    · obtain rfl := List.mem_singleton.mp late
      exact .inl ⟨(name, key), by simp, rfl, le_refl _⟩
    by_cases back : offer.1 = name
    · -- the name had been refused or had made room before, at a key no smaller than the largest held
      refine .inl ⟨(name, key), by simp, back.symm, ?_⟩
      rcases holds.covered offer early with ⟨other, there, sameName, -⟩ | ⟨-, -, least⟩
      · exact absurd (List.mem_map.mpr ⟨other, there, sameName.trans back⟩) fresh
      · exact below.le.trans (least pick (by simp))
    · rcases holds.covered offer early with ⟨other, there, sameName, least⟩ | ⟨-, absent, least⟩
      · rcases List.mem_cons.mp (List.perm_middle.mem_iff.mp there) with rfl | there
        · refine .inr ⟨lengths.trans full, ?_, small _ least⟩
          rw [List.map_append, List.map_cons, List.perm_middle.mem_iff, List.mem_cons, ← sameName]
          rintro (here | there)
          · exact back (sameName ▸ here)
          · exact alone there
        · refine .inl ⟨other, ?_, sameName, least⟩
          exact List.perm_middle.mem_iff.mpr (List.mem_cons_of_mem _ there)
      · refine .inr ⟨lengths.trans full, ?_, small _ (least pick (by simp))⟩
        rw [List.map_append, List.map_cons, List.perm_middle.mem_iff, List.mem_cons]
        rintro (here | there)
        · exact back here
        · rw [← List.map_append] at there
          obtain ⟨other, inside, same⟩ := List.mem_map.mp there
          exact absent (List.mem_map.mpr ⟨other, outside other inside, same⟩)

theorem Holds.refuse (holds : Holds capacity offers held) (fresh : name ∉ held.map Prod.fst)
    (full : held.length = capacity) (above : ∀ other ∈ held, other.2 ≤ key) :
    Holds capacity (offers ++ [(name, key)]) held := by
  refine ⟨holds.distinct, holds.short, fun other there => List.mem_append_left _ (holds.offered other there), ?_⟩
  intro offer member
  rcases List.mem_append.mp member with early | late
  · exact holds.covered offer early
  · obtain rfl := List.mem_singleton.mp late
    exact .inr ⟨full, fresh, above⟩

section Final

variable {oldest : α → κ}

def LeastOf (offers : List (α × κ)) (oldest : α → κ) : Prop :=
  ∀ offer ∈ offers, IsLeast { key | (offer.1, key) ∈ offers } (oldest offer.1)

theorem Holds.key_eq (holds : Holds capacity offers held) (least : LeastOf offers oldest) (member : pick ∈ held) :
    pick.2 = oldest pick.1 := by
  have known := holds.offered pick member
  obtain ⟨attained, bound⟩ := least pick known
  refine le_antisymm ?_ (bound known)
  rcases holds.covered _ attained with ⟨other, there, sameName, below⟩ | ⟨-, absent, -⟩
  · rwa [List.inj_on_of_nodup_map holds.distinct there member sameName] at below
  · exact absurd (List.mem_map.mpr ⟨pick, member, rfl⟩) absent

/-- With distinct least keys, the names held in the order of their keys are the first of all names in the order
of their least keys. -/
theorem Holds.sorted_eq_take [DecidableEq α] (holds : Holds capacity offers held) (least : LeastOf offers oldest)
    {names : List α} (namesNodup : names.Nodup) (named : ∀ name, name ∈ names ↔ name ∈ offers.map Prod.fst)
    (distinct : ∀ one ∈ names, ∀ two ∈ names, oldest one = oldest two → one = two) :
    (held.insertionSort (fun a b => a.2 ≤ b.2)).map Prod.fst =
      (names.insertionSort (fun a b => oldest a ≤ oldest b)).take capacity := by
  have : Std.Total (fun a b : α => oldest a ≤ oldest b) := ⟨fun a b => le_total _ _⟩
  have : IsTrans α (fun a b : α => oldest a ≤ oldest b) := ⟨fun _ _ _ => le_trans⟩
  have : Std.Total (fun a b : α × κ => a.2 ≤ b.2) := ⟨fun a b => le_total _ _⟩
  have : IsTrans (α × κ) (fun a b : α × κ => a.2 ≤ b.2) := ⟨fun _ _ _ => le_trans⟩
  set first := (held.insertionSort (fun a b => a.2 ≤ b.2)).map Prod.fst with firstDef
  set rest := (names.filter (· ∉ first)).insertionSort (fun a b => oldest a ≤ oldest b) with restDef
  have heldPerm : first.Perm (held.map Prod.fst) := (List.perm_insertionSort _ held).map _
  have firstNames : ∀ name ∈ first, name ∈ names := by
    intro name member
    obtain ⟨pick, there, rfl⟩ := List.mem_map.mp (heldPerm.mem_iff.mp member)
    exact (named _).mpr (List.mem_map.mpr ⟨pick, holds.offered pick there, rfl⟩)
  have firstNodup : first.Nodup := heldPerm.nodup_iff.mpr holds.distinct
  have inRest : ∀ name, name ∈ rest ↔ name ∈ names ∧ name ∉ first := by
    intro name
    rw [restDef, List.mem_insertionSort, List.mem_filter, decide_eq_true_eq]
  have restNodup : rest.Nodup := (List.perm_insertionSort _ _).nodup_iff.mpr (namesNodup.filter _)
  have perm : (first ++ rest).Perm names := by
    refine (List.perm_ext_iff_of_nodup ?_ namesNodup).mpr ?_
    · refine List.nodup_append.mpr ⟨firstNodup, restNodup, ?_⟩
      rintro name early other late rfl
      exact ((inRest name).mp late).2 early
    · intro name
      rw [List.mem_append, inRest]
      constructor
      · rintro (early | ⟨late, -⟩)
        · exact firstNames name early
        · exact late
      · intro member
        by_cases early : name ∈ first
        · exact .inl early
        · exact .inr ⟨member, early⟩
  have left : ∀ name ∈ rest, held.length = capacity ∧ ∀ pick ∈ held, oldest pick.1 ≤ oldest name := by
    intro name member
    obtain ⟨known, absent⟩ := (inRest name).mp member
    obtain ⟨offer, there, rfl⟩ := List.mem_map.mp ((named name).mp known)
    have notHeld : offer.1 ∉ held.map Prod.fst := fun inside => absent (heldPerm.mem_iff.mpr inside)
    rcases holds.covered _ (least offer there).1 with ⟨pick, inside, sameName, -⟩ | ⟨full, -, above⟩
    · exact absurd (List.mem_map.mpr ⟨pick, inside, sameName⟩) notHeld
    · refine ⟨full, ?_⟩
      intro pick inside
      rw [← holds.key_eq least inside]
      exact above pick inside
  have ordered : (first ++ rest).Pairwise (fun a b => oldest a ≤ oldest b) := by
    refine List.pairwise_append.mpr ⟨?_, List.pairwise_insertionSort _ _, ?_⟩
    · rw [firstDef, List.pairwise_map]
      refine (List.pairwise_insertionSort (fun a b : α × κ => a.2 ≤ b.2) held).imp_of_mem ?_
      intro one two here there below
      rw [← holds.key_eq least (List.mem_insertionSort _ |>.mp here),
        ← holds.key_eq least (List.mem_insertionSort _ |>.mp there)]
      exact below
    · intro name early other late
      obtain ⟨pick, there, rfl⟩ := List.mem_map.mp (heldPerm.mem_iff.mp early)
      exact (left other late).2 pick there
  have sorted : first ++ rest = names.insertionSort (fun a b => oldest a ≤ oldest b) := by
    refine List.Perm.eq_of_pairwise ?_ ordered (List.pairwise_insertionSort _ _)
      (perm.trans (List.perm_insertionSort _ _).symm)
    intro a b early late below above
    exact distinct a (perm.mem_iff.mp early) b (List.mem_insertionSort _ |>.mp late) (le_antisymm below above)
  have length : first.length = held.length := by rw [heldPerm.length_eq, List.length_map]
  rw [← sorted]
  cases none : rest with
  | nil =>
    rw [List.append_nil, List.take_of_length_le]
    exact length.trans_le holds.short
  | cons name others =>
    have full := (left name (none ▸ List.mem_cons_self)).1
    rw [List.take_left' (length.trans full)]

end Final

end Leviculum.LeastKeys
