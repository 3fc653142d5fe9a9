import Mathlib.Data.List.Nodup

/-! A map of bounded capacity, kept in the order of insertion, oldest first.
Inserting a key again moves it to the back; inserting into a full map drops the
oldest of the first entries that a policy prefers, or else the plain oldest. -/

namespace Leviculum

structure BoundedMap (K V : Type*) where
  entries : List (K × V)
  capacity : Nat
  nodup : (entries.map Prod.fst).Nodup

namespace BoundedMap

variable {K V : Type*} [DecidableEq K]

/-- How many of the oldest entries an eviction looks at. -/
def evictionScan : Nat := 64

def withCapacity (capacity : Nat) : BoundedMap K V := ⟨[], max capacity 1, List.nodup_nil⟩

def get? (m : BoundedMap K V) (key : K) : Option V :=
  (m.entries.find? (fun e => e.1 = key)).map Prod.snd

def contains (m : BoundedMap K V) (key : K) : Bool := (m.get? key).isSome

def keep (m : BoundedMap K V) (p : K × V → Bool) : BoundedMap K V where
  entries := m.entries.filter p
  capacity := m.capacity
  nodup := m.nodup.sublist ((List.filter_sublist).map _)

def erase (m : BoundedMap K V) (key : K) : BoundedMap K V := m.keep (fun e => e.1 ≠ key)

/-- Change one value in place. -/
def modify (m : BoundedMap K V) (key : K) (f : V → V) : BoundedMap K V where
  entries := m.entries.map fun e => if e.1 = key then (e.1, f e.2) else e
  capacity := m.capacity
  nodup := by
    have keys : (m.entries.map fun e => if e.1 = key then (e.1, f e.2) else e).map Prod.fst =
        m.entries.map Prod.fst := by
      rw [List.map_map]
      apply List.map_congr_left
      intro e _
      simp only [Function.comp_apply]
      split <;> rfl
    rw [keys]
    exact m.nodup

/-- The entry a full map drops. -/
def victim (m : BoundedMap K V) (prefer : K → V → Bool) : Option (K × V) :=
  ((m.entries.take evictionScan).find? fun e => prefer e.1 e.2).or m.entries.head?

def evict (m : BoundedMap K V) (prefer : K → V → Bool) : BoundedMap K V :=
  match m.victim prefer with
  | some e => m.erase e.1
  | none => m

/-- What stays when `key` is about to be inserted. -/
def makeRoom (m : BoundedMap K V) (key : K) (prefer : K → V → Bool) : BoundedMap K V :=
  if m.contains key then m
  else if m.entries.length ≥ m.capacity then m.evict prefer
  else m

def insertPreferring (m : BoundedMap K V) (key : K) (value : V) (prefer : K → V → Bool) :
    BoundedMap K V where
  entries := ((m.makeRoom key prefer).erase key).entries ++ [(key, value)]
  capacity := m.capacity
  nodup := by
    rw [List.map_append, List.map_singleton, List.nodup_append']
    refine ⟨((m.makeRoom key prefer).erase key).nodup, List.nodup_singleton _, ?_⟩
    intro k inside same
    obtain rfl := List.mem_singleton.mp same
    obtain ⟨e, member, rfl⟩ := List.mem_map.mp inside
    simp [erase, keep] at member

def insert (m : BoundedMap K V) (key : K) (value : V) : BoundedMap K V :=
  m.insertPreferring key value (fun _ _ => false)

def insertIfAbsent (m : BoundedMap K V) (key : K) (value : V) : BoundedMap K V :=
  if m.contains key then m else m.insert key value

theorem get?_eq_some {m : BoundedMap K V} {key : K} {value : V} :
    m.get? key = some value ↔ (key, value) ∈ m.entries := by
  unfold get?
  constructor
  · intro found
    obtain ⟨e, here, rfl⟩ := Option.map_eq_some_iff.mp found
    obtain rfl : e.1 = key := by simpa using List.find?_some here
    exact List.mem_of_find?_eq_some here
  · intro member
    cases here : m.entries.find? (fun e => e.1 = key) with
    | none => exact absurd (List.find?_eq_none.mp here _ member) (by simp)
    | some e =>
      have same : e.1 = key := by simpa using List.find?_some here
      have unique := List.inj_on_of_nodup_map m.nodup (List.mem_of_find?_eq_some here) member same
      rw [unique, Option.map_some]

theorem get?_keep {m : BoundedMap K V} {p : K × V → Bool} {key : K} {value : V} :
    (m.keep p).get? key = some value ↔ m.get? key = some value ∧ p (key, value) = true := by
  rw [get?_eq_some, get?_eq_some, keep, List.mem_filter]

theorem get?_erase_of_ne {m : BoundedMap K V} {key other : K} (apart : other ≠ key) :
    (m.erase key).get? other = m.get? other := by
  apply Option.ext
  intro value
  rw [erase, get?_keep]
  simp [apart]

theorem get?_modify (m : BoundedMap K V) (key other : K) (f : V → V) :
    (m.modify key f).get? other = if other = key then (m.get? key).map f else m.get? other := by
  apply Option.ext
  intro value
  split
  next same =>
    subst same
    rw [get?_eq_some, Option.map_eq_some_iff, modify, List.mem_map]
    constructor
    · rintro ⟨e, member, changed⟩
      split at changed
      next here =>
        cases changed
        exact ⟨e.2, get?_eq_some.mpr (here ▸ member), rfl⟩
      next apart =>
        subst changed
        exact absurd rfl apart
    · rintro ⟨before, found, rfl⟩
      exact ⟨(other, before), get?_eq_some.mp found, by simp⟩
  next apart =>
    rw [get?_eq_some, get?_eq_some, modify, List.mem_map]
    constructor
    · rintro ⟨e, member, changed⟩
      split at changed
      next here =>
        cases changed
        exact absurd here apart
      next =>
        subst changed
        exact member
    · intro member
      exact ⟨(other, value), member, by simp [apart]⟩

theorem get?_evict {m : BoundedMap K V} {prefer : K → V → Bool} {key : K} {value : V}
    (found : (m.evict prefer).get? key = some value) : m.get? key = some value := by
  unfold evict at found
  split at found
  · exact (get?_keep.mp found).1
  · exact found

theorem get?_makeRoom {m : BoundedMap K V} {prefer : K → V → Bool} {key other : K} {value : V}
    (found : (m.makeRoom key prefer).get? other = some value) : m.get? other = some value := by
  unfold makeRoom at found
  split at found
  · exact found
  · split at found
    · exact get?_evict found
    · exact found

theorem get?_insertPreferring_self (m : BoundedMap K V) (key : K) (value : V)
    (prefer : K → V → Bool) : (m.insertPreferring key value prefer).get? key = some value := by
  rw [get?_eq_some, insertPreferring]
  exact List.mem_append_right _ (List.mem_singleton_self _)

theorem get?_insertPreferring_of_ne {m : BoundedMap K V} {key other : K} {value kept : V}
    {prefer : K → V → Bool} (apart : other ≠ key)
    (found : (m.insertPreferring key value prefer).get? other = some kept) :
    m.get? other = some kept := by
  rw [get?_eq_some, insertPreferring, List.mem_append, List.mem_singleton, Prod.mk.injEq] at found
  rcases found with old | ⟨same, -⟩
  · exact get?_makeRoom ((get?_keep.mp (get?_eq_some.mpr old)).1)
  · exact absurd same apart

omit [DecidableEq K] in
theorem mem_keep {m : BoundedMap K V} {p : K × V → Bool} {e : K × V} :
    e ∈ (m.keep p).entries ↔ e ∈ m.entries ∧ p e = true := List.mem_filter

theorem mem_erase {m : BoundedMap K V} {key : K} {e : K × V} (member : e ∈ (m.erase key).entries) :
    e ∈ m.entries ∧ e.1 ≠ key := by
  simpa using mem_keep.mp member

theorem mem_modify {m : BoundedMap K V} {key : K} {f : V → V} {e : K × V}
    (member : e ∈ (m.modify key f).entries) :
    (e ∈ m.entries ∧ e.1 ≠ key) ∨ ∃ value, (key, value) ∈ m.entries ∧ e = (key, f value) := by
  obtain ⟨before, inside, rfl⟩ := List.mem_map.mp member
  by_cases here : before.1 = key
  · subst here
    exact .inr ⟨before.2, inside, if_pos rfl⟩
  · rw [if_neg here]
    exact .inl ⟨inside, here⟩

/-- Whether inserting `key` drops no entry. -/
def HasRoom (m : BoundedMap K V) (key : K) : Prop := m.contains key = true ∨ m.entries.length < m.capacity

theorem makeRoom_eq {m : BoundedMap K V} {key : K} (room : m.HasRoom key) (prefer : K → V → Bool) :
    m.makeRoom key prefer = m := by
  unfold makeRoom
  rcases room with known | free
  · rw [if_pos known]
  · rw [if_neg (Nat.not_le.mpr free), ite_self]

theorem entries_insert_of_room {m : BoundedMap K V} {key : K} (room : m.HasRoom key) (value : V) :
    (m.insert key value).entries = m.entries.filter (fun e => e.1 ≠ key) ++ [(key, value)] := by
  show ((m.makeRoom key _).erase key).entries ++ [(key, value)] = _
  rw [makeRoom_eq room]
  rfl

theorem get?_insert_of_room {m : BoundedMap K V} {key : K} (room : m.HasRoom key) (value : V) (other : K) :
    (m.insert key value).get? other = if other = key then some value else m.get? other := by
  apply Option.ext
  intro found
  by_cases same : other = key
  · subst same
    rw [if_pos rfl, insert, get?_insertPreferring_self]
  · rw [if_neg same, get?_eq_some, get?_eq_some, entries_insert_of_room room, List.mem_append,
      List.mem_singleton, Prod.mk.injEq]
    constructor
    · rintro (old | ⟨here, -⟩)
      · exact (List.mem_filter.mp old).1
      · exact absurd here same
    · exact fun old => .inl (List.mem_filter.mpr ⟨old, by simpa using same⟩)

theorem length_insert_of_room {m : BoundedMap K V} {key : K} (room : m.HasRoom key) (value : V) :
    (m.insert key value).entries.length ≤ m.entries.length + if m.contains key then 0 else 1 := by
  rw [entries_insert_of_room room, List.length_append, List.length_singleton]
  split_ifs with known
  · obtain ⟨old, found⟩ := Option.isSome_iff_exists.mp known
    have there := get?_eq_some.mp found
    have fewer : (m.entries.filter (fun e => e.1 ≠ key)).length < m.entries.length :=
      List.length_filter_lt_length_iff_exists.mpr ⟨(key, old), there, by simp⟩
    exact fewer
  · exact Nat.succ_le_succ (List.length_filter_le _ _)

theorem entries_insert_of_full {m : BoundedMap K V} {key : K} (missing : m.contains key = false)
    (full : m.capacity ≤ m.entries.length) (value : V) :
    (m.insert key value).entries = m.entries.tail ++ [(key, value)] := by
  have fresh : ∀ e ∈ m.entries, e.1 ≠ key := by
    rintro ⟨k, v⟩ member rfl
    rw [contains, get?_eq_some.mpr member] at missing
    cases missing
  show ((m.makeRoom key _).erase key).entries ++ [(key, value)] = _
  unfold makeRoom
  rw [if_neg (by rw [missing]; exact Bool.false_ne_true), if_pos full]
  obtain ⟨entries, capacity, nodup⟩ := m
  cases entries with
  | nil => rfl
  | cons oldest rest =>
    have unique : ∀ e ∈ rest, e.1 ≠ oldest.1 := by
      intro e member same
      exact (List.nodup_cons.mp nodup).1 (same ▸ List.mem_map_of_mem member)
    have oldestGoes : (⟨oldest :: rest, capacity, nodup⟩ : BoundedMap K V).victim (fun _ _ => false) = some oldest := by
      unfold victim
      rw [List.find?_eq_none.mpr (fun _ _ => Bool.false_ne_true)]
      rfl
    have evicted : ((⟨oldest :: rest, capacity, nodup⟩ : BoundedMap K V).evict (fun _ _ => false)).entries = rest := by
      unfold evict
      rw [oldestGoes]
      show (oldest :: rest).filter (fun e => e.1 ≠ oldest.1) = rest
      rw [List.filter_cons_of_neg (by simp), List.filter_eq_self]
      intro e member
      simpa using unique e member
    show List.filter (fun e => e.1 ≠ key) (evict _ _).entries ++ _ = rest ++ _
    rw [evicted, List.filter_eq_self.mpr]
    intro e member
    simpa using fresh e (List.mem_cons_of_mem _ member)

/-- What goes when so many new keys are put in, oldest first. -/
def dropped (m : BoundedMap K V) (new : Nat) : List (K × V) :=
  m.entries.take (m.entries.length + new - m.capacity)

theorem get?_insert_of_spared {m : BoundedMap K V} {key other : K} (apart : other ≠ key) {new : Nat}
    (spared : other ∉ (m.dropped (new + 1)).map Prod.fst) (value : V) :
    (m.insert key value).get? other = m.get? other := by
  by_cases room : m.HasRoom key
  · rw [get?_insert_of_room room, if_neg apart]
  · rw [HasRoom, not_or, Bool.not_eq_true, Nat.not_lt] at room
    obtain ⟨missing, full⟩ := room
    have dropped : m.dropped (new + 1) = m.entries.take ((m.entries.length + new - m.capacity) + 1) :=
      congrArg m.entries.take (by omega)
    apply Option.ext
    intro found
    rw [get?_eq_some, get?_eq_some, entries_insert_of_full missing full, List.mem_append, List.mem_singleton,
      Prod.mk.injEq]
    cases entries : m.entries with
    | nil => simp [apart]
    | cons oldest rest =>
      rw [dropped, entries, List.take_succ_cons, List.map_cons, List.mem_cons, not_or] at spared
      rw [List.tail_cons, List.mem_cons]
      constructor
      · rintro (kept | ⟨here, -⟩)
        · exact .inr kept
        · exact absurd here apart
      · rintro (rfl | kept)
        · exact absurd rfl spared.1
        · exact .inl kept

theorem dropped_insert_known {m : BoundedMap K V} {key : K} {new : Nat} (known : m.contains key = true)
    (spared : key ∉ (m.dropped new).map Prod.fst) (value : V) : (m.insert key value).dropped new ⊆ m.dropped new := by
  have room : m.HasRoom key := .inl known
  have shorter := length_insert_of_room room value
  rw [if_pos known] at shorter
  obtain ⟨old, found⟩ := Option.isSome_iff_exists.mp known
  have there := get?_eq_some.mp found
  unfold dropped at spared ⊢
  generalize cut : m.entries.length + new - m.capacity = n at spared
  have less : n ≤ m.entries.length := by
    refine Nat.le_of_not_lt fun long => spared ?_
    rw [List.take_of_length_le (Nat.le_of_lt long)]
    exact List.mem_map_of_mem there
  have front : (m.entries.take n).filter (fun e => e.1 ≠ key) = m.entries.take n := by
    rw [List.filter_eq_self]
    intro e member
    have apart : e.1 ≠ key := fun same => spared (same ▸ List.mem_map_of_mem member)
    simpa using apart
  have same : (m.insert key value).entries.take n = m.entries.take n := by
    rw [entries_insert_of_room room, ← List.take_append_drop n m.entries, List.filter_append, List.take_append_drop,
      front, List.append_assoc, List.take_append_of_le_length (by rw [List.length_take]; omega), List.take_take,
      Nat.min_self]
  rw [← same]
  exact List.take_subset_take_left _ (by show _ + new - m.capacity ≤ n; omega)

theorem dropped_insert_new {m : BoundedMap K V} {key : K} {new : Nat} (missing : m.contains key = false)
    (roomy : new + 1 ≤ m.capacity) (value : V) : (m.insert key value).dropped new ⊆ m.dropped (new + 1) := by
  show List.take ((m.insert key value).entries.length + new - m.capacity) _ ⊆ _
  by_cases free : m.entries.length < m.capacity
  · have entries : (m.insert key value).entries = m.entries ++ [(key, value)] := by
      rw [entries_insert_of_room (.inr free), List.filter_eq_self.mpr]
      intro e member
      have apart : e.1 ≠ key := by
        rintro rfl
        rw [contains, get?_eq_some.mpr member] at missing
        cases missing
      simpa using apart
    rw [entries, List.length_append, List.length_singleton, List.take_append_of_le_length (by omega)]
    exact List.take_subset_take_left _ (by omega)
  · have full : m.capacity ≤ m.entries.length := Nat.le_of_not_lt free
    rw [entries_insert_of_full missing full, List.length_append, List.length_singleton, List.length_tail,
      List.take_append_of_le_length (by rw [List.length_tail]; omega)]
    have tail : m.dropped (new + 1) = m.entries.take ((m.entries.length + new - m.capacity) + 1) :=
      congrArg m.entries.take (by omega)
    rw [tail]
    cases m.entries with
    | nil =>
      rw [List.tail_nil, List.take_nil]
      exact List.nil_subset _
    | cons oldest rest =>
      rw [List.tail_cons, List.take_succ_cons]
      refine List.Subset.trans ?_ (List.subset_cons_self _ _)
      exact List.take_subset_take_left _ (by rw [List.length_cons]; omega)

theorem mem_insert {m : BoundedMap K V} {key : K} {value : V} {e : K × V}
    (member : e ∈ (m.insert key value).entries) :
    (e ∈ m.entries ∧ e.1 ≠ key) ∨ e = (key, value) := by
  rcases List.mem_append.mp member with old | new
  · obtain ⟨kept, apart⟩ := mem_erase old
    exact .inl ⟨get?_eq_some.mp (get?_makeRoom (get?_eq_some.mpr kept)), apart⟩
  · exact .inr (List.mem_singleton.mp new)

theorem contains_eq_false {m : BoundedMap K V} {key : K} : m.contains key = false ↔ m.get? key = none := by
  rw [contains, Option.isSome_eq_false_iff, Option.isNone_iff_eq_none]

theorem contains_of_get? {m : BoundedMap K V} {key : K} {value : V} (found : m.get? key = some value) :
    m.contains key = true := by rw [contains, found, Option.isSome_some]

theorem get?_erase_self (m : BoundedMap K V) (key : K) : (m.erase key).get? key = none := by
  rw [← Option.not_isSome_iff_eq_none, Option.isSome_iff_exists]
  rintro ⟨value, found⟩
  rw [erase, get?_keep] at found
  simp at found

theorem get?_insertIfAbsent_self {m : BoundedMap K V} {key : K} (absent : m.get? key = none) (value : V) :
    (m.insertIfAbsent key value).get? key = some value := by
  rw [insertIfAbsent, contains_eq_false.mpr absent, if_neg Bool.false_ne_true]
  exact get?_insertPreferring_self m key value _

theorem get?_insertIfAbsent_of_ne (m : BoundedMap K V) {key other : K} (apart : other ≠ key) (value : V) :
    (m.insertIfAbsent key value).get? other = m.get? other ∨
      (m.insertIfAbsent key value).get? other = none := by
  cases found : (m.insertIfAbsent key value).get? other with
  | none => exact .inr rfl
  | some kept =>
    rw [insertIfAbsent] at found
    split at found
    · exact .inl found.symm
    · exact .inl (get?_insertPreferring_of_ne apart found).symm

def Fits (m : BoundedMap K V) : Prop := m.entries.length ≤ m.capacity

omit [DecidableEq K] in
theorem Fits.keep {m : BoundedMap K V} (fits : m.Fits) (p : K × V → Bool) : (m.keep p).Fits :=
  Nat.le_trans (List.length_filter_le _ _) fits

theorem Fits.hasRoom_erase {m : BoundedMap K V} {key : K} {value : V} (fits : m.Fits)
    (found : m.get? key = some value) : (m.erase key).HasRoom key := by
  refine .inr (Nat.lt_of_lt_of_le ?_ fits)
  exact List.length_filter_lt_length_iff_exists.mpr ⟨(key, value), get?_eq_some.mp found, by simp⟩

theorem length_evict_lt {m : BoundedMap K V} (prefer : K → V → Bool) (some_ : 0 < m.entries.length) :
    (m.evict prefer).entries.length < m.entries.length := by
  unfold evict
  cases picked : m.victim prefer with
  | none =>
    have empty : m.entries.head? = none := (Option.or_eq_none_iff.mp picked).2
    rw [List.head?_eq_none_iff.mp empty] at some_
    exact absurd some_ (Nat.lt_irrefl _)
  | some e =>
    have member : e ∈ m.entries := by
      rcases Option.or_eq_some_iff.mp picked with preferred | ⟨-, oldest⟩
      · exact List.mem_of_mem_take (List.mem_of_find?_eq_some preferred)
      · exact List.mem_of_head? oldest
    exact List.length_filter_lt_length_iff_exists.mpr ⟨e, member, by simp⟩

theorem Fits.insert {m : BoundedMap K V} (fits : m.Fits) (some_ : 0 < m.capacity) (key : K) (value : V) :
    (m.insert key value).Fits := by
  show (((m.makeRoom key _).erase key).entries ++ [(key, value)]).length ≤ m.capacity
  rw [List.length_append, List.length_singleton]
  have erased : ((m.makeRoom key fun _ _ => false).erase key).entries.length ≤
      (m.makeRoom key fun _ _ => false).entries.length := List.length_filter_le _ _
  unfold makeRoom at erased ⊢
  by_cases known : m.contains key
  · obtain ⟨old, found⟩ := Option.isSome_iff_exists.mp known
    rw [if_pos known]
    have fewer : (m.erase key).entries.length < m.entries.length :=
      List.length_filter_lt_length_iff_exists.mpr ⟨(key, old), get?_eq_some.mp found, by simp⟩
    exact Nat.lt_of_lt_of_le fewer fits
  · rw [if_neg known] at erased ⊢
    refine Nat.lt_of_le_of_lt erased ?_
    split
    next full => exact Nat.lt_of_lt_of_le (length_evict_lt _ (Nat.lt_of_lt_of_le some_ full)) fits
    next room => exact Nat.lt_of_not_le room

theorem Fits.insertIfAbsent {m : BoundedMap K V} (fits : m.Fits) (some_ : 0 < m.capacity) (key : K) (value : V) :
    (m.insertIfAbsent key value).Fits := by
  unfold BoundedMap.insertIfAbsent
  split
  · exact fits
  · exact fits.insert some_ key value

theorem modify_eq_self_iff {m : BoundedMap K V} {key : K} {value : V} (found : m.get? key = some value) (f : V → V) :
    m.modify key f = m ↔ f value = value := by
  constructor
  · intro same
    have here := get?_modify m key key f
    rw [same, if_pos rfl, found, Option.map_some] at here
    exact (Option.some.inj here).symm
  · intro fixed
    have entries : (m.modify key f).entries = m.entries := by
      refine (List.map_congr_left ?_).trans (List.map_id _)
      rintro ⟨k, v⟩ member
      by_cases here : k = key
      · subst here
        cases found.symm.trans (get?_eq_some.mpr member)
        simp [fixed]
      · simp [here]
    obtain ⟨old, capacity, nodup⟩ := m
    rw [modify, BoundedMap.mk.injEq]
    exact ⟨entries, rfl⟩

theorem erase_ne_self {m : BoundedMap K V} {key : K} {value : V} (found : m.get? key = some value) :
    m.erase key ≠ m := by
  intro same
  have gone : (m.erase key).get? key = some value := by rw [same, found]
  rw [erase, get?_keep] at gone
  simp at gone

end BoundedMap

end Leviculum
