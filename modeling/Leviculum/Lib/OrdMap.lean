import Leviculum.Lib.Bytes
import Mathlib.Data.List.Sort
import Mathlib.Tactic.Ring

/-! A finite map kept in the order of its keys, so that walking over it is deterministic and two maps
with the same lookups are the same. -/

namespace Leviculum

theorem Bytes.ofBe_cons (byte : UInt8) (rest : Bytes) :
    ofBe (byte :: rest) = byte.toNat * 256 ^ rest.length + ofBe rest := by
  have loop : ∀ (bytes : Bytes) (value : Nat),
      bytes.foldl (fun value byte => 256 * value + byte.toNat) value =
        value * 256 ^ bytes.length + ofBe bytes := by
    intro bytes
    induction bytes with
    | nil => intro value; simp [ofBe]
    | cons first later ih =>
      intro value
      have spelled : ofBe (first :: later) = (256 * 0 + first.toNat) * 256 ^ later.length + ofBe later := ih _
      rw [List.foldl_cons, ih, spelled, List.length_cons, Nat.pow_succ]
      ring
  simpa [ofBe] using loop rest byte.toNat

theorem Bytes.ofBe_inj {left right : Bytes} (lengths : left.length = right.length)
    (same : ofBe left = ofBe right) : left = right := by
  induction left generalizing right with
  | nil => exact (List.length_eq_zero_iff.mp lengths.symm).symm
  | cons first rest ih =>
    cases right with
    | nil => cases lengths
    | cons other others =>
      have tails : rest.length = others.length := Nat.succ.inj lengths
      have below := ofBe_lt rest
      have beside := ofBe_lt others
      rw [ofBe_cons, ofBe_cons, ← tails] at same
      rw [← tails] at beside
      -- A larger first byte outweighs whatever follows it.
      have heads : first.toNat = other.toNat := by
        rcases Nat.lt_trichotomy first.toNat other.toNat with less | equal | more
        · have step := Nat.mul_le_mul_right (256 ^ rest.length) less
          rw [Nat.succ_mul] at step
          omega
        · exact equal
        · have step := Nat.mul_le_mul_right (256 ^ rest.length) more
          rw [Nat.succ_mul] at step
          omega
      rw [heads] at same
      rw [UInt8.toNat_inj.mp heads, ih tails (by omega)]

/-- Arrays are ordered byte by byte, as the numbers they spell. -/
instance {n : Nat} : LinearOrder (FixedBytes n) :=
  LinearOrder.lift' (fun bytes => Bytes.ofBe bytes.val)
    (fun left right same => Subtype.ext (Bytes.ofBe_inj (left.2.trans right.2.symm) same))

structure OrdMap (K V : Type*) [LinearOrder K] where
  entries : List (K × V)
  sorted : entries.Pairwise (fun a b => a.1 < b.1)

namespace OrdMap

variable {K V : Type*} [LinearOrder K]

instance [DecidableEq V] : DecidableEq (OrdMap K V) := fun left right =>
  decidable_of_iff (left.entries = right.entries) ⟨by cases left; cases right; simp, fun same => same ▸ rfl⟩

instance : EmptyCollection (OrdMap K V) := ⟨⟨[], List.Pairwise.nil⟩⟩

def get? (m : OrdMap K V) (key : K) : Option V := (m.entries.find? (fun e => e.1 = key)).map Prod.snd

def contains (m : OrdMap K V) (key : K) : Bool := (m.get? key).isSome

def size (m : OrdMap K V) : Nat := m.entries.length

def keys (m : OrdMap K V) : List K := m.entries.map Prod.fst

def values (m : OrdMap K V) : List V := m.entries.map Prod.snd

/-- Put an entry where its key belongs, in place of an entry of the same key. -/
def place (key : K) (value : V) : List (K × V) → List (K × V)
  | [] => [(key, value)]
  | e :: rest =>
    if key < e.1 then (key, value) :: e :: rest
    else if key = e.1 then (key, value) :: rest
    else e :: place key value rest

theorem mem_place {key : K} {value : V} {entries : List (K × V)} {e : K × V}
    (member : e ∈ place key value entries) : e = (key, value) ∨ e ∈ entries := by
  induction entries with
  | nil => exact .inl (List.mem_singleton.mp member)
  | cons first rest ih =>
    unfold place at member
    split at member
    · exact List.mem_cons.mp member
    · split at member
      · rcases List.mem_cons.mp member with here | later
        · exact .inl here
        · exact .inr (List.mem_cons_of_mem _ later)
      · rcases List.mem_cons.mp member with rfl | later
        · exact .inr List.mem_cons_self
        · rcases ih later with here | there
          · exact .inl here
          · exact .inr (List.mem_cons_of_mem _ there)

theorem place_sorted {key : K} {value : V} {entries : List (K × V)}
    (sorted : entries.Pairwise (fun a b => a.1 < b.1)) :
    (place key value entries).Pairwise (fun a b => a.1 < b.1) := by
  induction entries with
  | nil => exact List.pairwise_singleton _ _
  | cons first rest ih =>
    have later := List.pairwise_cons.mp sorted
    unfold place
    split
    next before =>
      refine List.pairwise_cons.mpr ⟨?_, sorted⟩
      intro e member
      rcases List.mem_cons.mp member with rfl | there
      · exact before
      · exact before.trans (later.1 e there)
    next notBefore =>
      split
      next same => exact List.pairwise_cons.mpr ⟨fun e member => same ▸ later.1 e member, later.2⟩
      next other =>
        refine List.pairwise_cons.mpr ⟨?_, ih later.2⟩
        intro e member
        rcases mem_place member with rfl | there
        · exact lt_of_le_of_ne (not_lt.mp notBefore) (Ne.symm other)
        · exact later.1 e there

def insert (m : OrdMap K V) (key : K) (value : V) : OrdMap K V :=
  ⟨place key value m.entries, place_sorted m.sorted⟩

/-- Keep the entries that satisfy `p`. -/
def retain (m : OrdMap K V) (p : K → V → Bool) : OrdMap K V :=
  ⟨m.entries.filter (fun e => p e.1 e.2), m.sorted.sublist List.filter_sublist⟩

def erase (m : OrdMap K V) (key : K) : OrdMap K V := m.retain (fun k _ => k ≠ key)

def mapValues (m : OrdMap K V) (f : K → V → V) : OrdMap K V :=
  ⟨m.entries.map (fun e => (e.1, f e.1 e.2)), List.pairwise_map.mpr m.sorted⟩

theorem nodup (m : OrdMap K V) : (m.entries.map Prod.fst).Nodup :=
  List.pairwise_map.mpr (m.sorted.imp ne_of_lt)

theorem get?_eq_some {m : OrdMap K V} {key : K} {value : V} :
    m.get? key = some value ↔ (key, value) ∈ m.entries := by
  unfold get?
  constructor
  · intro found
    obtain ⟨e, here, rfl⟩ := Option.map_eq_some_iff.mp found
    obtain rfl : e.1 = key := by simpa using List.find?_some here
    exact List.mem_of_find?_eq_some here
  · intro member
    cases here : m.entries.find? (fun e => e.1 = key) with
    | none => exact absurd (List.find?_eq_none.mp here _ member) (by simp)
    | some e =>
      have same : e.1 = key := by simpa using List.find?_some here
      have unique := List.inj_on_of_nodup_map m.nodup (List.mem_of_find?_eq_some here) member same
      rw [unique, Option.map_some]

theorem get?_insert (m : OrdMap K V) (key other : K) (value : V) :
    (m.insert key value).get? other = if other = key then some value else m.get? other := by
  have loop : ∀ entries : List (K × V),
      ((place key value entries).find? (fun e => e.1 = other)).map Prod.snd =
        if other = key then some value else (entries.find? (fun e => e.1 = other)).map Prod.snd := by
    intro entries
    induction entries with
    | nil => by_cases same : other = key <;> simp [place, same, eq_comm]
    | cons first rest ih =>
      unfold place
      split
      next => by_cases same : other = key <;> simp [List.find?_cons, same, eq_comm]
      next =>
        split
        next here => by_cases same : other = key <;> simp [List.find?_cons, same, here, eq_comm]; grind
        next there => by_cases same : first.1 = other <;> simp [same, ih]; grind
  exact loop m.entries

theorem get?_retain {m : OrdMap K V} {p : K → V → Bool} {key : K} {value : V} :
    (m.retain p).get? key = some value ↔ m.get? key = some value ∧ p key value = true := by
  rw [get?_eq_some, get?_eq_some, retain, List.mem_filter]

theorem get?_erase (m : OrdMap K V) (key other : K) :
    (m.erase key).get? other = if other = key then none else m.get? other := by
  apply Option.ext
  intro value
  rw [erase, get?_retain]
  by_cases same : other = key <;> simp [same]

theorem get?_mapValues (m : OrdMap K V) (f : K → V → V) (key : K) :
    (m.mapValues f).get? key = (m.get? key).map (f key) := by
  apply Option.ext
  intro value
  rw [get?_eq_some, Option.map_eq_some_iff, mapValues, List.mem_map]
  constructor
  · rintro ⟨e, member, changed⟩
    obtain ⟨rfl, rfl⟩ := Prod.mk.inj changed
    exact ⟨e.2, get?_eq_some.mpr member, rfl⟩
  · rintro ⟨old, found, rfl⟩
    exact ⟨(key, old), get?_eq_some.mp found, rfl⟩

@[simp] theorem get?_empty (key : K) : (∅ : OrdMap K V).get? key = none := rfl

theorem ext {left right : OrdMap K V} (same : ∀ key, left.get? key = right.get? key) : left = right := by
  have perm : left.entries.Perm right.entries := by
    refine (List.perm_ext_iff_of_nodup left.nodup.of_map right.nodup.of_map).mpr ?_
    intro e
    rw [← Prod.mk.eta (p := e), ← get?_eq_some, ← get?_eq_some, same]
  have equal : left.entries = right.entries :=
    perm.eq_of_pairwise (fun a b _ _ below above => absurd below (not_lt.mpr above.le)) left.sorted right.sorted
  cases left
  cases right
  cases equal
  rfl

theorem insert_of_get? {m : OrdMap K V} {key : K} {value : V} (held : m.get? key = some value) :
    m.insert key value = m := by
  apply ext
  intro other
  rw [get?_insert]
  split
  next same => rw [same, held]
  next => rfl

theorem mem_keys {m : OrdMap K V} {key : K} : key ∈ m.keys ↔ ∃ value, m.get? key = some value := by
  unfold keys
  rw [List.mem_map]
  constructor
  · rintro ⟨e, member, rfl⟩
    exact ⟨e.2, get?_eq_some.mpr member⟩
  · rintro ⟨value, found⟩
    exact ⟨(key, value), get?_eq_some.mp found, rfl⟩

theorem contains_eq_false {m : OrdMap K V} {key : K} : m.contains key = false ↔ m.get? key = none := by
  rw [contains, Option.isSome_eq_false_iff, Option.isNone_iff_eq_none]

theorem size_retain_le (m : OrdMap K V) (p : K → V → Bool) : (m.retain p).size ≤ m.size :=
  List.length_filter_le _ _

theorem retain_eq_of_size {m : OrdMap K V} {p : K → V → Bool} (same : (m.retain p).size = m.size) :
    m.retain p = m := by
  have kept : m.entries.filter (fun e => p e.1 e.2) = m.entries :=
    List.filter_sublist.eq_of_length same
  apply ext
  intro key
  exact congrArg (fun entries => (entries.find? (fun e => e.1 = key)).map Prod.snd) kept

theorem size_mapValues (m : OrdMap K V) (f : K → V → V) : (m.mapValues f).size = m.size :=
  List.length_map _

theorem values_mapValues (m : OrdMap K V) (f : V → V) : (m.mapValues (fun _ value => f value)).values = m.values.map f := by
  simp only [values, mapValues, List.map_map, Function.comp_def]

theorem mem_values {m : OrdMap K V} {value : V} : value ∈ m.values ↔ ∃ key, m.get? key = some value := by
  unfold values
  rw [List.mem_map]
  constructor
  · rintro ⟨e, member, rfl⟩
    exact ⟨e.1, get?_eq_some.mpr member⟩
  · rintro ⟨key, found⟩
    exact ⟨(key, value), get?_eq_some.mp found, rfl⟩

theorem mapValues_eq {m : OrdMap K V} {f : K → V → V} (still : ∀ key value, m.get? key = some value → f key value = value) :
    m.mapValues f = m := by
  apply ext
  intro key
  rw [get?_mapValues]
  cases held : m.get? key with
  | none => rfl
  | some value => rw [Option.map_some, still key value held]

theorem get?_of_size_zero {m : OrdMap K V} (empty : m.size = 0) (key : K) : m.get? key = none := by
  unfold get?
  rw [List.length_eq_zero_iff.mp empty]
  rfl

theorem size_insert_le (m : OrdMap K V) (key : K) (value : V) : (m.insert key value).size ≤ m.size + 1 := by
  have loop : ∀ entries : List (K × V), (place key value entries).length ≤ entries.length + 1 := by
    intro entries
    induction entries with
    | nil => exact Nat.le_refl 1
    | cons first rest ih =>
      unfold place
      split
      · exact Nat.le_refl _
      · split
        · exact Nat.le_succ _
        · exact Nat.succ_le_succ ih
  exact loop m.entries

theorem sum_insert (f : V → Nat) (m : OrdMap K V) (key : K) (value : V) :
    ((m.insert key value).values.map f).sum + ((m.get? key).map f).getD 0 = (m.values.map f).sum + f value := by
  have loop : ∀ entries : List (K × V), entries.Pairwise (fun a b => a.1 < b.1) →
      (((place key value entries).map Prod.snd).map f).sum +
        (((entries.find? (fun e => e.1 = key)).map Prod.snd).map f).getD 0 = ((entries.map Prod.snd).map f).sum + f value := by
    intro entries sorted
    induction entries with
    | nil => simp [place]
    | cons first rest ih =>
      obtain ⟨below, sorted⟩ := List.pairwise_cons.mp sorted
      unfold place
      split
      next before =>
        have absent : (first :: rest).find? (fun e => e.1 = key) = none := by
          rw [List.find?_eq_none]
          intro e member
          rcases List.mem_cons.mp member with rfl | later
          · simpa using ne_of_gt before
          · simpa using ne_of_gt (before.trans (below e later))
        rw [absent]
        simp only [List.map_cons, List.sum_cons, Option.map_none, Option.getD_none]
        omega
      next =>
        split
        next same =>
          have found : (first :: rest).find? (fun e => e.1 = key) = some first := by simp [same]
          rw [found]
          simp only [List.map_cons, List.sum_cons, Option.map_some, Option.getD_some]
          omega
        next other =>
          have later : (first :: rest).find? (fun e => e.1 = key) = rest.find? (fun e => e.1 = key) := by
            simp [Ne.symm other]
          rw [later]
          have sums := ih sorted
          simp only [List.map_cons, List.sum_cons] at sums ⊢
          omega
  exact loop m.entries m.sorted

theorem size_insert_of_get? {m : OrdMap K V} {key : K} {old : V} (held : m.get? key = some old) (value : V) :
    (m.insert key value).size = m.size := by
  have keys : (m.insert key value).keys = m.keys := by
    have replaced : m.insert key value = m.mapValues (fun k v => if k = key then value else v) := by
      apply ext
      intro other
      rw [get?_insert, get?_mapValues]
      by_cases same : other = key
      · subst same
        rw [if_pos rfl, held, Option.map_some, if_pos rfl]
      · rw [if_neg same]
        simp only [same, if_false, Option.map_id_fun', id_eq]
    rw [replaced, OrdMap.keys, mapValues, List.map_map]
    rfl
  have lengths := congrArg List.length keys
  rwa [OrdMap.keys, OrdMap.keys, List.length_map, List.length_map] at lengths

theorem size_erase_of_get? {m : OrdMap K V} {key : K} {old : V} (held : m.get? key = some old) :
    (m.erase key).size < m.size := by
  refine List.length_filter_lt_length_iff_exists.mpr ⟨(key, old), get?_eq_some.mp held, ?_⟩
  simp

theorem size_erase_le (m : OrdMap K V) (key : K) : (m.erase key).size ≤ m.size := m.size_retain_le _

theorem insert_erase_of_get? {m : OrdMap K V} {key : K} {old : V} (held : m.get? key = some old) :
    (m.erase key).insert key old = m := by
  apply ext
  intro other
  rw [get?_insert, get?_erase]
  split
  next same => rw [same, held]
  next => rfl

theorem size_erase_add_one {m : OrdMap K V} {key : K} {old : V} (held : m.get? key = some old) :
    (m.erase key).size + 1 = m.size := by
  have fewer := size_erase_of_get? held
  have back := (m.erase key).size_insert_le key old
  rw [insert_erase_of_get? held] at back
  omega

end OrdMap

end Leviculum
