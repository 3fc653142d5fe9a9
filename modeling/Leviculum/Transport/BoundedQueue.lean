import Leviculum.Transport.BoundedTables

/-! The queue both bounded tables are: entries oldest first, each with the number of insertions before it. -/

namespace Leviculum.BoundedTables

variable {K V : Type}

structure Entry (K V : Type) where
  stamp : Nat
  key : K
  value : V

def Entry.pair (e : Entry K V) : K × V := (e.key, e.value)

structure Fifo (K V : Type) where
  entries : List (Entry K V)
  /-- Insertions so far. -/
  inserts : Nat
  ordered : entries.Pairwise (fun a b => a.stamp < b.stamp)
  past : ∀ e ∈ entries, e.stamp < inserts
  distinct : (entries.map (·.key)).Nodup

namespace Fifo

def empty : Fifo K V := ⟨[], 0, List.Pairwise.nil, nofun, List.nodup_nil⟩

def contents (f : Fifo K V) : List (K × V) := f.entries.map Entry.pair

def keep (f : Fifo K V) (p : Entry K V → Bool) : Fifo K V where
  entries := f.entries.filter p
  inserts := f.inserts
  ordered := f.ordered.sublist List.filter_sublist
  past := fun e member => f.past e (List.mem_filter.mp member).1
  distinct := f.distinct.sublist (List.filter_sublist.map _)

variable [DecidableEq K]

def erase (f : Fifo K V) (key : K) : Fifo K V := f.keep (fun e => e.key ≠ key)

def changed (key : K) (change : V → V) (e : Entry K V) : Entry K V :=
  if e.key = key then { e with value := change e.value } else e

def modify (f : Fifo K V) (key : K) (change : V → V) : Fifo K V where
  entries := f.entries.map (changed key change)
  inserts := f.inserts
  ordered := by
    refine List.pairwise_map.mpr (f.ordered.imp ?_)
    intro a b less
    unfold changed
    split <;> split <;> exact less
  past := by
    intro e member
    obtain ⟨before, inside, rfl⟩ := List.mem_map.mp member
    unfold changed
    split <;> exact f.past before inside
  distinct := by
    have keys : (f.entries.map (changed key change)).map (·.key) = f.entries.map (·.key) := by
      rw [List.map_map]
      apply List.map_congr_left
      intro e _
      simp only [Function.comp_apply, changed]
      split <;> rfl
    rw [keys]
    exact f.distinct

/-- An insertion puts the key at the back, wherever it was. -/
def push (f : Fifo K V) (key : K) (value : V) : Fifo K V where
  entries := (f.erase key).entries ++ [⟨f.inserts, key, value⟩]
  inserts := f.inserts + 1
  ordered := by
    refine List.pairwise_append.mpr ⟨(f.erase key).ordered, List.pairwise_singleton _ _, ?_⟩
    intro e member new same
    obtain rfl := List.mem_singleton.mp same
    exact (f.erase key).past e member
  past := by
    intro e member
    rcases List.mem_append.mp member with old | new
    · exact Nat.lt_succ_of_lt ((f.erase key).past e old)
    · obtain rfl := List.mem_singleton.mp new
      exact Nat.lt_succ_self _
  distinct := by
    rw [List.map_append, List.map_singleton, List.nodup_append']
    refine ⟨(f.erase key).distinct, List.nodup_singleton _, ?_⟩
    simp [erase, keep]

/-- The entry a full table gives up: the first preferred of the 64 oldest, else the oldest. -/
def victim (f : Fifo K V) (prefer : K → V → Bool) : Option (Entry K V) :=
  ((f.entries.take 64).find? (fun e => prefer e.key e.value)).or f.entries.head?

def holds (f : Fifo K V) (key : K) : Bool := f.entries.any (fun e => e.key = key)

/-- Who leaves when `key` is inserted. -/
def leaving (f : Fifo K V) (capacity : Nat) (key : K) (prefer : K → V → Bool) : Option (Entry K V) :=
  if f.holds key then none else if capacity ≤ f.entries.length then f.victim prefer else none

def without (f : Fifo K V) : Option (Entry K V) → Fifo K V
  | none => f
  | some e => f.erase e.key

def insertPreferring (f : Fifo K V) (capacity : Nat) (key : K) (value : V) (prefer : K → V → Bool) : Fifo K V :=
  (f.without (f.leaving capacity key prefer)).push key value

def insert (f : Fifo K V) (capacity : Nat) (key : K) (value : V) : Fifo K V :=
  f.insertPreferring capacity key value (fun _ _ => false)

variable {f : Fifo K V} {key : K} {value : V} {e : Entry K V}

theorem mem_erase : e ∈ (f.erase key).entries ↔ e ∈ f.entries ∧ e.key ≠ key := by
  simp [erase, keep]

theorem mem_push : e ∈ (f.push key value).entries ↔
    (e ∈ f.entries ∧ e.key ≠ key) ∨ e = ⟨f.inserts, key, value⟩ := by
  simp only [push, List.mem_append, List.mem_singleton, mem_erase]

theorem mem_modify {change : V → V} {stamp : Nat} {other : K} {after : V} :
    (⟨stamp, other, after⟩ : Entry K V) ∈ (f.modify key change).entries ↔
      ∃ old, (⟨stamp, other, old⟩ : Entry K V) ∈ f.entries ∧ after = if other = key then change old else old := by
  simp only [modify, List.mem_map]
  constructor
  · rintro ⟨⟨s, k, old⟩, member, same⟩
    unfold changed at same
    split at same
    next here =>
      cases same
      exact ⟨old, member, by rw [if_pos here]⟩
    next there =>
      cases same
      exact ⟨after, member, by rw [if_neg there]⟩
  · rintro ⟨old, member, rfl⟩
    refine ⟨_, member, ?_⟩
    unfold changed
    by_cases here : other = key <;> simp [here]

omit [DecidableEq K] in
theorem entry_unique {a b : Entry K V} (left : a ∈ f.entries) (right : b ∈ f.entries) (same : a.key = b.key) : a = b :=
  List.inj_on_of_nodup_map f.distinct left right same

omit [DecidableEq K] in
theorem stamp_unique {a b : Entry K V} (left : a ∈ f.entries) (right : b ∈ f.entries) (same : a.stamp = b.stamp) :
    a = b := by
  have stamps : (f.entries.map (·.stamp)).Nodup := List.pairwise_map.mpr (f.ordered.imp Nat.ne_of_lt)
  exact List.inj_on_of_nodup_map stamps left right same

/-- The plain list that a queue stands for: an insertion moves or appends the key at the back, and drops the front of a list
longer than the capacity. -/
def pushBack (capacity : Nat) (key : K) (value : V) (list : List (K × V)) : List (K × V) :=
  let moved := list.filter (fun e => e.1 ≠ key) ++ [(key, value)]
  if capacity < moved.length then moved.tail else moved

omit [DecidableEq K] in
theorem contents_keep (f : Fifo K V) (p : K × V → Bool) :
    (f.keep (fun e => p e.pair)).contents = f.contents.filter p := by
  simp only [contents, keep, List.filter_map, Function.comp_def]

theorem contents_erase (f : Fifo K V) (key : K) :
    (f.erase key).contents = f.contents.filter (fun e => e.1 ≠ key) :=
  f.contents_keep (fun e => e.1 ≠ key)

theorem contents_push (f : Fifo K V) (key : K) (value : V) :
    (f.push key value).contents = f.contents.filter (fun e => e.1 ≠ key) ++ [(key, value)] := by
  rw [← contents_erase]
  simp only [contents, push, List.map_append, List.map_singleton, Entry.pair]

theorem erase_of_absent (absent : ∀ e ∈ f.entries, e.key ≠ key) : (f.erase key).entries = f.entries := by
  apply List.filter_eq_self.mpr
  intro e member
  simpa using absent e member

theorem holds_iff : f.holds key = true ↔ ∃ e ∈ f.entries, e.key = key := by
  simp [holds]

theorem absent_of_not_holds (absent : ¬ f.holds key = true) : ∀ e ∈ f.entries, e.key ≠ key := by
  intro e member same
  exact absent (holds_iff.mpr ⟨e, member, same⟩)

omit [DecidableEq K] in
theorem victim_mem {prefer : K → V → Bool} (found : f.victim prefer = some e) : e ∈ f.entries := by
  unfold victim at found
  cases scan : (f.entries.take 64).find? (fun e => prefer e.key e.value) with
  | none =>
    rw [scan, Option.none_or] at found
    exact List.mem_of_head? found
  | some liked =>
    rw [scan, Option.some_or] at found
    obtain rfl := Option.some.inj found
    exact List.mem_of_mem_take (List.mem_of_find?_eq_some scan)

omit [DecidableEq K] in
theorem victim_plain : f.victim (fun _ _ => false) = f.entries.head? := by
  have nobody : (f.entries.take 64).find? (fun _ => false) = none := List.find?_eq_none.mpr (by simp)
  rw [victim, nobody, Option.none_or]

theorem erase_head {rest : List (Entry K V)} (shape : f.entries = e :: rest) : (f.erase e.key).entries = rest := by
  have distinct := f.distinct
  rw [shape, List.map_cons, List.nodup_cons] at distinct
  show f.entries.filter _ = rest
  rw [shape, List.filter_cons_of_neg (by simp)]
  apply List.filter_eq_self.mpr
  intro other member
  have apart : other.key ≠ e.key := fun same => distinct.1 (same ▸ List.mem_map_of_mem member)
  simpa using apart

theorem length_erase_of_mem (member : e ∈ f.entries) : (f.erase e.key).entries.length < f.entries.length :=
  List.length_filter_lt_length_iff_exists.mpr ⟨e, member, by simp⟩

omit [DecidableEq K] in
theorem exists_victim (prefer : K → V → Bool) (some_ : 0 < f.entries.length) : ∃ e, f.victim prefer = some e := by
  cases shape : f.entries with
  | nil => simp [shape] at some_
  | cons first rest =>
    unfold victim
    rw [shape]
    cases ((first :: rest).take 64).find? (fun e => prefer e.key e.value) with
    | none => exact ⟨first, rfl⟩
    | some liked => exact ⟨liked, rfl⟩

theorem length_insertPreferring_le {capacity : Nat} {prefer : K → V → Bool} (room : 0 < capacity)
    (fits : f.entries.length ≤ capacity) :
    (f.insertPreferring capacity key value prefer).entries.length ≤ capacity := by
  have pushed : ∀ g : Fifo K V, (g.push key value).entries.length = (g.erase key).entries.length + 1 := by
    intro g
    rw [push, List.length_append, List.length_singleton]
  have erased : ∀ g : Fifo K V, (g.erase key).entries.length ≤ g.entries.length :=
    fun g => List.length_filter_le _ _
  rw [insertPreferring, leaving, pushed]
  split
  next held =>
    obtain ⟨e, member, rfl⟩ := holds_iff.mp held
    exact (length_erase_of_mem member).trans_le fits
  next =>
    split
    next full =>
      obtain ⟨e, leaves⟩ := exists_victim prefer (room.trans_le full)
      rw [leaves]
      exact (Nat.succ_le_of_lt ((erased _).trans_lt (length_erase_of_mem (victim_mem leaves)))).trans fits
    next free => exact Nat.succ_le_of_lt ((erased f).trans_lt (Nat.lt_of_not_le free))

theorem contents_insert {capacity : Nat} (room : 0 < capacity) (fits : f.entries.length ≤ capacity) :
    (f.insert capacity key value).contents = pushBack capacity key value f.contents := by
  unfold insert insertPreferring leaving pushBack
  by_cases held : f.holds key = true
  · obtain ⟨e, member, rfl⟩ := holds_iff.mp held
    have shorter : ¬ capacity < (f.contents.filter (fun other => other.1 ≠ e.key) ++ [(e.key, value)]).length := by
      rw [← contents_erase, List.length_append, contents, List.length_map]
      exact Nat.not_lt.mpr ((length_erase_of_mem member).trans_le fits)
    rw [if_pos held]
    simp only [shorter, if_false]
    exact contents_push f e.key value
  · have absent := absent_of_not_holds held
    have kept : f.contents.filter (fun other => other.1 ≠ key) = f.contents := by
      rw [← contents_erase, contents, contents, erase_of_absent absent]
    have long : (f.contents ++ [(key, value)]).length = f.entries.length + 1 := by
      rw [List.length_append, List.length_singleton, contents, List.length_map]
    rw [if_neg held, kept, victim_plain]
    simp only [long]
    by_cases full : capacity ≤ f.entries.length
    · rw [if_pos full, if_pos (Nat.lt_succ_of_le full)]
      cases shape : f.entries with
      | nil =>
        rw [shape] at full
        exact absurd room (Nat.not_lt.mpr full)
      | cons first rest =>
        show ((f.erase first.key).push key value).contents = _
        have others : ∀ e ∈ (f.erase first.key).entries, e.key ≠ key := fun e member => absent e (mem_erase.mp member).1
        rw [contents_push, ← contents_erase, contents, erase_of_absent others, erase_head shape, contents, shape]
        rfl
    · rw [if_neg full, if_neg (fun more => full (Nat.le_of_lt_succ more))]
      show (f.push key value).contents = _
      rw [contents_push, kept, contents]

end Fifo

end Leviculum.BoundedTables
