import Leviculum.Transport.BoundedQueue

/-! The host's table is the queue: its map holds the entries, its order index lists them by number. -/

namespace Leviculum.BoundedTables

variable {K V : Type} [LinearOrder K]

namespace BoundedMap

/-- The table holds the entries of the queue, and its index numbers them. -/
structure Linked (m : BoundedMap K V) (f : Fifo K V) : Prop where
  slots : ∀ key slot, m.map.get? key = some slot ↔ (⟨slot.seq, key, slot.value⟩ : Entry K V) ∈ f.entries
  index : ∀ seq key, m.order.get? seq = some key ↔ ∃ value, (⟨seq, key, value⟩ : Entry K V) ∈ f.entries
  next : m.nextSeq = f.inserts

variable {m : BoundedMap K V} {f : Fifo K V} {key : K} {value : V} {e : Entry K V}

theorem linked_new (capacity : Nat) : (new capacity : BoundedMap K V).Linked Fifo.empty where
  slots := by simp [new, Fifo.empty]
  index := by simp [new, Fifo.empty]
  next := rfl

theorem Linked.order_entries (linked : m.Linked f) : m.order.entries = f.entries.map (fun e => (e.stamp, e.key)) := by
  have sorted : (f.entries.map (fun e => (e.stamp, e.key))).Pairwise (fun a b => a.1 < b.1) :=
    List.pairwise_map.mpr f.ordered
  have distinct : (f.entries.map (fun e => (e.stamp, e.key))).Nodup := sorted.imp (fun less same => by simp [same] at less)
  have perm : m.order.entries.Perm (f.entries.map (fun e => (e.stamp, e.key))) := by
    refine (List.perm_ext_iff_of_nodup m.order.nodup.of_map distinct).mpr ?_
    rintro ⟨seq, key⟩
    rw [← OrdMap.get?_eq_some, linked.index, List.mem_map]
    constructor
    · rintro ⟨value, member⟩
      exact ⟨_, member, rfl⟩
    · rintro ⟨⟨stamp, other, value⟩, member, same⟩
      obtain ⟨rfl, rfl⟩ := Prod.mk.inj same
      exact ⟨value, member⟩
  exact perm.eq_of_pairwise (fun a b _ _ below above => absurd below (not_lt.mpr above.le)) m.order.sorted sorted

theorem Linked.map_entries (linked : m.Linked f) :
    (m.map.entries.map (fun e => (⟨e.2.seq, e.1, e.2.value⟩ : Entry K V))).Perm f.entries := by
  have left : (m.map.entries.map (fun e => (⟨e.2.seq, e.1, e.2.value⟩ : Entry K V))).Nodup := by
    refine List.Nodup.of_map (·.key) ?_
    rw [List.map_map]
    exact m.map.nodup
  refine (List.perm_ext_iff_of_nodup left f.distinct.of_map).mpr ?_
  intro e
  rw [List.mem_map]
  constructor
  · rintro ⟨⟨key, slot⟩, member, rfl⟩
    exact (linked.slots key slot).mp (OrdMap.get?_eq_some.mpr member)
  · intro member
    exact ⟨(e.key, ⟨e.stamp, e.value⟩), OrdMap.get?_eq_some.mp ((linked.slots _ ⟨_, _⟩).mpr member), rfl⟩

theorem Linked.size_eq (linked : m.Linked f) : m.map.size = f.entries.length := by
  rw [← linked.map_entries.length_eq, List.length_map]
  rfl

theorem Linked.congr {g : Fifo K V} (linked : m.Linked f) (same : g.entries = f.entries) (count : g.inserts = f.inserts) :
    m.Linked g where
  slots := by rw [same]; exact linked.slots
  index := by rw [same]; exact linked.index
  next := linked.next.trans count.symm

theorem Linked.slot_of_mem (linked : m.Linked f) (member : e ∈ f.entries) :
    m.map.get? e.key = some ⟨e.stamp, e.value⟩ := (linked.slots _ ⟨_, _⟩).mpr member

theorem Linked.get?_eq_none (linked : m.Linked f) : m.map.get? key = none ↔ ¬ f.holds key = true := by
  rw [Fifo.holds_iff, Option.eq_none_iff_forall_ne_some]
  constructor
  · rintro absent ⟨e, member, rfl⟩
    exact absent _ (linked.slot_of_mem member)
  · intro absent slot found
    exact absent ⟨_, (linked.slots key slot).mp found, rfl⟩

theorem Linked.erase (linked : m.Linked f) (member : e ∈ f.entries) :
    ({ m with map := m.map.erase e.key, order := m.order.erase e.stamp } : BoundedMap K V).Linked (f.erase e.key) where
  slots := by
    intro key slot
    simp only [OrdMap.get?_erase, Fifo.mem_erase]
    by_cases same : key = e.key
    · simp [same]
    · simp only [same, if_false, linked.slots, ne_eq, not_false_eq_true, and_true]
  index := by
    intro seq key
    simp only [OrdMap.get?_erase, Fifo.mem_erase]
    by_cases same : seq = e.stamp
    · subst same
      rw [if_pos rfl]
      constructor
      · intro found
        cases found
      · rintro ⟨value, inside, apart⟩
        exact absurd (congrArg Entry.key (Fifo.stamp_unique inside member rfl)) apart
    · rw [if_neg same, linked.index]
      constructor
      · rintro ⟨value, inside⟩
        exact ⟨value, inside, fun sameKey => same (congrArg Entry.stamp (Fifo.entry_unique inside member sameKey))⟩
      · rintro ⟨value, inside, -⟩
        exact ⟨value, inside⟩
  next := linked.next

theorem Linked.push (linked : m.Linked f) (absent : ∀ e ∈ f.entries, e.key ≠ key) (value : V) :
    ({ m with map := m.map.insert key ⟨f.inserts, value⟩, order := m.order.insert f.inserts key, nextSeq := f.inserts + 1 } :
      BoundedMap K V).Linked (f.push key value) where
  slots := by
    intro other slot
    simp only [OrdMap.get?_insert, Fifo.mem_push]
    by_cases same : other = key
    · subst same
      simp only [if_true, Option.some.injEq, ne_eq, not_true_eq_false, and_false, false_or, Entry.mk.injEq, true_and]
      constructor
      · rintro rfl
        exact ⟨rfl, rfl⟩
      · rintro ⟨numbered, valued⟩
        rw [← numbered, ← valued]
    · simp [same, linked.slots]
  index := by
    intro seq other
    simp only [OrdMap.get?_insert, Fifo.mem_push]
    by_cases same : seq = f.inserts
    · subst same
      rw [if_pos rfl, Option.some.injEq]
      constructor
      · rintro rfl
        exact ⟨value, .inr rfl⟩
      · rintro ⟨found, ⟨inside, -⟩ | new⟩
        · exact absurd (f.past _ inside) (Nat.lt_irrefl _)
        · exact (congrArg Entry.key new).symm
    · rw [if_neg same, linked.index]
      constructor
      · rintro ⟨found, inside⟩
        exact ⟨found, .inl ⟨inside, absent _ inside⟩⟩
      · rintro ⟨found, ⟨inside, -⟩ | new⟩
        · exact ⟨found, inside⟩
        · exact absurd (congrArg Entry.stamp new) same
  next := rfl

theorem linked_remove (linked : m.Linked f) (key : K) : (m.remove key).Linked (f.erase key) := by
  unfold remove
  cases found : m.map.get? key with
  | none =>
    have absent := Fifo.absent_of_not_holds (linked.get?_eq_none.mp found)
    exact linked.congr (Fifo.erase_of_absent absent) rfl
  | some slot => exact linked.erase ((linked.slots key slot).mp found)

theorem linked_modify (linked : m.Linked f) (key : K) (change : V → V) :
    (m.modify key change).Linked (f.modify key change) := by
  have index : ∀ seq other, m.order.get? seq = some other ↔
      ∃ value, (⟨seq, other, value⟩ : Entry K V) ∈ (f.modify key change).entries := by
    intro seq other
    rw [linked.index]
    constructor
    · rintro ⟨value, member⟩
      exact ⟨_, Fifo.mem_modify.mpr ⟨value, member, rfl⟩⟩
    · rintro ⟨value, member⟩
      obtain ⟨old, before, -⟩ := Fifo.mem_modify.mp member
      exact ⟨old, before⟩
  unfold modify
  cases found : m.map.get? key with
  | none =>
    refine ⟨?_, index, linked.next⟩
    intro other slot
    have absent := Fifo.absent_of_not_holds (linked.get?_eq_none.mp found)
    rw [linked.slots, Fifo.mem_modify]
    constructor
    · intro member
      exact ⟨slot.value, member, by rw [if_neg (absent _ member)]⟩
    · rintro ⟨old, member, same⟩
      rw [if_neg (absent _ member)] at same
      exact same ▸ member
  | some held =>
    refine ⟨?_, index, linked.next⟩
    intro other slot
    rw [OrdMap.get?_insert, Fifo.mem_modify]
    have there := (linked.slots key held).mp found
    by_cases same : other = key
    · subst same
      simp only [if_true, Option.some.injEq]
      constructor
      · rintro rfl
        exact ⟨held.value, there, rfl⟩
      · rintro ⟨old, member, changed⟩
        have one := Fifo.entry_unique member there rfl
        rw [Entry.mk.injEq] at one
        rw [one.2.2] at changed
        rw [← one.1, ← changed]
    · simp only [if_neg same, linked.slots]
      constructor
      · intro member
        exact ⟨_, member, rfl⟩
      · rintro ⟨old, member, rfl⟩
        exact member

omit [LinearOrder K] in
theorem get?_foldl_erase (entries : List (K × Slot V)) (keep : K → V → Bool) (order : OrdMap Nat K) (seq : Nat) (key : K) :
    (entries.foldl (fun order entry => if keep entry.1 entry.2.value then order else order.erase entry.2.seq)
      order).get? seq = some key ↔
    order.get? seq = some key ∧ ∀ entry ∈ entries, entry.2.seq = seq → keep entry.1 entry.2.value = true := by
  induction entries generalizing order with
  | nil => simp
  | cons first rest ih =>
    rw [List.foldl_cons, ih, List.forall_mem_cons]
    cases kept : keep first.1 first.2.value with
    | true => simp
    | false =>
      simp only [Bool.false_eq_true, if_false, OrdMap.get?_erase, imp_false]
      by_cases same : seq = first.2.seq
      · simp [same]
      · simp [same, Ne.symm same]

theorem linked_retain (linked : m.Linked f) (keep : K → V → Bool) :
    (m.retain keep).Linked (f.keep (fun e => keep e.key e.value)) where
  slots := by
    intro key slot
    simp only [retain, OrdMap.get?_retain, linked.slots, Fifo.keep, List.mem_filter]
  index := by
    intro seq key
    simp only [retain, get?_foldl_erase, linked.index, Fifo.keep, List.mem_filter]
    constructor
    · rintro ⟨⟨value, inside⟩, all⟩
      exact ⟨value, inside, all _ (OrdMap.get?_eq_some.mp (linked.slot_of_mem inside)) rfl⟩
    · rintro ⟨value, inside, kept⟩
      refine ⟨⟨value, inside⟩, ?_⟩
      rintro ⟨other, slot⟩ member same
      have there := (linked.slots other slot).mp (OrdMap.get?_eq_some.mpr member)
      have one := Fifo.stamp_unique there inside same
      rw [Entry.mk.injEq] at one
      rw [one.2.1, one.2.2]
      exact kept
  next := linked.next

theorem linked_clear (linked : m.Linked f) : m.clear.Linked (f.keep (fun _ => false)) where
  slots := by simp [clear, Fifo.keep]
  index := by simp [clear, Fifo.keep]
  next := linked.next

theorem Linked.evict_eq (linked : m.Linked f) (prefer : K → V → Bool) :
    m.evict prefer = match f.victim prefer with
      | none => (none, m)
      | some e => (some e.pair, { m with map := m.map.erase e.key, order := m.order.erase e.stamp }) := by
  have scan : ∀ entries : List (Entry K V), (∀ e ∈ entries, e ∈ f.entries) →
      (entries.map (fun e => (e.stamp, e.key))).find?
          (fun entry => (m.map.get? entry.2).any (fun slot => prefer entry.2 slot.value)) =
        (entries.find? (fun e => prefer e.key e.value)).map (fun e => (e.stamp, e.key)) := by
    intro entries inside
    induction entries with
    | nil => rfl
    | cons e rest ih =>
      obtain ⟨here, later⟩ := List.forall_mem_cons.mp inside
      rw [List.map_cons, List.find?_cons, List.find?_cons, linked.slot_of_mem here, Option.any_some, ih later]
      cases prefer e.key e.value <;> rfl
  have picked : ((m.order.entries.take evictionScan).find?
        (fun entry => (m.map.get? entry.2).any (fun slot => prefer entry.2 slot.value))).or
          (m.order.entries.take evictionScan).head? = (f.victim prefer).map (fun e => (e.stamp, e.key)) := by
    rw [linked.order_entries, ← List.map_take, scan _ (fun e member => List.mem_of_mem_take member), Fifo.victim,
      evictionScan]
    cases f.entries with
    | nil => rfl
    | cons first rest => cases ((first :: rest).take 64).find? (fun e => prefer e.key e.value) <;> rfl
  unfold evict
  simp only [picked]
  cases found : f.victim prefer with
  | none => rfl
  | some e =>
    simp only [Option.map_some, linked.slot_of_mem (Fifo.victim_mem found)]
    rfl

theorem linked_insertPreferring (linked : m.Linked f) (key : K) (value : V) (prefer : K → V → Bool) :
    (m.insertPreferring key value prefer).1 = (f.leaving m.capacity key prefer).map Entry.pair ∧
      (m.insertPreferring key value prefer).2.Linked (f.insertPreferring m.capacity key value prefer) := by
  cases found : m.map.get? key with
  | some slot =>
    have member := (linked.slots key slot).mp found
    have held : f.holds key = true := Fifo.holds_iff.mpr ⟨_, member, rfl⟩
    have stays : f.leaving m.capacity key prefer = none := if_pos held
    have refreshed := (linked.erase member).push (fun e inside => (Fifo.mem_erase.mp inside).2) value
    have written : (m.map.erase key).insert key ⟨f.inserts, value⟩ = m.map.insert key ⟨f.inserts, value⟩ := by
      apply OrdMap.ext
      intro other
      rw [OrdMap.get?_insert, OrdMap.get?_insert, OrdMap.get?_erase]
      by_cases same : other = key <;> simp [same]
    have erased : ((f.erase key).erase key).entries = (f.erase key).entries :=
      Fifo.erase_of_absent (fun e inside => (Fifo.mem_erase.mp inside).2)
    rw [Fifo.insertPreferring, stays]
    simp only [insertPreferring, found, linked.next, ← written]
    refine ⟨rfl, ?_⟩
    refine refreshed.congr ?_ rfl
    exact congrArg (· ++ [(⟨f.inserts, key, value⟩ : Entry K V)]) erased.symm
  | none =>
    have held := linked.get?_eq_none.mp found
    have absent := Fifo.absent_of_not_holds held
    have whole : f.leaving m.capacity key prefer = if m.capacity ≤ f.entries.length then f.victim prefer else none :=
      if_neg held
    rw [Fifo.insertPreferring, whole]
    simp only [insertPreferring, found, linked.size_eq]
    by_cases full : m.capacity ≤ f.entries.length
    · have counted : ({ m with nextSeq := m.nextSeq + 1 } : BoundedMap K V).evict prefer =
          ((m.evict prefer).1, { (m.evict prefer).2 with nextSeq := m.nextSeq + 1 }) := by
        simp only [evict]
        split <;> rfl
      simp only [if_pos full, counted, linked.evict_eq prefer]
      cases leaves : f.victim prefer with
      | none =>
        simp only [linked.next]
        exact ⟨rfl, linked.push absent value⟩
      | some e =>
        simp only [linked.next]
        refine ⟨rfl, ?_⟩
        exact (linked.erase (Fifo.victim_mem leaves)).push (fun e inside => absent e (Fifo.mem_erase.mp inside).1) value
    · simp only [if_neg full, linked.next]
      exact ⟨rfl, linked.push absent value⟩

end BoundedMap

end Leviculum.BoundedTables
