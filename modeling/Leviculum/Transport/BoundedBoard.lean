import Leviculum.Transport.BoundedQueue
import Mathlib.Algebra.GroupWithZero.Nat

/-! The board's table is the queue too, its numbers cut to 32 bits, as long as no entry outlives a full
turn of the counter. -/

namespace Leviculum.BoundedTables

open Select

variable {K V : Type} [DecidableEq K] {H : IndexMap K (UInt32 × V)}

def Entry.stamped (e : Entry K V) : K × UInt32 × V := (e.key, UInt32.ofNat e.stamp, e.value)

/-- Each entry was inserted less than a full turn of the counter ago, the next insertion counted. -/
def Fifo.Young (f : Fifo K V) : Prop := ∀ e ∈ f.entries, f.inserts + 1 - e.stamp < 2 ^ 32

theorem wrapped_age {now stamp : Nat} (past : stamp ≤ now) (young : now - stamp < 2 ^ 32) :
    (UInt32.ofNat now - UInt32.ofNat stamp).toNat = now - stamp := by
  have first : (UInt32.ofNat now).toNat = now % 2 ^ 32 := by simp
  have second : (UInt32.ofNat stamp).toNat = stamp % 2 ^ 32 := by simp
  rw [UInt32.toNat_sub, first, second]
  omega

namespace OrderedMap

/-- The table holds the entries of the queue in some order. -/
structure Stamped (m : OrderedMap H) (f : Fifo K V) : Prop where
  entries : (H.entries m.map).Perm (f.entries.map Entry.stamped)
  next : m.nextSeq = UInt32.ofNat f.inserts

variable {m : OrderedMap H} {f : Fifo K V} {N : Nat} {key : K} {value : V}

theorem stamped_new (correct : H.Correct N) : (new H).Stamped Fifo.empty where
  entries := by
    rw [new, correct.empty]
    exact .nil
  next := rfl

omit [DecidableEq K] in
theorem keys_stamped (f : Fifo K V) : (f.entries.map Entry.stamped).map Prod.fst = f.entries.map (·.key) := by
  rw [List.map_map]
  rfl

theorem Stamped.slot_eq_some (stamped : m.Stamped f) {seq : UInt32} :
    m.slot key = some (seq, value) ↔ ∃ e ∈ f.entries, e.stamped = (key, seq, value) := by
  have distinct : ((H.entries m.map).map Prod.fst).Nodup := by
    rw [(stamped.entries.map Prod.fst).nodup_iff, keys_stamped]
    exact f.distinct
  rw [← List.mem_map, ← stamped.entries.mem_iff, slot, Option.map_eq_some_iff]
  constructor
  · rintro ⟨entry, found, same⟩
    obtain ⟨member, rfl⟩ := (find?_key_eq_some distinct).mp found
    rw [← same]
    exact member
  · intro member
    exact ⟨_, (find?_key_eq_some distinct).mpr ⟨member, rfl⟩, rfl⟩

theorem Stamped.slot_eq_none (stamped : m.Stamped f) : m.slot key = none ↔ ¬ f.holds key = true := by
  rw [Fifo.holds_iff, Option.eq_none_iff_forall_ne_some]
  constructor
  · rintro absent ⟨e, member, rfl⟩
    exact absent _ (stamped.slot_eq_some.mpr ⟨e, member, rfl⟩)
  · rintro absent ⟨seq, value⟩ found
    obtain ⟨e, member, same⟩ := stamped.slot_eq_some.mp found
    exact absent ⟨e, member, congrArg Prod.fst same⟩

omit [DecidableEq K] in
theorem Stamped.length_eq (stamped : m.Stamped f) : (H.entries m.map).length = f.entries.length := by
  rw [stamped.entries.length_eq, List.length_map]

theorem Stamped.mem_keys (stamped : m.Stamped f) : key ∈ (H.entries m.map).map Prod.fst ↔ f.holds key = true := by
  rw [(stamped.entries.map Prod.fst).mem_iff, keys_stamped, Fifo.holds_iff, List.mem_map]

omit [DecidableEq K] in
theorem filter_stamped (entries : List (Entry K V)) (p : K → V → Bool) :
    (entries.map Entry.stamped).filter (fun entry => p entry.1 entry.2.2) =
      (entries.filter (fun e => p e.key e.value)).map Entry.stamped := by
  rw [List.filter_map]
  rfl

theorem stamped_remove (correct : H.Correct N) (stamped : m.Stamped f) (key : K) :
    (m.remove key).Stamped (f.erase key) where
  entries := by
    refine (correct.remove m.map key).trans ((stamped.entries.filter _).trans ?_)
    rw [filter_stamped f.entries (fun other _ => other ≠ key)]
    exact .refl _
  next := stamped.next

theorem stamped_retain (correct : H.Correct N) (stamped : m.Stamped f) (keep : K → V → Bool) :
    (m.retain keep).Stamped (f.keep (fun e => keep e.key e.value)) where
  entries := by
    refine (correct.retain m.map _).trans ((stamped.entries.filter _).trans ?_)
    rw [filter_stamped]
    exact .refl _
  next := stamped.next

omit [DecidableEq K] in
theorem Stamped.oldestKey_eq (stamped : m.Stamped f) (young : f.Young) :
    ({ m with nextSeq := m.nextSeq + 1 } : OrderedMap H).oldestKey = f.entries.head?.map (·.key) := by
  have next : m.nextSeq + 1 = UInt32.ofNat (f.inserts + 1) := by rw [stamped.next, UInt32.ofNat_add]; rfl
  have age : ∀ e ∈ f.entries, (UInt32.ofNat (f.inserts + 1) - UInt32.ofNat e.stamp).toNat = f.inserts + 1 - e.stamp :=
    fun e member => wrapped_age ((f.past e member).le.trans (Nat.le_succ _)) (young e member)
  unfold oldestKey
  simp only [next]
  cases shape : f.entries with
  | nil =>
    have empty := stamped.entries
    rw [shape, List.map_nil] at empty
    rw [empty.eq_nil]
    rfl
  | cons first rest =>
    have front : first ∈ f.entries := by simp [shape]
    -- Every other entry was inserted later, so its age is smaller.
    have younger : ∀ item ∈ H.entries m.map, item ≠ first.stamped →
        (UInt32.ofNat (f.inserts + 1) - item.2.1).toNat < (UInt32.ofNat (f.inserts + 1) - first.stamped.2.1).toNat := by
      intro item inside apart
      obtain ⟨e, member, rfl⟩ := List.mem_map.mp (stamped.entries.mem_iff.mp inside)
      have later : first.stamp < e.stamp := by
        have ordered := f.ordered
        rw [shape, List.pairwise_cons] at ordered
        rw [shape] at member
        rcases List.mem_cons.mp member with rfl | behind
        · exact absurd rfl apart
        · exact ordered.1 e behind
      have past := f.past e member
      have one := age e member
      have two := age first front
      simp only [Entry.stamped]
      omega
    generalize UInt32.ofNat (f.inserts + 1) = now at younger
    have best : maxBy (fun a b => decide ((now - b.2.1).toNat < (now - a.2.1).toNat)) (H.entries m.map) = some first.stamped := by
      apply maxBy_eq_of_greatest
      · exact stamped.entries.mem_iff.mpr (List.mem_map_of_mem front)
      · intro item inside apart
        exact decide_eq_true (younger item inside apart)
      · intro item inside apart
        exact decide_eq_false (Nat.not_lt.mpr (younger item inside apart).le)
    rw [best]
    rfl

theorem stamped_modify (correct : H.Correct N) (stamped : m.Stamped f) (key : K) (change : V → V) :
    (m.modify key change).Stamped (f.modify key change) := by
  unfold modify
  cases found : m.slot key with
  | none =>
    have absent := Fifo.absent_of_not_holds (stamped.slot_eq_none.mp found)
    have same : (f.modify key change).entries = f.entries := by
      refine (List.map_congr_left ?_).trans (List.map_id _)
      intro e member
      exact if_neg (absent e member)
    exact ⟨by rw [same]; exact stamped.entries, stamped.next⟩
  | some stampedValue =>
    obtain ⟨seq, value⟩ := stampedValue
    obtain ⟨held, there, same⟩ := stamped.slot_eq_some.mp found
    obtain ⟨stamp, key, value⟩ := held
    obtain ⟨rfl, rfl, rfl⟩ : key = _ ∧ UInt32.ofNat stamp = _ ∧ value = _ := by simpa [Entry.stamped] using same
    have listed : key ∈ (H.entries m.map).map Prod.fst := stamped.mem_keys.mpr (Fifo.holds_iff.mpr ⟨_, there, rfl⟩)
    have left := (correct.nodup (H.set m.map key (UInt32.ofNat stamp, change value))).of_map
    have right : ((f.modify key change).entries.map Entry.stamped).Nodup := by
      refine List.Nodup.of_map Prod.fst ?_
      rw [keys_stamped]
      exact (f.modify key change).distinct
    refine ⟨(List.perm_ext_iff_of_nodup left right).mpr ?_, stamped.next⟩
    rintro ⟨other, seq, after⟩
    rw [(correct.set _ _ _ listed).mem_iff, List.mem_cons, List.mem_filter, stamped.entries.mem_iff, List.mem_map, List.mem_map]
    constructor
    · rintro (new | ⟨⟨⟨s, k, v⟩, member, old⟩, apart⟩)
      · exact ⟨⟨stamp, key, change value⟩, Fifo.mem_modify.mpr ⟨value, there, by rw [if_pos rfl]⟩, new.symm⟩
      · obtain ⟨rfl, rfl, rfl⟩ : k = _ ∧ UInt32.ofNat s = _ ∧ v = _ := by simpa [Entry.stamped] using old
        have different : k ≠ key := by simpa using apart
        exact ⟨⟨s, k, v⟩, Fifo.mem_modify.mpr ⟨v, member, by rw [if_neg different]⟩, rfl⟩
    · rintro ⟨⟨s, k, v⟩, member, new⟩
      obtain ⟨rfl, rfl, rfl⟩ : k = _ ∧ UInt32.ofNat s = _ ∧ v = _ := by simpa [Entry.stamped] using new
      obtain ⟨old, before, shape⟩ := Fifo.mem_modify.mp member
      by_cases here : k = key
      · subst here
        have one := Fifo.entry_unique before there rfl
        rw [Entry.mk.injEq] at one
        rw [if_pos rfl, one.2.2] at shape
        exact .inl (by rw [one.1, shape])
      · rw [if_neg here] at shape
        exact .inr ⟨⟨_, before, by rw [shape]; rfl⟩, by simpa using here⟩

theorem stamped_push (correct : H.Correct N) (stamped : m.Stamped f) (absent : ∀ e ∈ f.entries, e.key ≠ key)
    (space : f.entries.length < N) (value : V) :
    (⟨H.insert m.map key (m.nextSeq, value), m.nextSeq + 1⟩ : OrderedMap H).Stamped (f.push key value) where
  entries := by
    have unlisted : key ∉ (H.entries m.map).map Prod.fst := by
      rw [stamped.mem_keys, Fifo.holds_iff]
      rintro ⟨e, member, same⟩
      exact absent e member same
    refine (correct.insert m.map key _ unlisted (stamped.length_eq ▸ space)).trans ?_
    simp only [Fifo.push, Fifo.erase_of_absent absent, List.map_append, List.map_singleton, stamped.next]
    exact (stamped.entries.cons _).trans (List.perm_append_singleton _ _).symm
  next := by
    rw [stamped.next]
    exact (UInt32.ofNat_add _ _).symm

theorem stamped_insert (correct : H.Correct N) (room : 0 < N) (stamped : m.Stamped f) (young : f.Young)
    (fits : f.entries.length ≤ N) (key : K) (value : V) :
    (m.insert N key value).Stamped (f.insert N key value) := by
  have bumped : ({ m with nextSeq := m.nextSeq + 1 } : OrderedMap H).slot key = m.slot key := rfl
  unfold insert
  simp only [bumped]
  cases found : m.slot key with
  | some old =>
    have held : f.holds key = true := by
      by_contra absent
      rw [stamped.slot_eq_none.mpr absent] at found
      cases found
    have stays : f.leaving N key (fun _ _ => false) = none := if_pos held
    rw [Fifo.insert, Fifo.insertPreferring, stays]
    refine ⟨(correct.set _ _ _ (stamped.mem_keys.mpr held)).trans ?_, ?_⟩
    · have others := stamped.entries.filter (fun entry => entry.1 ≠ key)
      rw [filter_stamped f.entries (fun other _ => other ≠ key)] at others
      simp only [stamped.next, Fifo.without, Fifo.push, List.map_append, List.map_singleton]
      exact (others.cons _).trans (List.perm_append_singleton _ _).symm
    · rw [stamped.next]
      exact (UInt32.ofNat_add _ _).symm
  | none =>
    have held := stamped.slot_eq_none.mp found
    have absent := Fifo.absent_of_not_holds held
    have leaves : f.leaving N key (fun _ _ => false) = if N ≤ f.entries.length then f.entries.head? else none := by
      rw [← Fifo.victim_plain]
      exact if_neg held
    rw [Fifo.insert, Fifo.insertPreferring, leaves]
    simp only [stamped.length_eq, stamped.oldestKey_eq young]
    by_cases full : N ≤ f.entries.length
    · rw [if_pos full, if_pos full]
      cases shape : f.entries with
      | nil =>
        rw [shape] at full
        exact absurd room (Nat.not_lt.mpr full)
      | cons first rest =>
        have front : first ∈ f.entries := by simp [shape]
        refine stamped_push correct (stamped_remove correct stamped first.key) ?_ ?_ value
        · exact fun e member => absent e (Fifo.mem_erase.mp member).1
        · exact (Fifo.length_erase_of_mem front).trans_le fits
    · rw [if_neg full, if_neg full]
      exact stamped_push correct stamped absent (Nat.lt_of_not_le full) value

end OrderedMap

end Leviculum.BoundedTables
