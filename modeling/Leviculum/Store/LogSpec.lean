import Leviculum.Store.RecordLog
import Mathlib.Data.List.Flatten

/-! Where the records of a region stand, and what changing one page does to them. -/

namespace Leviculum.Store

theorem stride_pos (entry : Entry) : 0 < entry.stride := by
  unfold Entry.stride recordStride alignUp headerLen programUnit
  omega

theorem placedFrom_bounds {start off : Nat} {slots : List Slot} {slot : Slot}
    (member : (off, slot) ∈ placedFrom start slots) :
    start ≤ off ∧ off + slot.stride ≤ start + (slots.map (fun slot => slot.stride)).sum := by
  induction slots generalizing start with
  | nil => cases member
  | cons first rest ih =>
    rw [List.map_cons, List.sum_cons]
    rcases List.mem_cons.mp member with same | later
    · rw [Prod.mk.injEq] at same
      obtain ⟨rfl, rfl⟩ := same
      exact ⟨Nat.le_refl _, by omega⟩
    · have inside := ih later
      omega

theorem placedFrom_unique {start off : Nat} {slots : List Slot} {slot slot' : Slot}
    (member : (off, slot) ∈ placedFrom start slots) (member' : (off, slot') ∈ placedFrom start slots) :
    slot = slot' := by
  induction slots generalizing start with
  | nil => cases member
  | cons first rest ih =>
    have positive := stride_pos first.toEntry
    rcases List.mem_cons.mp member with same | later <;>
      rcases List.mem_cons.mp member' with same' | later'
    · rw [Prod.mk.injEq] at same same'
      rw [same.2, same'.2]
    · have bounds := placedFrom_bounds later'
      rw [Prod.mk.injEq] at same
      omega
    · have bounds := placedFrom_bounds later
      rw [Prod.mk.injEq] at same'
      omega
    · exact ih later later'

theorem placedFrom_concat (start : Nat) (slots : List Slot) (slot : Slot) :
    placedFrom start (slots ++ [slot]) =
      placedFrom start slots ++ [(start + (slots.map (fun slot => slot.stride)).sum, slot)] := by
  induction slots generalizing start with
  | nil => rfl
  | cons first rest ih =>
    rw [List.cons_append, placedFrom, ih, placedFrom, List.map_cons, List.sum_cons, Nat.add_assoc]
    rfl

theorem mem_placedFrom_withdraw {target start off : Nat} {slots : List Slot} {slot : Slot} :
    (off, slot) ∈ placedFrom start (withdraw target start slots) ↔
      ∃ before, (off, before) ∈ placedFrom start slots ∧
        slot = if off = target then { before with live := false } else before := by
  induction slots generalizing start with
  | nil =>
    constructor
    · intro member
      cases member
    · rintro ⟨before, member, -⟩
      cases member
  | cons first rest ih =>
    have positive := stride_pos first.toEntry
    have later : ∀ before, (off, before) ∈ placedFrom (start + first.stride) rest → start < off := by
      intro before member
      have bounds := placedFrom_bounds member
      omega
    unfold withdraw
    by_cases here : start = target
    · rw [if_pos here]
      simp only [placedFrom, List.mem_cons, Prod.mk.injEq]
      constructor
      · rintro (⟨rfl, rfl⟩ | member)
        · exact ⟨first, .inl ⟨rfl, rfl⟩, by rw [if_pos here]⟩
        · refine ⟨slot, .inr member, ?_⟩
          have above := later slot member
          rw [if_neg (by omega)]
      · rintro ⟨before, ⟨rfl, rfl⟩ | member, rfl⟩
        · exact .inl ⟨rfl, by rw [if_pos here]⟩
        · refine .inr ?_
          have above := later before member
          rw [if_neg (by omega)]
          exact member
    · rw [if_neg here]
      simp only [placedFrom, List.mem_cons, Prod.mk.injEq, ih]
      constructor
      · rintro (⟨rfl, rfl⟩ | ⟨before, member, same⟩)
        · exact ⟨_, .inl ⟨rfl, rfl⟩, by rw [if_neg here]⟩
        · exact ⟨before, .inr member, same⟩
      · rintro ⟨before, ⟨rfl, rfl⟩ | member, rfl⟩
        · exact .inl ⟨rfl, by rw [if_neg here]⟩
        · exact .inr ⟨before, member, rfl⟩

theorem stride_withdraw (target start : Nat) (slots : List Slot) :
    (withdraw target start slots).map (fun slot => slot.stride) =
      slots.map (fun slot => slot.stride) := by
  induction slots generalizing start with
  | nil => rfl
  | cons first rest ih =>
    unfold withdraw
    split
    · rfl
    · rw [List.map_cons, List.map_cons, ih]

theorem mem_scan {region : List Page} {record : RawRecord} :
    record ∈ scan region ↔ ∃ index page off, region[index]? = some page ∧
      page.seq = some record.pageSeq ∧ (off, record.toSlot) ∈ placedFrom sectorHeaderLen page.slots ∧
      record.offset = index * sectorSize + off := by
  unfold scan
  rw [List.mem_flatMap]
  constructor
  · rintro ⟨⟨page, index⟩, paired, member⟩
    have found := List.mem_zipIdx_iff_getElem?.mp paired
    unfold scanPage at member
    split at member
    next => cases member
    next seq header =>
      obtain ⟨⟨off, slot⟩, placed, rfl⟩ := List.mem_map.mp member
      exact ⟨index, page, off, found, header, placed, rfl⟩
  · rintro ⟨index, page, off, found, header, placed, offset⟩
    refine ⟨(page, index), List.mem_zipIdx_iff_getElem?.mpr found, ?_⟩
    unfold scanPage
    dsimp only
    rw [header]
    refine List.mem_map.mpr ⟨(off, record.toSlot), placed, ?_⟩
    obtain ⟨slot, offset', seq⟩ := record
    dsimp only at offset ⊢
    rw [offset]

/-- Every record ends inside its page. -/
def Fitting (region : List Page) : Prop := ∀ page ∈ region, page.stop ≤ sectorSize

instance (region : List Page) : Decidable (Fitting region) :=
  inferInstanceAs (Decidable (∀ page ∈ region, page.stop ≤ sectorSize))

theorem Fitting.offset_lt {region : List Page} (fitting : Fitting region) {index off : Nat} {page : Page}
    {slot : Slot} (found : region[index]? = some page)
    (placed : (off, slot) ∈ placedFrom sectorHeaderLen page.slots) : off < sectorSize := by
  have stop := fitting page (List.mem_of_getElem? found)
  have bounds := placedFrom_bounds placed
  have positive := stride_pos slot.toEntry
  unfold Page.stop at stop
  omega

theorem Fitting.mem_scan {region : List Page} (fitting : Fitting region) {record : RawRecord} :
    record ∈ scan region ↔ ∃ page, region[record.offset / sectorSize]? = some page ∧
      page.seq = some record.pageSeq ∧
      (record.offset % sectorSize, record.toSlot) ∈ placedFrom sectorHeaderLen page.slots := by
  rw [Store.mem_scan]
  constructor
  · rintro ⟨index, page, off, found, header, placed, offset⟩
    have inside := fitting.offset_lt found placed
    have positive : 0 < sectorSize := by decide
    have whole : record.offset / sectorSize = index := by
      rw [offset, Nat.mul_comm, Nat.mul_add_div positive, Nat.div_eq_of_lt inside, Nat.add_zero]
    have rest : record.offset % sectorSize = off := by
      rw [offset, Nat.mul_comm, Nat.mul_add_mod, Nat.mod_eq_of_lt inside]
    rw [whole, rest]
    exact ⟨page, found, header, placed⟩
  · rintro ⟨page, found, header, placed⟩
    refine ⟨_, page, _, found, header, placed, ?_⟩
    rw [Nat.mul_comm]
    exact (Nat.div_add_mod record.offset sectorSize).symm

theorem Fitting.record_unique {region : List Page} (fitting : Fitting region) {record record' : RawRecord}
    (member : record ∈ scan region) (member' : record' ∈ scan region)
    (same : record.offset = record'.offset) : record = record' := by
  obtain ⟨page, found, header, placed⟩ := fitting.mem_scan.mp member
  obtain ⟨page', found', header', placed'⟩ := fitting.mem_scan.mp member'
  rw [same, found', Option.some.injEq] at found
  subst found
  rw [header', Option.some.injEq] at header
  rw [same] at placed
  have slots := placedFrom_unique placed placed'
  obtain ⟨slot, offset, seq⟩ := record
  obtain ⟨slot', offset', seq'⟩ := record'
  dsimp only at same header slots
  rw [same, header, slots]

theorem modify_eq_set {region : List Page} {index : Nat} {page : Page} (f : Page → Page)
    (found : region[index]? = some page) : region.modify index f = region.set index (f page) := by
  apply List.ext_getElem?
  intro i
  rw [List.getElem?_modify, List.getElem?_set]
  by_cases here : index = i
  · subst here
    simp only [if_true, (List.getElem?_eq_some_iff.mp found).1, found, Option.map_eq_map, Option.map_some]
  · simp only [if_neg here, Option.map_eq_map]
    exact Option.map_id'

theorem Fitting.set {region : List Page} (fitting : Fitting region) (index : Nat) {page : Page}
    (fits : page.stop ≤ sectorSize) : Fitting (region.set index page) := by
  intro other member
  rcases List.mem_or_eq_of_mem_set member with old | rfl
  · exact fitting other old
  · exact fits

theorem Fitting.mem_scan_set {region : List Page} (fitting : Fitting region) {index : Nat} {page : Page}
    (fits : page.stop ≤ sectorSize) (inside : index < region.length) {record : RawRecord} :
    record ∈ scan (region.set index page) ↔
      (record.offset / sectorSize = index ∧ page.seq = some record.pageSeq ∧
        (record.offset % sectorSize, record.toSlot) ∈ placedFrom sectorHeaderLen page.slots) ∨
      (record.offset / sectorSize ≠ index ∧ record ∈ scan region) := by
  rw [(fitting.set index fits).mem_scan, fitting.mem_scan]
  by_cases here : record.offset / sectorSize = index
  · rw [here, List.getElem?_set_self inside]
    constructor
    · rintro ⟨other, found, header, placed⟩
      obtain rfl := Option.some.inj found
      exact .inl ⟨rfl, header, placed⟩
    · rintro (⟨-, header, placed⟩ | ⟨away, -⟩)
      · exact ⟨page, rfl, header, placed⟩
      · exact absurd rfl away
  · rw [List.getElem?_set_ne (Ne.symm here)]
    constructor
    · exact fun found => .inr ⟨here, found⟩
    · rintro (⟨same, -⟩ | ⟨-, found⟩)
      · exact absurd same here
      · exact found

end Leviculum.Store
