import Leviculum.Store.LogSpec

/-! What the operations of the record log do to the records of its region. -/

namespace Leviculum.Store

/-- What one operation does to the records of a region. -/
structure Effect where
  /-- The page it erases. -/
  erased : Option Nat
  added : Option RawRecord
  /-- The offset and the key of the record it purges. -/
  withdrawn : Option (Nat × Key)

def Effect.nothing : Effect := ⟨none, none, none⟩

def Effect.Applies (effect : Effect) (before after : List Page) : Prop :=
  ∀ record, record ∈ scan after ↔ effect.added = some record ∨
    ∃ old ∈ scan before, effect.erased ≠ some (old.offset / sectorSize) ∧
      record = if effect.withdrawn = some (old.offset, old.key) then { old with live := false } else old

theorem applies_nothing (region : List Page) : Effect.nothing.Applies region region := by
  intro record
  constructor
  · exact fun member => .inr ⟨record, member, nofun, rfl⟩
  · rintro (absent | ⟨old, member, -, same⟩)
    · cases absent
    · rw [same]
      exact member

def Page.without (page : Page) (offset : Nat) : Page :=
  { page with slots := withdraw (offset % sectorSize) sectorHeaderLen page.slots }

theorem Page.stop_without (page : Page) (offset : Nat) : (page.without offset).stop = page.stop := by
  unfold Page.stop Page.without
  dsimp only
  rw [stride_withdraw]

namespace RecordLog

structure WellFormed (log : RecordLog) : Prop where
  pages : 2 ≤ log.region.length
  active : log.active < log.region.length
  fitting : Fitting log.region
  head : ∃ page, log.region[log.active]? = some page ∧ page.seq = some log.seq ∧
    (page.stop = log.cursor ∨ log.cursor = sectorSize)

theorem WellFormed.next_lt {log : RecordLog} (ok : log.WellFormed) : log.next < log.region.length :=
  Nat.mod_lt _ (Nat.lt_of_lt_of_le (by decide) ok.pages)

theorem WellFormed.next_ne {log : RecordLog} (ok : log.WellFormed) : log.next ≠ log.active := by
  have pages := ok.pages
  have active := ok.active
  unfold next
  by_cases last : log.active + 1 = log.region.length
  · rw [last, Nat.mod_self]
    omega
  · rw [Nat.mod_eq_of_lt (by omega)]
    omega

theorem WellFormed.cursor_le {log : RecordLog} (ok : log.WellFormed) : log.cursor ≤ sectorSize := by
  obtain ⟨page, found, -, stop⟩ := ok.head
  have fits := ok.fitting page (List.mem_of_getElem? found)
  omega

/-- Whether an append has to erase the next page first. -/
def Advances (log : RecordLog) (entry : Entry) : Prop := log.sectorRoom < entry.stride

instance (log : RecordLog) (entry : Entry) : Decidable (log.Advances entry) :=
  inferInstanceAs (Decidable (_ < _))

def landed (log : RecordLog) (entry : Entry) : RawRecord where
  toEntry := entry
  live := true
  offset :=
    if log.Advances entry then log.next * sectorSize + sectorHeaderLen
    else log.active * sectorSize + log.cursor
  pageSeq := if log.Advances entry then log.nextSeq else log.seq

def appendEffect (log : RecordLog) (entry : Entry) (fate : Fate) : Effect :=
  if entry.body.length > maxBody then .nothing
  else
    { erased := if log.Advances entry ∧ fate ≠ .fails 0 then some log.next else none
      added := if fate = .lands then some (log.landed entry) else none
      withdrawn := none }

theorem stop_opened (seq : Nat) : Page.stop ⟨some seq, [], true⟩ ≤ sectorSize := by
  change 12 ≤ 4096
  decide

theorem WellFormed.advance {log : RecordLog} (ok : log.WellFormed) : log.advance.WellFormed where
  pages := by
    rw [RecordLog.advance, List.length_set]
    exact ok.pages
  active := by
    rw [RecordLog.advance, List.length_set]
    exact ok.next_lt
  fitting := ok.fitting.set _ (stop_opened _)
  head := ⟨_, List.getElem?_set_self ok.next_lt, rfl, .inl rfl⟩

theorem WellFormed.mem_scan_advance {log : RecordLog} (ok : log.WellFormed) {record : RawRecord} :
    record ∈ scan log.advance.region ↔
      record ∈ scan log.region ∧ record.offset / sectorSize ≠ log.next := by
  unfold RecordLog.advance
  rw [ok.fitting.mem_scan_set (stop_opened _) ok.next_lt]
  constructor
  · rintro (⟨-, -, placed⟩ | ⟨away, member⟩)
    · cases placed
    · exact ⟨member, away⟩
  · rintro ⟨member, away⟩
    exact .inr ⟨away, member⟩

/-- A record programmed into the active page stands at the cursor. -/
theorem WellFormed.program_lands {log : RecordLog} (ok : log.WellFormed) {entry : Entry}
    (room : entry.stride ≤ log.sectorRoom) :
    (log.program entry .lands).2.WellFormed ∧ ∀ record,
      record ∈ scan (log.program entry .lands).2.region ↔
        record = ⟨⟨entry, true⟩, log.active * sectorSize + log.cursor, log.seq⟩ ∨
        record ∈ scan log.region := by
  obtain ⟨page, found, header, stop⟩ := ok.head
  have positive := stride_pos entry
  unfold sectorRoom at room
  have end_ : page.stop = log.cursor := by
    rcases stop with here | sealed
    · exact here
    · omega
  have longer : Page.stop { page with slots := page.slots ++ [{ entry with live := true }] } =
      log.cursor + entry.stride := by
    rw [← end_]
    simp only [Page.stop, List.map_append, List.sum_append, List.map_cons, List.map_nil,
      List.sum_cons, List.sum_nil]
    omega
  have fits : log.cursor + entry.stride ≤ sectorSize := by
    have bound := ok.cursor_le
    omega
  have inside : log.cursor < sectorSize := by omega
  unfold program
  dsimp only
  rw [modify_eq_set _ found]
  refine ⟨⟨?_, ?_, ?_, ?_⟩, ?_⟩
  · rw [List.length_set]
    exact ok.pages
  · rw [List.length_set]
    exact ok.active
  · refine ok.fitting.set _ ?_
    rw [longer]
    exact fits
  · exact ⟨_, List.getElem?_set_self ok.active, header, .inl longer⟩
  · intro record
    rw [ok.fitting.mem_scan_set (by rw [longer]; exact fits) ok.active]
    dsimp only
    rw [placedFrom_concat, List.mem_append, List.mem_singleton, Prod.mk.injEq]
    have stopped : sectorHeaderLen + (page.slots.map (fun slot => slot.stride)).sum = log.cursor := end_
    rw [stopped]
    constructor
    · rintro (⟨here, same, placed | ⟨off, slot⟩⟩ | ⟨-, member⟩)
      · exact .inr (ok.fitting.mem_scan.mpr ⟨page, here ▸ found, same, placed⟩)
      · left
        obtain ⟨slot', offset, seq⟩ := record
        dsimp only at here off slot same
        rw [header, Option.some.injEq] at same
        have split := Nat.div_add_mod offset sectorSize
        rw [here, off, Nat.mul_comm] at split
        rw [slot, ← split, same]
      · exact .inr member
    · rintro (rfl | member)
      · left
        have positive' : 0 < sectorSize := by decide
        refine ⟨?_, header, .inr ⟨?_, rfl⟩⟩
        · rw [Nat.mul_comm, Nat.mul_add_div positive', Nat.div_eq_of_lt inside, Nat.add_zero]
        · rw [Nat.mul_comm, Nat.mul_add_mod, Nat.mod_eq_of_lt inside]
      · by_cases here : record.offset / sectorSize = log.active
        · obtain ⟨other, found', same, placed⟩ := ok.fitting.mem_scan.mp member
          rw [here, found, Option.some.injEq] at found'
          subst found'
          exact .inl ⟨here, same, .inl placed⟩
        · exact .inr ⟨here, member⟩

theorem WellFormed.program_fails {log : RecordLog} (ok : log.WellFormed) (entry : Entry) (done : Nat) :
    (log.program entry (.fails done)).2.WellFormed ∧ ∀ record,
      record ∈ scan (log.program entry (.fails done)).2.region ↔ record ∈ scan log.region := by
  obtain ⟨page, found, header, stop⟩ := ok.head
  cases done with
  | zero => exact ⟨ok, fun record => Iff.rfl⟩
  | succ done =>
    have fits := ok.fitting page (List.mem_of_getElem? found)
    unfold program
    dsimp only
    rw [modify_eq_set _ found]
    refine ⟨⟨?_, ?_, ok.fitting.set _ fits, ?_⟩, ?_⟩
    · rw [List.length_set]
      exact ok.pages
    · rw [List.length_set]
      exact ok.active
    · exact ⟨_, List.getElem?_set_self ok.active, header, .inr rfl⟩
    · intro record
      have fits' : Page.stop { page with clean := false } ≤ sectorSize := fits
      rw [ok.fitting.mem_scan_set fits' ok.active]
      constructor
      · rintro (⟨here, same, placed⟩ | ⟨-, member⟩)
        · exact ok.fitting.mem_scan.mpr ⟨page, here ▸ found, same, placed⟩
        · exact member
      · intro member
        by_cases here : record.offset / sectorSize = log.active
        · obtain ⟨other, found', same, placed⟩ := ok.fitting.mem_scan.mp member
          rw [here, found, Option.some.injEq] at found'
          subst found'
          exact .inl ⟨here, same, placed⟩
        · exact .inr ⟨here, member⟩

theorem findActive_eq_some {region : List Page} {found : Nat × Nat}
    (some' : findActive region = some found) :
    ∃ page, region[found.1]? = some page ∧ page.seq = some found.2 := by
  have loop : ∀ (pages : List (Page × Nat)) (best : Option (Nat × Nat)),
      (∀ page ∈ pages, region[page.2]? = some page.1) →
      (∀ held ∈ best, ∃ page, region[held.1]? = some page ∧ page.seq = some held.2) →
      ∀ held ∈ pages.foldl keepHighest best, ∃ page, region[held.1]? = some page ∧ page.seq = some held.2 := by
    intro pages
    induction pages with
    | nil => exact fun best _ holds => holds
    | cons page rest ih =>
      intro best stored holds
      refine ih _ (fun other member => stored other (List.mem_cons_of_mem _ member)) ?_
      intro held member
      unfold keepHighest at member
      split at member
      next => exact holds held member
      next seq header =>
        split at member
        · obtain rfl := Option.some.inj member
          exact ⟨page.1, stored page List.mem_cons_self, header⟩
        · exact holds held member
  exact loop region.zipIdx none (fun page member => List.mem_zipIdx_iff_getElem?.mp member) nofun found some'

theorem openRegion_wellFormed {region : List Page} (pages : 2 ≤ region.length) (fitting : Fitting region) :
    (openRegion region).WellFormed := by
  unfold openRegion mount
  cases found : findActive region with
  | none =>
    refine ⟨?_, ?_, fitting.set 0 (stop_opened 0), ⟨_, List.getElem?_set_self (by omega), rfl, .inl rfl⟩⟩
    · change 2 ≤ (region.set 0 _).length
      rw [List.length_set]
      exact pages
    · change 0 < (region.set 0 _).length
      rw [List.length_set]
      omega
  | some active =>
    obtain ⟨page, stored, header⟩ := findActive_eq_some found
    refine ⟨pages, (List.getElem?_eq_some_iff.mp stored).1, fitting, page, stored, header, ?_⟩
    change _ = scanTail _ ∨ scanTail _ = _
    rw [List.getD_eq_getElem?_getD, stored, Option.getD_some]
    unfold scanTail
    split
    · exact .inl rfl
    · exact .inr rfl

theorem mem_scan_openRegion {region : List Page} {record : RawRecord}
    (member : record ∈ scan (openRegion region).region) : record ∈ scan region := by
  unfold openRegion mount at member
  cases found : findActive region with
  | some active =>
    rw [found] at member
    exact member
  | none =>
    rw [found] at member
    obtain ⟨index, page, off, stored, header, placed, offset⟩ := mem_scan.mp member
    have stored' : (region.set 0 ⟨some 0, [], true⟩)[index]? = some page := stored
    by_cases first : index = 0
    · subst first
      rw [List.getElem?_set] at stored'
      simp only [if_true] at stored'
      split at stored'
      · obtain rfl := Option.some.inj stored'
        cases placed
      · cases stored'
    · rw [List.getElem?_set_ne (fun same => first same.symm)] at stored'
      exact mem_scan.mpr ⟨index, page, off, stored', header, placed, offset⟩

theorem freshLog_empty (pages : Nat) (record : RawRecord) : record ∉ scan (freshLog pages).region := by
  intro member
  obtain ⟨index, page, off, found, header, -, -⟩ := mem_scan.mp (mem_scan_openRegion member)
  rw [List.eq_of_mem_replicate (List.mem_of_getElem? found)] at header
  cases header

theorem freshLog_wellFormed {pages : Nat} (two : 2 ≤ pages) : (freshLog pages).WellFormed := by
  refine openRegion_wellFormed (by rw [List.length_replicate]; exact two) ?_
  intro page member
  rw [List.eq_of_mem_replicate member]
  decide

theorem WellFormed.set_next {log : RecordLog} (ok : log.WellFormed) :
    WellFormed { log with region := log.region.set log.next .erased } where
  pages := by
    rw [List.length_set]
    exact ok.pages
  active := by
    rw [List.length_set]
    exact ok.active
  fitting := ok.fitting.set _ (by decide)
  head := by
    rw [List.getElem?_set_ne ok.next_ne]
    exact ok.head

theorem sectorRoom_advance (log : RecordLog) {entry : Entry} (small : ¬ entry.body.length > maxBody) :
    entry.stride ≤ log.advance.sectorRoom := by
  unfold maxBody sectorPayload sectorSize sectorHeaderLen headerLen at small
  unfold Entry.stride recordStride alignUp sectorRoom advance sectorSize sectorHeaderLen headerLen
    programUnit
  dsimp only
  omega

/-- Every append does what `appendEffect` says. -/
theorem WellFormed.append {log : RecordLog} (ok : log.WellFormed) (entry : Entry) (fate : Fate) :
    (log.append entry fate).2.WellFormed ∧
      (log.appendEffect entry fate).Applies log.region (log.append entry fate).2.region := by
  unfold RecordLog.append appendEffect
  by_cases large : entry.body.length > maxBody
  · rw [if_pos large, if_pos large]
    exact ⟨ok, applies_nothing _⟩
  rw [if_neg large, if_neg large]
  by_cases moves : log.Advances entry
  · have room := log.sectorRoom_advance large
    have full : entry.stride > log.sectorRoom := moves
    rw [if_pos full]
    cases fate with
    | lands =>
      obtain ⟨kept, records⟩ := ok.advance.program_lands room
      refine ⟨kept, ?_⟩
      intro record
      rw [records record, ok.mem_scan_advance]
      simp only [moves, landed, true_and, if_true, ne_eq, not_false_eq_true, reduceCtorEq,
        Option.some.injEq, if_false]
      constructor
      · rintro (rfl | ⟨member, away⟩)
        · exact .inl rfl
        · exact .inr ⟨record, member, fun same => away same.symm, rfl⟩
      · rintro (rfl | ⟨old, member, away, rfl⟩)
        · exact .inl rfl
        · exact .inr ⟨member, fun same => away same.symm⟩
    | fails done =>
      have erases : ∀ after : List Page,
          (∀ record, record ∈ scan after ↔
            record ∈ scan log.region ∧ record.offset / sectorSize ≠ log.next) →
          Effect.Applies ⟨some log.next, none, none⟩ log.region after := by
        intro after records record
        rw [records record]
        constructor
        · rintro ⟨member, away⟩
          exact .inr ⟨record, member, fun same => away (Option.some.inj same).symm, rfl⟩
        · rintro (absent | ⟨old, member, away, rfl⟩)
          · cases absent
          · exact ⟨member, fun same => away (congrArg some same.symm)⟩
      match done with
      | 0 =>
        simp only [ne_eq, not_true_eq_false, and_false, if_false, reduceCtorEq]
        exact ⟨ok, applies_nothing _⟩
      | 1 =>
        have differs : (Fate.fails 1) ≠ .fails 0 := by decide
        simp only [moves, differs, ne_eq, not_false_eq_true, and_self, if_true, reduceCtorEq, if_false]
        refine ⟨ok.set_next, erases _ ?_⟩
        intro record
        rw [ok.fitting.mem_scan_set (by decide) ok.next_lt]
        constructor
        · rintro (⟨-, header, -⟩ | ⟨away, member⟩)
          · cases header
          · exact ⟨member, away⟩
        · rintro ⟨member, away⟩
          exact .inr ⟨away, member⟩
      | done + 2 =>
        have differs : (Fate.fails (done + 2)) ≠ .fails 0 := by
          rintro ⟨⟩
        simp only [moves, differs, ne_eq, not_false_eq_true, and_self, if_true, reduceCtorEq, if_false]
        obtain ⟨kept, records⟩ := ok.advance.program_fails entry done
        refine ⟨kept, erases _ ?_⟩
        intro record
        rw [records record, ok.mem_scan_advance]
  · have room : entry.stride ≤ log.sectorRoom := Nat.not_lt.mp moves
    rw [if_neg (Nat.not_lt.mpr room)]
    cases fate with
    | lands =>
      obtain ⟨kept, records⟩ := ok.program_lands room
      refine ⟨kept, ?_⟩
      intro record
      rw [records record]
      simp only [moves, landed, false_and, if_true, if_false, Option.some.injEq, reduceCtorEq]
      constructor
      · rintro (rfl | member)
        · exact .inl rfl
        · exact .inr ⟨record, member, nofun, rfl⟩
      · rintro (rfl | ⟨old, member, -, rfl⟩)
        · exact .inl rfl
        · exact .inr member
    | fails done =>
      obtain ⟨kept, records⟩ := ok.program_fails entry done
      refine ⟨kept, ?_⟩
      intro record
      rw [records record]
      rw [if_neg (fun both => moves both.1), if_neg nofun]
      exact applies_nothing _ record

theorem WellFormed.recordAt_eq_some {log : RecordLog} (ok : log.WellFormed) {offset : Nat}
    {record : RawRecord} :
    log.recordAt offset = some record ↔ record ∈ scan log.region ∧ record.offset = offset := by
  unfold recordAt
  constructor
  · intro found
    have same : record.offset = offset := by simpa using List.find?_some found
    have member := List.mem_of_find?_eq_some found
    refine ⟨?_, same⟩
    unfold scanPage at member
    cases stored : log.region[offset / sectorSize]? with
    | none =>
      rw [List.getD_eq_getElem?_getD, stored] at member
      cases member
    | some page =>
      rw [List.getD_eq_getElem?_getD, stored, Option.getD_some] at member
      split at member
      next => cases member
      next seq header =>
        obtain ⟨⟨off, slot⟩, placed, rfl⟩ := List.mem_map.mp member
        exact mem_scan.mpr ⟨_, page, off, stored, header, placed, rfl⟩
  · rintro ⟨member, rfl⟩
    obtain ⟨page, stored, header, placed⟩ := ok.fitting.mem_scan.mp member
    have here : record ∈ scanPage (record.offset / sectorSize)
        (log.region.getD (record.offset / sectorSize) .erased) := by
      rw [List.getD_eq_getElem?_getD, stored, Option.getD_some]
      unfold scanPage
      rw [header]
      refine List.mem_map.mpr ⟨_, placed, ?_⟩
      obtain ⟨slot, offset, seq⟩ := record
      have split := Nat.div_add_mod offset sectorSize
      dsimp only
      rw [Nat.mul_comm (offset / sectorSize), split]
    cases found : (scanPage (record.offset / sectorSize)
        (log.region.getD (record.offset / sectorSize) .erased)).find?
        (fun other => other.offset = record.offset) with
    | none => exact absurd (decide_eq_true rfl) (List.find?_eq_none.mp found record here)
    | some other =>
      have same : other.offset = record.offset := by simpa using List.find?_some found
      have inPage := List.mem_of_find?_eq_some found
      rw [List.getD_eq_getElem?_getD, stored, Option.getD_some] at inPage
      have scanned : other ∈ scan log.region :=
        List.mem_flatMap.mpr ⟨(page, _), List.mem_zipIdx_iff_getElem?.mpr stored, inPage⟩
      rw [ok.fitting.record_unique scanned member same]

theorem offset_eq {a b : Nat} (page : a / sectorSize = b / sectorSize) (place : a % sectorSize = b % sectorSize) : a = b := by
  rw [← Nat.div_add_mod a sectorSize, page, place, Nat.div_add_mod]

section Purge

variable {log : RecordLog} {record : RawRecord} {page : Page}

theorem WellFormed.applies_purge (ok : log.WellFormed) (member : record ∈ scan log.region) {after : List Page} :
    Effect.Applies ⟨none, none, some (record.offset, record.key)⟩ log.region after ↔
      ∀ other, other ∈ scan after ↔ ∃ old ∈ scan log.region,
        other = if old.offset = record.offset then { old with live := false } else old := by
  have named : ∀ old ∈ scan log.region,
      some (record.offset, record.key) = some (old.offset, old.key) ↔ old.offset = record.offset := by
    intro old stored
    rw [Option.some.injEq, Prod.mk.injEq]
    refine ⟨fun both => both.1.symm, fun same => ?_⟩
    obtain rfl := ok.fitting.record_unique stored member same
    exact ⟨rfl, rfl⟩
  refine forall_congr' (fun other => iff_congr Iff.rfl ?_)
  constructor
  · rintro (absent | ⟨old, stored, -, same⟩)
    · cases absent
    · refine ⟨old, stored, ?_⟩
      simpa only [named old stored] using same
  · rintro ⟨old, stored, same⟩
    refine .inr ⟨old, stored, nofun, ?_⟩
    simpa only [named old stored] using same

theorem WellFormed.fits_without (ok : log.WellFormed) (found : log.region[record.offset / sectorSize]? = some page) :
    (page.without record.offset).stop ≤ sectorSize := by
  rw [Page.stop_without]
  exact ok.fitting page (List.mem_of_getElem? found)

theorem WellFormed.set_without (ok : log.WellFormed) (found : log.region[record.offset / sectorSize]? = some page) :
    WellFormed { log with region := log.region.set (record.offset / sectorSize) (page.without record.offset) } where
  pages := by
    rw [List.length_set]
    exact ok.pages
  active := by
    rw [List.length_set]
    exact ok.active
  fitting := ok.fitting.set _ (ok.fits_without found)
  head := by
    obtain ⟨head, stored, headed, stop⟩ := ok.head
    by_cases here : record.offset / sectorSize = log.active
    · rw [← here, found, Option.some.injEq] at stored
      subst stored
      have changed := List.getElem?_set_self (a := page.without record.offset) (List.getElem?_eq_some_iff.mp found).1
      rw [here] at changed ⊢
      exact ⟨_, changed, headed, by rwa [Page.stop_without]⟩
    · refine ⟨head, ?_, headed, stop⟩
      rw [List.getElem?_set_ne here]
      exact stored

theorem WellFormed.mem_scan_without (ok : log.WellFormed) (found : log.region[record.offset / sectorSize]? = some page)
    (other : RawRecord) :
    other ∈ scan (log.region.set (record.offset / sectorSize) (page.without record.offset)) ↔
      ∃ old ∈ scan log.region, other = if old.offset = record.offset then { old with live := false } else old := by
  rw [ok.fitting.mem_scan_set (ok.fits_without found) (List.getElem?_eq_some_iff.mp found).1]
  constructor
  · rintro (⟨here, headed, there⟩ | ⟨away, stored⟩)
    · obtain ⟨before, placed, changed⟩ := mem_placedFrom_withdraw.mp there
      refine ⟨⟨before, other.offset, other.pageSeq⟩,
        ok.fitting.mem_scan.mpr ⟨page, here ▸ found, headed, placed⟩, ?_⟩
      have target : other.offset % sectorSize = record.offset % sectorSize ↔ other.offset = record.offset :=
        ⟨offset_eq here, congrArg (· % sectorSize)⟩
      obtain ⟨slot, offset, seq⟩ := other
      dsimp only at changed target ⊢
      rw [changed]
      split_ifs <;> simp_all
    · refine ⟨other, stored, ?_⟩
      rw [if_neg (fun same => away (by rw [same]))]
  · rintro ⟨old, stored, rfl⟩
    obtain ⟨page', found', headed, placed⟩ := ok.fitting.mem_scan.mp stored
    by_cases here : old.offset / sectorSize = record.offset / sectorSize
    · rw [here, found, Option.some.injEq] at found'
      subst found'
      have target : old.offset % sectorSize = record.offset % sectorSize ↔ old.offset = record.offset :=
        ⟨offset_eq here, congrArg (· % sectorSize)⟩
      refine .inl ?_
      split_ifs with same
      · exact ⟨here, headed, mem_placedFrom_withdraw.mpr ⟨_, placed, (if_pos (target.mpr same)).symm⟩⟩
      · exact ⟨here, headed, mem_placedFrom_withdraw.mpr ⟨_, placed, (if_neg (fun hit => same (target.mp hit))).symm⟩⟩
    · rw [if_neg (fun same => here (by rw [same]))]
      exact .inr ⟨here, stored⟩

theorem WellFormed.purge (ok : log.WellFormed) (member : record ∈ scan log.region) :
    (log.purge record .lands).2.WellFormed ∧
      Effect.Applies ⟨none, none, some (record.offset, record.key)⟩ log.region
        (log.purge record .lands).2.region := by
  rw [ok.applies_purge member]
  unfold RecordLog.purge
  by_cases dead : record.live = false
  · rw [if_pos dead]
    have unchanged : ∀ old ∈ scan log.region,
        (if old.offset = record.offset then { old with live := false } else old : RawRecord) = old := by
      intro old stored
      split_ifs with same
      · obtain rfl := ok.fitting.record_unique stored member same
        obtain ⟨⟨entry, live⟩, offset, seq⟩ := old
        cases dead
        rfl
      · rfl
    refine ⟨ok, fun other => ⟨fun stored => ⟨other, stored, (unchanged other stored).symm⟩, ?_⟩⟩
    rintro ⟨old, stored, same⟩
    rwa [same, unchanged old stored]
  · rw [if_neg dead]
    obtain ⟨page, found, -⟩ := ok.fitting.mem_scan.mp member
    dsimp only
    rw [modify_eq_set _ found]
    exact ⟨ok.set_without found, ok.mem_scan_without found⟩

end Purge

end RecordLog

theorem Effect.Applies.live_iff {effect : Effect} {before after : List Page}
    (applies : effect.Applies before after) {record : RawRecord} (live : record.live = true) :
    record ∈ scan after ↔ effect.added = some record ∨
      (record ∈ scan before ∧ effect.erased ≠ some (record.offset / sectorSize) ∧
        effect.withdrawn ≠ some (record.offset, record.key)) := by
  rw [applies record]
  constructor
  · rintro (added | ⟨old, member, kept, rfl⟩)
    · exact .inl added
    · split at live
      next => cases live
      next other =>
        rw [if_neg other]
        exact .inr ⟨member, kept, other⟩
  · rintro (added | ⟨member, kept, other⟩)
    · exact .inl added
    · exact .inr ⟨record, member, kept, by rw [if_neg other]⟩

end Leviculum.Store
