import Leviculum.Lib.Execution
import Leviculum.Lib.NorFlash

/-! The boot counter in one page of flash: the record of a boot, the scan that finds its slot, and
every way a boot can end on a power cut. -/

namespace Leviculum.Board.BootCount

open NorFlash Execution

def pageSize : Nat := 4096

def recordSize : Nat := 16

def recordsPerPage : Nat := pageSize / recordSize

def magic : Nat := 0xB007C0DE

def formatVersion : UInt8 := 1

def flagRetained : UInt8 := 1

structure BootRecord where
  boot : BitVec 32
  resetReason : BitVec 32
  retained : Bool
deriving DecidableEq

def BootRecord.body (record : BootRecord) : Bytes :=
  Bytes.le 4 magic ++ Bytes.le 4 record.boot.toNat ++ Bytes.le 4 record.resetReason.toNat ++
    [if record.retained then flagRetained else 0, formatVersion]

def encode (record : BootRecord) : Bytes :=
  record.body ++ Bytes.le 2 (crc16 record.body).toNat

def decode (slot : Bytes) : Option BootRecord :=
  if slot.length < recordSize then none
  else if ofLe (slice slot 0 4) ≠ magic then none
  else if slot.getD 13 0 ≠ formatVersion then none
  else if (crc16 (slice slot 0 14)).toNat ≠ ofLe (slice slot 14 2) then none
  else some
    { boot := .ofNat 32 (ofLe (slice slot 4 4))
      resetReason := .ofNat 32 (ofLe (slice slot 8 4))
      retained := decide (slot.getD 12 0 &&& flagRetained ≠ 0) }

theorem length_body (record : BootRecord) : record.body.length = 14 := by
  simp only [BootRecord.body, List.length_append, Bytes.length_le, List.length_cons, List.length_nil]

theorem length_encode (record : BootRecord) : (encode record).length = recordSize := by
  rw [encode, List.length_append, length_body, Bytes.length_le]
  rfl

theorem decode_encode (record : BootRecord) : decode (encode record) = some record := by
  have covered : slice (encode record) 0 14 = record.body := rfl
  have sum : ofLe (slice (encode record) 14 2) = (crc16 record.body).toNat := by
    have bytes : slice (encode record) 14 2 = Bytes.le 2 (crc16 record.body).toNat := rfl
    rw [bytes, ofLe_le]
    exact Nat.mod_eq_of_lt (crc16 record.body).toNat_lt
  have start : ofLe (slice (encode record) 0 4) = magic := by
    have bytes : slice (encode record) 0 4 = Bytes.le 4 magic := rfl
    rw [bytes, ofLe_le]
    rfl
  have boot : ofLe (slice (encode record) 4 4) = record.boot.toNat := by
    have bytes : slice (encode record) 4 4 = Bytes.le 4 record.boot.toNat := rfl
    rw [bytes, ofLe_le]
    exact Nat.mod_eq_of_lt record.boot.isLt
  have reason : ofLe (slice (encode record) 8 4) = record.resetReason.toNat := by
    have bytes : slice (encode record) 8 4 = Bytes.le 4 record.resetReason.toNat := rfl
    rw [bytes, ofLe_le]
    exact Nat.mod_eq_of_lt record.resetReason.isLt
  have flags : (encode record).getD 12 0 = if record.retained then flagRetained else 0 := rfl
  have version : (encode record).getD 13 0 = formatVersion := rfl
  have kept : decide ((if record.retained then flagRetained else 0) &&& flagRetained ≠ 0) = record.retained := by
    cases record.retained <;> decide
  unfold decode
  rw [if_neg (by rw [length_encode]; exact Nat.lt_irrefl _), if_neg (not_not.mpr start),
    if_neg (not_not.mpr version), covered, sum, if_neg (not_not.mpr rfl), boot, reason, flags, kept]
  simp only [BitVec.ofNat_toNat, BitVec.setWidth_eq]

def blank : Bytes := List.replicate recordSize erased

theorem decode_blank : decode blank = none := by decide

theorem isErased_blank : isErased blank = true := isErased_replicate recordSize

theorem eq_blank_of_isErased {slot : Bytes} (whole : slot.length = recordSize) (clear : isErased slot = true) :
    slot = blank := by
  rw [isErased_iff.mp clear, whole]
  rfl

structure Scan where
  last : Option BootRecord
  records : Nat
  free : Option Nat

def scanFrom : List Bytes → Nat → Option BootRecord → Nat → Bool → Scan
  | [], _, last, records, _ => ⟨last, records, none⟩
  | slot :: rest, i, last, records, retired =>
    match decode slot with
    | some record => scanFrom rest (i + 1) (some record) (records + 1) false
    | none =>
      if isErased slot then ⟨last, records, some (i * recordSize)⟩
      else if retired then ⟨last, records, none⟩
      else scanFrom rest (i + 1) last records true

def scan (page : Bytes) : Scan :=
  scanFrom (slots recordSize (page.length / recordSize) page) 0 none 0 false

structure Plan where
  eraseFirst : Bool
  offset : Nat
  record : BootRecord
  sinceErase : Nat

def plan (page : Bytes) (resetReason : BitVec 32) (retained : Bool) : Plan :=
  let offset := (scan page).free.getD 0
  { eraseFirst := (scan page).free.isNone
    offset := offset
    record :=
      { boot := ((scan page).last.map (fun record => record.boot + 1)).getD 1
        resetReason := resetReason
        retained := retained }
    sinceErase := offset / recordSize + 1 }

/-- The page, the numbers that were ever completely recorded, and how many boots there were. -/
structure BootLog where
  page : Bytes
  recorded : List Nat
  boots : Nat
deriving DecidableEq

def BootLog.new : BootLog := ⟨List.replicate pageSize erased, [], 0⟩

inductive Ending where
  | completes
  | cutErasing (left : Bytes)
  /-- Between the erase and the write. -/
  | cutErased
  | cutWriting (words : Nat) (half : FixedBytes 4)

structure Boot where
  resetReason : BitVec 32
  retained : Bool
  ending : Ending

def BootLog.plan (log : BootLog) (boot : Boot) : Plan :=
  BootCount.plan log.page boot.resetReason boot.retained

/-- The page as the record is written. -/
def BootLog.ready (log : BootLog) (boot : Boot) : Bytes :=
  if (log.plan boot).eraseFirst then List.replicate pageSize erased else log.page

/-- One boot. What a cut leaves half written or half erased does not decode. -/
def BootLog.boot (log : BootLog) (boot : Boot) : Option BootLog :=
  let plan := log.plan boot
  match boot.ending with
  | .completes =>
    some
      { page := splice (log.ready boot) plan.offset (encode plan.record)
        recorded := plan.record.boot.toNat :: log.recorded
        boots := log.boots + 1 }
  | .cutErasing left =>
    if plan.eraseFirst = true ∧ left.length = pageSize ∧ (∀ i < recordsPerPage,
        slice left (i * recordSize) recordSize = slice log.page (i * recordSize) recordSize ∨
          decode (slice left (i * recordSize) recordSize) = none) then
      some { log with page := left, boots := log.boots + 1 }
    else none
  | .cutErased =>
    if plan.eraseFirst = true then some { log with page := log.ready boot, boots := log.boots + 1 } else none
  | .cutWriting words half =>
    let left := torn (encode plan.record) words half
    if 4 * words + 4 ≤ recordSize ∧ decode left = none then
      some { log with page := splice (log.ready boot) plan.offset left, boots := log.boots + 1 }
    else none

/-- What the scan carries past slots that do not end it. -/
def walk : List Bytes → Option BootRecord → Bool → Option (Option BootRecord × Bool)
  | [], last, retired => some (last, retired)
  | slot :: rest, last, retired =>
    match decode slot with
    | some record => walk rest (some record) false
    | none => if isErased slot = true ∨ retired = true then none else walk rest last true

theorem walk_append (front back : List Bytes) (last : Option BootRecord) (retired : Bool) :
    walk (front ++ back) last retired = (walk front last retired).bind (fun carried => walk back carried.1 carried.2) := by
  induction front generalizing last retired with
  | nil => rfl
  | cons slot rest ih =>
    rw [List.cons_append, walk, walk]
    cases decode slot with
    | some record => exact ih _ _
    | none =>
      dsimp only
      split
      · rfl
      · exact ih _ _

theorem scanFrom_walk {front : List Bytes} {last last' : Option BootRecord} {retired retired' : Bool}
    (walked : walk front last retired = some (last', retired')) (back : List Bytes) (i records : Nat) :
    ∃ records', scanFrom (front ++ back) i last records retired =
      scanFrom back (i + front.length) last' records' retired' := by
  induction front generalizing last retired i records with
  | nil =>
    obtain ⟨rfl, rfl⟩ := Prod.mk.inj (Option.some.inj walked)
    exact ⟨records, rfl⟩
  | cons slot rest ih =>
    rw [walk] at walked
    rw [List.cons_append, scanFrom, List.length_cons, Nat.add_comm rest.length, ← Nat.add_assoc]
    cases decoded : decode slot with
    | some record =>
      rw [decoded] at walked
      exact ih walked _ _
    | none =>
      rw [decoded] at walked
      dsimp only at walked ⊢
      split at walked
      · cases walked
      next go =>
        obtain ⟨written, fresh⟩ := not_or.mp go
        rw [if_neg written, if_neg fresh]
        exact ih walked _ _

/-- The page's newest record: either the slots after those in use are erased, or the page is spent. -/
def Holds (page : Bytes) (last : Option BootRecord) : Prop :=
  (∃ used left retired, slots recordSize recordsPerPage page = used ++ List.replicate left blank ∧
    walk used none false = some (last, retired)) ∨
  ((scan page).last = last ∧ (scan page).free = none)

theorem scan_of_walk {page : Bytes} (whole : page.length = pageSize) {used : List Bytes} {left : Nat}
    {last : Option BootRecord} {retired : Bool}
    (cut : slots recordSize recordsPerPage page = used ++ List.replicate left blank)
    (walked : walk used none false = some (last, retired)) :
    (scan page).last = last ∧
      (scan page).free = if left = 0 then none else some (used.length * recordSize) := by
  have scanned : scan page = scanFrom (used ++ List.replicate left blank) 0 none 0 false := by
    rw [scan, whole, ← cut]
    rfl
  obtain ⟨records, same⟩ := scanFrom_walk walked (List.replicate left blank) 0 0
  rw [scanned, same]
  cases left with
  | zero => exact ⟨rfl, rfl⟩
  | succ left =>
    rw [List.replicate_succ, scanFrom, decode_blank]
    dsimp only
    rw [if_pos isErased_blank, Nat.zero_add]
    exact ⟨rfl, (if_neg (Nat.succ_ne_zero left)).symm⟩

theorem Holds.last {page : Bytes} {last : Option BootRecord} (whole : page.length = pageSize)
    (holds : Holds page last) : (scan page).last = last := by
  rcases holds with ⟨used, left, retired, cut, walked⟩ | ⟨same, -⟩
  · exact (scan_of_walk whole cut walked).1
  · exact same

theorem Holds.free {page : Bytes} {last : Option BootRecord} {offset : Nat} (whole : page.length = pageSize)
    (holds : Holds page last) (free : (scan page).free = some offset) :
    ∃ used left retired, slots recordSize recordsPerPage page = used ++ blank :: List.replicate left blank ∧
      walk used none false = some (last, retired) ∧ offset = used.length * recordSize := by
  rcases holds with ⟨used, left, retired, cut, walked⟩ | ⟨-, spent⟩
  · have found := (scan_of_walk whole cut walked).2
    rw [free] at found
    cases left with
    | zero => cases found
    | succ left => exact ⟨used, left, retired, cut, walked, Option.some.inj found⟩
  · rw [free] at spent
    cases spent

theorem length_used {page : Bytes} {used rest : List Bytes} {slot : Bytes}
    (cut : slots recordSize recordsPerPage page = used ++ slot :: rest) : used.length < recordsPerPage := by
  have count := congrArg List.length cut
  rw [length_slots, List.length_append, List.length_cons] at count
  omega

theorem slots_write {page content : Bytes} {used : List Bytes} {left : Nat} (whole : page.length = pageSize)
    (size : content.length = recordSize)
    (cut : slots recordSize recordsPerPage page = used ++ blank :: List.replicate left blank) :
    slots recordSize recordsPerPage (splice page (used.length * recordSize) content) =
      used ++ content :: List.replicate left blank := by
  rw [slots_splice size (length_used cut) (by rw [whole]; decide), cut, List.set_append_right _ _ (Nat.le_refl _),
    Nat.sub_self, List.set_cons_zero]

theorem slots_erased_page :
    slots recordSize recordsPerPage (List.replicate pageSize erased) =
      blank :: List.replicate 255 blank := by
  rw [slots_replicate (by decide)]
  rfl

/-- What the page keeps, while the number of boots fits the counter. -/
structure BootLog.Counts (log : BootLog) (last : Option BootRecord) : Prop where
  whole : log.page.length = pageSize
  holds : Holds log.page last
  none_yet : last = none → log.recorded = []
  newest : ∀ record ∈ last, (∀ n ∈ log.recorded, n ≤ record.boot.toNat) ∧ record.boot.toNat ≤ log.boots

theorem BootLog.plan_boot {log : BootLog} {last : Option BootRecord} (counts : log.Counts last)
    (few : log.boots + 1 < 2 ^ 32) (boot : Boot) :
    (∀ n ∈ log.recorded, n < (log.plan boot).record.boot.toNat) ∧
      (log.plan boot).record.boot.toNat ≤ log.boots + 1 := by
  have planned : (log.plan boot).record.boot = (last.map (fun record => record.boot + 1)).getD 1 := by
    rw [← counts.holds.last counts.whole]
    rfl
  rw [planned]
  cases last with
  | none =>
    rw [counts.none_yet rfl]
    constructor
    · intro n member
      cases member
    · exact Nat.le_add_left 1 log.boots
  | some record =>
    obtain ⟨below, bound⟩ := counts.newest record rfl
    have next : (record.boot + 1).toNat = record.boot.toNat + 1 := by
      rw [BitVec.toNat_add_of_lt]
      · rfl
      · have one : (1 : BitVec 32).toNat = 1 := rfl
        omega
    simp only [Option.map_some, Option.getD_some, next]
    refine ⟨fun n member => ?_, ?_⟩
    · have le := below n member
      omega
    · omega

theorem plan_eraseFirst {log : BootLog} {boot : Boot} :
    (log.plan boot).eraseFirst = true ↔ (scan log.page).free = none := Option.isNone_iff_eq_none

theorem holds_written {page : Bytes} {last : Option BootRecord} {offset : Nat} (whole : page.length = pageSize)
    (holds : Holds page last) (free : (scan page).free = some offset) (record : BootRecord) :
    Holds (splice page offset (encode record)) (some record) := by
  obtain ⟨used, left, retired, cut, walked, rfl⟩ := holds.free whole free
  refine .inl ⟨used ++ [encode record], left, false, ?_, ?_⟩
  · rw [slots_write whole (length_encode record) cut, List.append_assoc]
    rfl
  · rw [walk_append, walked, Option.bind_some, walk, decode_encode]
    rfl

theorem holds_torn {page left : Bytes} {last : Option BootRecord} {offset : Nat} (whole : page.length = pageSize)
    (holds : Holds page last) (free : (scan page).free = some offset) (size : left.length = recordSize)
    (rejected : decode left = none) : Holds (splice page offset left) last := by
  obtain ⟨used, rest, retired, cut, walked, rfl⟩ := holds.free whole free
  have after := slots_write whole size cut
  by_cases clear : isErased left = true
  · refine .inl ⟨used, rest + 1, retired, ?_, walked⟩
    rw [after, eq_blank_of_isErased size clear]
    rfl
  · cases retired with
    | true =>
      -- the second torn slot in a row retires the page
      refine .inr ?_
      obtain ⟨records, same⟩ := scanFrom_walk walked (left :: List.replicate rest blank) 0 0
      have inside : used.length * recordSize + left.length ≤ page.length := by
        have room := @slot_end_le recordSize recordsPerPage used.length (length_used cut)
        have page_size : recordsPerPage * recordSize = pageSize := rfl
        omega
      have scanned : scan (splice page (used.length * recordSize) left) =
          scanFrom (left :: List.replicate rest blank) (0 + used.length) last records true := by
        rw [← same, ← after, scan, length_splice inside, whole]
        rfl
      rw [scanned, scanFrom, rejected]
      dsimp only
      rw [if_neg clear, if_pos rfl]
      exact ⟨rfl, rfl⟩
    | false =>
      refine .inl ⟨used ++ [left], rest, true, ?_, ?_⟩
      · rw [after, List.append_assoc]
        rfl
      · rw [walk_append, walked, Option.bind_some, walk, rejected]
        dsimp only
        rw [if_neg (by simp [clear])]
        rfl

theorem holds_after_erase (record : BootRecord) :
    Holds (splice (List.replicate pageSize erased) 0 (encode record)) (some record) := by
  refine .inl ⟨[encode record], 255, false, ?_, ?_⟩
  · have written := @slots_write (List.replicate pageSize erased) (encode record) [] 255
      List.length_replicate (length_encode record) slots_erased_page
    exact written
  · rw [walk, decode_encode]
    rfl

/-- A boot that erases the page gets its record written. -/
def SparesErase (log : BootLog) (boot : Boot) : Prop :=
  (log.plan boot).eraseFirst = true → boot.ending = .completes

theorem ready_eq_of_free {log : BootLog} {boot : Boot} {offset : Nat} (free : (scan log.page).free = some offset) :
    log.ready boot = log.page ∧ (log.plan boot).offset = offset ∧ (log.plan boot).eraseFirst = false := by
  have kept : (log.plan boot).eraseFirst = false := by
    show (scan log.page).free.isNone = false
    rw [free]
    rfl
  refine ⟨?_, ?_, kept⟩
  · rw [BootLog.ready, kept]
    rfl
  · show (scan log.page).free.getD 0 = offset
    rw [free]
    rfl

theorem ready_eq_of_spent {log : BootLog} {boot : Boot} (spent : (scan log.page).free = none) :
    log.ready boot = List.replicate pageSize erased ∧ (log.plan boot).offset = 0 := by
  refine ⟨if_pos (plan_eraseFirst.mpr spent), ?_⟩
  show (scan log.page).free.getD 0 = 0
  rw [spent]
  rfl

theorem ready_slot {log : BootLog} {last : Option BootRecord} (counts : log.Counts last) (boot : Boot) :
    (log.ready boot).length = pageSize ∧ (log.plan boot).offset + recordSize ≤ pageSize ∧
      isErased (slice (log.ready boot) (log.plan boot).offset recordSize) = true := by
  cases free : (scan log.page).free with
  | none =>
    obtain ⟨ready, offset⟩ := ready_eq_of_spent free
    rw [ready, offset, slice_replicate (by decide)]
    exact ⟨List.length_replicate, by decide, isErased_replicate _⟩
  | some at_ =>
    obtain ⟨ready, offset, -⟩ := ready_eq_of_free free
    obtain ⟨used, left, retired, cut, walked, rfl⟩ := counts.holds.free counts.whole free
    have room := @slot_end_le recordSize recordsPerPage used.length (length_used cut)
    rw [ready, offset]
    refine ⟨counts.whole, room, ?_⟩
    have found : (slots recordSize recordsPerPage log.page)[used.length]? = some blank := by
      rw [cut, List.getElem?_append_right (Nat.le_refl _), Nat.sub_self]
      rfl
    rw [slots, List.getElem?_map, List.getElem?_range (length_used cut)] at found
    have clear : slice log.page (used.length * recordSize) recordSize = blank := Option.some.inj found
    rw [clear]
    exact isErased_blank

theorem BootLog.boot_counts {log log' : BootLog} {boot : Boot}
    (kept : log.boots < 2 ^ 32 → ∃ last, log.Counts last) (spares : SparesErase log boot)
    (stepped : log.boot boot = some log') : log'.boots < 2 ^ 32 → ∃ last, log'.Counts last := by
  intro few
  have counted : log'.boots = log.boots + 1 := by
    unfold BootLog.boot at stepped
    cases ending : boot.ending <;> simp only [ending] at stepped
    all_goals first
      | (obtain rfl := Option.some.inj stepped; rfl)
      | (split at stepped
         · obtain rfl := Option.some.inj stepped
           rfl
         · cases stepped)
  obtain ⟨last, counts⟩ := kept (by omega)
  obtain ⟨fresh, bound⟩ := BootLog.plan_boot counts (by omega) boot
  obtain ⟨length, inside, -⟩ := ready_slot counts boot
  unfold BootLog.boot at stepped
  cases ending : boot.ending with
  | completes =>
    simp only [ending] at stepped
    obtain rfl := Option.some.inj stepped
    refine ⟨some (log.plan boot).record, ?_, ?_, nofun, ?_⟩
    · show (splice _ _ _).length = _
      rw [length_splice (by rw [length_encode, length]; exact inside), length]
    · cases free : (scan log.page).free with
      | none =>
        obtain ⟨ready, offset⟩ := ready_eq_of_spent free
        show Holds (splice (log.ready boot) (log.plan boot).offset _) _
        rw [ready, offset]
        exact holds_after_erase _
      | some at_ =>
        obtain ⟨ready, offset, -⟩ := ready_eq_of_free free
        show Holds (splice (log.ready boot) (log.plan boot).offset _) _
        rw [ready, offset]
        exact holds_written counts.whole counts.holds free _
    · intro record found
      obtain rfl := Option.some.inj found
      refine ⟨fun n member => ?_, bound⟩
      rcases List.mem_cons.mp member with rfl | earlier
      · exact Nat.le_refl _
      · exact Nat.le_of_lt (fresh n earlier)
  | cutErasing left =>
    simp only [ending] at stepped
    split at stepped
    next guard => exact absurd (spares guard.1) (by rw [ending]; nofun)
    next => cases stepped
  | cutErased =>
    simp only [ending] at stepped
    split at stepped
    next guard => exact absurd (spares guard) (by rw [ending]; nofun)
    next => cases stepped
  | cutWriting words half =>
    simp only [ending] at stepped
    split at stepped
    next guard =>
      obtain rfl := Option.some.inj stepped
      have size : (torn (encode (log.plan boot).record) words half).length = recordSize := by
        rw [length_torn (by rw [length_encode]; exact guard.1), length_encode]
      cases free : (scan log.page).free with
      | none => exact absurd (spares (plan_eraseFirst.mpr free)) (by rw [ending]; nofun)
      | some at_ =>
        obtain ⟨ready, offset, -⟩ := ready_eq_of_free free
        refine ⟨last, ?_, ?_, counts.none_yet, ?_⟩
        · show (splice _ _ _).length = _
          rw [length_splice (by rw [size, length]; exact inside), length]
        · show Holds (splice (log.ready boot) (log.plan boot).offset _) _
          rw [ready, offset]
          exact holds_torn counts.whole counts.holds free size guard.2
        · intro record found
          obtain ⟨below, small⟩ := counts.newest record found
          exact ⟨below, Nat.le_succ_of_le small⟩
    next => cases stepped

theorem new_counts : BootLog.new.Counts none where
  whole := List.length_replicate
  holds := .inl ⟨[], 256, false, slots_replicate (by decide) erased, rfl⟩
  none_yet := fun _ => rfl
  newest := fun _ found => nomatch found

/-- In every run of fewer than 2^32 boots, as long as no boot that erases the page is cut, the number a
boot plans is above every number ever recorded, and only erased bytes are programmed. -/
theorem boot_number_fresh {boots : List Boot} {log : BootLog}
    (ran : exec BootLog.boot .new boots = some log) (spared : Along BootLog.boot SparesErase .new boots)
    (few : log.boots + 1 < 2 ^ 32) (boot : Boot) :
    (∀ n ∈ log.recorded, n < (log.plan boot).record.boot.toNat) ∧
      isErased (slice (log.ready boot) (log.plan boot).offset recordSize) = true := by
  have kept : log.boots < 2 ^ 32 → ∃ last, log.Counts last :=
    exec_invariant_along (fun _ _ _ kept spares stepped => BootLog.boot_counts kept spares stepped)
      (fun _ => ⟨none, new_counts⟩) spared ran
  obtain ⟨last, counts⟩ := kept (by omega)
  exact ⟨(BootLog.plan_boot counts few boot).1, (ready_slot counts boot).2.2⟩

/-- The third boot, after one that was recorded and one that was cut while it wrote. -/
theorem boot_number_third :
    ∃ log, exec BootLog.boot .new [⟨0, false, .completes⟩, ⟨0, false, .cutWriting 1 (.replicate 4 erased)⟩] = some log ∧
      log.recorded = [1] ∧ ∀ n ∈ log.recorded, n < (log.plan ⟨0, false, .completes⟩).record.boot.toNat := by
  have numbers : (exec BootLog.boot .new
      [⟨0, false, .completes⟩, ⟨0, false, .cutWriting 1 (.replicate 4 erased)⟩]).map
        (fun log => (log.recorded, log.boots)) = some ([1], 2) := by decide +kernel
  obtain ⟨log, ran, counted⟩ := Option.map_eq_some_iff.mp numbers
  obtain ⟨recorded, count⟩ := Prod.mk.inj counted
  have appends : ∀ first, BootLog.boot .new ⟨0, false, .completes⟩ = some first →
      (first.plan ⟨0, false, .cutWriting 1 (.replicate 4 erased)⟩).eraseFirst = false := by
    have kept : (BootLog.boot .new ⟨0, false, .completes⟩).all
        (fun first => !(first.plan ⟨0, false, .cutWriting 1 (.replicate 4 erased)⟩).eraseFirst) = true := by
      decide +kernel
    intro first booted
    rw [booted] at kept
    exact Bool.not_eq_true' _ |>.mp kept
  have spared : Along BootLog.boot SparesErase .new
      [⟨0, false, .completes⟩, ⟨0, false, .cutWriting 1 (.replicate 4 erased)⟩] := by
    refine ⟨fun _ => rfl, fun first booted => ⟨fun erases => ?_, fun _ _ => trivial⟩⟩
    rw [appends first booted] at erases
    cases erases
  have few : log.boots + 1 < 2 ^ 32 := by
    rw [show log.boots = 2 from count]
    decide
  exact ⟨log, ran, recorded, (boot_number_fresh ran spared few ⟨0, false, .completes⟩).1⟩

/-- Two torn records retire a page, and the power goes between its erase and the write: the count starts
again at one. -/
theorem boot_number_again :
    ∃ log, exec BootLog.boot .new
        [⟨0, false, .completes⟩, ⟨0, false, .cutWriting 1 (.replicate 4 erased)⟩,
          ⟨0, false, .cutWriting 1 (.replicate 4 erased)⟩, ⟨0, false, .cutErased⟩] = some log ∧
      1 ∈ log.recorded ∧ (log.plan ⟨0, false, .completes⟩).record.boot.toNat = 1 := by
  have ran : (exec BootLog.boot .new
      [⟨0, false, .completes⟩, ⟨0, false, .cutWriting 1 (.replicate 4 erased)⟩,
        ⟨0, false, .cutWriting 1 (.replicate 4 erased)⟩, ⟨0, false, .cutErased⟩]).any (fun log =>
      1 ∈ log.recorded ∧ (log.plan ⟨0, false, .completes⟩).record.boot.toNat = 1) = true := by decide +kernel
  obtain ⟨log, run, numbers⟩ := (Option.any_eq_true _ _).mp ran
  exact ⟨log, run, of_decide_eq_true numbers⟩

end Leviculum.Board.BootCount
