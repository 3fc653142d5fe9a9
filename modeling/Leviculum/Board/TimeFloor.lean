import Leviculum.Lib.Execution
import Leviculum.Lib.NorFlash

/-! The ring of flash pages that keeps the learned calendar: where the newest record is, where the
next one goes, and what holds on the ring through every power cut. -/

namespace Leviculum.Board.TimeFloor

open NorFlash Execution

def pageSize : Nat := 4096

def recordSize : Nat := 20

def recordsPerPage : Nat := pageSize / recordSize

def magic : Nat := 0x71E3F10A

def formatVersion : UInt8 := 1

structure Record where
  seq : BitVec 32
  value : BitVec 64
deriving DecidableEq

def Record.body (record : Record) : Bytes :=
  Bytes.le 4 magic ++ Bytes.le 4 record.seq.toNat ++ Bytes.le 8 record.value.toNat ++ [formatVersion, 0]

def encode (record : Record) : Bytes :=
  record.body ++ Bytes.le 2 (crc16 record.body).toNat

def decode (slot : Bytes) : Option Record :=
  if slot.length < recordSize then none
  else if ofLe (slice slot 0 4) ≠ magic then none
  else if slot.getD 16 0 ≠ formatVersion then none
  else if (crc16 (slice slot 0 18)).toNat ≠ ofLe (slice slot 18 2) then none
  else some
    { seq := .ofNat 32 (ofLe (slice slot 4 4))
      value := .ofNat 64 (ofLe (slice slot 8 8)) }

theorem length_encode (record : Record) : (encode record).length = recordSize := by
  simp only [encode, Record.body, List.length_append, Bytes.length_le, List.length_cons, List.length_nil]
  rfl

theorem decode_encode (record : Record) : decode (encode record) = some record := by
  have covered : slice (encode record) 0 18 = record.body := rfl
  have sum : ofLe (slice (encode record) 18 2) = (crc16 record.body).toNat := by
    have bytes : slice (encode record) 18 2 = Bytes.le 2 (crc16 record.body).toNat := rfl
    rw [bytes, ofLe_le]
    exact Nat.mod_eq_of_lt (crc16 record.body).toNat_lt
  have start : ofLe (slice (encode record) 0 4) = magic := by
    have bytes : slice (encode record) 0 4 = Bytes.le 4 magic := rfl
    rw [bytes, ofLe_le]
    rfl
  have seq : ofLe (slice (encode record) 4 4) = record.seq.toNat := by
    have bytes : slice (encode record) 4 4 = Bytes.le 4 record.seq.toNat := rfl
    rw [bytes, ofLe_le]
    exact Nat.mod_eq_of_lt record.seq.isLt
  have value : ofLe (slice (encode record) 8 8) = record.value.toNat := by
    have bytes : slice (encode record) 8 8 = Bytes.le 8 record.value.toNat := rfl
    rw [bytes, ofLe_le]
    exact Nat.mod_eq_of_lt record.value.isLt
  have version : (encode record).getD 16 0 = formatVersion := rfl
  unfold decode
  rw [if_neg (by rw [length_encode]; exact Nat.lt_irrefl _), if_neg (not_not.mpr start),
    if_neg (not_not.mpr version), covered, sum, if_neg (not_not.mpr rfl), seq, value]
  simp only [BitVec.ofNat_toNat, BitVec.setWidth_eq]

theorem decode_erased {slot : Bytes} (clear : isErased slot = true) : decode slot = none := by
  unfold decode
  split
  · rfl
  next long =>
    have fill : slice slot 0 4 = List.replicate 4 erased := by
      rw [isErased_iff.mp clear]
      exact slice_replicate (by have : recordSize = 20 := rfl; omega) erased
    rw [fill]
    exact if_pos (by decide)

section Newest

variable {α : Type} (key : α → Nat)

/-- A candidate takes the place of the best so far when its key is greater. -/
def keepNewer (best : Option α) (candidate : α) : Option α :=
  if best.all (fun b => key b < key candidate) then some candidate else best

variable {key}

theorem foldl_keepNewer {l : List α} {best : Option α} {kept : α}
    (folded : l.foldl (keepNewer key) best = some kept) :
    (kept ∈ l ∨ best = some kept) ∧ (∀ b ∈ l, key b ≤ key kept) ∧ ∀ b ∈ best, key b ≤ key kept := by
  induction l generalizing best with
  | nil =>
    have same : best = some kept := folded
    subst same
    refine ⟨.inr rfl, ?_, ?_⟩
    · intro b member
      cases member
    intro b found
    obtain rfl := Option.some.inj found
    exact Nat.le_refl _
  | cons candidate rest ih =>
    obtain ⟨place, above, least⟩ := ih folded
    unfold keepNewer at place least
    by_cases greater : best.all (fun b => key b < key candidate) = true
    · rw [if_pos greater] at place least
      have own := least candidate rfl
      refine ⟨?_, ?_, ?_⟩
      · rcases place with later | same
        · exact .inl (List.mem_cons_of_mem _ later)
        · exact .inl (Option.some.inj same ▸ List.mem_cons_self ..)
      · intro b member
        rcases List.mem_cons.mp member with rfl | later
        · exact own
        · exact above b later
      · rintro b rfl
        have less : key b < key candidate := of_decide_eq_true greater
        omega
    · rw [if_neg greater] at place least
      have own : key candidate ≤ key kept := by
        cases best with
        | none => exact absurd rfl greater
        | some b =>
          have top := least b rfl
          have less : ¬ key b < key candidate := fun less => greater (decide_eq_true less)
          omega
      refine ⟨place.imp_left (List.mem_cons_of_mem _), ?_, least⟩
      intro b member
      rcases List.mem_cons.mp member with rfl | later
      · exact own
      · exact above b later

theorem foldl_keepNewer_eq_none {l : List α} {best : Option α}
    (folded : l.foldl (keepNewer key) best = none) : l = [] ∧ best = none := by
  induction l generalizing best with
  | nil => exact ⟨rfl, folded⟩
  | cons candidate rest ih =>
    have kept := (ih folded).2
    unfold keepNewer at kept
    split at kept
    · cases kept
    next greater =>
      rw [kept] at greater
      exact absurd rfl greater

end Newest

structure PageScan where
  newest : Option Record
  free : Option Nat
  blank : Bool

def lastUsed (slots : List Bytes) : Option Nat :=
  slots.zipIdx.foldl (fun last entry => if isErased entry.1 then last else some entry.2) none

def scanPage (page : Bytes) : PageScan :=
  let slots := slots recordSize recordsPerPage page
  { newest := (slots.filterMap decode).foldl (keepNewer (fun record => record.seq.toNat)) none
    free :=
      match lastUsed slots with
      | none => some 0
      | some i => if i + 1 < recordsPerPage then some ((i + 1) * recordSize) else none
    blank := isErased page }

structure Newest where
  record : Record
  page : Nat
deriving DecidableEq

def pagesOf (region : Bytes) : List Bytes := slots pageSize (region.length / pageSize) region

def newest (region : Bytes) : Option Newest :=
  ((pagesOf region).zipIdx.filterMap (fun entry =>
    (scanPage entry.1).newest.map (fun record => ⟨record, entry.2⟩))).foldl
      (keepNewer (fun n => n.record.seq.toNat)) none

structure Plan where
  erasePage : Option Nat
  offset : Nat
  record : Record

def pageOf (region : Bytes) (page : Nat) : Bytes := slice region (page * pageSize) pageSize

def plan (region : Bytes) (value : BitVec 64) : Option Plan :=
  let pages := region.length / pageSize
  if pages < 2 ∨ region.length % pageSize ≠ 0 then none
  else
    let record : Record := { seq := ((newest region).map (fun n => n.record.seq + 1)).getD 1, value := value }
    let current := ((newest region).map Newest.page).getD 0
    match (scanPage (pageOf region current)).free with
    | some free => some ⟨none, current * pageSize + free, record⟩
    | none =>
      let next := (current + 1) % pages
      some ⟨if (scanPage (pageOf region next)).blank then none else some next, next * pageSize, record⟩

/-- The ring, the last checkpoint whose write completed, and how many there were. -/
structure Ring where
  region : Bytes
  last : Option Record
  checkpoints : Nat

def Ring.new (pages : Nat) : Ring := ⟨List.replicate (pages * pageSize) erased, none, 0⟩

inductive Ending where
  | completes
  | cutErasing (left : Bytes)
  /-- Between the erase and the write. -/
  | cutErased
  | cutWriting (words : Nat) (half : FixedBytes 4)

structure Checkpoint where
  value : BitVec 64
  ending : Ending

/-- The region as the record is written. -/
def Ring.ready (ring : Ring) (plan : Plan) : Bytes :=
  match plan.erasePage with
  | none => ring.region
  | some page => splice ring.region (page * pageSize) (List.replicate pageSize erased)

/-- A checkpoint that follows its plan. What a cut leaves half written or half erased does not decode. -/
def Ring.follow (ring : Ring) (plan : Plan) : Ending → Option Ring
  | .completes =>
    some
      { region := splice (ring.ready plan) plan.offset (encode plan.record)
        last := some plan.record
        checkpoints := ring.checkpoints + 1 }
  | .cutErasing left =>
    plan.erasePage.bind (fun page =>
      if left.length = pageSize ∧ (∀ i < recordsPerPage,
          slice left (i * recordSize) recordSize = slice ring.region (page * pageSize + i * recordSize) recordSize ∨
            decode (slice left (i * recordSize) recordSize) = none) then
        some { ring with region := splice ring.region (page * pageSize) left, checkpoints := ring.checkpoints + 1 }
      else none)
  | .cutErased =>
    if plan.erasePage.isSome then
      some { ring with region := ring.ready plan, checkpoints := ring.checkpoints + 1 }
    else none
  | .cutWriting words half =>
    let left := torn (encode plan.record) words half
    if 4 * words + 4 ≤ recordSize ∧ decode left = none then
      some { ring with region := splice (ring.ready plan) plan.offset left, checkpoints := ring.checkpoints + 1 }
    else none

def Ring.checkpoint (ring : Ring) (checkpoint : Checkpoint) : Option Ring :=
  (plan ring.region checkpoint.value).bind (fun plan => ring.follow plan checkpoint.ending)

def slotAt (region : Bytes) (page i : Nat) : Bytes :=
  slice region (page * pageSize + i * recordSize) recordSize

theorem slot_within_page {i : Nat} (below : i < recordsPerPage) : i * recordSize + recordSize ≤ pageSize := by
  have room := @slot_end_le recordSize recordsPerPage i below
  have fits : recordsPerPage * recordSize ≤ pageSize := by decide
  omega

theorem slots_pageOf (region : Bytes) (page : Nat) :
    slots recordSize recordsPerPage (pageOf region page) = (List.range recordsPerPage).map (slotAt region page) := by
  refine List.map_congr_left (fun i member => ?_)
  exact slice_slice (slot_within_page (List.mem_range.mp member))

theorem mem_decoded {region : Bytes} {page : Nat} {record : Record} :
    record ∈ (slots recordSize recordsPerPage (pageOf region page)).filterMap decode ↔
      ∃ i < recordsPerPage, decode (slotAt region page i) = some record := by
  rw [slots_pageOf, List.mem_filterMap]
  constructor
  · rintro ⟨slot, member, decoded⟩
    obtain ⟨i, below, rfl⟩ := List.mem_map.mp member
    exact ⟨i, List.mem_range.mp below, decoded⟩
  · rintro ⟨i, below, decoded⟩
    exact ⟨_, List.mem_map_of_mem (List.mem_range.mpr below), decoded⟩

def OnFlash (region : Bytes) (pages : Nat) (record : Record) : Prop :=
  ∃ page < pages, ∃ i < recordsPerPage, decode (slotAt region page i) = some record

theorem length_div {region : Bytes} {pages : Nat} (whole : region.length = pages * pageSize) :
    region.length / pageSize = pages := by
  rw [whole, Nat.mul_div_cancel _ (by decide)]

theorem mem_candidates {region : Bytes} {pages : Nat} (whole : region.length = pages * pageSize) {n : Newest} :
    n ∈ (pagesOf region).zipIdx.filterMap (fun entry =>
        (scanPage entry.1).newest.map (fun record => (⟨record, entry.2⟩ : Newest))) ↔
      n.page < pages ∧ (scanPage (pageOf region n.page)).newest = some n.record := by
  have count : (pagesOf region).length = pages := by rw [pagesOf, length_slots, length_div whole]
  have at_ : ∀ page < pages, (pagesOf region)[page]? = some (pageOf region page) := by
    intro page below
    rw [pagesOf, slots, length_div whole, List.getElem?_map, List.getElem?_range below]
    rfl
  rw [List.mem_filterMap]
  constructor
  · rintro ⟨⟨bytes, page⟩, member, found⟩
    have inside := List.mem_zipIdx_iff_getElem?.mp member
    obtain ⟨record, scanned, rfl⟩ := Option.map_eq_some_iff.mp found
    have below : page < pages := by
      rw [← count]
      exact (List.getElem?_eq_some_iff.mp inside).1
    have same : pageOf region page = bytes := Option.some.inj ((at_ page below).symm.trans inside)
    exact ⟨below, same ▸ scanned⟩
  · rintro ⟨below, scanned⟩
    refine ⟨(pageOf region n.page, n.page), List.mem_zipIdx_iff_getElem?.mpr (at_ n.page below), ?_⟩
    rw [scanned]
    rfl

theorem newest_eq_some {region : Bytes} {pages : Nat} {n : Newest} (whole : region.length = pages * pageSize)
    (found : newest region = some n) :
    n.page < pages ∧ (∃ i < recordsPerPage, decode (slotAt region n.page i) = some n.record) ∧
      ∀ record, OnFlash region pages record → record.seq.toNat ≤ n.record.seq.toNat := by
  obtain ⟨place, above, -⟩ := foldl_keepNewer found
  obtain ⟨below, scanned⟩ := (mem_candidates whole).mp (place.resolve_right (fun none => nomatch none))
  obtain ⟨inPage, -, -⟩ := foldl_keepNewer scanned
  refine ⟨below, mem_decoded.mp (inPage.resolve_right (fun none => nomatch none)), ?_⟩
  rintro record ⟨page, belowPages, slot⟩
  cases best : (scanPage (pageOf region page)).newest with
  | none =>
    have empty := (foldl_keepNewer_eq_none best).1
    have member := mem_decoded.mpr slot
    rw [empty] at member
    cases member
  | some top =>
    have pageTop := (foldl_keepNewer best).2.1 record (mem_decoded.mpr slot)
    have ringTop := above ⟨top, page⟩ ((mem_candidates whole).mpr ⟨belowPages, best⟩)
    exact Nat.le_trans pageTop ringTop

theorem newest_eq_none {region : Bytes} {pages : Nat} (whole : region.length = pages * pageSize)
    (found : newest region = none) (record : Record) : ¬ OnFlash region pages record := by
  rintro ⟨page, below, slot⟩
  have empty := (foldl_keepNewer_eq_none found).1
  cases best : (scanPage (pageOf region page)).newest with
  | none =>
    have member := mem_decoded.mpr slot
    rw [(foldl_keepNewer_eq_none best).1] at member
    cases member
  | some top =>
    have member := (@mem_candidates region pages whole ⟨top, page⟩).mpr ⟨below, best⟩
    rw [empty] at member
    cases member

theorem foldl_lastUsed (slots : List Bytes) (k : Nat) (last : Option Nat) (early : ∀ m ∈ last, m < k) :
    let result := (slots.zipIdx k).foldl (fun last entry => if isErased entry.1 then last else some entry.2) last
    (∀ m ∈ last, ∃ i, result = some i ∧ m ≤ i) ∧
    (∀ j slot, slots[j]? = some slot → isErased slot = false → ∃ i, result = some i ∧ k + j ≤ i) := by
  induction slots generalizing k last with
  | nil => exact ⟨fun m found => ⟨m, found, Nat.le_refl _⟩, fun _ _ found => nomatch found⟩
  | cons first rest ih =>
    dsimp only
    rw [List.zipIdx_cons, List.foldl_cons]
    by_cases clear : isErased first = true
    · rw [if_pos clear]
      obtain ⟨kept, used⟩ := ih (k + 1) last (fun m found => Nat.lt_succ_of_lt (early m found))
      refine ⟨kept, ?_⟩
      intro j slot found written
      cases j with
      | zero =>
        obtain rfl : first = slot := Option.some.inj found
        rw [clear] at written
        cases written
      | succ j =>
        obtain ⟨i, result, above⟩ := used j slot found written
        exact ⟨i, result, by omega⟩
    · rw [if_neg clear]
      obtain ⟨kept, used⟩ := ih (k + 1) (some k) (fun m found => by obtain rfl := Option.some.inj found; omega)
      obtain ⟨top, result, above⟩ := kept k rfl
      refine ⟨fun m found => ⟨top, result, by have := early m found; omega⟩, ?_⟩
      intro j slot found written
      cases j with
      | zero => exact ⟨top, result, above⟩
      | succ j =>
        obtain ⟨i, other, higher⟩ := used j slot found written
        exact ⟨i, other, by omega⟩

theorem isErased_after_lastUsed {slots : List Bytes} {j : Nat} {slot : Bytes} (found : slots[j]? = some slot)
    (after : ∀ i ∈ lastUsed slots, i < j) : isErased slot = true := by
  by_contra written
  obtain ⟨-, used⟩ := foldl_lastUsed slots 0 none (fun _ none => nomatch none)
  obtain ⟨i, result, above⟩ := used j slot found (Bool.eq_false_iff.mpr written)
  have below := after i result
  omega

theorem scanPage_free {region : Bytes} {page free : Nat} (found : (scanPage (pageOf region page)).free = some free) :
    ∃ i < recordsPerPage, free = i * recordSize ∧ isErased (slotAt region page i) = true := by
  have at_ : ∀ i < recordsPerPage,
      (slots recordSize recordsPerPage (pageOf region page))[i]? = some (slotAt region page i) := by
    intro i below
    rw [slots_pageOf, List.getElem?_map, List.getElem?_range below]
    rfl
  have scanned : (match lastUsed (slots recordSize recordsPerPage (pageOf region page)) with
      | none => some 0
      | some i => if i + 1 < recordsPerPage then some ((i + 1) * recordSize) else none) = some free := found
  cases last : lastUsed (slots recordSize recordsPerPage (pageOf region page)) with
  | none =>
    rw [last] at scanned
    obtain rfl := Option.some.inj scanned
    refine ⟨0, by decide, (Nat.zero_mul _).symm, isErased_after_lastUsed (at_ 0 (by decide)) ?_⟩
    intro i found
    rw [last] at found
    cases found
  | some i =>
    rw [last] at scanned
    dsimp only at scanned
    split at scanned
    next below =>
      obtain rfl := Option.some.inj scanned
      refine ⟨i + 1, below, rfl, isErased_after_lastUsed (at_ (i + 1) below) ?_⟩
      intro j found
      rw [last] at found
      obtain rfl := Option.some.inj found
      omega
    next => cases scanned

theorem isErased_slice {bytes : Bytes} (clear : isErased bytes = true) (start len : Nat) :
    isErased (slice bytes start len) = true := by
  unfold isErased at clear ⊢
  rw [List.all_eq_true] at clear ⊢
  exact fun byte member => clear byte (List.mem_of_mem_drop (List.mem_of_mem_take member))

/-- A checkpoint's plan: an erased slot, or the first slot of a page that is erased first and does not
hold the newest record. -/
structure Sane (region : Bytes) (pages : Nat) (plan : Plan) : Prop where
  seq : plan.record.seq = ((newest region).map (fun n => n.record.seq + 1)).getD 1
  place : ∃ page < pages, ∃ i < recordsPerPage, plan.offset = page * pageSize + i * recordSize ∧
    ((plan.erasePage = none ∧ isErased (slotAt region page i) = true) ∨
      (plan.erasePage = some page ∧ i = 0 ∧ ∀ n ∈ newest region, n.page ≠ page))

theorem plan_sane {region : Bytes} {pages : Nat} (two : 2 ≤ pages) (whole : region.length = pages * pageSize)
    (value : BitVec 64) : ∃ planned, plan region value = some planned ∧ Sane region pages planned := by
  unfold plan
  rw [length_div whole]
  have accepted : ¬ (pages < 2 ∨ region.length % pageSize ≠ 0) := by
    rw [whole, Nat.mul_mod_left]
    omega
  dsimp only
  rw [if_neg accepted]
  obtain ⟨current, named⟩ : ∃ current, current = ((newest region).map Newest.page).getD 0 := ⟨_, rfl⟩
  rw [← named]
  have currentBelow : current < pages := by
    rw [named]
    cases found : newest region with
    | none => exact Nat.lt_of_lt_of_le (by decide) two
    | some n => exact (newest_eq_some whole found).1
  cases free : (scanPage (pageOf region current)).free with
  | some at_ =>
    obtain ⟨i, below, rfl, clear⟩ := scanPage_free free
    exact ⟨_, rfl, rfl, current, currentBelow, i, below, rfl, .inl ⟨rfl, clear⟩⟩
  | none =>
    have nextBelow : (current + 1) % pages < pages := Nat.mod_lt _ (by omega)
    refine ⟨_, rfl, rfl, (current + 1) % pages, nextBelow, 0, by decide, ?_, ?_⟩
    · dsimp only
      omega
    dsimp only
    cases blank : (scanPage (pageOf region ((current + 1) % pages))).blank with
    | true =>
      refine .inl ⟨rfl, ?_⟩
      have part : slotAt region ((current + 1) % pages) 0 =
          slice (pageOf region ((current + 1) % pages)) (0 * recordSize) recordSize :=
        (slice_slice (slot_within_page (by decide))).symm
      rw [part]
      exact isErased_slice blank _ _
    | false =>
      refine .inr ⟨rfl, rfl, ?_⟩
      intro n found same
      have here : current = n.page := by
        rw [named, found]
        rfl
      rw [← here] at same
      by_cases last : current + 1 < pages
      · rw [Nat.mod_eq_of_lt last] at same
        omega
      · have wraps : current + 1 = pages := by omega
        rw [wraps, Nat.mod_self] at same
        omega

theorem slot_within {region : Bytes} {pages page i : Nat} (whole : region.length = pages * pageSize)
    (below : page < pages) (slot : i < recordsPerPage) :
    page * pageSize + i * recordSize + recordSize ≤ region.length := by
  have inPage := slot_within_page slot
  have inRing := @slot_end_le pageSize pages page below
  omega

theorem slotAt_splice_page {region left : Bytes} {pages page other i : Nat}
    (whole : region.length = pages * pageSize) (below : page < pages) (size : left.length = pageSize)
    (slot : i < recordsPerPage) :
    slotAt (splice region (page * pageSize) left) other i =
      if other = page then slice left (i * recordSize) recordSize else slotAt region other i := by
  have inside : page * pageSize + left.length ≤ region.length := by
    have inRing := @slot_end_le pageSize pages page below
    omega
  have inPage := slot_within_page slot
  split
  next same =>
    subst same
    have self := slice_splice_self inside
    rw [size] at self
    rw [slotAt, ← slice_slice inPage, self]
  next different =>
    refine slice_splice_apart inside ?_
    rw [size]
    rcases @slots_apart pageSize page other (Ne.symm different) with before | after
    · exact .inl (by omega)
    · exact .inr (by omega)

theorem slotAt_splice_slot {region content : Bytes} {pages page other i j : Nat}
    (whole : region.length = pages * pageSize) (below : page < pages) (slot : i < recordsPerPage)
    (size : content.length = recordSize) (inOther : j < recordsPerPage) :
    slotAt (splice region (page * pageSize + i * recordSize) content) other j =
      if other = page ∧ j = i then content else slotAt region other j := by
  have inside : page * pageSize + i * recordSize + content.length ≤ region.length := by
    have := slot_within whole below slot
    omega
  have inPage := slot_within_page slot
  have otherInPage := slot_within_page inOther
  split
  next same =>
    obtain ⟨rfl, rfl⟩ := same
    have self := slice_splice_self inside
    rwa [size] at self
  next different =>
    refine slice_splice_apart inside ?_
    rw [size]
    by_cases samePage : other = page
    · subst samePage
      have distinct : i ≠ j := fun equal => different ⟨rfl, equal.symm⟩
      rcases @slots_apart recordSize i j distinct with before | after
      · exact .inl (by omega)
      · exact .inr (by omega)
    · rcases @slots_apart pageSize page other (Ne.symm samePage) with before | after
      · exact .inl (by omega)
      · exact .inr (by omega)

/-- The last completed checkpoint is on the flash, and nothing else there is as new. -/
structure Holds (pages : Nat) (region : Bytes) (last : Option Record) : Prop where
  whole : region.length = pages * pageSize
  present : ∀ record ∈ last, OnFlash region pages record
  oldest : ∀ record, OnFlash region pages record →
    ∃ kept ∈ last, record = kept ∨ record.seq.toNat < kept.seq.toNat

theorem Holds.newest_eq {pages : Nat} {region : Bytes} {last : Option Record} (holds : Holds pages region last) :
    (newest region).map Newest.record = last := by
  cases found : newest region with
  | none =>
    cases last with
    | none => rfl
    | some kept => exact absurd (holds.present kept rfl) (newest_eq_none holds.whole found kept)
  | some n =>
    obtain ⟨below, slot, top⟩ := newest_eq_some holds.whole found
    obtain ⟨kept, same, newer⟩ := holds.oldest n.record ⟨n.page, below, slot⟩
    have above := top kept (holds.present kept same)
    rw [Option.map_some, newer.resolve_right (by omega)]
    exact same.symm

theorem Holds.in_newest_page {pages : Nat} {region : Bytes} {last : Option Record} (holds : Holds pages region last)
    {kept : Record} (found : kept ∈ last) :
    ∃ n ∈ newest region, n.page < pages ∧ ∃ i < recordsPerPage, decode (slotAt region n.page i) = some kept := by
  have same := holds.newest_eq
  rw [found] at same
  obtain ⟨n, here, rfl⟩ := Option.map_eq_some_iff.mp same
  obtain ⟨below, slot, -⟩ := newest_eq_some holds.whole here
  exact ⟨n, here, below, slot⟩

theorem Holds.erase {pages page : Nat} {region left : Bytes} {last : Option Record}
    (holds : Holds pages region last) (below : page < pages) (size : left.length = pageSize)
    (other : ∀ n ∈ newest region, n.page ≠ page)
    (rejected : ∀ i < recordsPerPage, slice left (i * recordSize) recordSize = slotAt region page i ∨
      decode (slice left (i * recordSize) recordSize) = none) :
    Holds pages (splice region (page * pageSize) left) last := by
  have inside : page * pageSize + left.length ≤ region.length := by
    have inRing := @slot_end_le pageSize pages page below
    rw [holds.whole]
    omega
  refine ⟨(length_splice inside).trans holds.whole, ?_, ?_⟩
  · intro kept found
    obtain ⟨n, newest, inRing, i, slot, decoded⟩ := holds.in_newest_page found
    refine ⟨n.page, inRing, i, slot, ?_⟩
    rw [slotAt_splice_page holds.whole below size slot, if_neg (other n newest)]
    exact decoded
  · rintro record ⟨q, inRing, i, slot, decoded⟩
    refine holds.oldest record ⟨q, inRing, i, slot, ?_⟩
    rw [slotAt_splice_page holds.whole below size slot] at decoded
    split at decoded
    next same =>
      subst same
      rcases rejected i slot with same | none
      · rwa [← same]
      · rw [none] at decoded
        cases decoded
    next => exact decoded

section Write

variable {pages page i : Nat} {region content : Bytes} {last : Option Record} (holds : Holds pages region last)
  (below : page < pages) (slot : i < recordsPerPage) (clear : isErased (slotAt region page i) = true)
  (size : content.length = recordSize)

include holds below slot size

theorem Holds.length_write : (splice region (page * pageSize + i * recordSize) content).length = pages * pageSize := by
  rw [length_splice, holds.whole]
  rw [size]
  exact slot_within holds.whole below slot

include clear

theorem Holds.onFlash_write {record : Record} :
    OnFlash (splice region (page * pageSize + i * recordSize) content) pages record ↔
      decode content = some record ∨ OnFlash region pages record := by
  constructor
  · rintro ⟨q, inRing, j, inPage, decoded⟩
    rw [slotAt_splice_slot holds.whole below slot size inPage] at decoded
    split at decoded
    · exact .inl decoded
    · exact .inr ⟨q, inRing, j, inPage, decoded⟩
  · rintro (decoded | ⟨q, inRing, j, inPage, decoded⟩)
    · refine ⟨page, below, i, slot, ?_⟩
      rw [slotAt_splice_slot holds.whole below slot size slot, if_pos ⟨rfl, rfl⟩]
      exact decoded
    · refine ⟨q, inRing, j, inPage, ?_⟩
      rw [slotAt_splice_slot holds.whole below slot size inPage, if_neg]
      · exact decoded
      · rintro ⟨rfl, rfl⟩
        rw [decode_erased clear] at decoded
        cases decoded

theorem Holds.write_torn (rejected : decode content = none) :
    Holds pages (splice region (page * pageSize + i * recordSize) content) last := by
  refine ⟨holds.length_write below slot size, ?_, ?_⟩
  · exact fun record found => (holds.onFlash_write below slot clear size).mpr (.inr (holds.present record found))
  · intro record found
    rcases (holds.onFlash_write below slot clear size).mp found with written | earlier
    · rw [rejected] at written
      cases written
    · exact holds.oldest record earlier

theorem Holds.write_record {record : Record} (written : decode content = some record)
    (newer : ∀ kept ∈ last, kept.seq.toNat < record.seq.toNat) :
    Holds pages (splice region (page * pageSize + i * recordSize) content) (some record) := by
  refine ⟨holds.length_write below slot size, ?_, ?_⟩
  · intro same found
    obtain rfl := Option.some.inj found
    exact (holds.onFlash_write below slot clear size).mpr (.inl written)
  · intro other found
    refine ⟨record, rfl, ?_⟩
    rcases (holds.onFlash_write below slot clear size).mp found with again | earlier
    · exact .inl (Option.some.inj (again.symm.trans written))
    · obtain ⟨kept, same, order⟩ := holds.oldest other earlier
      have above := newer kept same
      rcases order with rfl | older
      · exact .inr above
      · exact .inr (Nat.lt_trans older above)

end Write

theorem Holds.ready {pages : Nat} {ring : Ring} {plan : Plan} (holds : Holds pages ring.region ring.last)
    (sane : Sane ring.region pages plan) :
    Holds pages (ring.ready plan) ring.last ∧
      ∃ page < pages, ∃ i < recordsPerPage, plan.offset = page * pageSize + i * recordSize ∧
        isErased (slotAt (ring.ready plan) page i) = true := by
  obtain ⟨page, below, i, slot, offset, kept | ⟨erases, -, other⟩⟩ := sane.place
  · have same : ring.ready plan = ring.region := by
      unfold Ring.ready
      rw [kept.1]
    rw [same]
    exact ⟨holds, page, below, i, slot, offset, kept.2⟩
  · have same : ring.ready plan = splice ring.region (page * pageSize) (List.replicate pageSize erased) := by
      unfold Ring.ready
      rw [erases]
    have blank : ∀ j < recordsPerPage,
        isErased (slice (List.replicate pageSize erased) (j * recordSize) recordSize) = true :=
      fun j _ => isErased_slice (isErased_replicate _) _ _
    rw [same]
    refine ⟨holds.erase below List.length_replicate other (fun j inPage => .inr (decode_erased (blank j inPage))), ?_⟩
    refine ⟨page, below, i, slot, offset, ?_⟩
    rw [slotAt_splice_page holds.whole below List.length_replicate slot, if_pos rfl]
    exact blank i slot

theorem Holds.seq {pages : Nat} {ring : Ring} {plan : Plan} (holds : Holds pages ring.region ring.last)
    (sane : Sane ring.region pages plan) (counted : ∀ record ∈ ring.last, record.seq.toNat ≤ ring.checkpoints)
    (few : ring.checkpoints + 1 < 2 ^ 32) :
    (∀ kept ∈ ring.last, kept.seq.toNat < plan.record.seq.toNat) ∧ plan.record.seq.toNat ≤ ring.checkpoints + 1 := by
  have next : plan.record.seq = (ring.last.map (fun record => record.seq + 1)).getD 1 := by
    rw [sane.seq, ← holds.newest_eq, Option.map_map]
    rfl
  rw [next]
  cases last : ring.last with
  | none =>
    refine ⟨?_, Nat.le_add_left 1 ring.checkpoints⟩
    intro kept found
    cases found
  | some record =>
    have bound := counted record last
    have one : (1 : BitVec 32).toNat = 1 := rfl
    have succ : (record.seq + 1).toNat = record.seq.toNat + 1 := by
      rw [BitVec.toNat_add_of_lt (by omega)]
      rfl
    rw [Option.map_some, Option.getD_some, succ]
    refine ⟨?_, by omega⟩
    intro kept found
    obtain rfl := Option.some.inj found
    exact Nat.lt_succ_self _

/-- What holds of the ring while the number of checkpoints fits the sequence number. -/
def Ring.Sound (pages : Nat) (ring : Ring) : Prop :=
  ring.checkpoints < 2 ^ 32 →
    Holds pages ring.region ring.last ∧ ∀ record ∈ ring.last, record.seq.toNat ≤ ring.checkpoints

theorem Ring.follow_checkpoints {ring ring' : Ring} {plan : Plan} {ending : Ending}
    (followed : ring.follow plan ending = some ring') : ring'.checkpoints = ring.checkpoints + 1 := by
  unfold Ring.follow at followed
  cases ending with
  | completes =>
    obtain rfl := Option.some.inj followed
    rfl
  | cutErasing left =>
    obtain ⟨page, -, guarded⟩ := Option.bind_eq_some_iff.mp followed
    obtain ⟨-, result⟩ := Option.ite_none_right_eq_some.mp guarded
    obtain rfl := Option.some.inj result
    rfl
  | cutErased =>
    obtain ⟨-, result⟩ := Option.ite_none_right_eq_some.mp followed
    obtain rfl := Option.some.inj result
    rfl
  | cutWriting words half =>
    obtain ⟨-, result⟩ := Option.ite_none_right_eq_some.mp followed
    obtain rfl := Option.some.inj result
    rfl

theorem Ring.follow_sound {pages : Nat} {ring ring' : Ring} {plan : Plan} {ending : Ending}
    (sound : ring.Sound pages) (sane : Sane ring.region pages plan)
    (followed : ring.follow plan ending = some ring') : ring'.Sound pages := by
  intro few
  have counts := Ring.follow_checkpoints followed
  obtain ⟨holds, counted⟩ := sound (by omega)
  obtain ⟨above, bound⟩ := holds.seq sane counted (by omega)
  obtain ⟨ready, page, below, i, slot, offset, clear⟩ := holds.ready sane
  have later : ∀ record ∈ ring.last, record.seq.toNat ≤ ring'.checkpoints := by
    intro record found
    have := counted record found
    omega
  unfold Ring.follow at followed
  cases ending with
  | completes =>
    obtain rfl := Option.some.inj followed
    refine ⟨?_, ?_⟩
    · dsimp only
      rw [offset]
      exact ready.write_record below slot clear (length_encode _) (decode_encode _) above
    · intro record found
      obtain rfl := Option.some.inj found
      exact bound
  | cutErasing left =>
    obtain ⟨erased, erases, guarded⟩ := Option.bind_eq_some_iff.mp followed
    obtain ⟨⟨size, rejected⟩, result⟩ := Option.ite_none_right_eq_some.mp guarded
    obtain rfl := Option.some.inj result
    obtain ⟨q, inRing, -, -, -, ⟨none, -⟩ | ⟨same, -, other⟩⟩ := sane.place
    · rw [none] at erases
      cases erases
    · obtain rfl : q = erased := Option.some.inj (same.symm.trans erases)
      exact ⟨holds.erase inRing size other rejected, later⟩
  | cutErased =>
    obtain ⟨-, result⟩ := Option.ite_none_right_eq_some.mp followed
    obtain rfl := Option.some.inj result
    exact ⟨ready, later⟩
  | cutWriting words half =>
    obtain ⟨⟨inside, rejected⟩, result⟩ := Option.ite_none_right_eq_some.mp followed
    obtain rfl := Option.some.inj result
    refine ⟨?_, later⟩
    dsimp only
    rw [offset]
    refine ready.write_torn below slot clear ?_ rejected
    rw [length_torn (by rw [length_encode]; exact inside), length_encode]

theorem Ring.new_sound (pages : Nat) : (Ring.new pages).Sound pages := by
  intro _
  have blank : ∀ record, ¬ OnFlash (List.replicate (pages * pageSize) erased) pages record := by
    rintro record ⟨page, below, i, slot, decoded⟩
    have none : decode (slotAt (List.replicate (pages * pageSize) erased) page i) = none :=
      decode_erased (isErased_slice (isErased_replicate _) _ _)
    rw [none] at decoded
    cases decoded
  refine ⟨⟨List.length_replicate, ?_, fun record found => absurd found (blank record)⟩, ?_⟩
  · intro record found
    cases found
  · intro record found
    cases found

theorem Ring.checkpoint_sound {pages : Nat} (two : 2 ≤ pages) {before after : Ring} {checkpoint : Checkpoint}
    (sound : before.Sound pages) (stepped : before.checkpoint checkpoint = some after) : after.Sound pages := by
  intro fewer
  obtain ⟨planned, isPlan, followed⟩ := Option.bind_eq_some_iff.mp stepped
  have counts := Ring.follow_checkpoints followed
  obtain ⟨holds, -⟩ := sound (by omega)
  obtain ⟨again, same, sane⟩ := plan_sane two holds.whole checkpoint.value
  obtain rfl : again = planned := Option.some.inj (same.symm.trans isPlan)
  exact Ring.follow_sound sound sane followed fewer

/-- Whatever was cut, in a run of fewer than 2^32 checkpoints the newest record is the last one whose
write completed, and the next checkpoint programs erased bytes. -/
theorem newest_is_last {pages : Nat} (two : 2 ≤ pages) {checkpoints : List Checkpoint} {ring : Ring}
    (ran : exec Ring.checkpoint (.new pages) checkpoints = some ring) (few : ring.checkpoints < 2 ^ 32) :
    (newest ring.region).map Newest.record = ring.last ∧
      ∀ value, ∃ planned, plan ring.region value = some planned ∧
        isErased (slice (ring.ready planned) planned.offset recordSize) = true := by
  have sound : ring.Sound pages :=
    exec_invariant (fun _ _ _ sound stepped => Ring.checkpoint_sound two sound stepped) (Ring.new_sound pages) ran
  obtain ⟨holds, -⟩ := sound few
  refine ⟨holds.newest_eq, ?_⟩
  intro value
  obtain ⟨planned, isPlan, sane⟩ := plan_sane two holds.whole value
  obtain ⟨-, page, below, i, slot, offset, clear⟩ := holds.ready sane
  refine ⟨planned, isPlan, ?_⟩
  rw [offset]
  exact clear

theorem plan_value {region : Bytes} {value : BitVec 64} {planned : Plan} (isPlan : plan region value = some planned) :
    planned.record.value = value := by
  unfold plan at isPlan
  dsimp only at isPlan
  split at isPlan
  · cases isPlan
  · split at isPlan <;> exact Option.some.inj isPlan ▸ rfl

theorem decode_torn (record : Record) : decode (torn (encode record) 3 (.replicate 4 erased)) = none := by
  have version : (torn (encode record) 3 (.replicate 4 erased)).getD 16 0 = erased := rfl
  unfold decode
  rw [version]
  split
  · rfl
  · split
    · rfl
    · rfl

section Powered

variable {pages : Nat} {ring : Ring}

theorem Ring.checkpoint_completes (two : 2 ≤ pages) (whole : ring.region.length = pages * pageSize) (value : BitVec 64) :
    ∃ ring', ring.checkpoint ⟨value, .completes⟩ = some ring' ∧ ring'.last.map Record.value = some value ∧
      ring'.checkpoints = ring.checkpoints + 1 := by
  obtain ⟨planned, isPlan, -⟩ := plan_sane two whole value
  refine ⟨_, Option.bind_eq_some_iff.mpr ⟨planned, isPlan, rfl⟩, ?_, rfl⟩
  exact congrArg some (plan_value isPlan)

theorem Ring.checkpoint_cut (two : 2 ≤ pages) (whole : ring.region.length = pages * pageSize) (value : BitVec 64) :
    ∃ ring', ring.checkpoint ⟨value, .cutWriting 3 (.replicate 4 erased)⟩ = some ring' ∧ ring'.last = ring.last ∧
      ring'.checkpoints = ring.checkpoints + 1 := by
  obtain ⟨planned, isPlan, -⟩ := plan_sane two whole value
  have torn_ : 4 * 3 + 4 ≤ recordSize ∧ decode (torn (encode planned.record) 3 (.replicate 4 erased)) = none :=
    ⟨by decide, decode_torn planned.record⟩
  let left := torn (encode planned.record) 3 (.replicate 4 erased)
  have followed : ring.follow planned (.cutWriting 3 (.replicate 4 erased)) = some
      { ring with
        region := splice (ring.ready planned) planned.offset left
        checkpoints := ring.checkpoints + 1 } := by
    rw [Ring.follow, if_pos torn_]
  exact ⟨_, Option.bind_eq_some_iff.mpr ⟨planned, isPlan, followed⟩, rfl, rfl⟩

end Powered

/-- A checkpoint completes and the next is cut while it is written: the first stays the newest. -/
theorem newest_after_cut :
    ∃ ring, exec Ring.checkpoint (.new 2)
        [⟨1790000000, .completes⟩, ⟨1790000600, .cutWriting 3 (.replicate 4 erased)⟩] = some ring ∧
      ring.last.map Record.value = some 1790000000 ∧ (newest ring.region).map Newest.record = ring.last := by
  obtain ⟨first, stepped, value, one⟩ :=
    @Ring.checkpoint_completes 2 (.new 2) (Nat.le_refl 2) List.length_replicate 1790000000
  obtain ⟨holds, -⟩ := Ring.checkpoint_sound (Nat.le_refl 2) (Ring.new_sound 2) stepped
    (by rw [one]; decide)
  obtain ⟨second, cut, same, two⟩ := Ring.checkpoint_cut (Nat.le_refl 2) holds.whole 1790000600
  have ran : exec Ring.checkpoint (.new 2)
      [⟨1790000000, .completes⟩, ⟨1790000600, .cutWriting 3 (.replicate 4 erased)⟩] = some second := by
    rw [exec_cons]
    refine ⟨first, stepped, ?_⟩
    rw [exec_cons]
    exact ⟨second, cut, rfl⟩
  have few : second.checkpoints < 2 ^ 32 := by
    rw [two, one]
    decide
  exact ⟨second, ran, (congrArg _ same).trans value, (newest_is_last (Nat.le_refl 2) ran few).1⟩

end Leviculum.Board.TimeFloor
