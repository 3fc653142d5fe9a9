import Leviculum.Propagation.Message
import Leviculum.Store.Flush
import Mathlib.Data.List.Induction

/-! The operator's lists, each one record of the log under its own tag. -/

namespace Leviculum.Store

open Propagation

def boardListMax : Nat := 16

def tagStatic : UInt8 := 0xA3

def tagAuth : UInt8 := 0xA4

def tagControl : UInt8 := 0xA5

inductive BoardList where
  | staticPeers
  | authAllowed
  | controlAllowed
  deriving DecidableEq

namespace BoardList

def all : List BoardList := [.staticPeers, .authAllowed, .controlAllowed]

def tag : BoardList → UInt8
  | .staticPeers => tagStatic
  | .authAllowed => tagAuth
  | .controlAllowed => tagControl

/-- `leviculum board `, which starts the three keys. -/
def keyStart : Bytes := [108, 101, 118, 105, 99, 117, 108, 117, 109, 32, 98, 111, 97, 114, 100, 32]

def key : BoardList → Key
  -- static peers....
  | .staticPeers =>
    ⟨keyStart ++ [115, 116, 97, 116, 105, 99, 32, 112, 101, 101, 114, 115, 46, 46, 46, 46], rfl⟩
  -- auth allowed....
  | .authAllowed =>
    ⟨keyStart ++ [97, 117, 116, 104, 32, 97, 108, 108, 111, 119, 101, 100, 46, 46, 46, 46], rfl⟩
  -- control allowed.
  | .controlAllowed =>
    ⟨keyStart ++ [99, 111, 110, 116, 114, 111, 108, 32, 97, 108, 108, 111, 119, 101, 100, 46], rfl⟩

end BoardList

/-- Keep the record of the higher sequence, the earlier one of equals. -/
def newer (best : Option RawRecord) (record : RawRecord) : Option RawRecord :=
  if best.all (fun held => held.sequence < record.sequence) then some record else best

def newestOf (records : List RawRecord) : Option RawRecord := records.foldl newer none

def isCopy (list : BoardList) (record : RawRecord) : Bool :=
  record.live && record.tag == list.tag && record.key == list.key

def boardListCopies (region : List Page) (list : BoardList) : List RawRecord :=
  (scan region).filter (isCopy list)

/-- `chunks_exact(16).take(limit)`. -/
def hashesOf : Nat → Bytes → List DestinationHash
  | 0, _ => []
  | limit + 1, body =>
    match FixedBytes.take? 16 body with
    | none => []
    | some hash => hash :: hashesOf limit (body.drop 16)

def readBoardList (region : List Page) (list : BoardList) : List DestinationHash :=
  match newestOf (boardListCopies region list) with
  | none => []
  | some copy => hashesOf boardListMax copy.body

def boardListOps (region : List Page) (list : BoardList) (body : Bytes) : List FlushOp :=
  .append ⟨list.key, 0, list.tag, body⟩ ::
    (boardListCopies region list).map (fun copy => .purge copy.offset list.key)

/-- The writes that replace a list: the new record, then the purge of every older copy. -/
def boardListWriteOps (region : List Page) (list : BoardList) (hashes : List DestinationHash) :
    Option (List FlushOp) :=
  if hashes.length > boardListMax then none
  else some (boardListOps region list (hashes.flatMap Subtype.val))

def newestPage (region : List Page) : Nat := (scan region).foldl (fun page record => max page record.pageSeq) 0

/-- A list is rewritten when its newest copy has aged into the older half of the region, or an
older copy stands beside it. -/
def boardListRefresh (region : List Page) (list : BoardList) : List FlushOp :=
  match newestOf (boardListCopies region list) with
  | none => []
  | some newest =>
    if newestPage region - newest.pageSeq < region.length / 2 ∧ (boardListCopies region list).length = 1
    then []
    else boardListOps region list newest.body

def boardListRefreshOps (region : List Page) : List FlushOp :=
  BoardList.all.flatMap (boardListRefresh region)

theorem BoardList.key_injective {list list' : BoardList} (same : list.key = list'.key) : list = list' := by
  revert same
  cases list <;> cases list' <;> decide

theorem BoardList.tag_injective {list list' : BoardList} (same : list.tag = list'.tag) : list = list' := by
  revert same
  cases list <;> cases list' <;> decide

theorem newestOf_concat (records : List RawRecord) (record : RawRecord) :
    newestOf (records ++ [record]) = newer (newestOf records) record := List.foldl_concat ..

theorem newestOf_mem {records : List RawRecord} {newest : RawRecord}
    (found : newestOf records = some newest) : newest ∈ records := by
  induction records using List.reverseRecOn with
  | nil => cases found
  | append_singleton records record ih =>
    rw [newestOf_concat, newer] at found
    split at found
    · obtain rfl := Option.some.inj found
      exact List.mem_append_right _ List.mem_cons_self
    · exact List.mem_append_left _ (ih found)

theorem newestOf_eq_none {records : List RawRecord} : newestOf records = none ↔ records = [] := by
  constructor
  · intro none
    induction records using List.reverseRecOn with
    | nil => rfl
    | append_singleton records record ih =>
      rw [newestOf_concat, newer] at none
      split at none
      · cases none
      next kept =>
        rw [none] at kept
        exact absurd rfl kept
  · rintro rfl
    rfl

theorem mem_boardListCopies {region : List Page} {list : BoardList} {record : RawRecord} :
    record ∈ boardListCopies region list ↔
      record ∈ scan region ∧ record.live = true ∧ record.tag = list.tag ∧ record.key = list.key := by
  unfold boardListCopies isCopy
  rw [List.mem_filter]
  simp only [Bool.and_eq_true, beq_iff_eq, and_assoc]

theorem readBoardList_cases (region : List Page) (list : BoardList) :
    (boardListCopies region list = [] ∧ readBoardList region list = []) ∨
      ∃ copy ∈ boardListCopies region list,
        readBoardList region list = hashesOf boardListMax copy.body := by
  unfold readBoardList
  cases found : newestOf (boardListCopies region list) with
  | none => exact .inl ⟨newestOf_eq_none.mp found, rfl⟩
  | some copy => exact .inr ⟨copy, newestOf_mem found, rfl⟩

theorem hashesOf_written {limit : Nat} {hashes : List DestinationHash} (fits : hashes.length ≤ limit) :
    hashesOf limit (hashes.flatMap Subtype.val) = hashes := by
  induction limit generalizing hashes with
  | zero =>
    rw [List.length_eq_zero_iff.mp (Nat.le_zero.mp fits)]
    rfl
  | succ limit ih =>
    cases hashes with
    | nil => rfl
    | cons hash rest =>
      have taken : FixedBytes.take? 16 ((hash :: rest).flatMap Subtype.val) = some hash := by
        unfold FixedBytes.take?
        have start : ((hash :: rest).flatMap Subtype.val).take 16 = hash.val := by
          rw [List.flatMap_cons, List.take_append_of_le_length (Nat.le_of_eq hash.property.symm),
            List.take_of_length_le (Nat.le_of_eq hash.property)]
        rw [dif_pos]
        · exact congrArg some (Subtype.ext start)
        · rw [List.flatMap_cons, List.length_append, hash.property]
          omega
      have left : ((hash :: rest).flatMap Subtype.val).drop 16 = rest.flatMap Subtype.val := by
        rw [List.flatMap_cons, List.drop_append_of_le_length (Nat.le_of_eq hash.property.symm),
          List.drop_of_length_le (Nat.le_of_eq hash.property), List.nil_append]
      unfold hashesOf
      rw [taken, left]
      dsimp only
      rw [ih (Nat.le_of_succ_le_succ fits)]

end Leviculum.Store
