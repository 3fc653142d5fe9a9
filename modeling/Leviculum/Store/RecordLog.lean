import Leviculum.Lib.Bytes
import Mathlib.Data.List.Basic

/-! The board's flash record log, page by page. A page is what its walk finds: its header, the
committed records behind it, and whether the rest of the page is still erased. -/

namespace Leviculum.Store

def sectorSize : Nat := 4096

def programUnit : Nat := 4

def headerLen : Nat := 42

def sectorHeaderLen : Nat := 12

def sectorPayload : Nat := sectorSize - sectorHeaderLen

def maxBody : Nat := sectorPayload - headerLen

def alignUp (n : Nat) : Nat := (n + (programUnit - 1)) / programUnit * programUnit

def recordStride (bodyLen : Nat) : Nat := alignUp (headerLen + bodyLen)

abbrev Key := FixedBytes 32

/-- What an append is given. -/
structure Entry where
  key : Key
  time : Nat
  tag : UInt8
  body : Bytes
  deriving DecidableEq

/-- A committed record; `live` until its flags byte says purged. -/
structure Slot extends Entry where
  live : Bool
  deriving DecidableEq

def Entry.stride (entry : Entry) : Nat := recordStride entry.body.length

structure Page where
  /-- The sequence of an intact header. -/
  seq : Option Nat
  slots : List Slot
  /-- Whether everything after the last record is erased. -/
  clean : Bool
  deriving DecidableEq

def Page.erased : Page := ⟨none, [], true⟩

/-- The slots with their offset in the page, from `off` on. -/
def placedFrom : Nat → List Slot → List (Nat × Slot)
  | _, [] => []
  | off, slot :: rest => (off, slot) :: placedFrom (off + slot.stride) rest

def Page.stop (page : Page) : Nat := sectorHeaderLen + (page.slots.map (fun slot => slot.stride)).sum

/-- One committed record as the synchronous scan sees it. -/
structure RawRecord extends Slot where
  /-- Offset of the record header from the region base. -/
  offset : Nat
  pageSeq : Nat
  deriving DecidableEq

def sequence (pageSeq offsetInPage : Nat) : Nat := pageSeq * 65536 + offsetInPage

def RawRecord.sequence (record : RawRecord) : Nat :=
  Store.sequence record.pageSeq (record.offset % sectorSize)

def scanPage (index : Nat) (page : Page) : List RawRecord :=
  match page.seq with
  | none => []
  | some seq =>
    (placedFrom sectorHeaderLen page.slots).map (fun placed =>
      { placed.2 with offset := index * sectorSize + placed.1, pageSeq := seq })

def scan (region : List Page) : List RawRecord :=
  region.zipIdx.flatMap (fun page => scanPage page.2 page.1)

structure RecordLog where
  region : List Page
  active : Nat
  seq : Nat
  /-- Offset of the next record within the active page. -/
  cursor : Nat
  deriving DecidableEq

/-- What becomes of an operation of the log: it lands, or one of its flash operations fails
without effect after `done` of them have landed. -/
inductive Fate where
  | lands
  | fails (done : Nat)
  deriving DecidableEq

def keepHighest (best : Option (Nat × Nat)) (page : Page × Nat) : Option (Nat × Nat) :=
  match page.1.seq with
  | none => best
  | some seq => if best.all (fun held => held.2 < seq) then some (page.2, seq) else best

def findActive (region : List Page) : Option (Nat × Nat) := region.zipIdx.foldl keepHighest none

/-- Where the next record goes, given what survived. -/
def scanTail (page : Page) : Nat := if page.clean then page.stop else sectorSize

def mount (region : List Page) : Option RecordLog :=
  (findActive region).map (fun found =>
    { region := region
      active := found.1
      seq := found.2
      cursor := scanTail (region.getD found.1 .erased) })

/-- Mount the log, formatting the region if no page there carries a valid header. -/
def openRegion (region : List Page) : RecordLog :=
  (mount region).getD
    { region := region.set 0 ⟨some 0, [], true⟩, active := 0, seq := 0, cursor := sectorHeaderLen }

def freshLog (pages : Nat) : RecordLog := openRegion (List.replicate pages .erased)

namespace RecordLog

def sectorRoom (log : RecordLog) : Nat := sectorSize - log.cursor

/-- The page that an advance erases. -/
def next (log : RecordLog) : Nat := (log.active + 1) % log.region.length

def nextSeq (log : RecordLog) : Nat := (log.seq + 1) % 2 ^ 32

/-- Erase the next page round-robin and make it active. -/
def advance (log : RecordLog) : RecordLog where
  region := log.region.set log.next ⟨some log.nextSeq, [], true⟩
  active := log.next
  seq := log.nextSeq
  cursor := sectorHeaderLen

/-- The program runs of an append and its commit word, in the active page. -/
def program (log : RecordLog) (entry : Entry) : Fate → Bool × RecordLog
  | .lands =>
    (true, { log with
      region := log.region.modify log.active (fun page =>
        { page with slots := page.slots ++ [{ entry with live := true }] })
      cursor := log.cursor + entry.stride })
  | .fails 0 => (false, log)
  -- bytes were left behind: the page stays sealed
  | .fails (_ + 1) =>
    (false, { log with
      region := log.region.modify log.active (fun page => { page with clean := false })
      cursor := sectorSize })

def append (log : RecordLog) (entry : Entry) (fate : Fate) : Bool × RecordLog :=
  if entry.body.length > maxBody then (false, log)
  else if entry.stride > log.sectorRoom then
    match fate with
    | .fails 0 => (false, log)
    | .fails 1 => (false, { log with region := log.region.set log.next .erased })
    | .fails (done + 2) => log.advance.program entry (.fails done)
    | .lands => log.advance.program entry .lands
  else log.program entry fate

def recordAt (log : RecordLog) (offset : Nat) : Option RawRecord :=
  (scanPage (offset / sectorSize) (log.region.getD (offset / sectorSize) .erased)).find?
    (fun record => record.offset = offset)

end RecordLog

/-- The slots after a purge of the one at `target`. -/
def withdraw (target : Nat) : Nat → List Slot → List Slot
  | _, [] => []
  | off, slot :: rest =>
    if off = target then { slot with live := false } :: rest
    else slot :: withdraw target (off + slot.stride) rest

namespace RecordLog

def purge (log : RecordLog) (record : RawRecord) (fate : Fate) : Bool × RecordLog :=
  if record.live = false then (true, log)
  else
    match fate with
    | .lands =>
      (true, { log with
        region := log.region.modify (record.offset / sectorSize) (fun page =>
          { page with slots := withdraw (record.offset % sectorSize) sectorHeaderLen page.slots }) })
    | .fails _ => (false, log)

end RecordLog

end Leviculum.Store
