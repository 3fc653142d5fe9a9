import Leviculum.Map.Labels

/-! The region file: a header, two texts, the tiles and their label sections, the string table and the two indexes. The
header is checked when a region is opened; the indexes and the table are searched where they are. -/

namespace Leviculum.Map

open Bytes Reading Lookup
open Fixture (signed leSigned)

structure TileId where
  z : Nat
  x : Nat
  y : Nat
  deriving DecidableEq

def maxZoom : Nat := 16

/-- The derived order: by zoom, then `x`, then `y`. -/
def TileId.key (id : TileId) : List Nat := [id.z, id.x, id.y]

def TileId.isValid (id : TileId) : Bool := id.z ≤ maxZoom && id.x < 1 <<< id.z && id.y < 1 <<< id.z

def textKey (text : Bytes) : List Nat := text.map UInt8.toNat

inductive RegionError where
  | magic
  | version (n : Nat)
  | truncated
  | header (field : String)
  | entry (n : Nat)
  | text
  | tile (id : TileId) (error : FixtureError)
  | strings (n : Nat)
  | labels (id : TileId) (error : LabelError)
  deriving DecidableEq

structure Bounds where
  west : Int
  south : Int
  east : Int
  north : Int
  deriving DecidableEq

/-- Where a version 2 file keeps its names. -/
structure LabelTables where
  index : Nat
  sections : Nat
  strings : Nat
  table : Nat
  tableLen : Nat
  deriving DecidableEq

structure Header where
  bounds : Bounds
  minZoom : Nat
  maxZoom : Nat
  profile : Nat
  /-- Offset and length. -/
  attribution : Nat × Nat
  notice : Nat × Nat
  tiles : Nat
  index : Nat
  len : Nat
  labels : Option LabelTables
  deriving DecidableEq

namespace Region

def magic : Bytes := [0x4C, 0x4D, 0x52, 0x31]

def version2 : Nat := 2

def version1 : Nat := 1

def headerLen : Nat := 64

def headerLen2 : Nat := 96

def entryLen : Nat := 20

def maxText : Nat := 16 * 1024

def tileView : Nat := 256

def maxLatE7 : Int := 850511288

end Region

open Region

/-- `map_err(f)?` -/
def mapError {ε ε' α : Type} (f : ε → ε') : Except ε α → Except ε' α
  | .ok a => .ok a
  | .error e => .error (f e)

/-- `read_at` of bytes in memory. -/
def readAt (storage : Bytes) (offset length : Nat) : Except RegionError Bytes :=
  orFail .truncated (slice? storage offset length)

namespace Header

def lenOf (version : Nat) : Option Nat :=
  if version = version1 then some Region.headerLen else if version = version2 then some headerLen2 else none

def headerLen (h : Header) : Nat := if h.labels.isSome then headerLen2 else Region.headerLen

def version (b : Bytes) : Except RegionError Nat := do
  ensure (b.take 4 = magic) .magic
  let _ ← orFail (.version (leAt b 4 2)) (lenOf (leAt b 4 2))
  return leAt b 4 2

def boundsOk (b : Bounds) : Bool :=
  (-1800000000 ≤ b.west && b.west ≤ 1800000000) && (-1800000000 ≤ b.east && b.east ≤ 1800000000) &&
    (-maxLatE7 ≤ b.south && b.south ≤ maxLatE7) && (-maxLatE7 ≤ b.north && b.north ≤ maxLatE7) &&
    b.south < b.north && b.west ≠ b.east

def boundsAt (b : Bytes) : Bounds :=
  ⟨signed 4 (leAt b 8 4), signed 4 (leAt b 12 4), signed 4 (leAt b 16 4), signed 4 (leAt b 20 4)⟩

def labelTablesAt (b : Bytes) : LabelTables := ⟨leAt b 64 8, leAt b 72 4, leAt b 76 4, leAt b 80 8, leAt b 88 8⟩

def parse (b : Bytes) : Except RegionError Header := do
  let head ← orFail .truncated (slice? b 0 Region.headerLen)
  let v ← version head
  let len ← orFail (.version v) (lenOf v)
  ensure (len ≤ b.length) .truncated
  ensure (leAt b 6 2 = len) (.header "header length")
  ensure (boundsOk (boundsAt b)) (.header "bounds")
  ensure (leAt b 24 1 ≤ leAt b 25 1 && leAt b 25 1 ≤ Map.maxZoom) (.header "zoom")
  ensure (leAt b 27 1 = 0) (.header "reserved")
  return {
    bounds := boundsAt b
    minZoom := leAt b 24 1
    maxZoom := leAt b 25 1
    profile := leAt b 26 1
    attribution := (leAt b 28 4, leAt b 32 4)
    notice := (leAt b 36 4, leAt b 40 4)
    tiles := leAt b 44 4
    index := leAt b 48 8
    len := leAt b 56 8
    labels := if v = version2 then some (labelTablesAt b) else none }

def encodeLabels (l : LabelTables) : Bytes :=
  le 8 l.index ++ le 4 l.sections ++ le 4 l.strings ++ le 8 l.table ++ le 8 l.tableLen

def encode (h : Header) : Bytes :=
  magic ++ le 2 (if h.labels.isSome then version2 else version1) ++ le 2 h.headerLen ++
    leSigned 4 h.bounds.west ++ leSigned 4 h.bounds.south ++ leSigned 4 h.bounds.east ++ leSigned 4 h.bounds.north ++
    le 1 h.minZoom ++ le 1 h.maxZoom ++ le 1 h.profile ++ le 1 0 ++
    le 4 h.attribution.1 ++ le 4 h.attribution.2 ++ le 4 h.notice.1 ++ le 4 h.notice.2 ++ le 4 h.tiles ++
    le 8 h.index ++ le 8 h.len ++ h.labels.elim [] encodeLabels

end Header

structure Entry where
  id : TileId
  offset : Nat
  len : Nat
  deriving DecidableEq

namespace Entry

def parse (b : Bytes) : Option Entry :=
  if leAt b 1 1 ≠ 0 ∨ leAt b 6 1 ≠ 0 ∨ leAt b 7 1 ≠ 0 then none
  else some ⟨⟨leAt b 0 1, leAt b 2 2, leAt b 4 2⟩, leAt b 8 8, leAt b 16 4⟩

def encode (e : Entry) : Bytes :=
  le 1 e.id.z ++ le 1 0 ++ le 2 e.id.x ++ le 2 e.id.y ++ le 1 0 ++ le 1 0 ++ le 8 e.offset ++ le 4 e.len

end Entry

/-- An opened region: the tiles and the sections lie after the header and before `dataEnd`. -/
structure Region where
  storage : Bytes
  header : Header
  attribution : Bytes
  notice : Bytes
  dataEnd : Nat
  deriving DecidableEq

namespace Region

/-- A file too short for a header; without the magic when even that is wrong. -/
def shortError (storage : Bytes) : RegionError :=
  if 4 ≤ storage.length ∧ storage.take 4 ≠ magic then .magic else .truncated

/-- Where the blobs end: the names, if any, stand between them and the index. -/
def blobsEnd (storage : Bytes) (first : Nat) (header : Header) : Except RegionError Nat :=
  match header.labels with
  | none => .ok header.index
  | some l => do
    ensure (l.index + l.sections * entryLen = header.index && first ≤ l.index) (.header "label index")
    let offsets := (l.strings + 1) * 4
    ensure (first ≤ l.table && l.table + l.tableLen = l.index && offsets ≤ l.tableLen) (.header "strings")
    let last ← readAt storage (l.table + offsets - 4) 4
    ensure (NorFlash.ofLe last = l.tableLen - offsets) (.strings l.strings)
    return l.table

def textIn (storage : Bytes) (first dataEnd : Nat) (place : Nat × Nat) : Except RegionError Bytes := do
  ensure (place.2 ≠ 0 && place.2 ≤ maxText) .text
  ensure (first ≤ place.1 && place.1 + place.2 ≤ dataEnd) (.header "text")
  let b ← readAt storage place.1 place.2
  ensure b.validUtf8 .text
  return b

/-- `Region::open`. -/
def openRegion (storage : Bytes) : Except RegionError Region := do
  ensure (headerLen ≤ storage.length) (shortError storage)
  let head ← readAt storage 0 headerLen
  let version ← Header.version head
  let first ← orFail (.version version) (Header.lenOf version)
  ensure (first ≤ storage.length) .truncated
  let b ← readAt storage 0 first
  let header ← Header.parse b
  ensure (header.len = storage.length) .truncated
  ensure (first ≤ header.index && header.index + header.tiles * entryLen = header.len) (.header "index")
  let dataEnd ← blobsEnd storage first header
  let attribution ← textIn storage first dataEnd header.attribution
  let notice ← textIn storage first dataEnd header.notice
  return { storage, header, attribution, notice, dataEnd }

/-- The checks on an entry: a tile of the region's zooms, a blob inside the data. -/
def entryOk (r : Region) (e : Entry) : Bool :=
  e.id.isValid && (r.header.minZoom ≤ e.id.z && e.id.z ≤ r.header.maxZoom) &&
    (r.header.headerLen ≤ e.offset && 0 < e.len && e.offset + e.len ≤ r.dataEnd)

def entryIn (r : Region) (index count n : Nat) : Except RegionError Entry := do
  ensure (n < count) (.entry n)
  let b ← readAt r.storage (index + n * entryLen) entryLen
  let e ← orFail (.entry n) (Entry.parse b)
  ensure (r.entryOk e) (.entry n)
  return e

def entry (r : Region) (n : Nat) : Except RegionError Entry := r.entryIn r.header.index r.header.tiles n

def findIn (r : Region) (index count : Nat) (id : TileId) : Except RegionError (Option Entry) := do
  let found ← search (r.entryIn index count) (·.id.key) id.key count
  return found.map (·.2)

def find (r : Region) (id : TileId) : Except RegionError (Option Entry) := r.findIn r.header.index r.header.tiles id

def stringCount (r : Region) : Nat := r.header.labels.elim 0 (·.strings)

def labelEntry (r : Region) (n : Nat) : Except RegionError Entry := do
  let l ← orFail (.entry n) r.header.labels
  r.entryIn l.index l.sections n

def findLabels (r : Region) (id : TileId) : Except RegionError (Option Entry) :=
  match r.header.labels with
  | some l => r.findIn l.index l.sections id
  | none => .ok none

def stringRange (r : Region) (n : Nat) : Except RegionError (Nat × Nat) := do
  let l ← orFail (.strings n) r.header.labels
  ensure (n < l.strings) (.strings n)
  let b ← readAt r.storage (l.table + n * 4) 8
  ensure (leAt b 0 4 ≤ leAt b 4 4 && leAt b 4 4 ≤ l.tableLen - (l.strings + 1) * 4) (.strings n)
  return (l.table + (l.strings + 1) * 4 + leAt b 0 4, leAt b 4 4 - leAt b 0 4)

def readString (r : Region) (n : Nat) : Except RegionError Bytes := do
  let (start, length) ← r.stringRange n
  let b ← readAt r.storage start length
  ensure b.validUtf8 (.strings n)
  return b

def findString (r : Region) (name : Bytes) : Except RegionError (Option Nat) := do
  let found ← search r.readString textKey (textKey name) r.stringCount
  return found.map (·.1)

def readTile (r : Region) (e : Entry) : Except RegionError Bytes := readAt r.storage e.offset e.len

def tableString (heads bytes : Bytes) (n : Nat) : Except RegionError Bytes := do
  let start := leAt heads (n * 4) 4
  let stop := leAt heads (n * 4 + 4) 4
  ensure (start ≤ stop) (.strings n)
  let s ← orFail (.strings n) (slice? bytes start (stop - start))
  ensure s.validUtf8 (.strings n)
  return s

def checkStrings (table : Bytes) (count : Nat) : Except RegionError Unit := do
  ensure ((count + 1) * 4 ≤ table.length) (.strings count)
  let heads := table.take ((count + 1) * 4)
  let bytes := table.drop ((count + 1) * 4)
  ascend (tableString heads bytes) textKey (fun n _ => .strings n) (fun _ => .ok ()) count 0 none
  ensure (leAt heads 0 4 = 0 && leAt heads (count * 4) 4 = bytes.length) (.strings count)

def checkLabels (id : TileId) (bytes : Bytes) (strings : Nat) (tile : Fixture) : Except RegionError Section := do
  let s ← mapError (.labels id) (Section.parse bytes strings)
  let lines := tile.features.map fun f => decide (f.kind = .line)
  s.lineLabels.forM fun (n, l) => ensure (lines[l.feature]?.getD false) (.labels id (.feature n))
  return s

/-- One tile at the origin, seen by the tile view, every vertex within one extent of the tile. -/
def tileOk (fx : Fixture) : Bool :=
  fx.tileCount = 1 && (fx.width = tileView && fx.height = tileView) && fx.shift.toNat ≤ 4

def featureOk (extent : Int) (f : Fixture.Feature) : Bool :=
  f.offset = (0, 0) && f.rings.all fun ring => ring.all fun p =>
    -extent ≤ p.1 && p.1 < 2 * extent && -extent ≤ p.2 && p.2 < 2 * extent

def checkTile (id : TileId) (blob : Bytes) : Except RegionError Fixture := do
  let fx ← mapError (.tile id) (Fixture.parse blob)
  ensure (tileOk fx) (.tile id (.tile 0))
  fx.features.forM fun f => ensure (featureOk (4096 >>> fx.shift.toNat : Nat) f) (.tile id (.tile 0))
  return fx

def verifyTile (r : Region) (e : Entry) : Except RegionError Unit := do
  let blob ← r.readTile e
  let _ ← checkTile e.id blob
  return

/-- A label section is one of a tile that is there. -/
def verifySection (r : Region) (strings : Nat) (e : Entry) : Except RegionError Unit := do
  let bytes ← r.readTile e
  let found ← r.find e.id
  let tile ← orFail (.labels e.id .length) found
  let blob ← r.readTile tile
  let fx ← checkTile e.id blob
  let _ ← checkLabels e.id bytes strings fx
  return

def verify (r : Region) : Except RegionError Unit := do
  ascend r.entry (·.id.key) (fun n _ => .entry n) r.verifyTile r.header.tiles 0 none
  match r.header.labels with
  | none => .ok ()
  | some l => do
    let table ← readAt r.storage l.table l.tableLen
    checkStrings table l.strings
    ascend r.labelEntry (·.id.key) (fun n _ => .entry n) (r.verifySection l.strings) l.sections 0 none

def fixture (r : Region) (id : TileId) : Except RegionError (Option Fixture) := do
  match ← r.find id with
  | none => return none
  | some e =>
    let blob ← orFail .truncated (slice? r.storage e.offset e.len)
    let fx ← checkTile id blob
    return some fx

def labels (r : Region) (id : TileId) : Except RegionError (Option Section) := do
  match ← r.findLabels id with
  | none => return none
  | some e =>
    let bytes ← orFail .truncated (slice? r.storage e.offset e.len)
    let s ← mapError (.labels id) (Section.parse bytes r.stringCount)
    return some s

end Region

end Leviculum.Map
