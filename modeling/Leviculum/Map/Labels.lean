import Mathlib.Data.List.Lex
import Leviculum.Lib.Lookup
import Leviculum.Map.Fixture

/-! The names of a tile: a section of point labels, line labels and alternate names, all by numbers of one string table.
A section is checked once and then read in place. -/

namespace Leviculum.Map

open Bytes Reading Lookup
open Fixture (signed leSigned InRange signed_leSigned length_leSigned)

inductive LabelKind where
  | city
  | town
  | district
  | village
  | suburb
  | neighbourhood
  | water
  | park
  | river
  | majorRoad
  | secondaryRoad
  | minorRoad
  deriving DecidableEq

namespace LabelKind

def all : List LabelKind :=
  [.city, .town, .district, .village, .suburb, .neighbourhood, .water, .park, .river, .majorRoad, .secondaryRoad,
    .minorRoad]

def wire : LabelKind → UInt8
  | .city => 1
  | .town => 2
  | .district => 3
  | .village => 4
  | .suburb => 5
  | .neighbourhood => 6
  | .water => 16
  | .park => 17
  | .river => 18
  | .majorRoad => 32
  | .secondaryRoad => 33
  | .minorRoad => 34

def fromWire (byte : UInt8) : Option LabelKind := all.find? (·.wire = byte)

end LabelKind

structure PointLabel where
  kind : LabelKind
  rank : UInt8
  minZoom : UInt8
  flags : UInt8
  string : Nat
  x : Int
  y : Int
  deriving DecidableEq

structure LineLabel where
  feature : Nat
  kind : LabelKind
  minZoom : UInt8
  string : Nat
  deriving DecidableEq

inductive LabelError where
  | length
  | reserved
  | string (n : Nat)
  | alternate (label : Nat)
  | anchor (n : Nat)
  | feature (n : Nat)
  | table
  deriving DecidableEq

def sectionHead : Nat := 8

def pointLen : Nat := 12

def lineLen : Nat := 8

def altLen : Nat := 8

def labelExtent : Int := 4096

/-- A section is as long as its counts say, so every record is read inside it. -/
structure Section where
  bytes : Bytes
  points : Nat
  lines : Nat
  alts : Nat
  sized : bytes.length = sectionHead + points * pointLen + lines * lineLen + alts * altLen
  deriving DecidableEq

/-- A point label, its kind known or not. -/
structure RawPoint where
  kind : UInt8
  rank : UInt8
  minZoom : UInt8
  flags : UInt8
  string : Nat
  x : Int
  y : Int
  deriving DecidableEq

def RawPoint.inTile (p : RawPoint) : Bool := 0 ≤ p.x && p.x < labelExtent && 0 ≤ p.y && p.y < labelExtent

structure RawLine where
  feature : Nat
  kind : UInt8
  minZoom : UInt8
  string : Nat
  deriving DecidableEq

def rawPoint (b : Bytes) (start : Nat) : RawPoint where
  kind := byteAt b start
  rank := byteAt b (start + 1)
  minZoom := byteAt b (start + 2)
  flags := byteAt b (start + 3)
  string := leAt b (start + 4) 4
  x := signed 2 (leAt b (start + 8) 2)
  y := signed 2 (leAt b (start + 10) 2)

def rawLine (b : Bytes) (start : Nat) : RawLine where
  feature := leAt b start 2
  kind := byteAt b (start + 2)
  minZoom := byteAt b (start + 3)
  string := leAt b (start + 4) 4

namespace Section

def lineAt (s : Section) (i : Nat) : Nat := sectionHead + s.points * pointLen + i * lineLen

def altAt (s : Section) (i : Nat) : Nat := s.lineAt s.lines + i * altLen

def rawPoints (s : Section) : List RawPoint :=
  (List.range s.points).map fun i => rawPoint s.bytes (sectionHead + i * pointLen)

def rawLines (s : Section) : List RawLine := (List.range s.lines).map fun i => rawLine s.bytes (s.lineAt i)

/-- The label an alternate name is for, and its string. -/
def alternateAt (s : Section) (i : Nat) : Nat × Nat := (leAt s.bytes (s.altAt i) 2, leAt s.bytes (s.altAt i + 4) 4)

def alternates (s : Section) : List (Nat × Nat) := (List.range s.alts).map s.alternateAt

def known (strings i : Nat) : Except LabelError Unit := ensure (i < strings) (.string i)

def check (s : Section) (strings : Nat) : Except LabelError Unit := do
  s.rawPoints.zipIdx.forM fun (p, n) => do
    known strings p.string
    ensure p.inTile (.anchor n)
  s.rawLines.forM fun l => known strings l.string
  ascend (fun i => do known strings (s.alternateAt i).2; return s.alternateAt i) Prod.fst (fun _ alt => .alternate alt.1)
    (fun alt => ensure (alt.1 < s.points + s.lines) (.alternate alt.1)) s.alts 0 none
  (List.range s.alts).forM fun i => ensure (leAt s.bytes (s.altAt i + 2) 2 = 0) .reserved

def parse (bytes : Bytes) (strings : Nat) : Except LabelError Section := do
  ensure (sectionHead ≤ bytes.length) .length
  ensure (leAt bytes 6 2 = 0) .reserved
  if sized : bytes.length = sectionHead + leAt bytes 0 2 * pointLen + leAt bytes 2 2 * lineLen + leAt bytes 4 2 * altLen then
    let s : Section := ⟨bytes, leAt bytes 0 2, leAt bytes 2 2, leAt bytes 4 2, sized⟩
    s.check strings
    return s
  else .error .length

/-- The point labels of a known kind, each with its number. -/
def pointLabels (s : Section) : List (Nat × PointLabel) :=
  s.rawPoints.zipIdx.filterMap fun (p, n) =>
    (LabelKind.fromWire p.kind).map fun kind => (n, ⟨kind, p.rank, p.minZoom, p.flags, p.string, p.x, p.y⟩)

/-- The line labels of a known kind; their numbers go on from the points', in 16 bits. -/
def lineLabels (s : Section) : List (Nat × LineLabel) :=
  s.rawLines.zipIdx.filterMap fun (l, n) =>
    (LabelKind.fromWire l.kind).map fun kind => ((s.points + n) % 65536, ⟨l.feature, kind, l.minZoom, l.string⟩)

/-- The alternate name of a label, by halves. -/
def alternate (s : Section) (n : Nat) : Option Nat :=
  match search (ε := LabelError) (fun i => .ok (s.alternateAt i)) Prod.fst n s.alts with
  | .ok (some (_, alt)) => some alt.2
  | _ => none

end Section

/-! ### Writing -/

def encodePoint (p : PointLabel) : Bytes :=
  [p.kind.wire, p.rank, p.minZoom, p.flags] ++ le 4 p.string ++ leSigned 2 p.x ++ leSigned 2 p.y

def encodeLine (l : LineLabel) : Bytes := le 2 l.feature ++ [l.kind.wire, l.minZoom] ++ le 4 l.string

def encodeAlternate (alt : Nat × Nat) : Bytes := le 2 alt.1 ++ [0, 0] ++ le 4 alt.2

def pairLe (a b : Nat × Nat) : Bool := a.1 < b.1 || (a.1 = b.1 && a.2 ≤ b.2)

def encodeSection (points : List PointLabel) (lines : List LineLabel) (alts : List (Nat × Nat)) : Bytes :=
  le 2 points.length ++ le 2 lines.length ++ le 2 alts.length ++ le 2 0 ++ points.flatMap encodePoint ++
    lines.flatMap encodeLine ++ (alts.mergeSort pairLe).flatMap encodeAlternate

/-- Where each string ends, from the start of the bytes, and where the first begins. -/
def offsets (start : Nat) : List Bytes → List Nat
  | [] => [start]
  | s :: rest => start :: offsets (start + s.length) rest

/-- A table of strings that are sorted, each once: their number and the bytes. -/
def encodeStrings (sorted : List Bytes) : Nat × Bytes :=
  (sorted.length, (offsets 0 sorted).flatMap (le 4) ++ sorted.flatten)

end Leviculum.Map
