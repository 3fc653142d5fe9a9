import Mathlib.Data.List.DropRight
import Mathlib.Data.List.Sort
import Mathlib.Logic.Function.Iterate
import Mathlib.Algebra.Ring.Int.Defs
import Mathlib.Algebra.GroupWithZero.Nat

/-! Scanline polygon fill with integer edges: every ring edge is prepared once in 16.16 fixed point and put into the
bucket of its first row; a row merges its bucket into the active list, drops the edges that ended, sorts the list by x
and emits the spans between crossings. -/

namespace Leviculum.Map.Fill

def subpixel : Int := 16

def halfSub : Int := subpixel / 2

/-- The largest coordinate magnitude, in sub-pixels. -/
def coordLimit : Int := 2 ^ 22

/-- One pixel in 16.16 fixed point. -/
def one : Int := 2 ^ 16

/-- No slot has this number: it marks the end of a list. -/
def nil : Nat := 65535

def i32Min : Int := -2 ^ 31

def i32Max : Int := 2 ^ 31 - 1

/-- An integer operation on `i32` that may overflow. -/
def wrap32 (v : Int) : Int := (v + 2 ^ 31) % 2 ^ 32 - 2 ^ 31

def sat (v : Int) : Int := max i32Min (min v i32Max)

/-- The ceiling of `a / b` for a positive `b`. -/
def ceilDiv (a b : Int) : Int := -(-a / b)

structure Point where
  x : Int
  y : Int
  deriving DecidableEq

inductive FillRule where
  | evenOdd
  | nonZero

structure Edge where
  /-- x at the current row's centre line, pixels in 16.16. -/
  x : Int
  step : Int
  /-- The first row past the edge, in clip rows. -/
  endRow : Nat
  /-- The next edge that starts on the same row. -/
  next : Option Nat
  wind : Int

/-- The storage a filler works in, with the lengths of its three slices. -/
structure Scratch where
  edges : Nat → Edge
  heads : Nat → Option Nat
  edgesLen : Nat
  headsLen : Nat
  activeLen : Nat

structure Clip where
  left : Int
  top : Int
  width : UInt32
  height : UInt32

/-- What does not change while a filler is in use. -/
structure Frame where
  left : Int
  right : Int
  top : Int
  rows : Nat
  capacity : Nat

structure Filler extends Frame where
  edges : Nat → Edge
  heads : Nat → Option Nat
  n : Nat
  /-- The lowest and one past the highest row used. -/
  lo : Nat
  hi : Nat

def Frame.new (scratch : Scratch) (clip : Clip) : Frame where
  left := clip.left
  right := wrap32 (clip.left + clip.width.toNat)
  top := clip.top
  rows := min clip.height.toNat scratch.headsLen
  capacity := min (min scratch.edgesLen scratch.activeLen) nil

def Filler.new (scratch : Scratch) (clip : Clip) : Filler :=
  let frame := Frame.new scratch clip
  { frame with
    edges := scratch.edges
    heads := fun row => if row < frame.rows then none else scratch.heads row
    n := 0
    lo := frame.rows
    hi := 0 }

/-- An edge ready for its bucket. -/
structure Prepared where
  row : Nat
  x : Int
  step : Int
  /-- The first row past the edge, before it is cut to sixteen bits. -/
  last : Nat
  wind : Int

/-- The edge from its upper end `t` to its lower end `bot`. Edges wholly right of the clip and edges that cross no row
centre of it are dropped. -/
def Frame.prepareDown (f : Frame) (t bot : Point) (wind : Int) : Option Prepared :=
  if min t.x bot.x ≥ wrap32 (f.right * subpixel) then none
  else
    let first := ceilDiv (t.y - halfSub) subpixel
    let last := ceilDiv (bot.y - halfSub) subpixel
    let r0 := max first f.top
    let r1 := min last (f.top + f.rows)
    if r0 ≥ r1 then none
    else
      let dy := bot.y - t.y
      let dx := bot.x - t.x
      let sample := r0 * subpixel + halfSub
      let num := (t.x * dy + (sample - t.y) * dx) * 2 ^ 12
      some
        { row := (r0 - f.top).toNat
          x := sat (num / dy)
          step := sat (dx * 2 ^ 16 / dy)
          last := (r1 - f.top).toNat
          wind }

/-- A horizontal edge is dropped. -/
def Frame.prepare (f : Frame) (a b : Point) : Option Prepared :=
  if a.y = b.y then none
  else if a.y < b.y then f.prepareDown a b 1
  else f.prepareDown b a (-1)

/-- The slot of a prepared edge; its end row is kept in sixteen bits. -/
def Prepared.slot (p : Prepared) (next : Option Nat) : Edge :=
  ⟨p.x, p.step, p.last % 2 ^ 16, next, p.wind⟩

/-- Put a prepared edge into the next slot, at the head of its row's bucket. -/
def Filler.insert (f : Filler) (p : Prepared) : Filler :=
  { f with
    edges := Function.update f.edges f.n (p.slot (f.heads p.row))
    heads := Function.update f.heads p.row (some f.n)
    n := f.n + 1
    lo := min f.lo p.row
    hi := max f.hi p.last }

/-- Nothing where the scratch has no room for the edge. -/
def Filler.edge (f : Filler) (a b : Point) : Option Filler :=
  match f.prepare a b with
  | none => some f
  | some p => if f.n ≥ f.capacity then none else some (f.insert p)

def Filler.addEdges (f : Filler) : List (Point × Point) → Option Filler
  | [] => some f
  | (a, b) :: edges => (f.edge a b).bind (·.addEdges edges)

/-- The edges of a closed ring, the closing one first. -/
def ringEdges (points : List Point) : List (Point × Point) :=
  if points.length < 2 then []
  else (points.getLast?.toList ++ points).zip points

def Filler.ring (f : Filler) (points : List Point) : Option Filler := f.addEdges (ringEdges points)

/-- A horizontal run of pixels handed to the target, the right end exclusive. -/
structure Span where
  y : Int
  x0 : Int
  x1 : Int
  deriving DecidableEq

/-- The first pixel whose centre is not left of `v`. -/
def px (v : Int) : Int := (v - one / 2 + one - 1) / one

def Frame.span (f : Frame) (y xa xb : Int) : List Span :=
  let x0 := max (px xa) f.left
  let x1 := min (px xb) f.right
  if x1 > x0 then [⟨y, x0, x1⟩] else []

/-- The bucket from its head; a bucket has no more edges than there are. -/
def chain (next : Nat → Option Nat) : Nat → Option Nat → List Nat
  | 0, _ => []
  | _ + 1, none => []
  | fuel + 1, some e => e :: chain next fuel (next e)

/-- One step of the insertion sort: larger ones at the end of the sorted part move up. -/
def insertByX (key : Nat → Int) (sorted : List Nat) (id : Nat) : List Nat :=
  sorted.rdropWhile (fun other => key other > key id) ++ id :: sorted.rtakeWhile (fun other => key other > key id)

def sortByX (key : Nat → Int) (active : List Nat) : List Nat := active.foldl (insertByX key) []

def FillRule.windAfter (rule : FillRule) (wind edge : Int) : Int :=
  match rule with
  | .evenOdd => if wind = 0 then 1 else 0
  | .nonZero => wind + edge

structure Walk where
  wind : Int
  start : Int
  spans : List Span

def Frame.walkEdge (f : Frame) (rule : FillRule) (y : Int) (w : Walk) (crossing : Int × Int) : Walk :=
  let wind := rule.windAfter w.wind crossing.2
  if w.wind = 0 ∧ wind ≠ 0 then { w with wind, start := crossing.1 }
  else if w.wind ≠ 0 ∧ wind = 0 then { w with wind, spans := w.spans ++ f.span y w.start crossing.1 }
  else { w with wind }

/-- The spans of a row, from its crossings in order. Still inside after the last edge, the closing ones lay wholly
right of the clip. -/
def Frame.walk (f : Frame) (rule : FillRule) (y : Int) (crossings : List (Int × Int)) : List Span :=
  let w := crossings.foldl (f.walkEdge rule y) ⟨0, 0, []⟩
  if w.wind ≠ 0 then w.spans ++ f.span y w.start i32Max else w.spans

def advance (e : Edge) : Edge := { e with x := sat (e.x + e.step) }

/-- The fill between two rows. -/
structure Scan where
  edges : Nat → Edge
  heads : Nat → Option Nat
  active : List Nat
  spans : List Span

def Filler.scanRow (f : Filler) (rule : FillRule) (s : Scan) (row : Nat) : Scan :=
  let merged := s.active ++ chain (fun e => (s.edges e).next) f.n (s.heads row)
  let running := merged.filter (fun id => (s.edges id).endRow > row)
  let active := sortByX (fun id => (s.edges id).x) running
  let y := wrap32 (f.top + row)
  { edges := active.foldl (fun edges id => Function.update edges id (advance (edges id))) s.edges
    heads := Function.update s.heads row none
    active
    spans := s.spans ++ f.walk rule y (active.map (fun id => ((s.edges id).x, (s.edges id).wind))) }

structure FillStats where
  edges : Nat
  spans : Nat
  pixels : Nat

/-- Fill everything added, then start empty again. -/
def Filler.fill (f : Filler) (rule : FillRule) : Filler × List Span × FillStats :=
  let scan := (List.range' f.lo (f.hi - f.lo)).foldl (f.scanRow rule) ⟨f.edges, f.heads, [], []⟩
  ({ f with edges := scan.edges, heads := scan.heads, n := 0, lo := f.rows, hi := 0 }, scan.spans,
    ⟨f.n, scan.spans.length, (scan.spans.map (fun s => (s.x1 - s.x0).toNat)).sum⟩)

def Filler.addRings (f : Filler) : List (List Point) → Option Filler
  | [] => some f
  | ring :: rings => (f.ring ring).bind (·.addRings rings)

/-- Fill some rings in one go; nothing where they overflow the scratch. -/
def fillRings (scratch : Scratch) (clip : Clip) (rings : List (List Point)) (rule : FillRule) :
    Option (Filler × List Span × FillStats) :=
  ((Filler.new scratch clip).addRings rings).map (·.fill rule)

def Paints (spans : List Span) (x y : Int) : Prop := ∃ s ∈ spans, s.y = y ∧ s.x0 ≤ x ∧ x < s.x1

end Leviculum.Map.Fill
