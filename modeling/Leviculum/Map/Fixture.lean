import Mathlib.Algebra.Ring.Int.Defs
import Leviculum.Lib.Fields

/-! The flat geometry of a tile: a header, the offsets of the tiles and the features, each with its rings. A fixture is
checked end to end once, and then walked in place. -/

namespace Leviculum.Map

open Bytes Reading

def variantFlag : UInt8 := 4

inductive Class where
  | earth
  | urban
  | forest
  | park
  | pedestrian
  | sand
  | water
  | building
  | waterway
  | path
  | minorRoad
  | secondaryRoad
  | majorRoad
  | rail
  deriving DecidableEq

/-- The class byte, and the flag of its newer half. -/
def Class.wire : Class → UInt8 × UInt8
  | .earth => (0, 0)
  | .urban => (1, 0)
  | .forest => (2, variantFlag)
  | .park => (2, 0)
  | .pedestrian => (3, 0)
  | .sand => (4, 0)
  | .water => (5, 0)
  | .building => (6, 0)
  | .waterway => (16, 0)
  | .path => (17, 0)
  | .minorRoad => (18, 0)
  | .secondaryRoad => (19, variantFlag)
  | .majorRoad => (19, 0)
  | .rail => (20, 0)

def Class.fromWire (byte flags : UInt8) : Option Class :=
  let variant := flags &&& variantFlag ≠ 0
  match byte with
  | 0 => some .earth
  | 1 => some .urban
  | 2 => some (if variant then .forest else .park)
  | 3 => some .pedestrian
  | 4 => some .sand
  | 5 => some .water
  | 6 => some .building
  | 16 => some .waterway
  | 17 => some .path
  | 18 => some .minorRoad
  | 19 => some (if variant then .secondaryRoad else .majorRoad)
  | 20 => some .rail
  | _ => none

def Class.isArea : Class → Bool
  | .earth | .urban | .forest | .park | .pedestrian | .sand | .water | .building => true
  | .waterway | .path | .minorRoad | .secondaryRoad | .majorRoad | .rail => false

inductive Kind where
  | area
  | line
  deriving DecidableEq

namespace Fixture

def magic : Bytes := [0x4C, 0x4D, 0x46, 0x31]

def headerLen : Nat := 12

def tileLen : Nat := 8

def featureLen : Nat := 6

end Fixture

inductive FixtureError where
  | magic
  /-- The bytes end inside a record, at this offset. -/
  | truncated (at_ : Nat)
  | tile (at_ : Nat)
  | class_ (at_ : Nat)
  | trailing (at_ : Nat)
  deriving DecidableEq

structure Fixture where
  width : Nat
  height : Nat
  shift : UInt8
  tiles : Bytes
  count : Nat
  body : Bytes
  deriving DecidableEq

namespace Fixture

/-- The rings of a feature, by their lengths; the offset after the last. -/
def skipRings (base : Nat) (body : Bytes) : Nat → Nat → Except FixtureError Nat
  | 0, offset => .ok offset
  | rings + 1, offset => do
    let n ← orFail (.truncated (base + offset)) (leAt? body offset 2)
    ensure (offset + (2 + n * 4) ≤ body.length) (.truncated (base + (offset + (2 + n * 4))))
    skipRings base body rings (offset + (2 + n * 4))

def kindFits (kind : UInt8) (c : Class) : Bool :=
  match kind with
  | 1 => c.isArea
  | 2 => !c.isArea
  | _ => false

/-- The head of a feature: kind, class, tile, flags and the number of rings. -/
structure Head where
  kind : UInt8
  class_ : UInt8
  tile : UInt8
  flags : UInt8
  rings : Nat
  deriving DecidableEq

def Head.at? (body : Bytes) (offset : Nat) : Option Head :=
  match slice? body offset featureLen with
  | some [kind, class_, tile, flags, low, high] => some ⟨kind, class_, tile, flags, NorFlash.ofLe [low, high]⟩
  | _ => none

def checkFeatures (base tiles : Nat) (body : Bytes) : Nat → Nat → Except FixtureError Nat
  | 0, offset => .ok offset
  | count + 1, offset => do
    let head ← orFail (.truncated (base + offset)) (Head.at? body offset)
    let c ← orFail (.class_ (base + offset)) (Class.fromWire head.class_ head.flags)
    ensure (kindFits head.kind c) (.class_ (base + offset))
    ensure (head.tile.toNat < tiles) (.tile (base + offset))
    let after ← skipRings base body head.rings (offset + featureLen)
    checkFeatures base tiles body count after

def parse (bytes : Bytes) : Except FixtureError Fixture := do
  ensure (slice? bytes 0 4 = some magic) .magic
  let width ← orFail (.truncated 4) (leAt? bytes 4 2)
  let height ← orFail (.truncated 6) (leAt? bytes 6 2)
  let shift ← orFail (.truncated 8) bytes[8]?
  let ntiles ← orFail (.truncated 9) bytes[9]?
  let tilesEnd := headerLen + ntiles.toNat * tileLen
  let tiles ← orFail (.truncated headerLen) (slice? bytes headerLen (ntiles.toNat * tileLen))
  let count ← orFail (.truncated tilesEnd) (leAt? bytes tilesEnd 4)
  let body := bytes.drop (tilesEnd + 4)
  let offset ← checkFeatures (tilesEnd + 4) ntiles.toNat body count 0
  ensure (offset = body.length) (.trailing (tilesEnd + 4 + offset))
  return { width, height, shift, tiles, count, body }

/-! ### Walking -/

/-- `i16` and `i32` from their bytes. -/
def signed (width value : Nat) : Int := if value < 256 ^ width / 2 then value else value - 256 ^ width

def tileCount (fx : Fixture) : Nat := fx.tiles.length / tileLen

def tileOffset (fx : Fixture) (tile : UInt8) : Int × Int :=
  (signed 4 ((leAt? fx.tiles (tile.toNat * tileLen) 4).getD 0),
    signed 4 ((leAt? fx.tiles (tile.toNat * tileLen + 4) 4).getD 0))

def ringsEnd (body : Bytes) : Nat → Nat → Option Nat
  | 0, offset => some offset
  | rings + 1, offset => do
    let n ← leAt? body offset 2
    ringsEnd body rings (offset + (2 + n * 4))

structure Feature where
  kind : Kind
  class_ : Class
  flags : UInt8
  offset : Int × Int
  ringCount : Nat
  body : Bytes
  deriving DecidableEq

def next (fx : Fixture) (offset : Nat) : Option (Feature × Nat) := do
  let head ← Head.at? fx.body offset
  let start := offset + featureLen
  let stop ← ringsEnd fx.body head.rings start
  let c ← Class.fromWire head.class_ head.flags
  let body ← slice? fx.body start (stop - start)
  return (⟨if head.kind = 1 then .area else .line, c, head.flags, fx.tileOffset head.tile, head.rings, body⟩, stop)

def featuresFrom (fx : Fixture) : Nat → Nat → List Feature
  | 0, _ => []
  | left + 1, offset =>
    match fx.next offset with
    | none => []
    | some (feature, after) => feature :: fx.featuresFrom left after

def features (fx : Fixture) : List Feature := fx.featuresFrom fx.count 0

def points : Bytes → List (Int × Int)
  | a :: b :: c :: d :: rest => (signed 2 (NorFlash.ofLe [a, b]), signed 2 (NorFlash.ofLe [c, d])) :: points rest
  | _ => []

def ringsFrom (body : Bytes) (offset : Nat) : List (List (Int × Int)) :=
  match _read : leAt? body offset 2 with
  | none => []
  | some n =>
    match slice? body (offset + 2) (n * 4) with
    | none => []
    | some ring => points ring :: ringsFrom body (offset + 2 + n * 4)
termination_by body.length - offset
decreasing_by
  have inside := inside_of_leAt? _read
  omega

def Feature.rings (f : Feature) : List (List (Int × Int)) := ringsFrom f.body 0

/-! ### Writing -/

structure Written where
  kind : Kind
  class_ : Class
  flags : UInt8
  tile : UInt8
  rings : List (List (Int × Int))

/-- `i16::to_le_bytes` and so on. -/
def leSigned (width : Nat) (value : Int) : Bytes := le width (value % 256 ^ width).toNat

def writeRing (ring : List (Int × Int)) : Bytes :=
  le 2 ring.length ++ ring.flatMap (fun p => leSigned 2 p.1 ++ leSigned 2 p.2)

def writeFeature (f : Written) : Bytes :=
  [match f.kind with | .area => 1 | .line => 2, f.class_.wire.1, f.tile, f.flags ||| f.class_.wire.2] ++
    le 2 f.rings.length ++ f.rings.flatMap writeRing

def write (width height : Nat) (shift : UInt8) (tiles : List (Int × Int)) (features : List Written) : Bytes :=
  magic ++ le 2 width ++ le 2 height ++ [shift, UInt8.ofNat tiles.length, 0, 0] ++
    tiles.flatMap (fun t => leSigned 4 t.1 ++ leSigned 4 t.2) ++ le 4 features.length ++ features.flatMap writeFeature

/-! ### A checked fixture is walked to its end -/

theorem skipRings_succ {base rings offset stop : Nat} {body : Bytes}
    (ok : skipRings base body (rings + 1) offset = .ok stop) :
    ∃ n, leAt? body offset 2 = some n ∧ offset + (2 + n * 4) ≤ body.length ∧
      skipRings base body rings (offset + (2 + n * 4)) = .ok stop := by
  rw [skipRings] at ok
  obtain ⟨n, read, ok⟩ := bind_eq_ok.mp ok
  obtain ⟨_, inside, rest⟩ := bind_eq_ok.mp ok
  exact ⟨n, orFail_eq_ok.mp read, of_decide_eq_true (ensure_eq_ok.mp inside), rest⟩

theorem skipRings_le {base rings offset stop : Nat} {body : Bytes} (ok : skipRings base body rings offset = .ok stop)
    (inside : offset ≤ body.length) : offset ≤ stop ∧ stop ≤ body.length := by
  induction rings generalizing offset with
  | zero =>
    obtain rfl := Except.ok.inj ok
    exact ⟨Nat.le_refl _, inside⟩
  | succ rings ih =>
    obtain ⟨n, -, within, rest⟩ := skipRings_succ ok
    have later := ih rest within
    omega

theorem ringsEnd_eq {base rings offset stop : Nat} {body : Bytes} (ok : skipRings base body rings offset = .ok stop) :
    ringsEnd body rings offset = some stop := by
  induction rings generalizing offset with
  | zero => exact congrArg some (Except.ok.inj ok)
  | succ rings ih =>
    obtain ⟨n, read, -, rest⟩ := skipRings_succ ok
    rw [ringsEnd, read]
    exact ih rest

/-- The rings that were counted are there. -/
theorem length_ringsFrom {base rings start stop : Nat} {body : Bytes} (offset : Nat)
    (ok : skipRings base body rings (start + offset) = .ok stop) (inside : start + offset ≤ body.length) :
    (ringsFrom ((body.drop start).take (stop - start)) offset).length = rings := by
  have long : ∀ at_ : Nat, start + at_ ≤ stop → stop ≤ body.length →
      ((body.drop start).take (stop - start)).length = stop - start := by
    intro at_ _ _
    rw [List.length_take, List.length_drop]
    omega
  induction rings generalizing offset with
  | zero =>
    obtain rfl := Except.ok.inj ok
    have short : leAt? ((body.drop start).take (start + offset - start)) offset 2 = none := by
      rw [leAt?, slice?, if_neg, Option.map_none]
      rw [long offset (Nat.le_refl _) inside]
      omega
    rw [ringsFrom]
    split
    next => rfl
    next some_ => rw [short] at some_; cases some_
  | succ rings ih =>
    obtain ⟨n, read, within, rest⟩ := skipRings_succ ok
    have later := skipRings_le rest within
    rw [Nat.add_assoc] at rest within
    have count := ih _ rest within
    have length := long offset (by omega) later.2
    have part : ∀ {at_ size : Nat}, start + at_ + size ≤ stop →
        slice? ((body.drop start).take (stop - start)) at_ size = slice? body (start + at_) size := by
      intro at_ size fits
      rw [slice?, slice?, if_pos (by omega), if_pos (by omega), List.drop_take, List.drop_drop, List.take_take]
      congr 2
      omega
    have read' : leAt? ((body.drop start).take (stop - start)) offset 2 = some n := by
      rw [leAt?, part (by omega)]
      exact read
    rw [ringsFrom]
    split
    next none_ => rw [read'] at none_; cases none_
    next m some_ =>
      rw [read'] at some_
      obtain rfl := Option.some.inj some_
      split
      next none_ =>
        rw [slice?, if_pos (by omega)] at none_
        cases none_
      next => rw [List.length_cons, Nat.add_assoc offset, count]

/-- What the checks promise of a feature: a known class of the right kind, as many rings as counted, a tile of the
header. -/
structure Sound (fx : Fixture) (f : Feature) : Prop where
  kind : f.kind = .area ↔ f.class_.isArea = true
  rings : f.rings.length = f.ringCount
  tile : ∃ tile : UInt8, tile.toNat * tileLen + tileLen ≤ fx.tiles.length ∧ f.offset = fx.tileOffset tile

theorem checkFeatures_succ {base tiles count offset stop : Nat} {fx : Fixture}
    (ok : checkFeatures base tiles fx.body (count + 1) offset = .ok stop) (room : tiles * tileLen ≤ fx.tiles.length) :
    ∃ f after, fx.next offset = some (f, after) ∧ fx.Sound f ∧ checkFeatures base tiles fx.body count after = .ok stop := by
  rw [checkFeatures] at ok
  obtain ⟨head, read, ok⟩ := bind_eq_ok.mp ok
  obtain ⟨c, known, ok⟩ := bind_eq_ok.mp ok
  obtain ⟨_, fits, ok⟩ := bind_eq_ok.mp ok
  obtain ⟨_, tile, ok⟩ := bind_eq_ok.mp ok
  obtain ⟨after, skipped, ok⟩ := bind_eq_ok.mp ok
  rw [orFail_eq_ok] at read known
  rw [ensure_eq_ok] at fits tile
  replace tile := of_decide_eq_true tile
  have inside : offset + featureLen ≤ fx.body.length := by
    unfold Head.at? at read
    split at read
    next bytes => exact (slice?_eq_some.mp bytes).1
    next => cases read
  have later := skipRings_le skipped inside
  have body : slice? fx.body (offset + featureLen) (after - (offset + featureLen)) =
      some ((fx.body.drop (offset + featureLen)).take (after - (offset + featureLen))) :=
    slice?_eq_some.mpr ⟨by omega, rfl⟩
  refine ⟨⟨if head.kind = 1 then .area else .line, c, head.flags, fx.tileOffset head.tile, head.rings,
    (fx.body.drop (offset + featureLen)).take (after - (offset + featureLen))⟩, after, ?_, ?_, ok⟩
  · unfold next
    simp only [read, ringsEnd_eq skipped, known, body, Option.bind_eq_bind, Option.bind_some, Option.pure_def]
  · refine ⟨?_, ?_, head.tile, ?_, rfl⟩
    · unfold kindFits at fits
      split at fits
      next area => simp [area, fits]
      next line =>
        have noArea : c.isArea = false := by simpa using fits
        simp [line, noArea]
      next => cases fits
    · exact length_ringsFrom 0 skipped inside
    · have under : (head.tile.toNat + 1) * tileLen ≤ tiles * tileLen := Nat.mul_le_mul_right _ (by omega)
      rw [Nat.add_mul, Nat.one_mul] at under
      omega

theorem features_of_checked {base tiles count offset stop : Nat} (fx : Fixture)
    (ok : checkFeatures base tiles fx.body count offset = .ok stop) (room : tiles * tileLen ≤ fx.tiles.length) :
    (fx.featuresFrom count offset).length = count ∧ ∀ f ∈ fx.featuresFrom count offset, fx.Sound f := by
  induction count generalizing offset with
  | zero => exact ⟨rfl, by simp [featuresFrom]⟩
  | succ count ih =>
    obtain ⟨f, after, found, sound, rest⟩ := checkFeatures_succ ok room
    obtain ⟨length, all⟩ := ih rest
    rw [featuresFrom, found]
    refine ⟨congrArg (· + 1) length, ?_⟩
    intro g member
    rcases List.mem_cons.mp member with rfl | later
    · exact sound
    · exact all g later

/-- Walking what was accepted cannot fail: there are as many features as the header counts, each of a known class of its
kind, with the rings it counts and the offset of a tile that is there. -/
theorem features_of_parse {bytes : Bytes} {fx : Fixture} (parsed : parse bytes = .ok fx) :
    fx.features.length = fx.count ∧ ∀ f ∈ fx.features, fx.Sound f := by
  unfold parse at parsed
  obtain ⟨_, -, parsed⟩ := bind_eq_ok.mp parsed
  obtain ⟨width, -, parsed⟩ := bind_eq_ok.mp parsed
  obtain ⟨height, -, parsed⟩ := bind_eq_ok.mp parsed
  obtain ⟨shift, -, parsed⟩ := bind_eq_ok.mp parsed
  obtain ⟨ntiles, -, parsed⟩ := bind_eq_ok.mp parsed
  obtain ⟨tiles, taken, parsed⟩ := bind_eq_ok.mp parsed
  obtain ⟨count, -, parsed⟩ := bind_eq_ok.mp parsed
  obtain ⟨offset, checked, parsed⟩ := bind_eq_ok.mp parsed
  obtain ⟨_, -, parsed⟩ := bind_eq_ok.mp parsed
  obtain rfl := Except.ok.inj parsed
  rw [orFail_eq_ok] at taken
  exact features_of_checked ⟨width, height, shift, tiles, count, _⟩ checked
    (Nat.le_of_eq (length_of_slice? taken).symm)

/-! ### What the writer writes -/

/-- What fits into a signed integer of so many bytes. -/
def InRange (width : Nat) (value : Int) : Prop :=
  -((256 ^ width / 2 : Nat) : Int) ≤ value ∧ value < ((256 ^ width / 2 : Nat) : Int)

theorem signed_leSigned {width : Nat} (even : 256 ^ width / 2 * 2 = 256 ^ width) {value : Int} (fits : InRange width value) :
    signed width (NorFlash.ofLe (leSigned width value)) = value := by
  obtain ⟨low, high⟩ := fits
  have cast : (256 : Int) ^ width = ((256 ^ width : Nat) : Int) := (Int.natCast_pow 256 width).symm
  unfold leSigned signed
  rw [NorFlash.ofLe_le, cast]
  generalize 256 ^ width = top at *
  by_cases negative : value < 0
  · have wrapped : value % (top : Int) = value + top := by
      rw [← Int.add_emod_right, Int.emod_eq_of_lt (by omega) (by omega)]
    rw [wrapped, Nat.mod_eq_of_lt (by omega), if_neg (by omega)]
    omega
  · have same : value % (top : Int) = value := Int.emod_eq_of_lt (by omega) (by omega)
    rw [same, Nat.mod_eq_of_lt (by omega), if_pos (by omega)]
    omega

theorem length_leSigned (width : Nat) (value : Int) : (leSigned width value).length = width := length_le _ _

theorem points_write {ring : List (Int × Int)} (fits : ∀ p ∈ ring, InRange 2 p.1 ∧ InRange 2 p.2) :
    points (ring.flatMap (fun p => leSigned 2 p.1 ++ leSigned 2 p.2)) = ring := by
  induction ring with
  | nil => rfl
  | cons p ring ih =>
    obtain ⟨first, second⟩ := fits p List.mem_cons_self
    rw [List.flatMap_cons]
    show (signed 2 (NorFlash.ofLe (leSigned 2 p.1)), signed 2 (NorFlash.ofLe (leSigned 2 p.2))) ::
      points (ring.flatMap (fun p => leSigned 2 p.1 ++ leSigned 2 p.2)) = _
    rw [signed_leSigned (by decide) first, signed_leSigned (by decide) second,
      ih (fun q member => fits q (List.mem_cons_of_mem _ member))]

theorem length_ring (ring : List (Int × Int)) :
    (ring.flatMap (fun p => leSigned 2 p.1 ++ leSigned 2 p.2)).length = ring.length * 4 := by
  induction ring with
  | nil => rfl
  | cons p ring ih =>
    rw [List.flatMap_cons, List.length_append, ih, List.length_append, length_leSigned, length_leSigned, List.length_cons]
    omega

/-- A ring within the limits of the format. -/
def RingFits (ring : List (Int × Int)) : Prop := ring.length < 256 ^ 2 ∧ ∀ p ∈ ring, InRange 2 p.1 ∧ InRange 2 p.2

theorem at_ring {body rest : Bytes} {offset : Nat} {ring : List (Int × Int)} (fits : RingFits ring)
    (here : At body offset (writeRing ring ++ rest)) :
    leAt? body offset 2 = some ring.length ∧
      slice? body (offset + 2) (ring.length * 4) = some (ring.flatMap (fun p => leSigned 2 p.1 ++ leSigned 2 p.2)) ∧
      At body (offset + (2 + ring.length * 4)) rest := by
  unfold writeRing at here
  rw [List.append_assoc] at here
  obtain ⟨count, after⟩ := here.le fits.1
  obtain ⟨vertices, later⟩ := after.slice
  rw [length_ring] at vertices later
  rw [Nat.add_assoc] at later
  exact ⟨count, vertices, later⟩

theorem skipRings_write (base : Nat) {offset : Nat} {body rest : Bytes} {rings : List (List (Int × Int))}
    (fits : ∀ ring ∈ rings, RingFits ring) (here : At body offset (rings.flatMap writeRing ++ rest)) :
    skipRings base body rings.length offset = .ok (offset + (rings.flatMap writeRing).length) ∧
      At body (offset + (rings.flatMap writeRing).length) rest := by
  induction rings generalizing offset with
  | nil => exact ⟨rfl, here⟩
  | cons ring rings ih =>
    rw [List.flatMap_cons, List.append_assoc] at here
    obtain ⟨count, -, after⟩ := at_ring (fits ring List.mem_cons_self) here
    have length : (writeRing ring).length = 2 + ring.length * 4 := by
      rw [writeRing, List.length_append, length_le, length_ring]
    obtain ⟨skipped, last⟩ := ih (fun other member => fits other (List.mem_cons_of_mem _ member)) after
    rw [List.flatMap_cons, List.length_append, length, ← Nat.add_assoc]
    refine ⟨?_, last⟩
    rw [List.length_cons, skipRings, count]
    show (ensure _ _ >>= fun _ => _) = _
    rw [bind_eq_ok]
    exact ⟨(), ensure_eq_ok.mpr (decide_eq_true after.inside), skipped⟩

theorem ringsFrom_write {body : Bytes} {offset : Nat} {rings : List (List (Int × Int))}
    (fits : ∀ ring ∈ rings, RingFits ring) (here : At body offset (rings.flatMap writeRing)) :
    ringsFrom body offset = rings := by
  induction rings generalizing offset with
  | nil =>
    have long := congrArg List.length here.drop
    rw [List.length_drop] at long
    have short : leAt? body offset 2 = none := by
      rw [leAt?, slice?, if_neg, Option.map_none]
      have inside := here.inside
      simp only [List.flatMap_nil, List.length_nil] at long
      omega
    rw [ringsFrom]
    split
    next => rfl
    next some_ => rw [short] at some_; cases some_
  | cons ring rings ih =>
    rw [List.flatMap_cons] at here
    have own := fits ring List.mem_cons_self
    obtain ⟨count, vertices, after⟩ := at_ring own here
    rw [ringsFrom]
    split
    next none_ => rw [count] at none_; cases none_
    next n some_ =>
      rw [count] at some_
      obtain rfl := Option.some.inj some_
      rw [vertices]
      dsimp only
      rw [points_write own.2, Nat.add_assoc, ih (fun other member => fits other (List.mem_cons_of_mem _ member)) after]

/-- A feature within the limits of the format; the variant bit is the writer's to set. -/
structure Written.Fits (tiles : Nat) (f : Written) : Prop where
  kind : f.kind = .area ↔ f.class_.isArea = true
  flags : f.flags &&& variantFlag = 0
  tile : f.tile.toNat < tiles
  count : f.rings.length < 256 ^ 2
  rings : ∀ ring ∈ f.rings, RingFits ring

theorem fromWire_wire {flags : UInt8} (plain : flags &&& variantFlag = 0) (c : Class) :
    Class.fromWire c.wire.1 (flags ||| c.wire.2) = some c := by
  have without : (flags ||| 0) &&& variantFlag = 0 := by simpa using plain
  have with_ : (flags ||| variantFlag) &&& variantFlag ≠ 0 :=
    forall_byte (p := fun byte => (byte ||| variantFlag) &&& variantFlag ≠ 0) (by decide +kernel) flags
  cases c <;> simp [Class.wire, Class.fromWire, plain, with_]

theorem head_write {body rest : Bytes} {offset tiles : Nat} {f : Written} (fits : f.Fits tiles)
    (here : At body offset (writeFeature f ++ rest)) :
    Head.at? body offset = some ⟨match f.kind with | .area => 1 | .line => 2, f.class_.wire.1, f.tile,
        f.flags ||| f.class_.wire.2, f.rings.length⟩ ∧
      At body (offset + featureLen) (f.rings.flatMap writeRing ++ rest) := by
  unfold writeFeature at here
  rw [List.append_assoc] at here
  obtain ⟨read, after⟩ := here.slice
  refine ⟨?_, after⟩
  unfold Head.at?
  have six : slice? body offset featureLen = some ([match f.kind with | .area => 1 | .line => 2, f.class_.wire.1, f.tile,
    f.flags ||| f.class_.wire.2] ++ le 2 f.rings.length) := read
  rw [six]
  have count : NorFlash.ofLe (le 2 f.rings.length) = f.rings.length := by
    rw [NorFlash.ofLe_le, Nat.mod_eq_of_lt fits.count]
  simp only [le, List.cons_append, List.nil_append] at count ⊢
  rw [count]

theorem kindFits_write {f : Written} {tiles : Nat} (fits : f.Fits tiles) :
    kindFits (match f.kind with | .area => 1 | .line => 2) f.class_ = true := by
  have kind := fits.kind
  cases own : f.kind with
  | area => exact kind.mp own
  | line =>
    have noArea : f.class_.isArea = false := by
      rw [Bool.eq_false_iff]
      intro area
      rw [kind.mpr area] at own
      cases own
    show (!f.class_.isArea) = true
    rw [noArea]
    rfl

theorem length_writeFeature (f : Written) : (writeFeature f).length = featureLen + (f.rings.flatMap writeRing).length := by
  unfold writeFeature
  rw [List.length_append, List.length_append, length_le]
  rfl

theorem checkFeatures_write {base tiles offset : Nat} {body : Bytes} (rest : Bytes) {features : List Written}
    (fits : ∀ f ∈ features, f.Fits tiles) (here : At body offset (features.flatMap writeFeature ++ rest)) :
    checkFeatures base tiles body features.length offset = .ok (offset + (features.flatMap writeFeature).length) := by
  induction features generalizing offset with
  | nil => rfl
  | cons f features ih =>
    have own := fits f List.mem_cons_self
    rw [List.flatMap_cons, List.append_assoc] at here
    obtain ⟨head, after⟩ := head_write own here
    obtain ⟨skipped, later⟩ := skipRings_write base own.rings after
    have rest := ih (fun g member => fits g (List.mem_cons_of_mem _ member)) later
    rw [List.length_cons, checkFeatures, head]
    simp only [orFail, ok_bind, fromWire_wire own.flags, kindFits_write own, own.tile, decide_true, ensure, if_true,
      skipped, rest]
    rw [List.flatMap_cons, List.length_append, length_writeFeature]
    simp only [Nat.add_assoc]

def Written.seen (fx : Fixture) (f : Written) : Feature :=
  ⟨f.kind, f.class_, f.flags ||| f.class_.wire.2, fx.tileOffset f.tile, f.rings.length, f.rings.flatMap writeRing⟩

theorem next_write {fx : Fixture} {offset tiles : Nat} {rest : Bytes} {f : Written} (fits : f.Fits tiles)
    (here : At fx.body offset (writeFeature f ++ rest)) :
    fx.next offset = some (f.seen fx, offset + (writeFeature f).length) := by
  obtain ⟨head, after⟩ := head_write fits here
  obtain ⟨skipped, -⟩ := skipRings_write 0 fits.rings after
  obtain ⟨body, -⟩ := after.slice
  have kind : (if (match f.kind with | .area => (1 : UInt8) | .line => 2) = 1 then Kind.area else .line) = f.kind := by
    cases f.kind <;> rfl
  unfold next
  simp only [head, ringsEnd_eq skipped, fromWire_wire fits.flags, Nat.add_sub_cancel_left, body, Option.bind_eq_bind,
    Option.bind_some, Option.pure_def, kind]
  rw [length_writeFeature, Nat.add_assoc]
  rfl

theorem featuresFrom_write {fx : Fixture} {offset tiles : Nat} {features : List Written}
    (fits : ∀ f ∈ features, f.Fits tiles) (here : At fx.body offset (features.flatMap writeFeature)) :
    fx.featuresFrom features.length offset = features.map (·.seen fx) := by
  induction features generalizing offset with
  | nil => rfl
  | cons f features ih =>
    rw [List.flatMap_cons] at here
    rw [List.length_cons, featuresFrom, next_write (fits f List.mem_cons_self) here]
    dsimp only
    rw [ih (fun g member => fits g (List.mem_cons_of_mem _ member)) here.slice.2]
    rfl

theorem rings_seen {fx : Fixture} {tiles : Nat} {f : Written} (fits : f.Fits tiles) : (f.seen fx).rings = f.rings :=
  ringsFrom_write fits.rings ⟨Nat.zero_le _, rfl⟩

def writeTiles (tiles : List (Int × Int)) : Bytes := tiles.flatMap (fun t => leSigned 4 t.1 ++ leSigned 4 t.2)

theorem length_writeTiles (tiles : List (Int × Int)) : (writeTiles tiles).length = tiles.length * tileLen := by
  induction tiles with
  | nil => rfl
  | cons t tiles ih =>
    unfold writeTiles at ih ⊢
    rw [List.flatMap_cons, List.length_append, ih, List.length_append, length_leSigned, length_leSigned, List.length_cons,
      Nat.add_mul]
    unfold tileLen
    omega

theorem tileOffset_write {fx : Fixture} {tiles : List (Int × Int)} (bytes : fx.tiles = writeTiles tiles)
    (fits : ∀ t ∈ tiles, InRange 4 t.1 ∧ InRange 4 t.2) {tile : UInt8} {t : Int × Int}
    (there : tiles[tile.toNat]? = some t) : fx.tileOffset tile = t := by
  obtain ⟨inside, rfl⟩ := List.getElem?_eq_some_iff.mp there
  obtain ⟨first, second⟩ := fits _ (List.getElem_mem inside)
  have here : At (writeTiles tiles) (tile.toNat * tileLen) (leSigned 4 tiles[tile.toNat].1 ++
      (leSigned 4 tiles[tile.toNat].2 ++ writeTiles (tiles.drop (tile.toNat + 1)))) := by
    have parts : writeTiles tiles = writeTiles (tiles.take tile.toNat) ++ (leSigned 4 tiles[tile.toNat].1 ++
        (leSigned 4 tiles[tile.toNat].2 ++ writeTiles (tiles.drop (tile.toNat + 1)))) := by
      conv_lhs => rw [← List.take_append_drop tile.toNat tiles, List.drop_eq_getElem_cons inside]
      simp only [writeTiles, List.flatMap_append, List.flatMap_cons, List.append_assoc]
    have place := at_append (writeTiles (tiles.take tile.toNat)) (leSigned 4 tiles[tile.toNat].1 ++
      (leSigned 4 tiles[tile.toNat].2 ++ writeTiles (tiles.drop (tile.toNat + 1))))
    rw [length_writeTiles, List.length_take, Nat.min_eq_left (Nat.le_of_lt inside), ← parts] at place
    exact place
  obtain ⟨x, after⟩ := here.slice
  obtain ⟨y, -⟩ := after.slice
  rw [length_leSigned] at x y
  rw [length_leSigned] at y
  unfold tileOffset leAt?
  rw [bytes, x, y, Option.map_some, Option.map_some, Option.getD_some, Option.getD_some,
    signed_leSigned (by decide) first, signed_leSigned (by decide) second]

/-- A fixture within the limits of the format. -/
structure WriteFits (width height : Nat) (tiles : List (Int × Int)) (features : List Written) : Prop where
  width : width < 256 ^ 2
  height : height < 256 ^ 2
  tileCount : tiles.length < 256
  tileRange : ∀ t ∈ tiles, InRange 4 t.1 ∧ InRange 4 t.2
  count : features.length < 256 ^ 4
  features : ∀ f ∈ features, f.Fits tiles.length

theorem parse_write {width height : Nat} (shift : UInt8) {tiles : List (Int × Int)} {features : List Written}
    (fits : WriteFits width height tiles features) :
    parse (write width height shift tiles features) =
      .ok ⟨width, height, shift, writeTiles tiles, features.length, features.flatMap writeFeature⟩ := by
  have whole : write width height shift tiles features = magic ++ (le 2 width ++ (le 2 height ++ (shift ::
      UInt8.ofNat tiles.length :: 0 :: 0 :: (writeTiles tiles ++ (le 4 features.length ++
        (features.flatMap writeFeature ++ [])))))) := by
    simp only [write, writeTiles, List.append_assoc, List.cons_append, List.nil_append, List.append_nil]
  generalize write width height shift tiles features = bytes at whole
  have here : At bytes 0 _ := ⟨Nat.zero_le _, whole⟩
  obtain ⟨start, here⟩ := here.slice
  obtain ⟨w, here⟩ := here.le fits.width
  obtain ⟨h, here⟩ := here.le fits.height
  obtain ⟨s, here⟩ := here.byte
  obtain ⟨n, here⟩ := here.byte
  obtain ⟨-, here⟩ := here.byte
  obtain ⟨-, here⟩ := here.byte
  obtain ⟨t, here⟩ := here.slice
  obtain ⟨c, here⟩ := here.le fits.count
  have small : (UInt8.ofNat tiles.length).toNat = tiles.length := by
    rw [UInt8.toNat_ofNat']
    exact Nat.mod_eq_of_lt fits.tileCount
  rw [length_writeTiles] at t c here
  have body : bytes.drop (headerLen + tiles.length * tileLen + 4) = features.flatMap writeFeature := by
    have rest := here.drop
    rwa [List.append_nil] at rest
  have checked : checkFeatures (headerLen + tiles.length * tileLen + 4) tiles.length (features.flatMap writeFeature)
      features.length 0 = .ok (features.flatMap writeFeature).length := by
    rw [checkFeatures_write [] fits.features ⟨Nat.zero_le _, by rw [List.append_nil]; rfl⟩, Nat.zero_add]
  have start' : slice? bytes 0 4 = some magic := start
  have w' : leAt? bytes 4 2 = some width := w
  have h' : leAt? bytes 6 2 = some height := h
  have s' : bytes[8]? = some shift := s
  have n' : bytes[9]? = some (UInt8.ofNat tiles.length) := n
  have t' : slice? bytes headerLen (tiles.length * tileLen) = some (writeTiles tiles) := t
  have c' : leAt? bytes (headerLen + tiles.length * tileLen) 4 = some features.length := c
  unfold parse
  simp only [start', w', h', s', n', small, t', c', body, checked, orFail, ok_bind, ensure, decide_true, if_true]
  rfl

def Feature.content (f : Feature) : Kind × Class × UInt8 × (Int × Int) × List (List (Int × Int)) :=
  (f.kind, f.class_, f.flags, f.offset, f.rings)

/-- The same of a feature to write, the offset of its tile among the tiles given. -/
def Written.content (tiles : List (Int × Int)) (f : Written) : Kind × Class × UInt8 × (Int × Int) × List (List (Int × Int)) :=
  (f.kind, f.class_, f.flags ||| f.class_.wire.2, tiles[f.tile.toNat]?.getD (0, 0), f.rings)

/-- What the writer writes within the limits of the format, the reader accepts and gives back. -/
theorem fixture_round_trip (width height : Nat) (shift : UInt8) (tiles : List (Int × Int)) (features : List Written)
    (fits : WriteFits width height tiles features) :
    ∃ fx, parse (write width height shift tiles features) = .ok fx ∧ fx.width = width ∧ fx.height = height ∧
      fx.shift = shift ∧ fx.tileCount = tiles.length ∧
      fx.features.map Feature.content = features.map (Written.content tiles) := by
  refine ⟨_, parse_write shift fits, rfl, rfl, rfl, ?_, ?_⟩
  · show (writeTiles tiles).length / tileLen = tiles.length
    rw [length_writeTiles]
    exact Nat.mul_div_cancel _ (by decide)
  · have walked : Fixture.features ⟨width, height, shift, writeTiles tiles, features.length, features.flatMap writeFeature⟩ =
        features.map (·.seen ⟨width, height, shift, writeTiles tiles, features.length, features.flatMap writeFeature⟩) :=
      featuresFrom_write fits.features ⟨Nat.zero_le _, rfl⟩
    rw [walked, List.map_map]
    apply List.map_congr_left
    intro f member
    have own := fits.features f member
    have place := List.getElem?_eq_getElem own.tile
    show (f.kind, f.class_, f.flags ||| f.class_.wire.2, tileOffset _ f.tile, (f.seen _).rings) = _
    rw [rings_seen own, @tileOffset_write ⟨width, height, shift, writeTiles tiles, features.length, features.flatMap writeFeature⟩
      tiles rfl fits.tileRange _ _ place]
    unfold Written.content
    rw [place]
    rfl

def sampleFeatures : List Written :=
  [⟨.area, .forest, 0, 0, [[(0, 0), (-4, 7), (4095, 12)], []]⟩, ⟨.line, .majorRoad, 1, 0, [[(5, 5), (6, -6)]]⟩]

theorem sampleFeatures_fit : WriteFits 256 256 [(-1, 70000)] sampleFeatures := by
  refine ⟨by decide, by decide, by decide, ?_, by decide, ?_⟩
  · unfold InRange
    decide
  · intro f member
    unfold sampleFeatures at member
    rcases List.mem_cons.mp member with rfl | later
    · refine ⟨by decide, by decide, by decide, by decide, ?_⟩
      unfold RingFits InRange
      decide
    · rw [List.mem_singleton.mp later]
      refine ⟨by decide, by decide, by decide, by decide, ?_⟩
      unfold RingFits InRange
      decide

theorem sample_round_trip :
    ∃ fx, parse (write 256 256 0 [(-1, 70000)] sampleFeatures) = .ok fx ∧
      fx.features.map Feature.content = [(.area, .forest, 4, (-1, 70000), [[(0, 0), (-4, 7), (4095, 12)], []]),
        (.line, .majorRoad, 1, (-1, 70000), [[(5, 5), (6, -6)]])] := by
  obtain ⟨fx, parsed, -, -, -, -, content⟩ :=
    fixture_round_trip 256 256 0 [(-1, 70000)] sampleFeatures sampleFeatures_fit
  exact ⟨fx, parsed, content⟩

theorem sample_walked :
    ∃ fx, parse (write 256 256 0 [(-1, 70000)] sampleFeatures) = .ok fx ∧ fx.features.length = 2 ∧
      ∀ f ∈ fx.features, fx.Sound f := by
  have parsed := parse_write 0 sampleFeatures_fit
  obtain ⟨count, sound⟩ := features_of_parse parsed
  exact ⟨_, parsed, count, sound⟩

end Fixture

end Leviculum.Map
