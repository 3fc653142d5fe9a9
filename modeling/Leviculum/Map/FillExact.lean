import Mathlib.Algebra.Order.Ring.Abs
import Mathlib.Algebra.Order.Field.Rat
import Mathlib.Tactic.FieldSimp
import Mathlib.Tactic.Linarith
import Mathlib.Tactic.Ring
import Leviculum.Map.FillSpec
import Mathlib.Tactic.IntervalCases

/-! The fill against the geometry: while no crossing leaves the range of 16.16 fixed point, a pixel whose centre is not
too near to an edge is painted exactly when the rings enclose its centre. -/

namespace Leviculum.Map.Fill

def upper (edge : Point × Point) : Point := if edge.1.y < edge.2.y then edge.1 else edge.2

def lower (edge : Point × Point) : Point := if edge.1.y < edge.2.y then edge.2 else edge.1

/-- Down is positive. -/
def direction (edge : Point × Point) : Int := if edge.1.y < edge.2.y then 1 else -1

/-- The edge crosses the centre line of a row; a vertex on the line belongs to the edge below it. -/
def Crosses (edge : Point × Point) (y : Int) : Prop :=
  (upper edge).y ≤ subpixel * y + halfSub ∧ subpixel * y + halfSub < (lower edge).y

instance (edge : Point × Point) (y : Int) : Decidable (Crosses edge y) := inferInstanceAs (Decidable (_ ∧ _))

/-- Where the line through the edge meets the centre line of a row, in pixels. -/
def crossing (edge : Point × Point) (y : Int) : ℚ :=
  ((upper edge).x + (subpixel * y + halfSub - (upper edge).y : Int) * ((lower edge).x - (upper edge).x : Int) /
    ((lower edge).y - (upper edge).y : Int)) / 16

/-- The directions of the edges a ray from the centre of a pixel to the right crosses. -/
def windsRight (edges : List (Point × Point)) (x y : Int) : List Int :=
  (edges.filter (fun edge => Crosses edge y ∧ (x + 1 / 2 : ℚ) < crossing edge y)).map direction

def Enclosed (rule : FillRule) (rings : List (List Point)) (x y : Int) : Prop :=
  rule.Encloses (windsRight (rings.flatMap ringEdges) x y)

/-- The centre of the pixel is farther than the rounding of `rows` steps from every edge on its row. -/
def Far (rings : List (List Point)) (rows : Nat) (x y : Int) : Prop :=
  ∀ edge ∈ rings.flatMap ringEdges, Crosses edge y → ((rows + 1 : Nat) : ℚ) / 65536 < |crossing edge y - (x + 1 / 2)|

section Closed

variable {y : Int}

def below (y : Int) (p : Point) : Int := if subpixel * y + halfSub < p.y then 1 else 0

theorem direction_eq {edge : Point × Point} (crosses : Crosses edge y) :
    direction edge = below y edge.2 - below y edge.1 := by
  unfold Crosses upper lower at crosses
  unfold direction below
  split_ifs at crosses ⊢ <;> omega

theorem below_eq {edge : Point × Point} (apart : ¬ Crosses edge y) : below y edge.2 - below y edge.1 = 0 := by
  unfold Crosses upper lower at apart
  unfold below
  split_ifs at apart ⊢ <;> omega

/-- The directions of all edges that cross a row. -/
def windsAcross (edges : List (Point × Point)) (y : Int) : List Int :=
  (edges.filter (fun edge => Crosses edge y)).map direction

theorem sum_windsAcross (edges : List (Point × Point)) (y : Int) :
    (windsAcross edges y).sum = (edges.map (fun edge => below y edge.2 - below y edge.1)).sum := by
  unfold windsAcross
  induction edges with
  | nil => rfl
  | cons edge later ih =>
    by_cases crosses : Crosses edge y
    · rw [List.filter_cons_of_pos (by simpa using crosses), List.map_cons, List.sum_cons, List.map_cons, List.sum_cons, ih,
        direction_eq crosses]
    · rw [List.filter_cons_of_neg (by simpa using crosses), List.map_cons, List.sum_cons, ih, below_eq crosses, zero_add]

theorem sum_windsAcross_ring (points : List Point) (y : Int) : (windsAcross (ringEdges points) y).sum = 0 := by
  rw [sum_windsAcross]
  unfold ringEdges
  split
  · rfl
  · have telescope : ∀ (rest : List Point) (first : Point),
        (((first :: rest).zip rest).map (fun edge => below y edge.2 - below y edge.1)).sum =
          below y ((first :: rest).getLast (List.cons_ne_nil _ _)) - below y first := by
      intro rest
      induction rest with
      | nil => intro first; simp
      | cons next later ih =>
        intro first
        rw [List.zip_cons_cons, List.map_cons, List.sum_cons, ih next, List.getLast_cons (List.cons_ne_nil _ _)]
        dsimp only
        omega
    cases points with
    | nil => rfl
    | cons first rest =>
      have final : (first :: rest).getLast? = some ((first :: rest).getLast (List.cons_ne_nil _ _)) :=
        List.getLast?_eq_some_getLast _
      rw [final]
      show (((_ :: first :: rest).zip (first :: rest)).map _).sum = 0
      rw [telescope, List.getLast_cons (List.cons_ne_nil _ _)]
      omega

theorem sum_windsAcross_rings (rings : List (List Point)) (y : Int) :
    (windsAcross (rings.flatMap ringEdges) y).sum = 0 := by
  induction rings with
  | nil => rfl
  | cons ring later ih =>
    unfold windsAcross at ih ⊢
    rw [List.flatMap_cons, List.filter_append, List.map_append, List.sum_append, ih]
    have one := sum_windsAcross_ring ring y
    unfold windsAcross at one
    rw [one, add_zero]

theorem length_mod_two {winds : List Int} (signs : ∀ wind ∈ winds, wind = 1 ∨ wind = -1) :
    (winds.length : Int) % 2 = winds.sum % 2 := by
  induction winds with
  | nil => rfl
  | cons wind later ih =>
    have rest := ih (fun wind member => signs wind (List.mem_cons_of_mem _ member))
    rw [List.sum_cons, List.length_cons]
    rcases signs wind List.mem_cons_self with rfl | rfl <;> omega

theorem encloses_parts (rule : FillRule) {left right whole : List Int} (parts : (left ++ right).Perm whole)
    (zero : whole.sum = 0) (signs : ∀ wind ∈ whole, wind = 1 ∨ wind = -1) :
    rule.Encloses left ↔ rule.Encloses right := by
  have sums : left.sum + right.sum = 0 := by
    rw [← List.sum_append, parts.sum_eq, zero]
  have leftSigns : ∀ wind ∈ left, wind = 1 ∨ wind = -1 := by
    intro wind member
    exact signs wind (parts.mem_iff.mp (List.mem_append_left _ member))
  have rightSigns : ∀ wind ∈ right, wind = 1 ∨ wind = -1 := by
    intro wind member
    exact signs wind (parts.mem_iff.mp (List.mem_append_right _ member))
  cases rule with
  | nonZero =>
    show left.sum ≠ 0 ↔ right.sum ≠ 0
    omega
  | evenOdd =>
    show left.length % 2 = 1 ↔ right.length % 2 = 1
    have one := length_mod_two leftSigns
    have two := length_mod_two rightSigns
    omega

end Closed

/-! One edge in fixed point. -/

/-- The rows of the clip an edge crosses, the second one exclusive. -/
def Frame.firstRow (f : Frame) (edge : Point × Point) : Int := max (ceilDiv ((upper edge).y - halfSub) subpixel) f.top

def Frame.pastRow (f : Frame) (edge : Point × Point) : Int :=
  min (ceilDiv ((lower edge).y - halfSub) subpixel) (f.top + f.rows)

/-- The crossing with a row times the height of the edge, in 16.16. -/
def scaledAt (edge : Point × Point) (y : Int) : Int :=
  ((upper edge).x * ((lower edge).y - (upper edge).y) +
    (y * subpixel + halfSub - (upper edge).y) * ((lower edge).x - (upper edge).x)) * 2 ^ 12

def fixedStart (f : Frame) (edge : Point × Point) : Int :=
  scaledAt edge (f.firstRow edge) / ((lower edge).y - (upper edge).y)

def fixedStep (edge : Point × Point) : Int :=
  ((lower edge).x - (upper edge).x) * 2 ^ 16 / ((lower edge).y - (upper edge).y)

/-- The crossings of the edge with the rows of the clip, advanced in fixed point from the first, stay in the range of an
`i32`, about 32768 pixels either way; so does the step, where one is taken. -/
def Frame.Representable (f : Frame) (edge : Point × Point) : Prop :=
  (∀ k : Nat, f.firstRow edge + k < f.pastRow edge →
      i32Min ≤ fixedStart f edge + k * fixedStep edge ∧ fixedStart f edge + k * fixedStep edge ≤ i32Max) ∧
    (f.firstRow edge + 1 < f.pastRow edge → i32Min ≤ fixedStep edge ∧ fixedStep edge ≤ i32Max)

theorem sat_of_range {v : Int} (range : i32Min ≤ v ∧ v ≤ i32Max) : sat v = v := by
  unfold sat
  omega

theorem ceilDiv_le {a b y : Int} (positive : 0 < b) : ceilDiv a b ≤ y ↔ a ≤ b * y := by
  unfold ceilDiv
  rw [neg_le, Int.le_ediv_iff_mul_le positive, neg_mul, neg_le_neg_iff, mul_comm]

section Edge

variable {f : Frame} {edge : Point × Point}

theorem crosses_iff {row : Nat} (inside : row < f.rows) :
    Crosses edge (f.top + row) ↔ f.firstRow edge ≤ f.top + row ∧ f.top + row < f.pastRow edge := by
  have starts := ceilDiv_le (a := (upper edge).y - halfSub) (y := f.top + row) (by decide : 0 < subpixel)
  have ends := ceilDiv_le (a := (lower edge).y - halfSub) (y := f.top + row) (by decide : 0 < subpixel)
  unfold Crosses Frame.firstRow Frame.pastRow
  omega

theorem upper_lt_lower {y : Int} (crosses : Crosses edge y) : (upper edge).y < (lower edge).y :=
  lt_of_le_of_lt crosses.1 crosses.2

theorem prepare_eq (sloped : (upper edge).y < (lower edge).y) :
    f.prepare edge.1 edge.2 = f.prepareDown (upper edge) (lower edge) (direction edge) := by
  unfold upper lower at sloped ⊢
  unfold Frame.prepare direction
  split_ifs at sloped ⊢ with level down
  · omega
  · omega
  · rfl
  · rfl

theorem prepare_level (level : ¬ (upper edge).y < (lower edge).y) : f.prepare edge.1 edge.2 = none := by
  have same : edge.1.y = edge.2.y := by
    unfold upper lower at level
    split_ifs at level <;> omega
  exact if_pos same

theorem xAt_eq {p : Prepared} (representable : f.Representable edge) (x : p.x = sat (fixedStart f edge))
    (step : p.step = sat (fixedStep edge)) {k : Nat} (inside : f.firstRow edge + k < f.pastRow edge) :
    p.xAt (p.row + k) = fixedStart f edge + k * fixedStep edge := by
  induction k with
  | zero =>
    rw [Nat.add_zero, xAt_of_le (le_refl _), x]
    have range := representable.1 0 inside
    simp only [Nat.cast_zero, zero_mul, add_zero] at range ⊢
    exact sat_of_range range
  | succ k ih =>
    have before := ih (by push_cast at inside; omega)
    have range := representable.1 (k + 1) inside
    have single : fixedStart f edge + (k : Int) * fixedStep edge + fixedStep edge =
        fixedStart f edge + ((k + 1 : Nat) : Int) * fixedStep edge := by
      push_cast
      ring
    rw [← Nat.add_assoc, xAt_succ (Nat.le_add_right _ _), before, step,
      sat_of_range (representable.2 (by push_cast at inside; omega)), single]
    exact sat_of_range range

theorem scaledAt_bounds (sloped : (upper edge).y < (lower edge).y) (k : Nat) :
    (fixedStart f edge + k * fixedStep edge) * ((lower edge).y - (upper edge).y) ≤ scaledAt edge (f.firstRow edge + k) ∧
      scaledAt edge (f.firstRow edge + k) <
        (fixedStart f edge + k * fixedStep edge + k + 1) * ((lower edge).y - (upper edge).y) := by
  have height : 0 < (lower edge).y - (upper edge).y := by omega
  have start := Int.ediv_mul_le (scaledAt edge (f.firstRow edge)) height.ne'
  have start' := Int.lt_ediv_add_one_mul_self (scaledAt edge (f.firstRow edge)) height
  have step := Int.ediv_mul_le (((lower edge).x - (upper edge).x) * 2 ^ 16) height.ne'
  have step' := Int.lt_ediv_add_one_mul_self (((lower edge).x - (upper edge).x) * 2 ^ 16) height
  have moved : scaledAt edge (f.firstRow edge + k) =
      scaledAt edge (f.firstRow edge) + k * (((lower edge).x - (upper edge).x) * 2 ^ 16) := by
    unfold scaledAt subpixel
    ring
  have count : (0 : Int) ≤ k := Int.natCast_nonneg k
  rw [moved]
  unfold fixedStart fixedStep
  constructor
  · nlinarith
  · nlinarith

theorem crossing_eq (edge : Point × Point) (y : Int) (sloped : (upper edge).y < (lower edge).y) :
    crossing edge y * 65536 * ((lower edge).y - (upper edge).y : Int) = scaledAt edge y := by
  have height : (((lower edge).y - (upper edge).y : Int) : ℚ) ≠ 0 := by
    rw [Int.cast_ne_zero]
    omega
  unfold crossing scaledAt
  field_simp
  push_cast
  ring

theorem px_le_iff {v x : Int} : px v ≤ x ↔ v ≤ 65536 * x + 32768 := by
  unfold px one
  omega

theorem fixed_side (sloped : (upper edge).y < (lower edge).y) {k rows : Nat} (few : k ≤ rows) {x : Int}
    (far : ((rows + 1 : Nat) : ℚ) / 65536 < |crossing edge (f.firstRow edge + k) - (x + 1 / 2)|) :
    px (fixedStart f edge + k * fixedStep edge) ≤ x ↔ crossing edge (f.firstRow edge + k) ≤ x + 1 / 2 := by
  rw [px_le_iff]
  obtain ⟨low, high⟩ := scaledAt_bounds (f := f) sloped k
  have exact := crossing_eq edge (f.firstRow edge + k) sloped
  generalize crossing edge (f.firstRow edge + k) = c at *
  generalize scaledAt edge (f.firstRow edge + k) = n at *
  generalize fixedStart f edge + k * fixedStep edge = v at *
  have height : 0 < (lower edge).y - (upper edge).y := by omega
  generalize (lower edge).y - (upper edge).y = dy at *
  have dyQ : (0 : ℚ) < dy := by exact_mod_cast height
  have lowQ : (v : ℚ) ≤ c * 65536 := by
    have cast : ((v * dy : Int) : ℚ) ≤ c * 65536 * dy := by
      rw [exact]
      exact_mod_cast low
    push_cast at cast
    exact le_of_mul_le_mul_right cast dyQ
  have highQ : c * 65536 < (v : ℚ) + k + 1 := by
    have cast : c * 65536 * dy < (((v + k + 1) * dy : Int) : ℚ) := by
      rw [exact]
      exact_mod_cast high
    push_cast at cast
    exact lt_of_mul_lt_mul_right cast dyQ.le
  have fewQ : (k : ℚ) ≤ rows := by exact_mod_cast few
  push_cast at far
  constructor
  · intro left
    have leftQ : (v : ℚ) ≤ 65536 * x + 32768 := by exact_mod_cast left
    by_contra right
    rw [abs_of_pos (by linarith)] at far
    linarith
  · intro left
    have leftQ : (v : ℚ) ≤ ((65536 * x + 32768 : Int) : ℚ) := by
      push_cast
      linarith
    exact_mod_cast leftQ

theorem le_crossing {y bound : Int} (crosses : Crosses edge y) (upperRight : bound * subpixel ≤ (upper edge).x)
    (lowerRight : bound * subpixel ≤ (lower edge).x) : (bound : ℚ) ≤ crossing edge y := by
  have sloped := upper_lt_lower crosses
  obtain ⟨starts, ends⟩ := crosses
  have exact := crossing_eq edge y sloped
  have scaled : bound * 65536 * ((lower edge).y - (upper edge).y) ≤ scaledAt edge y := by
    unfold scaledAt subpixel at *
    nlinarith [mul_le_mul_of_nonneg_right upperRight (show 0 ≤ (lower edge).y - (16 * y + halfSub) by omega),
      mul_le_mul_of_nonneg_right lowerRight (show 0 ≤ (16 * y + halfSub) - (upper edge).y by omega)]
  have height : (0 : ℚ) < ((lower edge).y - (upper edge).y : Int) := by
    have positive : 0 < (lower edge).y - (upper edge).y := by omega
    exact_mod_cast positive
  have cast : (bound : ℚ) * 65536 * ((lower edge).y - (upper edge).y : Int) ≤
      crossing edge y * 65536 * ((lower edge).y - (upper edge).y : Int) := by
    rw [exact]
    exact_mod_cast scaled
  have wide := le_of_mul_le_mul_right cast height
  linarith

def Frame.kept (f : Frame) (edge : Point × Point) : Prepared where
  row := (f.firstRow edge - f.top).toNat
  x := sat (fixedStart f edge)
  step := sat (fixedStep edge)
  last := (f.pastRow edge - f.top).toNat
  wind := direction edge

theorem prepareDown_eq (whole : wrap32 (f.right * subpixel) = f.right * subpixel) :
    f.prepareDown (upper edge) (lower edge) (direction edge) =
      if min (upper edge).x (lower edge).x ≥ f.right * subpixel then none
      else if f.firstRow edge ≥ f.pastRow edge then none else some (f.kept edge) := by
  unfold Frame.prepareDown
  rw [whole]
  rfl

theorem kept_side (representable : f.Representable edge) {row : Nat} (inside : row < f.rows)
    (crosses : Crosses edge (f.top + row)) {x : Int}
    (far : ((f.rows + 1 : Nat) : ℚ) / 65536 < |crossing edge (f.top + row) - (x + 1 / 2)|) :
    px ((f.kept edge).xAt row) ≤ x ↔ crossing edge (f.top + row) ≤ x + 1 / 2 := by
  obtain ⟨starts, ends⟩ := (crosses_iff inside).mp crosses
  have top : f.top ≤ f.firstRow edge := le_max_right _ _
  obtain ⟨k, place⟩ : ∃ k : Nat, f.firstRow edge + k = f.top + row := ⟨(f.top + row - f.firstRow edge).toNat, by omega⟩
  have own : row = (f.kept edge).row + k := by
    show row = (f.firstRow edge - f.top).toNat + k
    omega
  rw [← place] at far ends ⊢
  rw [own, xAt_eq representable rfl rfl ends]
  exact fixed_side (upper_lt_lower crosses) (by omega) far

theorem edgeWind_eq (whole : wrap32 (f.right * subpixel) = f.right * subpixel) (short : f.rows < 2 ^ 16)
    (representable : min (upper edge).x (lower edge).x < f.right * subpixel → f.Representable edge) {row : Nat}
    (inside : row < f.rows) {x : Int} (left : x < f.right)
    (far : Crosses edge (f.top + row) → ((f.rows + 1 : Nat) : ℚ) / 65536 < |crossing edge (f.top + row) - (x + 1 / 2)|) :
    f.edgeWind row x edge =
      if Crosses edge (f.top + row) ∧ crossing edge (f.top + row) ≤ x + 1 / 2 then some (direction edge) else none := by
  unfold Frame.edgeWind
  by_cases sloped : (upper edge).y < (lower edge).y
  swap
  · rw [prepare_level sloped, if_neg (fun both => sloped (upper_lt_lower both.1))]
    rfl
  rw [prepare_eq sloped, prepareDown_eq whole]
  by_cases right : min (upper edge).x (lower edge).x ≥ f.right * subpixel
  · have apart : ¬ (Crosses edge (f.top + row) ∧ crossing edge (f.top + row) ≤ x + 1 / 2) := by
      rintro ⟨crosses, near⟩
      have beyond := le_crossing crosses (right.trans (min_le_left _ _)) (right.trans (min_le_right _ _))
      have next : ((x + 1 : Int) : ℚ) ≤ f.right := by exact_mod_cast left
      push_cast at next
      linarith
    rw [if_pos right, if_neg apart]
    rfl
  have rows : Crosses edge (f.top + row) ↔ f.firstRow edge ≤ f.top + row ∧ f.top + row < f.pastRow edge :=
    crosses_iff inside
  rw [if_neg right]
  by_cases none : f.firstRow edge ≥ f.pastRow edge
  · have apart : ¬ (Crosses edge (f.top + row) ∧ crossing edge (f.top + row) ≤ x + 1 / 2) := by
      rintro ⟨crosses, -⟩
      have between := rows.mp crosses
      omega
    rw [if_pos none, if_neg apart]
    rfl
  · rw [if_neg none, Option.bind_some]
    have start : f.top ≤ f.firstRow edge := le_max_right _ _
    have past : f.pastRow edge ≤ f.top + f.rows := min_le_right _ _
    have runs : (f.kept edge).RunsOn row ↔ Crosses edge (f.top + row) := by
      rw [rows]
      show (f.firstRow edge - f.top).toNat ≤ row ∧ row < (f.pastRow edge - f.top).toNat % 2 ^ 16 ↔ _
      omega
    refine if_congr ?_ rfl rfl
    rw [runs]
    refine and_congr_right ?_
    intro crosses
    exact kept_side (representable (lt_of_not_ge right)) inside crosses (far crosses)

end Edge

/-! The whole fill. -/

def Point.WithinLimit (p : Point) : Prop := |p.x| ≤ coordLimit ∧ |p.y| ≤ coordLimit

/-- Where the edge crosses a row, the 64-bit products that place it do not overflow. -/
def Frame.SetupExact (f : Frame) (edge : Point × Point) : Prop :=
  f.firstRow edge < f.pastRow edge →
    |scaledAt edge (f.firstRow edge)| < 2 ^ 63 ∧ |((lower edge).x - (upper edge).x) * 2 ^ 16| < 2 ^ 63

theorem setupExact_of_limit {edge : Point × Point} (first : edge.1.WithinLimit) (second : edge.2.WithinLimit) (f : Frame) :
    f.SetupExact edge := by
  intro visited
  have ends : (upper edge).WithinLimit ∧ (lower edge).WithinLimit := by
    unfold upper lower
    split
    · exact ⟨first, second⟩
    · exact ⟨second, first⟩
  have crosses : Crosses edge (f.firstRow edge) := by
    have above : f.top ≤ f.firstRow edge := le_max_right ..
    have below : f.firstRow edge < f.top + f.rows := lt_of_lt_of_le visited (min_le_right ..)
    obtain ⟨row, is⟩ : ∃ row : Nat, f.firstRow edge = f.top + row := ⟨(f.firstRow edge - f.top).toNat, by omega⟩
    rw [is]
    exact (crosses_iff (by omega)).mpr ⟨by omega, by omega⟩
  obtain ⟨⟨upperX, upperY⟩, lowerX, lowerY⟩ := ends
  rw [Crosses, mul_comm] at crosses
  unfold scaledAt
  have limit : coordLimit = 2 ^ 22 := rfl
  rw [limit, abs_le] at upperX upperY lowerX lowerY
  have width : |(lower edge).x - (upper edge).x| ≤ 2 ^ 23 := abs_le.mpr ⟨by omega, by omega⟩
  have rise : |(lower edge).y - (upper edge).y| ≤ 2 ^ 23 := abs_le.mpr ⟨by omega, by omega⟩
  have run : |f.firstRow edge * subpixel + halfSub - (upper edge).y| ≤ 2 ^ 23 := abs_le.mpr ⟨by omega, by omega⟩
  have left : |(upper edge).x * ((lower edge).y - (upper edge).y)| ≤ 2 ^ 22 * 2 ^ 23 := by
    rw [abs_mul]
    exact mul_le_mul (abs_le.mpr upperX) rise (abs_nonneg _) (by decide)
  have right : |(f.firstRow edge * subpixel + halfSub - (upper edge).y) * ((lower edge).x - (upper edge).x)| ≤
      2 ^ 23 * 2 ^ 23 := by
    rw [abs_mul]
    exact mul_le_mul run width (abs_nonneg _) (by decide)
  rw [abs_le] at left right width
  exact ⟨abs_lt.mpr ⟨by omega, by omega⟩, abs_lt.mpr ⟨by omega, by omega⟩⟩

theorem points_of_mem_ringEdges {points : List Point} {edge : Point × Point} (member : edge ∈ ringEdges points) :
    edge.1 ∈ points ∧ edge.2 ∈ points := by
  unfold ringEdges at member
  split at member
  · cases member
  · obtain ⟨first, second⟩ := List.of_mem_zip member
    refine ⟨?_, second⟩
    rcases List.mem_append.mp first with last | own
    · exact List.mem_of_getLast? (Option.mem_toList.mp last)
    · exact own

structure Clip.WithinLimit (clip : Clip) : Prop where
  left : -coordLimit ≤ clip.left
  right : clip.left + clip.width.toNat ≤ coordLimit
  top : -coordLimit ≤ clip.top
  bottom : clip.top + clip.height.toNat ≤ coordLimit

def Clip.Contains (clip : Clip) (x y : Int) : Prop :=
  clip.left ≤ x ∧ x < clip.left + clip.width.toNat ∧ clip.top ≤ y ∧ y < clip.top + clip.height.toNat

/-- What a fill of rings is for: the pixels not too near to an edge are painted exactly when they are enclosed, none is
painted twice or outside the clip, the filler is left empty, and nothing overflowed on the way. -/
structure FillsExactly (scratch : Scratch) (clip : Clip) (rings : List (List Point)) (rule : FillRule)
    (outcome : Filler × List Span × FillStats) : Prop where
  painted : ∀ x y, clip.Contains x y → Far rings clip.height.toNat x y →
    (Paints outcome.2.1 x y ↔ Enclosed rule rings x y)
  once : outcome.2.1.Pairwise (fun one two => ∀ x y, ¬ (Paints [one] x y ∧ Paints [two] x y))
  inside : ∀ x y, Paints outcome.2.1 x y → clip.Contains x y
  empty : outcome.1.toFrame = (Filler.new scratch clip).toFrame ∧ outcome.1.n = 0 ∧
    outcome.1.lo = (Filler.new scratch clip).lo ∧ outcome.1.hi = 0 ∧
    ∀ row < clip.height.toNat, outcome.1.heads row = none
  setup : ∀ edge ∈ rings.flatMap ringEdges, (Frame.new scratch clip).SetupExact edge

theorem wrap32_of_small {v : Int} (low : -2 ^ 31 ≤ v) (high : v < 2 ^ 31) : wrap32 v = v := by
  unfold wrap32
  omega

theorem filterMap_ite (edges : List (Point × Point)) (counts : Point × Point → Prop) [DecidablePred counts]
    (of : Point × Point → Int) :
    edges.filterMap (fun edge => if counts edge then some (of edge) else none) =
      (edges.filter (fun edge => counts edge)).map of := by
  induction edges with
  | nil => rfl
  | cons edge later ih =>
    rw [List.filterMap_cons, ih]
    by_cases here : counts edge
    · rw [if_pos here, List.filter_cons_of_pos (by simpa using here), List.map_cons]
    · rw [if_neg here, List.filter_cons_of_neg (by simpa using here)]

theorem encloses_left_iff (rule : FillRule) (rings : List (List Point)) (x y : Int) :
    rule.Encloses (((rings.flatMap ringEdges).filter
      (fun edge => Crosses edge y ∧ crossing edge y ≤ x + 1 / 2)).map direction) ↔ Enclosed rule rings x y := by
  refine encloses_parts rule ?_ (sum_windsAcross_rings rings y) ?_
  · unfold windsRight windsAcross
    rw [← List.map_append]
    refine List.Perm.map _ ?_
    have parts := List.filter_append_perm (fun edge => decide (crossing edge y ≤ x + 1 / 2))
      ((rings.flatMap ringEdges).filter (fun edge => Crosses edge y))
    rw [List.filter_filter, List.filter_filter] at parts
    refine List.Perm.trans (List.Perm.of_eq ?_) parts
    congr 1
    · apply List.filter_congr
      intro edge _
      rw [Bool.decide_and, Bool.and_comm]
    · apply List.filter_congr
      intro edge _
      simp only [← not_le, Bool.decide_and, decide_not]
      rw [Bool.and_comm]
  · intro wind member
    obtain ⟨edge, -, rfl⟩ := List.mem_map.mp member
    unfold direction
    split_ifs <;> simp

/-- Rings whose edges stay in the range of 16.16 fixed point, in a clip that does not reach past it, are filled
exactly. -/
theorem fillRings_exact (scratch : Scratch) (clip : Clip) (rings : List (List Point)) (rule : FillRule)
    (outcome : Filler × List Span × FillStats) (limit : ∀ ring ∈ rings, ∀ p ∈ ring, p.WithinLimit)
    (range : clip.WithinLimit) (short : clip.height.toNat ≤ 65535) (heads : clip.height.toNat ≤ scratch.headsLen)
    (room : fillRings scratch clip rings rule = some outcome) (right : clip.left + clip.width.toNat ≤ 32768)
    (representable : ∀ edge ∈ rings.flatMap ringEdges,
      min (upper edge).x (lower edge).x < (clip.left + clip.width.toNat) * subpixel →
        (Frame.new scratch clip).Representable edge) :
    FillsExactly scratch clip rings rule outcome := by
  obtain ⟨f, built, rfl⟩ := Option.map_eq_some_iff.mp room
  rw [addRings_eq] at built
  obtain ⟨left, rightLimit, top, bottom⟩ := range
  have coord : coordLimit = 2 ^ 22 := rfl
  have height : (Frame.new scratch clip).rows = clip.height.toNat := Nat.min_eq_left heads
  have rightEq : (Frame.new scratch clip).right = clip.left + clip.width.toNat :=
    wrap32_of_small (by omega) (by omega)
  have whole : wrap32 ((Frame.new scratch clip).right * subpixel) = (Frame.new scratch clip).right * subpixel := by
    rw [rightEq]
    unfold subpixel
    exact wrap32_of_small (by omega) (by omega)
  have row_eq : ∀ row : Nat, row < clip.height.toNat → wrap32 (clip.top + row) = clip.top + row := by
    intro row below
    exact wrap32_of_small (by omega) (by omega)
  refine ⟨?_, ?_, ?_, ?_, ?_⟩
  · rintro x y ⟨starts, ends, above, below⟩ far
    obtain ⟨row, rfl⟩ : ∃ row : Nat, y = clip.top + row := ⟨(y - clip.top).toNat, by omega⟩
    have own : row < clip.height.toNat := by omega
    have winds : (rings.flatMap ringEdges).filterMap ((Frame.new scratch clip).edgeWind row x) =
        ((rings.flatMap ringEdges).filter
          (fun edge => Crosses edge (clip.top + row) ∧ crossing edge (clip.top + row) ≤ x + 1 / 2)).map direction := by
      rw [← filterMap_ite]
      apply List.filterMap_congr
      intro edge member
      refine edgeWind_eq whole (by omega) ?_ (by omega) (by omega) ?_
      · rw [rightEq]
        exact representable edge member
      · rw [height]
        exact far edge member
    rw [paints_addEdges built, ← encloses_left_iff, ← winds]
    constructor
    · rintro ⟨other, inside, same, -, enclosed⟩
      have equal : clip.top + (row : Int) = clip.top + other := same.trans (row_eq other (height ▸ inside))
      have equal' : other = row := by omega
      rwa [equal'] at enclosed
    · intro enclosed
      exact ⟨row, by omega, (row_eq row own).symm, ⟨starts, by omega, by omega⟩, enclosed⟩
  · refine (fill_rows rule built).apart.imp ?_
    rintro one two apart x y ⟨⟨s, here, row, starts, ends⟩, ⟨t, there, row', starts', ends'⟩⟩
    obtain rfl := List.mem_singleton.mp here
    obtain rfl := List.mem_singleton.mp there
    have order := apart (row.trans row'.symm)
    omega
  · intro x y painted
    obtain ⟨row, inside, rfl, ⟨starts, ends, -⟩, -⟩ := (paints_addEdges built).mp painted
    have own : row < clip.height.toNat := height ▸ inside
    show clip.left ≤ x ∧ _ ∧ clip.top ≤ wrap32 (clip.top + row) ∧ wrap32 (clip.top + row) < _
    rw [row_eq row own]
    refine ⟨starts, ?_, by omega, by omega⟩
    rwa [rightEq] at ends
  · have emptied := fill_empties rule built
    rwa [height] at emptied
  · intro edge member
    obtain ⟨ring, here, own⟩ := List.mem_flatMap.mp member
    obtain ⟨first, second⟩ := points_of_mem_ringEdges own
    exact setupExact_of_limit (limit ring here _ first) (limit ring here _ second) _

section Samples

def emptyScratch (edges heads : Nat) : Scratch := ⟨fun _ => ⟨0, 0, 0, none, 0⟩, fun _ => none, edges, heads, edges⟩

def rectangle (left top right bottom : Int) : List Point :=
  [⟨left, top⟩, ⟨right, top⟩, ⟨right, bottom⟩, ⟨left, bottom⟩]

/-- A square of two by two pixels in a clip of four by four. -/
def smallFill : Option (Filler × List Span × FillStats) :=
  fillRings (emptyScratch 8 4) ⟨0, 0, 4, 4⟩ [rectangle 16 16 48 48] .nonZero

example : smallFill.map (·.2.1) = some [⟨1, 1, 3⟩, ⟨2, 1, 3⟩] := by decide

theorem smallFill_edges : ∀ edge ∈ [rectangle 16 16 48 48].flatMap ringEdges,
    (Frame.new (emptyScratch 8 4) ⟨0, 0, 4, 4⟩).Representable edge := by
  intro edge member
  have four : edge = (⟨16, 48⟩, ⟨16, 16⟩) ∨ edge = (⟨16, 16⟩, ⟨48, 16⟩) ∨ edge = (⟨48, 16⟩, ⟨48, 48⟩) ∨
      edge = (⟨48, 48⟩, ⟨16, 48⟩) := by
    have all : [rectangle 16 16 48 48].flatMap ringEdges =
        [(⟨16, 48⟩, ⟨16, 16⟩), (⟨16, 16⟩, ⟨48, 16⟩), (⟨48, 16⟩, ⟨48, 48⟩), (⟨48, 48⟩, ⟨16, 48⟩)] := rfl
    rw [all] at member
    simpa using member
  have rows : ∀ k : Nat, (Frame.new (emptyScratch 8 4) ⟨0, 0, 4, 4⟩).firstRow edge + k <
      (Frame.new (emptyScratch 8 4) ⟨0, 0, 4, 4⟩).pastRow edge → k < 2 := by
    intro k before
    have first : 1 ≤ (Frame.new (emptyScratch 8 4) ⟨0, 0, 4, 4⟩).firstRow edge := by
      rcases four with rfl | rfl | rfl | rfl <;> decide
    have past : (Frame.new (emptyScratch 8 4) ⟨0, 0, 4, 4⟩).pastRow edge ≤ 3 := by
      rcases four with rfl | rfl | rfl | rfl <;> decide
    omega
  refine ⟨?_, ?_⟩
  · intro k before
    have small := rows k before
    clear before
    interval_cases k <;> rcases four with rfl | rfl | rfl | rfl <;> decide
  · intro _
    rcases four with rfl | rfl | rfl | rfl <;> decide

theorem smallFill_exact : ∃ outcome, smallFill = some outcome ∧
    FillsExactly (emptyScratch 8 4) ⟨0, 0, 4, 4⟩ [rectangle 16 16 48 48] .nonZero outcome := by
  have room : smallFill.isSome := by decide
  refine ⟨smallFill.get room, (Option.some_get room).symm, ?_⟩
  refine fillRings_exact _ _ _ _ _ ?_ ⟨by decide, by decide, by decide, by decide⟩ (by decide) (by decide)
    (Option.some_get room).symm (by decide) ?_
  · unfold Point.WithinLimit
    decide
  · intro edge member _
    exact smallFill_edges edge member

/-- A rectangle of 80000 pixels in a clip of 60000. -/
def wideFill : Option (Filler × List Span × FillStats) :=
  fillRings (emptyScratch 8 1) ⟨0, 0, 60000, 1⟩ [rectangle 0 0 1280000 16] .nonZero

/-- The row is painted only up to pixel 32768, as far as 16.16 reaches. -/
example : wideFill.map (·.2.1) = some [⟨0, 0, 32768⟩] := by decide

end Samples

end Leviculum.Map.Fill
