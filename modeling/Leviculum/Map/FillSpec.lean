import Mathlib.Algebra.BigOperators.Group.List.Basic
import Mathlib.Data.List.Induction
import Leviculum.Map.Fill

/-! What a fill paints: a pixel of the clip is painted when the edges that run through its row at or left of its
centre enclose it. The order of the edges does not matter to that, nor does a border that two rings share. -/

namespace Leviculum.Map.Fill

section Sorting

variable (key : Nat → Int)

theorem insertByX_perm (sorted : List Nat) (id : Nat) : (insertByX key sorted id).Perm (id :: sorted) := by
  unfold insertByX
  refine List.perm_middle.trans (List.Perm.cons id ?_)
  rw [List.rdropWhile_append_rtakeWhile]

theorem insertByX_sorted {sorted : List Nat} (ordered : sorted.Pairwise (fun a b => key a ≤ key b)) (id : Nat) :
    (insertByX key sorted id).Pairwise (fun a b => key a ≤ key b) := by
  have parts : sorted.rdropWhile (fun other => decide (key other > key id)) ++
      sorted.rtakeWhile (fun other => decide (key other > key id)) = sorted := List.rdropWhile_append_rtakeWhile
  have split := ordered
  rw [← parts, List.pairwise_append] at split
  obtain ⟨front, back, across⟩ := split
  have above : ∀ other ∈ sorted.rtakeWhile (fun other => decide (key other > key id)), key id < key other := by
    intro other member
    simpa using List.mem_rtakeWhile_imp member
  have below : ∀ other ∈ sorted.rdropWhile (fun other => decide (key other > key id)), key other ≤ key id := by
    intro other member
    have nonempty := List.ne_nil_of_mem member
    have last := List.rdropWhile_last_not (fun other => decide (key other > key id)) sorted nonempty
    have final : key ((sorted.rdropWhile (fun other => decide (key other > key id))).getLast nonempty) ≤ key id := by
      simpa using last
    have whole := List.dropLast_append_getLast nonempty
    rw [← whole] at member front
    rcases List.mem_append.mp member with early | here
    · exact ((List.pairwise_append.mp front).2.2 other early _ List.mem_cons_self).trans final
    · rw [List.mem_singleton.mp here]
      exact final
  refine List.pairwise_append.mpr ⟨front, List.pairwise_cons.mpr ⟨fun other member => (above other member).le, back⟩, ?_⟩
  intro other member item later
  rcases List.mem_cons.mp later with rfl | later
  · exact below other member
  · exact across other member item later

theorem sortByX_perm (active : List Nat) : (sortByX key active).Perm active := by
  have loop : ∀ (rest sorted : List Nat), (rest.foldl (insertByX key) sorted).Perm (sorted ++ rest) := by
    intro rest
    induction rest with
    | nil => intro sorted; simp
    | cons id later ih =>
      intro sorted
      refine (ih (insertByX key sorted id)).trans ?_
      refine ((insertByX_perm key sorted id).append_right later).trans ?_
      exact List.perm_middle.symm
  have all := loop active []
  rwa [List.nil_append] at all

theorem sortByX_sorted (active : List Nat) : (sortByX key active).Pairwise (fun a b => key a ≤ key b) := by
  have loop : ∀ (rest sorted : List Nat), sorted.Pairwise (fun a b => key a ≤ key b) →
      (rest.foldl (insertByX key) sorted).Pairwise (fun a b => key a ≤ key b) := by
    intro rest
    induction rest with
    | nil => exact fun sorted ordered => ordered
    | cons id later ih => exact fun sorted ordered => ih _ (insertByX_sorted key ordered id)
  exact loop active [] .nil

end Sorting

/-! The walk along one row. -/

theorem px_mono {a b : Int} (le : a ≤ b) : px a ≤ px b := by
  unfold px one
  omega

theorem px_i32Max : px i32Max = 32768 := by decide

/-- The rule's verdict on the edges at or left of a point. -/
def FillRule.Encloses (rule : FillRule) (winds : List Int) : Prop :=
  match rule with
  | .evenOdd => winds.length % 2 = 1
  | .nonZero => winds.sum ≠ 0

instance (rule : FillRule) (winds : List Int) : Decidable (rule.Encloses winds) :=
  match rule with
  | .evenOdd => inferInstanceAs (Decidable (_ = _))
  | .nonZero => inferInstanceAs (Decidable (_ ≠ _))

theorem foldl_windAfter_ne_zero (rule : FillRule) (winds : List Int) :
    winds.foldl rule.windAfter 0 ≠ 0 ↔ rule.Encloses winds := by
  cases rule with
  | nonZero =>
    have loop : ∀ (winds : List Int) (wind : Int),
        winds.foldl FillRule.nonZero.windAfter wind = wind + winds.sum := by
      intro winds
      induction winds with
      | nil => intro wind; simp
      | cons edge later ih =>
        intro wind
        rw [List.foldl_cons, ih, List.sum_cons]
        simp only [FillRule.windAfter]
        omega
    rw [loop, zero_add]
    rfl
  | evenOdd =>
    have loop : ∀ (winds : List Int) (wind : Int), wind = 0 ∨ wind = 1 →
        (winds.foldl FillRule.evenOdd.windAfter wind ≠ 0 ↔ (wind + winds.length) % 2 = 1) := by
      intro winds
      induction winds with
      | nil =>
        rintro wind (rfl | rfl) <;> simp
      | cons edge later ih =>
        rintro wind (rfl | rfl)
        · rw [List.foldl_cons]
          refine (ih _ (.inr rfl)).trans ?_
          simp only [List.length_cons]
          omega
        · rw [List.foldl_cons]
          refine (ih _ (.inl rfl)).trans ?_
          simp only [List.length_cons]
          omega
    refine (loop winds 0 (.inl rfl)).trans ?_
    show _ ↔ winds.length % 2 = 1
    omega

section Walk

variable {f : Frame} {rule : FillRule} {y x : Int}

theorem paints_append {one two : List Span} : Paints (one ++ two) x y ↔ Paints one x y ∨ Paints two x y := by
  unfold Paints
  simp only [List.mem_append]
  constructor
  · rintro ⟨s, first | second, rest⟩
    · exact .inl ⟨s, first, rest⟩
    · exact .inr ⟨s, second, rest⟩
  · rintro (⟨s, first, rest⟩ | ⟨s, second, rest⟩)
    · exact ⟨s, .inl first, rest⟩
    · exact ⟨s, .inr second, rest⟩

theorem paints_span {y' xa xb : Int} :
    Paints (f.span y' xa xb) x y ↔ y' = y ∧ f.left ≤ x ∧ x < f.right ∧ px xa ≤ x ∧ x < px xb := by
  unfold Paints Frame.span
  dsimp only
  split
  next wide =>
    simp only [List.mem_singleton, exists_eq_left]
    omega
  next narrow =>
    simp only [List.not_mem_nil, false_and, exists_false, false_iff]
    omega

/-- What the walk still paints from a state on. -/
def Frame.finish (f : Frame) (rule : FillRule) (y : Int) (w : Walk) (crossings : List (Int × Int)) : List Span :=
  let w := crossings.foldl (f.walkEdge rule y) w
  if w.wind ≠ 0 then w.spans ++ f.span y w.start i32Max else w.spans

/-- Right of a pixel nothing changes for it: it is painted when the walk was inside at or left of it. -/
theorem paints_finish_right (inside : f.left ≤ x ∧ x < f.right ∧ x < 32768) {crossings : List (Int × Int)}
    (right : ∀ crossing ∈ crossings, x < px crossing.1) (w : Walk) :
    Paints (f.finish rule y w crossings) x y ↔ Paints w.spans x y ∨ (w.wind ≠ 0 ∧ px w.start ≤ x) := by
  induction crossings generalizing w with
  | nil =>
    unfold Frame.finish
    rw [List.foldl_nil]
    dsimp only
    split
    next within =>
      rw [paints_append, paints_span, px_i32Max]
      refine or_congr_right ?_
      constructor
      · rintro ⟨-, -, -, left, -⟩
        exact ⟨within, left⟩
      · rintro ⟨-, left⟩
        exact ⟨rfl, inside.1, inside.2.1, left, inside.2.2⟩
    next outside =>
      constructor
      · exact .inl
      · rintro (painted | ⟨within, -⟩)
        · exact painted
        · exact absurd within outside
  | cons crossing later ih =>
    have here := right crossing List.mem_cons_self
    have rest := fun crossing member => right crossing (List.mem_cons_of_mem _ member)
    show Paints (f.finish rule y (f.walkEdge rule y w crossing) later) x y ↔ _
    rw [ih rest]
    unfold Frame.walkEdge
    dsimp only
    split_ifs with opens closes
    · -- it opens right of the pixel
      dsimp only
      constructor
      · rintro (painted | ⟨-, left⟩)
        · exact .inl painted
        · omega
      · rintro (painted | ⟨within, -⟩)
        · exact .inl painted
        · exact absurd opens.1 within
    · dsimp only
      rw [paints_append, paints_span]
      constructor
      · rintro ((painted | ⟨-, -, -, left, -⟩) | ⟨within, -⟩)
        · exact .inl painted
        · exact .inr ⟨closes.1, left⟩
        · exact absurd closes.2 within
      · rintro (painted | ⟨-, left⟩)
        · exact .inl (.inl painted)
        · exact .inl (.inr ⟨rfl, inside.1, inside.2.1, left, here⟩)
    · dsimp only
      have same : rule.windAfter w.wind crossing.2 ≠ 0 ↔ w.wind ≠ 0 := by
        constructor
        · intro within outside
          exact opens ⟨outside, within⟩
        · intro within outside
          exact closes ⟨within, outside⟩
      rw [same]

/-- Crossings in order paint a pixel when the edges at or left of its centre enclose it. -/
theorem paints_finish (inside : f.left ≤ x ∧ x < f.right ∧ x < 32768) {crossings : List (Int × Int)}
    (sorted : crossings.Pairwise (fun a b => a.1 ≤ b.1)) (w : Walk) (started : w.wind ≠ 0 → px w.start ≤ x) :
    Paints (f.finish rule y w crossings) x y ↔ Paints w.spans x y ∨
      ((crossings.filter (fun crossing => px crossing.1 ≤ x)).map Prod.snd).foldl rule.windAfter w.wind ≠ 0 := by
  induction crossings generalizing w with
  | nil =>
    rw [paints_finish_right inside (by simp)]
    refine or_congr_right ?_
    exact and_iff_left_of_imp started
  | cons crossing later ih =>
    obtain ⟨least, ordered⟩ := List.pairwise_cons.mp sorted
    by_cases left : px crossing.1 ≤ x
    · rw [List.filter_cons_of_pos (by simpa using left), List.map_cons, List.foldl_cons]
      show Paints (f.finish rule y (f.walkEdge rule y w crossing) later) x y ↔ _
      have wind : (f.walkEdge rule y w crossing).wind = rule.windAfter w.wind crossing.2 := by
        unfold Frame.walkEdge
        dsimp only
        split_ifs <;> rfl
      have begun : (f.walkEdge rule y w crossing).wind ≠ 0 → px (f.walkEdge rule y w crossing).start ≤ x := by
        rw [wind]
        unfold Frame.walkEdge
        dsimp only
        intro within
        split_ifs with opens closes
        · exact left
        · exact absurd closes.2 within
        · refine started ?_
          intro outside
          exact opens ⟨outside, within⟩
      have same : Paints (f.walkEdge rule y w crossing).spans x y ↔ Paints w.spans x y := by
        unfold Frame.walkEdge
        dsimp only
        split_ifs with opens closes
        · exact Iff.rfl
        · rw [paints_append, paints_span]
          constructor
          · rintro (painted | ⟨-, -, -, -, before⟩)
            · exact painted
            · omega
          · exact .inl
        · exact Iff.rfl
      rw [ih ordered _ begun, wind, same]
    · have right : ∀ other ∈ crossing :: later, x < px other.1 := by
        intro other member
        have far : px crossing.1 ≤ px other.1 := by
          rcases List.mem_cons.mp member with rfl | behind
          · exact le_refl _
          · exact px_mono (least other behind)
        omega
      have none : (crossing :: later).filter (fun crossing => decide (px crossing.1 ≤ x)) = [] := by
        rw [List.filter_eq_nil_iff]
        intro other member
        have far := right other member
        simp only [decide_eq_true_eq]
        omega
      rw [paints_finish_right inside right, none, List.map_nil, List.foldl_nil]
      refine or_congr_right ?_
      exact and_iff_left_of_imp started

theorem paints_walk_inside (inside : f.left ≤ x ∧ x < f.right ∧ x < 32768) {crossings : List (Int × Int)}
    (sorted : crossings.Pairwise (fun a b => a.1 ≤ b.1)) :
    Paints (f.walk rule y crossings) x y ↔
      rule.Encloses ((crossings.filter (fun crossing => px crossing.1 ≤ x)).map Prod.snd) := by
  rw [← foldl_windAfter_ne_zero]
  refine (paints_finish inside sorted ⟨0, 0, []⟩ (fun within => absurd rfl within)).trans ?_
  simp [Paints]

/-- A span inside the clip, in its row and not right of what 16.16 holds. -/
structure Frame.Holds (f : Frame) (y : Int) (s : Span) : Prop where
  row : s.y = y
  left : f.left ≤ s.x0
  wide : s.x0 < s.x1
  right : s.x1 ≤ f.right
  low : s.x1 ≤ 32768

theorem mem_span {xa xb : Int} (small : xb ≤ i32Max) {s : Span} (member : s ∈ f.span y xa xb) :
    f.Holds y s ∧ px xa ≤ s.x0 ∧ s.x1 ≤ px xb := by
  have bound := px_mono small
  rw [px_i32Max] at bound
  unfold Frame.span at member
  dsimp only at member
  split at member
  next wide =>
    obtain rfl := List.mem_singleton.mp member
    exact ⟨⟨rfl, le_max_right _ _, wide, min_le_right _ _, (min_le_left _ _).trans bound⟩, le_max_left _ _,
      min_le_left _ _⟩
  next => cases member

/-- What the spans of a walk have in common: they lie in the clip, one right of the other, and left of `low`. -/
structure Frame.Laid (f : Frame) (y low : Int) (spans : List Span) : Prop where
  holds : ∀ s ∈ spans, f.Holds y s
  apart : spans.Pairwise (fun one two => one.x1 ≤ two.x0)
  before : ∀ s ∈ spans, s.x1 ≤ px low

theorem Frame.Laid.append {low start xb : Int} {spans : List Span} (laid : f.Laid y low spans) (begun : low ≤ start)
    (small : xb ≤ i32Max) (order : low ≤ xb) : f.Laid y xb (spans ++ f.span y start xb) := by
  refine ⟨?_, ?_, ?_⟩
  · intro s member
    rcases List.mem_append.mp member with old | new
    · exact laid.holds s old
    · exact (mem_span small new).1
  · refine List.pairwise_append.mpr ⟨laid.apart, ?_, ?_⟩
    · unfold Frame.span
      dsimp only
      split
      · exact List.pairwise_singleton _ _
      · exact .nil
    · intro s old new member
      exact (laid.before s old).trans ((px_mono begun).trans (mem_span small member).2.1)
  · intro s member
    rcases List.mem_append.mp member with old | new
    · exact (laid.before s old).trans (px_mono order)
    · exact (mem_span small new).2.2

theorem laid_finish {crossings : List (Int × Int)} (sorted : crossings.Pairwise (fun a b => a.1 ≤ b.1))
    (small : ∀ crossing ∈ crossings, crossing.1 ≤ i32Max) {low : Int} (w : Walk) (laid : f.Laid y low w.spans)
    (ahead : ∀ crossing ∈ crossings, low ≤ crossing.1) (begun : w.wind ≠ 0 → low ≤ w.start) (lowSmall : low ≤ i32Max) :
    ∃ low, f.Laid y low (f.finish rule y w crossings) := by
  induction crossings generalizing w low with
  | nil =>
    unfold Frame.finish
    rw [List.foldl_nil]
    dsimp only
    split
    next within => exact ⟨i32Max, laid.append (begun within) (le_refl _) lowSmall⟩
    next => exact ⟨low, laid⟩
  | cons crossing later ih =>
    obtain ⟨least, ordered⟩ := List.pairwise_cons.mp sorted
    have here := small crossing List.mem_cons_self
    have near := ahead crossing List.mem_cons_self
    have rest := fun crossing member => small crossing (List.mem_cons_of_mem _ member)
    have far := fun crossing member => ahead crossing (List.mem_cons_of_mem _ member)
    show ∃ low, f.Laid y low (f.finish rule y (f.walkEdge rule y w crossing) later)
    unfold Frame.walkEdge
    dsimp only
    split_ifs with opens closes
    · exact ih ordered rest _ laid far (fun _ => near) lowSmall
    · exact ih ordered rest _ (laid.append (begun closes.1) here near) least (fun within => absurd closes.2 within) here
    · refine ih ordered rest _ laid far ?_ lowSmall
      intro within
      exact begun (fun outside => opens ⟨outside, within⟩)

theorem laid_walk {crossings : List (Int × Int)} (sorted : crossings.Pairwise (fun a b => a.1 ≤ b.1))
    (range : ∀ crossing ∈ crossings, i32Min ≤ crossing.1 ∧ crossing.1 ≤ i32Max) :
    ∃ low, f.Laid y low (f.walk rule y crossings) := by
  refine laid_finish sorted (fun crossing member => (range crossing member).2) ⟨0, 0, []⟩ ⟨?_, .nil, ?_⟩
    (fun crossing member => (range crossing member).1) (fun within => absurd rfl within) (by decide)
  · simp
  · simp

theorem paints_walk {crossings : List (Int × Int)} (sorted : crossings.Pairwise (fun a b => a.1 ≤ b.1))
    (range : ∀ crossing ∈ crossings, i32Min ≤ crossing.1 ∧ crossing.1 ≤ i32Max) {y' : Int} :
    Paints (f.walk rule y crossings) x y' ↔ y' = y ∧ (f.left ≤ x ∧ x < f.right ∧ x < 32768) ∧
      rule.Encloses ((crossings.filter (fun crossing => px crossing.1 ≤ x)).map Prod.snd) := by
  constructor
  · rintro ⟨s, member, row, starts, below⟩
    obtain ⟨low, laid⟩ : ∃ low, f.Laid y low (f.walk rule y crossings) := laid_walk sorted range
    have held := laid.holds s member
    have same : y' = y := row.symm.trans held.row
    have inside : f.left ≤ x ∧ x < f.right ∧ x < 32768 := by
      have left := held.left
      have right := held.right
      have bound := held.low
      omega
    subst same
    exact ⟨rfl, inside, (paints_walk_inside inside sorted).mp ⟨s, member, row, starts, below⟩⟩
  · rintro ⟨rfl, inside, enclosed⟩
    exact (paints_walk_inside inside sorted).mpr enclosed

end Walk

/-! The buckets. -/

inductive Linked (next : Nat → Option Nat) : Option Nat → List Nat → Prop
  | nil : Linked next none []
  | cons {e : Nat} {rest : List Nat} (linked : Linked next (next e) rest) : Linked next (some e) (e :: rest)

theorem Linked.chain_eq {next : Nat → Option Nat} {head : Option Nat} {bucket : List Nat} (linked : Linked next head bucket)
    {fuel : Nat} (enough : bucket.length ≤ fuel) : chain next fuel head = bucket := by
  induction linked generalizing fuel with
  | nil => cases fuel <;> rfl
  | cons linked ih =>
    cases fuel with
    | zero => cases enough
    | succ fuel => exact congrArg _ (ih (Nat.le_of_succ_le_succ enough))

theorem Linked.congr {next other : Nat → Option Nat} {head : Option Nat} {bucket : List Nat}
    (linked : Linked next head bucket) (same : ∀ e ∈ bucket, next e = other e) : Linked other head bucket := by
  induction linked with
  | nil => exact .nil
  | @cons e rest linked ih =>
    have here := same e List.mem_cons_self
    refine .cons ?_
    rw [← here]
    exact ih (fun other member => same other (List.mem_cons_of_mem _ member))

def Frame.prepareAll (f : Frame) (edges : List (Point × Point)) : List Prepared :=
  edges.filterMap (fun edge => f.prepare edge.1 edge.2)

/-- The slots whose edge starts on a row. -/
def bucketOf (prepared : List Prepared) (row : Nat) : List Nat :=
  (List.range prepared.length).filter (fun slot => (prepared[slot]?.map Prepared.row) = some row)

/-- An edge in the rows of the clip, with a crossing that fits. -/
structure Prepared.Fits (p : Prepared) (rows : Nat) : Prop where
  order : p.row < p.last
  last : p.last ≤ rows
  x : i32Min ≤ p.x ∧ p.x ≤ i32Max

theorem sat_range (v : Int) : i32Min ≤ sat v ∧ sat v ≤ i32Max := by
  unfold sat i32Min i32Max
  omega

theorem Frame.fits_prepareDown {f : Frame} {t bot : Point} {wind : Int} {p : Prepared}
    (found : f.prepareDown t bot wind = some p) : p.Fits f.rows := by
  unfold Frame.prepareDown at found
  split at found
  next => cases found
  dsimp only at found
  split at found
  next => cases found
  next crossed =>
    obtain rfl := Option.some.inj found
    refine ⟨?_, ?_, sat_range _⟩
    · dsimp only
      omega
    · dsimp only
      omega

theorem Frame.fits_prepare {f : Frame} {a b : Point} {p : Prepared} (found : f.prepare a b = some p) : p.Fits f.rows := by
  unfold Frame.prepare at found
  split_ifs at found
  · exact Frame.fits_prepareDown found
  · exact Frame.fits_prepareDown found

structure Built (frame : Frame) (prepared : List Prepared) (f : Filler) : Prop where
  same : f.toFrame = frame
  count : f.n = prepared.length
  slots : ∀ slot p, prepared[slot]? = some p → ∃ next, f.edges slot = p.slot next
  buckets : ∀ row < frame.rows, ∃ bucket, Linked (fun e => (f.edges e).next) (f.heads row) bucket ∧
    bucket.Perm (bucketOf prepared row)
  fits : ∀ p ∈ prepared, p.Fits frame.rows
  lo : ∀ p ∈ prepared, f.lo ≤ p.row
  hi : ∀ p ∈ prepared, p.last ≤ f.hi
  bottom : f.hi ≤ frame.rows

theorem bucketOf_append (prepared : List Prepared) (p : Prepared) (row : Nat) :
    bucketOf (prepared ++ [p]) row = bucketOf prepared row ++ if p.row = row then [prepared.length] else [] := by
  unfold bucketOf
  rw [List.length_append, List.length_singleton, List.range_succ, List.filter_append]
  congr 1
  · apply List.filter_congr
    intro slot member
    rw [List.getElem?_append_left (List.mem_range.mp member)]
  · by_cases here : p.row = row <;> simp [here]

theorem mem_bucketOf {prepared : List Prepared} {row slot : Nat} :
    slot ∈ bucketOf prepared row ↔ ∃ p, prepared[slot]? = some p ∧ p.row = row := by
  unfold bucketOf
  rw [List.mem_filter, List.mem_range]
  constructor
  · rintro ⟨-, found⟩
    simpa using found
  · rintro ⟨p, found, same⟩
    exact ⟨(List.getElem?_eq_some_iff.mp found).1, by simp [found, same]⟩

theorem built_new (scratch : Scratch) (clip : Clip) : Built (.new scratch clip) [] (.new scratch clip) where
  same := rfl
  count := rfl
  slots := by simp
  buckets := by
    intro row inside
    refine ⟨[], ?_, .refl _⟩
    have empty : (Filler.new scratch clip).heads row = none := if_pos inside
    rw [empty]
    exact .nil
  fits := by simp
  lo := by simp
  hi := by simp
  bottom := Nat.zero_le _

theorem Built.insert {frame : Frame} {prepared : List Prepared} {f : Filler} (built : Built frame prepared f)
    {p : Prepared} (fits : p.Fits frame.rows) : Built frame (prepared ++ [p]) (f.insert p) := by
  have old : ∀ slot, slot < prepared.length → (f.insert p).edges slot = f.edges slot := by
    intro slot below
    exact Function.update_of_ne (by rw [built.count]; omega) _ _
  refine ⟨built.same, ?_, ?_, ?_, ?_, ?_, ?_, ?_⟩
  · rw [List.length_append, ← built.count]
    rfl
  · intro slot q found
    by_cases below : slot < prepared.length
    · rw [List.getElem?_append_left below] at found
      rw [old slot below]
      exact built.slots slot q found
    · have last : slot = prepared.length := by
        have inside := (List.getElem?_eq_some_iff.mp found).1
        rw [List.length_append, List.length_singleton] at inside
        omega
      subst last
      rw [List.getElem?_concat_length, Option.some.injEq] at found
      refine ⟨f.heads p.row, ?_⟩
      rw [← found, ← built.count]
      exact Function.update_self _ _ _
  · intro row inside
    obtain ⟨bucket, linked, perm⟩ := built.buckets row inside
    have linked' : Linked (fun e => ((f.insert p).edges e).next) (f.heads row) bucket := by
      refine linked.congr ?_
      intro e member
      obtain ⟨q, found, -⟩ := mem_bucketOf.mp (perm.mem_iff.mp member)
      rw [old e (List.getElem?_eq_some_iff.mp found).1]
    rw [bucketOf_append]
    by_cases here : p.row = row
    · subst here
      have head : (f.insert p).heads p.row = some f.n := Function.update_self _ _ _
      have next : ((f.insert p).edges f.n).next = f.heads p.row := by
        rw [show (f.insert p).edges f.n = p.slot (f.heads p.row) from Function.update_self _ _ _]
        rfl
      refine ⟨f.n :: bucket, ?_, ?_⟩
      · rw [head]
        refine .cons ?_
        rw [next]
        exact linked'
      · rw [if_pos rfl, built.count]
        exact (perm.cons _).trans (List.perm_append_singleton _ _).symm
    · have head : (f.insert p).heads row = f.heads row := Function.update_of_ne (Ne.symm here) _ _
      refine ⟨bucket, head ▸ linked', ?_⟩
      rw [if_neg here, List.append_nil]
      exact perm
  · intro q member
    rcases List.mem_append.mp member with before | here
    · exact built.fits q before
    · rw [List.mem_singleton.mp here]
      exact fits
  · intro q member
    rcases List.mem_append.mp member with before | here
    · exact (Nat.min_le_left _ _).trans (built.lo q before)
    · rw [List.mem_singleton.mp here]
      exact Nat.min_le_right _ _
  · intro q member
    rcases List.mem_append.mp member with before | here
    · exact (built.hi q before).trans (Nat.le_max_left _ _)
    · rw [List.mem_singleton.mp here]
      exact Nat.le_max_right _ _
  · exact Nat.max_le.mpr ⟨built.bottom, fits.last⟩

theorem Built.addEdges {frame : Frame} {prepared : List Prepared} {f filled : Filler} (built : Built frame prepared f)
    {edges : List (Point × Point)} (room : f.addEdges edges = some filled) :
    Built frame (prepared ++ frame.prepareAll edges) filled := by
  induction edges generalizing f prepared with
  | nil =>
    obtain rfl := Option.some.inj room
    simpa [Frame.prepareAll] using built
  | cons edge later ih =>
    obtain ⟨a, b⟩ := edge
    obtain ⟨next, stepped, rest⟩ := Option.bind_eq_some_iff.mp room
    unfold Filler.edge at stepped
    rw [built.same] at stepped
    unfold Frame.prepareAll at ih ⊢
    split at stepped
    next dropped =>
      obtain rfl := Option.some.inj stepped
      simp only [List.filterMap_cons, dropped]
      exact ih built rest
    next p found =>
      split at stepped
      next => cases stepped
      next =>
        obtain rfl := Option.some.inj stepped
        simp only [List.filterMap_cons, found]
        rw [← List.singleton_append, ← List.append_assoc]
        exact ih (built.insert (Frame.fits_prepare found)) rest

/-! The rows one after the other. -/

def Prepared.endRow (p : Prepared) : Nat := p.last % 2 ^ 16

/-- The crossing of an edge on a row, advanced from its first row with saturating steps. -/
def Prepared.xAt (p : Prepared) (row : Nat) : Int := (fun x => sat (x + p.step))^[row - p.row] p.x

/-- Whether the edge is active on a row. -/
def Prepared.RunsOn (p : Prepared) (row : Nat) : Prop := p.row ≤ row ∧ row < p.endRow

instance (p : Prepared) (row : Nat) : Decidable (p.RunsOn row) := inferInstanceAs (Decidable (_ ∧ _))

def activeOn (prepared : List Prepared) (row : Nat) : List Nat :=
  (List.range prepared.length).filter (fun slot => prepared[slot]?.any (fun p => p.RunsOn row))

theorem mem_activeOn {prepared : List Prepared} {row slot : Nat} :
    slot ∈ activeOn prepared row ↔ ∃ p, prepared[slot]? = some p ∧ p.RunsOn row := by
  unfold activeOn
  rw [List.mem_filter, List.mem_range]
  constructor
  · rintro ⟨-, found⟩
    simpa only [Option.any_eq_true, decide_eq_true_eq] using found
  · rintro ⟨p, found, runs⟩
    exact ⟨(List.getElem?_eq_some_iff.mp found).1, by simp [found, runs]⟩

theorem nodup_activeOn (prepared : List Prepared) (row : Nat) : (activeOn prepared row).Nodup :=
  List.nodup_range.filter _

theorem map_activeOn {α : Type*} (prepared : List Prepared) (row : Nat) {read : Nat → α} {of : Prepared → α}
    (same : ∀ slot p, prepared[slot]? = some p → p.RunsOn row → read slot = of p) :
    (activeOn prepared row).map read = (prepared.filter (fun p => p.RunsOn row)).map of := by
  unfold activeOn
  induction prepared using List.reverseRecOn with
  | nil => rfl
  | append_singleton before p ih =>
    rw [List.length_append, List.length_singleton, List.range_succ, List.filter_append, List.filter_append,
      List.map_append, List.map_append]
    congr 1
    · rw [← ih (fun slot q found runs => same slot q (by
        rw [List.getElem?_append_left (List.getElem?_eq_some_iff.mp found).1, found]) runs)]
      congr 1
      apply List.filter_congr
      intro slot member
      rw [List.getElem?_append_left (List.mem_range.mp member)]
    · by_cases runs : p.RunsOn row
      · have here := same before.length p List.getElem?_concat_length runs
        simp [runs, here]
      · simp [runs]

theorem xAt_succ {p : Prepared} {row : Nat} (started : p.row ≤ row) : p.xAt (row + 1) = sat (p.xAt row + p.step) := by
  unfold Prepared.xAt
  rw [Nat.sub_add_comm started, Function.iterate_succ_apply']

theorem xAt_of_le {p : Prepared} {row : Nat} (early : row ≤ p.row) : p.xAt row = p.x := by
  unfold Prepared.xAt
  rw [Nat.sub_eq_zero_of_le early]
  rfl

theorem xAt_range {p : Prepared} (fits : i32Min ≤ p.x ∧ p.x ≤ i32Max) (row : Nat) :
    i32Min ≤ p.xAt row ∧ p.xAt row ≤ i32Max := by
  unfold Prepared.xAt
  cases row - p.row with
  | zero => exact fits
  | succ k =>
    rw [Function.iterate_succ_apply']
    exact sat_range _

theorem foldl_advance {active : List Nat} (distinct : active.Nodup) (edges : Nat → Edge) (slot : Nat) :
    active.foldl (fun edges id => Function.update edges id (advance (edges id))) edges slot =
      if slot ∈ active then advance (edges slot) else edges slot := by
  induction active generalizing edges with
  | nil => simp
  | cons id later ih =>
    obtain ⟨fresh, distinct⟩ := List.nodup_cons.mp distinct
    rw [List.foldl_cons, ih distinct]
    by_cases here : slot = id
    · subst here
      simp [fresh]
    · simp [here]

structure Scanning (frame : Frame) (prepared : List Prepared) (f : Filler) (row : Nat) (s : Scan) : Prop where
  fixed : ∀ slot, (s.edges slot).step = (f.edges slot).step ∧ (s.edges slot).endRow = (f.edges slot).endRow ∧
    (s.edges slot).next = (f.edges slot).next ∧ (s.edges slot).wind = (f.edges slot).wind
  xs : ∀ slot p, prepared[slot]? = some p → row ≤ p.row ∨ row ≤ p.endRow → (s.edges slot).x = p.xAt row
  ahead : ∀ later, row ≤ later → s.heads later = f.heads later
  behind : ∀ earlier, f.lo ≤ earlier → earlier < row → s.heads earlier = none
  above : ∀ earlier, earlier < f.lo → s.heads earlier = f.heads earlier
  active : s.active.Nodup ∧ ∀ slot, slot ∈ s.active ↔ ∃ p, prepared[slot]? = some p ∧ p.row < row ∧ row ≤ p.endRow

section Scan

variable {frame : Frame} {prepared : List Prepared} {f : Filler} {row : Nat} {s : Scan} {rule : FillRule}

theorem scanning_start (built : Built frame prepared f) :
    Scanning frame prepared f f.lo ⟨f.edges, f.heads, [], []⟩ where
  fixed := fun _ => ⟨rfl, rfl, rfl, rfl⟩
  xs := by
    intro slot p found _
    obtain ⟨next, same⟩ := built.slots slot p found
    have early := built.lo p (List.mem_of_getElem? found)
    dsimp only
    rw [same, xAt_of_le early]
    rfl
  ahead := fun _ _ => rfl
  behind := fun _ starts below => absurd starts (Nat.not_le.mpr below)
  above := fun _ _ => rfl
  active := by
    refine ⟨List.nodup_nil, ?_⟩
    intro slot
    constructor
    · intro member
      cases member
    · rintro ⟨p, found, before, -⟩
      exact absurd (built.lo p (List.mem_of_getElem? found)) (Nat.not_le.mpr before)

def Filler.activeList (f : Filler) (s : Scan) (row : Nat) : List Nat :=
  sortByX (fun id => (s.edges id).x) ((s.active ++ chain (fun e => (s.edges e).next) f.n (s.heads row)).filter
    (fun id => (s.edges id).endRow > row))

theorem Scanning.endRow_eq (scanning : Scanning frame prepared f row s) (built : Built frame prepared f) {slot : Nat}
    {p : Prepared} (found : prepared[slot]? = some p) :
    (s.edges slot).endRow = p.endRow ∧ (s.edges slot).step = p.step ∧ (s.edges slot).wind = p.wind := by
  obtain ⟨next, same⟩ := built.slots slot p found
  obtain ⟨step, endRow, -, wind⟩ := scanning.fixed slot
  rw [step, endRow, wind, same]
  exact ⟨rfl, rfl, rfl⟩

theorem Scanning.activeList_perm (scanning : Scanning frame prepared f row s) (built : Built frame prepared f)
    (inside : row < frame.rows) : (f.activeList s row).Perm (activeOn prepared row) := by
  refine (sortByX_perm _ _).trans ?_
  obtain ⟨bucket, linked, perm⟩ := built.buckets row inside
  have nexts : (fun e => (s.edges e).next) = fun e => (f.edges e).next := by
    funext e
    exact (scanning.fixed e).2.2.1
  have bucketNodup : bucket.Nodup := perm.nodup_iff.mpr (List.nodup_range.filter _)
  have chained : chain (fun e => (s.edges e).next) f.n (s.heads row) = bucket := by
    rw [nexts, scanning.ahead row (le_refl _)]
    apply linked.chain_eq
    rw [perm.length_eq, built.count]
    exact (List.length_filter_le _ _).trans (List.length_range).le
  rw [chained]
  refine (List.perm_ext_iff_of_nodup ?_ (nodup_activeOn prepared row)).mpr ?_
  · refine List.Nodup.filter _ (List.nodup_append.mpr ⟨scanning.active.1, bucketNodup, ?_⟩)
    rintro slot early other late rfl
    obtain ⟨p, found, before, -⟩ := (scanning.active.2 slot).mp early
    obtain ⟨q, found', here⟩ := mem_bucketOf.mp (perm.mem_iff.mp late)
    rw [found, Option.some.injEq] at found'
    subst found'
    omega
  · intro slot
    rw [List.mem_filter, List.mem_append, scanning.active.2, perm.mem_iff, mem_bucketOf, mem_activeOn]
    simp only [decide_eq_true_eq]
    constructor
    · rintro ⟨⟨p, found, before, reaches⟩ | ⟨p, found, here⟩, runs⟩
      · rw [(scanning.endRow_eq built found).1] at runs
        exact ⟨p, found, by omega, runs⟩
      · rw [(scanning.endRow_eq built found).1] at runs
        exact ⟨p, found, by omega, runs⟩
    · rintro ⟨p, found, started, runs⟩
      rw [(scanning.endRow_eq built found).1]
      refine ⟨?_, runs⟩
      rcases Nat.lt_or_eq_of_le started with before | here
      · exact .inl ⟨p, found, before, runs.le⟩
      · exact .inr ⟨p, found, here⟩

theorem Scanning.next (scanning : Scanning frame prepared f row s) (built : Built frame prepared f)
    (started : f.lo ≤ row) (inside : row < frame.rows) :
    Scanning frame prepared f (row + 1) (f.scanRow rule s row) := by
  have perm := scanning.activeList_perm built inside
  have distinct : (f.activeList s row).Nodup := perm.nodup_iff.mpr (nodup_activeOn prepared row)
  have edges : ∀ slot, (f.scanRow rule s row).edges slot =
      if slot ∈ f.activeList s row then advance (s.edges slot) else s.edges slot :=
    foldl_advance distinct s.edges
  refine ⟨?_, ?_, ?_, ?_, ?_, distinct, ?_⟩
  · intro slot
    rw [edges slot]
    split
    · exact scanning.fixed slot
    · exact scanning.fixed slot
  · intro slot p found reaches
    rw [edges slot]
    split
    next runs =>
      obtain ⟨q, found', started, ends⟩ := mem_activeOn.mp (perm.mem_iff.mp runs)
      rw [found, Option.some.injEq] at found'
      subst found'
      rw [xAt_succ started, ← scanning.xs slot p found (.inr ends.le), ← (scanning.endRow_eq built found).2.1]
      rfl
    next idle =>
      have early : row + 1 ≤ p.row := by
        rcases reaches with early | ends
        · exact early
        · by_contra started
          exact idle (perm.mem_iff.mpr (mem_activeOn.mpr ⟨p, found, by omega, by omega⟩))
      rw [scanning.xs slot p found (.inl (by omega)), xAt_of_le early, xAt_of_le (by omega)]
  · intro later after
    rw [← scanning.ahead later (by omega)]
    exact Function.update_of_ne (by omega) _ _
  · intro earlier starts before
    by_cases here : earlier = row
    · rw [here]
      exact Function.update_self _ _ _
    · rw [← scanning.behind earlier starts (by omega)]
      exact Function.update_of_ne here _ _
  · intro earlier before
    rw [← scanning.above earlier before]
    exact Function.update_of_ne (by omega) _ _
  · intro slot
    show slot ∈ f.activeList s row ↔ _
    rw [perm.mem_iff, mem_activeOn]
    unfold Prepared.RunsOn
    simp only [Nat.lt_succ_iff, Nat.succ_le_iff]

/-- The directions of the edges that run through a row at or left of a pixel's centre. -/
def windsLeft (prepared : List Prepared) (row : Nat) (x : Int) : List Int :=
  (prepared.filter (fun p => p.RunsOn row ∧ px (p.xAt row) ≤ x)).map Prepared.wind

theorem encloses_perm (rule : FillRule) {one two : List Int} (perm : one.Perm two) :
    rule.Encloses one ↔ rule.Encloses two := by
  cases rule with
  | evenOdd =>
    show one.length % 2 = 1 ↔ two.length % 2 = 1
    rw [perm.length_eq]
  | nonZero =>
    show one.sum ≠ 0 ↔ two.sum ≠ 0
    rw [perm.sum_eq]

def Filler.crossings (f : Filler) (s : Scan) (row : Nat) : List (Int × Int) :=
  (f.activeList s row).map (fun id => ((s.edges id).x, (s.edges id).wind))

theorem Scanning.crossings_perm (scanning : Scanning frame prepared f row s) (built : Built frame prepared f)
    (inside : row < frame.rows) :
    (f.crossings s row).Perm ((prepared.filter (fun p => p.RunsOn row)).map (fun p => (p.xAt row, p.wind))) := by
  refine ((scanning.activeList_perm built inside).map _).trans ?_
  rw [map_activeOn prepared row]
  intro slot p found runs
  rw [scanning.xs slot p found (.inr runs.2.le), (scanning.endRow_eq built found).2.2]

theorem Scanning.crossings_sorted (f : Filler) (s : Scan) (row : Nat) :
    (f.crossings s row).Pairwise (fun a b => a.1 ≤ b.1) := by
  unfold Filler.crossings
  rw [List.pairwise_map]
  exact sortByX_sorted _ _

theorem Scanning.crossings_range (scanning : Scanning frame prepared f row s) (built : Built frame prepared f)
    (inside : row < frame.rows) :
    ∀ crossing ∈ f.crossings s row, i32Min ≤ crossing.1 ∧ crossing.1 ≤ i32Max := by
  intro crossing member
  obtain ⟨p, there, rfl⟩ := List.mem_map.mp ((scanning.crossings_perm built inside).mem_iff.mp member)
  exact xAt_range (built.fits p (List.mem_filter.mp there).1).x row

theorem Scanning.paints_scanRow (scanning : Scanning frame prepared f row s) (built : Built frame prepared f)
    (inside : row < frame.rows) {x y : Int} :
    Paints (f.scanRow rule s row).spans x y ↔ Paints s.spans x y ∨
      (y = wrap32 (frame.top + row) ∧ (frame.left ≤ x ∧ x < frame.right ∧ x < 32768) ∧
        rule.Encloses (windsLeft prepared row x)) := by
  have walked : (f.scanRow rule s row).spans =
      s.spans ++ frame.walk rule (wrap32 (frame.top + row)) (f.crossings s row) := by
    rw [← built.same]
    rfl
  have perm := (scanning.crossings_perm built inside).filter (fun crossing => px crossing.1 ≤ x)
  rw [List.filter_map, List.filter_filter] at perm
  have winds : (((f.crossings s row).filter (fun crossing => px crossing.1 ≤ x)).map Prod.snd).Perm
      (windsLeft prepared row x) := by
    refine (perm.map Prod.snd).trans ?_
    rw [List.map_map]
    unfold windsLeft
    refine List.Perm.of_eq ?_
    congr 1
    apply List.filter_congr
    intro p _
    rw [Bool.decide_and, Bool.and_comm]
    rfl
  rw [walked, paints_append, paints_walk (Scanning.crossings_sorted f s row) (scanning.crossings_range built inside),
    encloses_perm rule winds]

end Scan

/-- The spans of the rows from `first` before `row`. -/
structure Frame.Rows (f : Frame) (first row : Nat) (spans : List Span) : Prop where
  holds : ∀ s ∈ spans, ∃ own, first ≤ own ∧ own < row ∧ f.Holds (wrap32 (f.top + own)) s
  apart : spans.Pairwise (fun one two => one.y = two.y → one.x1 ≤ two.x0)

theorem wrap32_inj {a b : Int} (below : a - b < 2 ^ 32) (above : b - a < 2 ^ 32) (same : wrap32 a = wrap32 b) :
    a = b := by
  unfold wrap32 at same
  omega

section Fill

variable {frame : Frame} {prepared : List Prepared} {f : Filler} {rule : FillRule}

/-- What a number of rows from the first leaves behind. -/
theorem scan_rows (built : Built frame prepared f) (count : Nat) (inside : f.lo + count ≤ frame.rows)
    (tall : frame.rows ≤ 2 ^ 32) :
    let s := (List.range' f.lo count).foldl (f.scanRow rule) ⟨f.edges, f.heads, [], []⟩
    Scanning frame prepared f (f.lo + count) s ∧ frame.Rows f.lo (f.lo + count) s.spans ∧
      ∀ x y, Paints s.spans x y ↔ ∃ row, f.lo ≤ row ∧ row < f.lo + count ∧ y = wrap32 (frame.top + row) ∧
        (frame.left ≤ x ∧ x < frame.right ∧ x < 32768) ∧ rule.Encloses (windsLeft prepared row x) := by
  induction count with
  | zero =>
    refine ⟨scanning_start built, ⟨by simp, .nil⟩, ?_⟩
    intro x y
    constructor
    · rintro ⟨s, member, -⟩
      cases member
    · rintro ⟨row, starts, below, -⟩
      omega
  | succ count ih =>
    obtain ⟨scanning, rows, painted⟩ := ih (by omega)
    rw [List.range'_concat, List.foldl_append, List.foldl_cons, List.foldl_nil, Nat.one_mul]
    generalize (List.range' f.lo count).foldl (f.scanRow rule) ⟨f.edges, f.heads, [], []⟩ = s at *
    have here : f.lo + count < frame.rows := by omega
    refine ⟨scanning.next built (Nat.le_add_right _ _) here, ?_, ?_⟩
    · obtain ⟨low, laid⟩ : ∃ low, frame.Laid (wrap32 (frame.top + (f.lo + count : Nat))) low
          (frame.walk rule (wrap32 (frame.top + (f.lo + count : Nat))) (f.crossings s (f.lo + count))) :=
        laid_walk (Scanning.crossings_sorted f s _) (scanning.crossings_range built here)
      have walked : (f.scanRow rule s (f.lo + count)).spans = s.spans ++
          frame.walk rule (wrap32 (frame.top + (f.lo + count : Nat))) (f.crossings s (f.lo + count)) := by
        rw [← built.same]
        rfl
      rw [walked]
      refine ⟨?_, List.pairwise_append.mpr ⟨rows.apart, laid.apart.imp fun {one two} order (_ : one.y = two.y) => order, ?_⟩⟩
      · intro span member
        rcases List.mem_append.mp member with old | new
        · obtain ⟨row, starts, below, held⟩ := rows.holds span old
          exact ⟨row, starts, by omega, held⟩
        · exact ⟨f.lo + count, by omega, by omega, laid.holds span new⟩
      · intro span old other new same
        obtain ⟨row, starts, below, held⟩ := rows.holds span old
        rw [held.row, (laid.holds other new).row] at same
        have equal := wrap32_inj (by omega) (by omega) same
        omega
    · intro x y
      rw [scanning.paints_scanRow built here, painted]
      constructor
      · rintro (⟨row, starts, below, rest⟩ | rest)
        · exact ⟨row, starts, by omega, rest⟩
        · exact ⟨f.lo + count, by omega, by omega, rest⟩
      · rintro ⟨row, starts, below, rest⟩
        by_cases last : row = f.lo + count
        · subst last
          exact .inr rest
        · exact .inl ⟨row, starts, by omega, rest⟩

theorem not_encloses_nil (rule : FillRule) : ¬ rule.Encloses [] := by
  cases rule <;> decide

theorem windsLeft_outside (built : Built frame prepared f) {row : Nat} (outside : row < f.lo ∨ f.hi ≤ row) (x : Int) :
    windsLeft prepared row x = [] := by
  unfold windsLeft
  rw [List.map_eq_nil_iff, List.filter_eq_nil_iff]
  intro p member runs
  have runs : p.RunsOn row ∧ px (p.xAt row) ≤ x := by simpa using runs
  obtain ⟨⟨started, ends⟩, -⟩ := runs
  have low := built.lo p member
  have high := built.hi p member
  have short : p.endRow ≤ p.last := Nat.mod_le _ _
  omega

theorem paints_fill (built : Built frame prepared f) (tall : frame.rows ≤ 2 ^ 32) {x y : Int} :
    Paints (f.fill rule).2.1 x y ↔ ∃ row, row < frame.rows ∧ y = wrap32 (frame.top + row) ∧
      (frame.left ≤ x ∧ x < frame.right ∧ x < 32768) ∧ rule.Encloses (windsLeft prepared row x) := by
  by_cases used : f.lo ≤ f.hi
  · have bottom := built.bottom
    obtain ⟨-, -, painted⟩ := scan_rows built (f.hi - f.lo) (by omega) tall
    refine (painted x y).trans ?_
    constructor
    · rintro ⟨row, starts, below, rest⟩
      exact ⟨row, by omega, rest⟩
    · rintro ⟨row, inside, same, within, enclosed⟩
      have used : f.lo ≤ row ∧ row < f.hi := by
        by_contra outside
        rw [windsLeft_outside built (by omega)] at enclosed
        exact not_encloses_nil rule enclosed
      exact ⟨row, used.1, by omega, same, within, enclosed⟩
  · have none : f.hi - f.lo = 0 := by omega
    unfold Filler.fill
    rw [none]
    constructor
    · rintro ⟨s, member, -⟩
      cases member
    · rintro ⟨row, inside, same, within, enclosed⟩
      rw [windsLeft_outside built (by omega)] at enclosed
      exact absurd enclosed (not_encloses_nil rule)

end Fill

theorem built_addEdges {scratch : Scratch} {clip : Clip} {edges : List (Point × Point)} {f : Filler}
    (room : (Filler.new scratch clip).addEdges edges = some f) :
    Built (.new scratch clip) ((Frame.new scratch clip).prepareAll edges) f :=
  (built_new scratch clip).addEdges room

theorem rows_new_le (scratch : Scratch) (clip : Clip) : (Frame.new scratch clip).rows ≤ 2 ^ 32 :=
  (Nat.min_le_left _ _).trans clip.height.toNat_lt.le

theorem addEdges_append (f : Filler) (one two : List (Point × Point)) :
    f.addEdges (one ++ two) = (f.addEdges one).bind (·.addEdges two) := by
  induction one generalizing f with
  | nil => rfl
  | cons edge later ih =>
    obtain ⟨a, b⟩ := edge
    simp only [List.cons_append, Filler.addEdges, ih, Option.bind_assoc]

theorem addRings_eq (f : Filler) (rings : List (List Point)) : f.addRings rings = f.addEdges (rings.flatMap ringEdges) := by
  induction rings generalizing f with
  | nil => rfl
  | cons ring later ih =>
    simp only [Filler.addRings, Filler.ring, List.flatMap_cons, addEdges_append, ih]

theorem fill_empties {scratch : Scratch} {clip : Clip} {edges : List (Point × Point)} {f : Filler} (rule : FillRule)
    (room : (Filler.new scratch clip).addEdges edges = some f) :
    (f.fill rule).1.toFrame = (Filler.new scratch clip).toFrame ∧ (f.fill rule).1.n = 0 ∧
      (f.fill rule).1.lo = (Filler.new scratch clip).lo ∧ (f.fill rule).1.hi = 0 ∧
      ∀ row < (Frame.new scratch clip).rows, (f.fill rule).1.heads row = none := by
  have built := built_addEdges room
  refine ⟨built.same, rfl, ?_, rfl, ?_⟩
  · show f.rows = (Frame.new scratch clip).rows
    rw [← built.same]
  · intro row inside
    have empty : row < f.lo ∨ f.hi ≤ row → f.heads row = none := by
      intro outside
      obtain ⟨bucket, linked, perm⟩ := built.buckets row inside
      generalize f.heads row = head at linked ⊢
      cases linked with
      | nil => rfl
      | @cons e rest linked =>
        obtain ⟨p, found, same⟩ := mem_bucketOf.mp (perm.mem_iff.mp List.mem_cons_self)
        have member := List.mem_of_getElem? found
        have low := built.lo p member
        have high := built.hi p member
        have order := (built.fits p member).order
        omega
    have bottom := built.bottom
    by_cases used : f.lo ≤ f.hi
    · obtain ⟨scanning, -, -⟩ := scan_rows built (f.hi - f.lo) (by omega) (rows_new_le scratch clip)
      show ((List.range' f.lo (f.hi - f.lo)).foldl (f.scanRow rule) ⟨f.edges, f.heads, [], []⟩).heads row = none
      by_cases above : row < f.lo
      · rw [scanning.above row above]
        exact empty (.inl above)
      by_cases within : row < f.hi
      · exact scanning.behind row (by omega) (by omega)
      · rw [scanning.ahead row (by omega)]
        exact empty (.inr (by omega))
    · have none : f.hi - f.lo = 0 := by omega
      unfold Filler.fill
      rw [none]
      exact empty (by omega)

theorem fill_rows {scratch : Scratch} {clip : Clip} {edges : List (Point × Point)} {f : Filler} (rule : FillRule)
    (room : (Filler.new scratch clip).addEdges edges = some f) :
    (Frame.new scratch clip).Rows 0 (Frame.new scratch clip).rows (f.fill rule).2.1 := by
  have built := built_addEdges room
  have bottom := built.bottom
  by_cases used : f.lo ≤ f.hi
  · obtain ⟨-, rows, -⟩ := scan_rows built (f.hi - f.lo) (by omega) (rows_new_le scratch clip)
    refine ⟨?_, rows.apart⟩
    intro s member
    obtain ⟨row, starts, below, held⟩ := rows.holds s member
    exact ⟨row, Nat.zero_le _, by omega, held⟩
  · have none : f.hi - f.lo = 0 := by omega
    unfold Filler.fill
    rw [none]
    exact ⟨fun s member => absurd member List.not_mem_nil, .nil⟩

/-- The direction an edge counts with for a pixel, where it runs through the row at or left of its centre. -/
def Frame.edgeWind (f : Frame) (row : Nat) (x : Int) (edge : Point × Point) : Option Int :=
  (f.prepare edge.1 edge.2).bind (fun p => if p.RunsOn row ∧ px (p.xAt row) ≤ x then some p.wind else none)

theorem windsLeft_prepareAll (f : Frame) (row : Nat) (x : Int) (edges : List (Point × Point)) :
    windsLeft (f.prepareAll edges) row x = edges.filterMap (f.edgeWind row x) := by
  induction edges with
  | nil => rfl
  | cons edge later ih =>
    unfold windsLeft Frame.prepareAll at ih ⊢
    simp only [List.filterMap_cons]
    cases found : f.prepare edge.1 edge.2 with
    | none =>
      have skipped : f.edgeWind row x edge = none := by
        unfold Frame.edgeWind
        rw [found]
        rfl
      simp only [skipped]
      exact ih
    | some p =>
      by_cases counts : p.RunsOn row ∧ px (p.xAt row) ≤ x
      · have taken : f.edgeWind row x edge = some p.wind := by
          unfold Frame.edgeWind
          rw [found, Option.bind_some, if_pos counts]
        simp only [taken]
        rw [List.filter_cons_of_pos (by simpa using counts), List.map_cons, ih]
      · have skipped : f.edgeWind row x edge = none := by
          unfold Frame.edgeWind
          rw [found, Option.bind_some, if_neg counts]
        simp only [skipped]
        rw [List.filter_cons_of_neg (by simpa using counts), ih]

theorem paints_addEdges {scratch : Scratch} {clip : Clip} {edges : List (Point × Point)} {f : Filler} {rule : FillRule}
    (room : (Filler.new scratch clip).addEdges edges = some f) {x y : Int} :
    Paints (f.fill rule).2.1 x y ↔ ∃ row, row < (Frame.new scratch clip).rows ∧
      y = wrap32 ((Frame.new scratch clip).top + row) ∧
      ((Frame.new scratch clip).left ≤ x ∧ x < (Frame.new scratch clip).right ∧ x < 32768) ∧
      rule.Encloses (edges.filterMap ((Frame.new scratch clip).edgeWind row x)) := by
  simp only [← windsLeft_prepareAll]
  exact paints_fill (built_addEdges room) (rows_new_le scratch clip)

end Leviculum.Map.Fill
