import Leviculum.Map.FillSpec

/-! Borders between polygons: the painted pixels depend on the edges only through their sum at each pixel, so edges
that run both ways cancel and two rings with a common border fill like their joint outline. -/

namespace Leviculum.Map.Fill

section Wind

variable {f : Frame} {row : Nat} {x : Int}

theorem prepareDown_neg (f : Frame) (t bot : Point) (wind : Int) :
    f.prepareDown t bot (-wind) = (f.prepareDown t bot wind).map (fun p => { p with wind := -p.wind }) := by
  unfold Frame.prepareDown
  dsimp only
  split_ifs <;> rfl

theorem prepare_swap (f : Frame) (a b : Point) :
    f.prepare b a = (f.prepare a b).map (fun p => { p with wind := -p.wind }) := by
  unfold Frame.prepare
  by_cases level : a.y = b.y
  · rw [if_pos level, if_pos level.symm]
    rfl
  rw [if_neg level, if_neg (Ne.symm level)]
  by_cases down : a.y < b.y
  · have up : ¬ b.y < a.y := by omega
    rw [if_pos down, if_neg up, prepareDown_neg]
  · have up : b.y < a.y := by omega
    rw [if_neg down, if_pos up]
    exact prepareDown_neg f b a (-1)

theorem edgeWind_swap (edge : Point × Point) : f.edgeWind row x edge.swap = (f.edgeWind row x edge).map (- ·) := by
  unfold Frame.edgeWind
  rw [Prod.fst_swap, Prod.snd_swap, prepare_swap f edge.1 edge.2]
  cases f.prepare edge.1 edge.2 with
  | none => rfl
  | some p =>
    simp only [Option.map_some, Option.bind_some]
    by_cases counts : p.RunsOn row ∧ px (p.xAt row) ≤ x
    · rw [if_pos counts]
      exact if_pos counts
    · rw [if_neg counts]
      exact if_neg counts

theorem encloses_evenOdd_congr {one two : List Int} (same : one.length % 2 = two.length % 2) :
    FillRule.evenOdd.Encloses one ↔ FillRule.evenOdd.Encloses two := by
  show one.length % 2 = 1 ↔ two.length % 2 = 1
  rw [same]

theorem encloses_nonZero_congr {one two : List Int} (same : one.sum = two.sum) :
    FillRule.nonZero.Encloses one ↔ FillRule.nonZero.Encloses two := by
  show one.sum ≠ 0 ↔ two.sum ≠ 0
  rw [same]

theorem length_filterMap_turned {edges turned : List (Point × Point)}
    (same : List.Forall₂ (fun edge other => other = edge ∨ other = edge.swap) edges turned) :
    (turned.filterMap (f.edgeWind row x)).length = (edges.filterMap (f.edgeWind row x)).length := by
  induction same with
  | nil => rfl
  | @cons edge other edges turned either _ ih =>
    simp only [List.filterMap_cons]
    rcases either with rfl | rfl
    · cases f.edgeWind row x other with
      | none => exact ih
      | some wind => exact congrArg (· + 1) ih
    · rw [edgeWind_swap]
      cases f.edgeWind row x edge with
      | none => exact ih
      | some wind => exact congrArg (· + 1) ih

theorem sum_filterMap_swap (edges : List (Point × Point)) :
    ((edges.map Prod.swap).filterMap (f.edgeWind row x)).sum = -(edges.filterMap (f.edgeWind row x)).sum := by
  induction edges with
  | nil => rfl
  | cons edge later ih =>
    simp only [List.map_cons, List.filterMap_cons, edgeWind_swap]
    cases f.edgeWind row x edge with
    | none => exact ih
    | some wind =>
      simp only [Option.map_some, List.sum_cons, ih]
      omega

theorem encloses_pair (rule : FillRule) (edge : Point × Point) (edges : List (Point × Point)) :
    rule.Encloses ((edge :: edge.swap :: edges).filterMap (f.edgeWind row x)) ↔
      rule.Encloses (edges.filterMap (f.edgeWind row x)) := by
  simp only [List.filterMap_cons, edgeWind_swap]
  cases f.edgeWind row x edge with
  | none => exact Iff.rfl
  | some wind =>
    cases rule with
    | evenOdd =>
      apply encloses_evenOdd_congr
      simp only [Option.map_some, List.length_cons]
      omega
    | nonZero =>
      apply encloses_nonZero_congr
      simp only [Option.map_some, List.sum_cons]
      omega

theorem encloses_twice (edge : Point × Point) (edges : List (Point × Point)) :
    FillRule.evenOdd.Encloses ((edge :: edge :: edges).filterMap (f.edgeWind row x)) ↔
      FillRule.evenOdd.Encloses (edges.filterMap (f.edgeWind row x)) := by
  simp only [List.filterMap_cons]
  cases f.edgeWind row x edge with
  | none => exact Iff.rfl
  | some wind =>
    apply encloses_evenOdd_congr
    simp only [List.length_cons]
    omega

end Wind

/-! Rings with a common border. -/

def path : List Point → List (Point × Point)
  | a :: b :: rest => (a, b) :: path (b :: rest)
  | _ => []

theorem path_append (front : List Point) (joint : Point) (back : List Point) :
    path (front ++ joint :: back) = path (front ++ [joint]) ++ path (joint :: back) := by
  induction front with
  | nil => simp [path]
  | cons a front ih =>
    cases front with
    | nil => simp [path]
    | cons b front =>
      simp only [List.cons_append, path] at ih ⊢
      rw [ih]

theorem path_reverse (points : List Point) : path points.reverse = ((path points).map Prod.swap).reverse := by
  induction points with
  | nil => rfl
  | cons a rest ih =>
    cases rest with
    | nil => rfl
    | cons b rest =>
      rw [List.reverse_cons] at ih
      rw [List.reverse_cons, List.reverse_cons, List.append_assoc, List.singleton_append, path_append, ih]
      simp only [path, List.map_cons, List.reverse_cons]
      rfl

theorem zip_eq_path (first : Point) (points : List Point) : (first :: points).zip points = path (first :: points) := by
  induction points generalizing first with
  | nil => rfl
  | cons next later ih => exact congrArg ((first, next) :: ·) (ih next)

theorem ringEdges_perm {first : Point} {rest : List Point} (more : rest ≠ []) :
    (ringEdges (first :: rest)).Perm (path (first :: rest ++ [first])) := by
  have long : ¬ (first :: rest).length < 2 := by
    have some := List.length_pos_of_ne_nil more
    rw [List.length_cons]
    omega
  obtain ⟨front, last, whole⟩ : ∃ front last, first :: rest = front ++ [last] :=
    ⟨_, _, (List.dropLast_append_getLast (List.cons_ne_nil first rest)).symm⟩
  have final : (first :: rest).getLast? = some last := by rw [whole, List.getLast?_concat]
  unfold ringEdges
  rw [if_neg long, final]
  show ((last :: first :: rest).zip (first :: rest)).Perm _
  rw [zip_eq_path]
  show ((last, first) :: path (first :: rest)).Perm _
  have closed : path (first :: rest ++ [first]) = path (first :: rest) ++ [(last, first)] := by
    rw [whole, List.append_assoc, List.singleton_append, path_append front last [first]]
    rfl
  rw [closed]
  exact (List.perm_append_singleton _ _).symm

theorem ringEdges_border (u v : Point) (border xs ys : List Point) :
    (ringEdges (u :: (border ++ v :: xs)) ++ ringEdges (v :: (border.reverse ++ u :: ys))).Perm
      (ringEdges (v :: (xs ++ u :: ys)) ++
        (path (u :: border ++ [v]) ++ (path (u :: border ++ [v])).map Prod.swap)) := by
  have one : (ringEdges (u :: (border ++ v :: xs))).Perm (path (u :: border ++ [v]) ++ path (v :: xs ++ [u])) := by
    refine (ringEdges_perm (by simp)).trans (List.Perm.of_eq ?_)
    rw [show u :: (border ++ v :: xs) ++ [u] = (u :: border) ++ v :: (xs ++ [u]) by simp, path_append]
    rfl
  have back : path (v :: border.reverse ++ [u]) = ((path (u :: border ++ [v])).map Prod.swap).reverse := by
    rw [← path_reverse]
    simp
  have two : (ringEdges (v :: (border.reverse ++ u :: ys))).Perm
      ((path (u :: border ++ [v])).map Prod.swap ++ path (u :: ys ++ [v])) := by
    refine (ringEdges_perm (by simp)).trans ?_
    rw [show v :: (border.reverse ++ u :: ys) ++ [v] = (v :: border.reverse) ++ u :: (ys ++ [v]) by simp, path_append,
      back]
    exact (List.reverse_perm _).append_right _
  have outline : (ringEdges (v :: (xs ++ u :: ys))).Perm (path (v :: xs ++ [u]) ++ path (u :: ys ++ [v])) := by
    refine (ringEdges_perm (by simp)).trans (List.Perm.of_eq ?_)
    rw [show v :: (xs ++ u :: ys) ++ [v] = (v :: xs) ++ u :: (ys ++ [v]) by simp, path_append]
    rfl
  refine (one.append two).trans (List.Perm.trans ?_ (outline.symm.append_right _))
  generalize path (u :: border ++ [v]) = there
  generalize there.map Prod.swap = again
  generalize path (v :: xs ++ [u]) = left
  generalize path (u :: ys ++ [v]) = right
  refine List.perm_iff_count.mpr ?_
  intro edge
  simp only [List.count_append]
  omega

/-- The painted pixels of edges that fit the scratch depend neither on the order of the edges nor, under the even-odd
rule, on their directions; an edge together with its reverse, under the even-odd rule any edge twice, changes nothing
wherever it is added. Under the non-zero rule two rings that run a common border in opposite directions paint the
pixels of their joint outline. -/
theorem borders_leave_no_seam (scratch : Scratch) (clip : Clip) (f g : Filler) (x y : Int) :
    (∀ (rule : FillRule) (edges others : List (Point × Point)),
      (Filler.new scratch clip).addEdges edges = some f → (Filler.new scratch clip).addEdges others = some g →
      (others.Perm edges ∨ (∃ edge, others.Perm (edge :: edge.swap :: edges)) ∨
        (rule = .evenOdd ∧ (List.Forall₂ (fun edge other => other = edge ∨ other = edge.swap) edges others ∨
          ∃ edge, others.Perm (edge :: edge :: edges)))) →
      (Paints (g.fill rule).2.1 x y ↔ Paints (f.fill rule).2.1 x y)) ∧
    ∀ (u v : Point) (border xs ys : List Point),
      (Filler.new scratch clip).addEdges (ringEdges (v :: (xs ++ u :: ys))) = some f →
      (Filler.new scratch clip).addEdges
        (ringEdges (u :: (border ++ v :: xs)) ++ ringEdges (v :: (border.reverse ++ u :: ys))) = some g →
      (Paints (g.fill .nonZero).2.1 x y ↔ Paints (f.fill .nonZero).2.1 x y) := by
  refine ⟨?_, ?_⟩
  · intro rule edges others fits fits' change
    have counted : ∀ row, rule.Encloses (others.filterMap ((Frame.new scratch clip).edgeWind row x)) ↔
        rule.Encloses (edges.filterMap ((Frame.new scratch clip).edgeWind row x)) := by
      intro row
      rcases change with perm | ⟨edge, perm⟩ | ⟨rfl, turned | ⟨edge, perm⟩⟩
      · exact encloses_perm rule (perm.filterMap _)
      · exact (encloses_perm rule (perm.filterMap _)).trans (encloses_pair rule edge edges)
      · exact encloses_evenOdd_congr (congrArg (· % 2) (length_filterMap_turned turned))
      · exact (encloses_perm _ (perm.filterMap _)).trans (encloses_twice edge edges)
    rw [paints_addEdges fits', paints_addEdges fits]
    simp only [counted]
  · intro u v border xs ys fits fits'
    have perm := ringEdges_border u v border xs ys
    have counted : ∀ row, FillRule.nonZero.Encloses
        ((ringEdges (u :: (border ++ v :: xs)) ++ ringEdges (v :: (border.reverse ++ u :: ys))).filterMap
          ((Frame.new scratch clip).edgeWind row x)) ↔
        FillRule.nonZero.Encloses
          ((ringEdges (v :: (xs ++ u :: ys))).filterMap ((Frame.new scratch clip).edgeWind row x)) := by
      intro row
      refine (encloses_perm _ (perm.filterMap _)).trans (encloses_nonZero_congr ?_)
      rw [List.filterMap_append, List.filterMap_append, List.sum_append, List.sum_append, sum_filterMap_swap]
      omega
    rw [paints_addEdges fits', paints_addEdges fits]
    simp only [counted]

/-- A square and the same square cut in two along a bent line. -/
theorem cut_square_leaves_no_seam :
    ∃ f g,
      (Filler.new ⟨fun _ => ⟨0, 0, 0, none, 0⟩, fun _ => none, 16, 4, 16⟩ ⟨0, 0, 4, 4⟩).addEdges
        (ringEdges [⟨64, 64⟩, ⟨0, 64⟩, ⟨0, 0⟩, ⟨64, 0⟩]) = some f ∧
      (Filler.new ⟨fun _ => ⟨0, 0, 0, none, 0⟩, fun _ => none, 16, 4, 16⟩ ⟨0, 0, 4, 4⟩).addEdges
        (ringEdges [⟨0, 0⟩, ⟨16, 40⟩, ⟨64, 64⟩, ⟨0, 64⟩] ++ ringEdges [⟨64, 64⟩, ⟨16, 40⟩, ⟨0, 0⟩, ⟨64, 0⟩]) =
          some g ∧
      ∀ x y, Paints (g.fill .nonZero).2.1 x y ↔ Paints (f.fill .nonZero).2.1 x y := by
  refine ⟨_, _, (Option.some_get (by decide)).symm, (Option.some_get (by decide)).symm, ?_⟩
  intro x y
  exact (borders_leave_no_seam _ _ _ _ x y).2 ⟨0, 0⟩ ⟨64, 64⟩ [⟨16, 40⟩] [⟨0, 64⟩] [⟨64, 0⟩]
    (Option.some_get _).symm (Option.some_get _).symm

end Leviculum.Map.Fill
