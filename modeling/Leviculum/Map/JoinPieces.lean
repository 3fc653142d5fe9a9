import Mathlib.Algebra.BigOperators.Group.Multiset.Basic
import Mathlib.Algebra.Order.Group.Multiset
import Mathlib.Data.Multiset.AddSub
import Mathlib.Data.Sym.Sym2
import Mathlib.Order.Bounds.Basic

/-! The pieces of one street, which the source cuts at every junction, joined into the lines its name is placed
along. -/

namespace Leviculum.Map

variable {P : Type*} {K : Type*}

structure Line (P : Type*) where
  points : List P
  long : 2 ≤ points.length

namespace Line

theorem nonempty (line : Line P) : line.points ≠ [] := by
  intro none
  have long := line.long
  rw [none] at long
  cases long

def first (line : Line P) : P := line.points.head line.nonempty

def last (line : Line P) : P := line.points.getLast line.nonempty

def reverse (line : Line P) : Line P where
  points := line.points.reverse
  long := by
    rw [List.length_reverse]
    exact line.long

/-- The line with the points of a piece after its own, but for the piece's first. -/
def extend (line piece : Line P) : Line P where
  points := line.points ++ piece.points.tail
  long := by
    rw [List.length_append]
    exact Nat.le_add_right_of_le line.long

/-- The line with the points of a piece before its own, but for the piece's last. -/
def prepend (line piece : Line P) : Line P where
  points := piece.points.dropLast ++ line.points
  long := by
    rw [List.length_append]
    exact Nat.le_add_left_of_le line.long

@[simp] theorem first_reverse (line : Line P) : line.reverse.first = line.last := by
  simp [first, last, reverse, List.head_reverse]

@[simp] theorem last_reverse (line : Line P) : line.reverse.last = line.first := by
  simp [first, last, reverse, List.getLast_reverse]

@[simp] theorem first_extend (line piece : Line P) : (line.extend piece).first = line.first :=
  List.head_append_of_ne_nil line.nonempty

@[simp] theorem last_extend (line piece : Line P) : (line.extend piece).last = piece.last := by
  have long := piece.long
  have tail : piece.points.tail ≠ [] := by
    intro none
    have length := congrArg List.length none
    rw [List.length_tail, List.length_nil] at length
    omega
  calc (line.extend piece).last = piece.points.tail.getLast tail := List.getLast_append_of_ne_nil _ tail
    _ = piece.last := List.getLast_tail tail

@[simp] theorem first_prepend (line piece : Line P) : (line.prepend piece).first = piece.first := by
  have long := piece.long
  have front : piece.points.dropLast ≠ [] := by
    intro none
    have length := congrArg List.length none
    rw [List.length_dropLast, List.length_nil] at length
    omega
  calc (line.prepend piece).first = piece.points.dropLast.head front := List.head_append_of_ne_nil front
    _ = piece.first := List.head_dropLast front

@[simp] theorem last_prepend (line piece : Line P) : (line.prepend piece).last = line.last :=
  List.getLast_append_of_ne_nil _ line.nonempty

end Line

/-- The segments between consecutive points, without a direction. -/
def segments : List P → Multiset (Sym2 P)
  | a :: b :: rest => s(a, b) ::ₘ segments (b :: rest)
  | _ => 0

theorem segments_append (front : List P) (joint : P) (back : List P) :
    segments (front ++ joint :: back) = segments (front ++ [joint]) + segments (joint :: back) := by
  induction front with
  | nil => simp [segments]
  | cons a front ih =>
    cases front with
    | nil => simp [segments]
    | cons b front =>
      simp only [List.cons_append, segments] at ih ⊢
      rw [ih, Multiset.cons_add]

theorem segments_reverse (points : List P) : segments points.reverse = segments points := by
  induction points with
  | nil => rfl
  | cons a rest ih =>
    cases rest with
    | nil => rfl
    | cons b rest =>
      rw [List.reverse_cons] at ih
      rw [List.reverse_cons, List.reverse_cons, List.append_assoc, List.singleton_append, segments_append, ih]
      simp only [segments]
      rw [add_comm, Multiset.cons_add, zero_add, Sym2.eq_swap]

namespace Line

def segments (line : Line P) : Multiset (Sym2 P) := Map.segments line.points

theorem segments_reverse (line : Line P) : line.reverse.segments = line.segments := Map.segments_reverse _

theorem segments_extend {line piece : Line P} (meet : piece.first = line.last) :
    (line.extend piece).segments = line.segments + piece.segments := by
  have front : line.points = line.points.dropLast ++ [line.last] := (List.dropLast_append_getLast line.nonempty).symm
  have back : piece.points = line.last :: piece.points.tail := by
    rw [← meet]
    exact (List.cons_head_tail piece.nonempty).symm
  unfold segments
  show Map.segments (line.points ++ piece.points.tail) = _
  conv_lhs => rw [front, List.append_assoc, List.singleton_append, segments_append]
  rw [← front, ← back]

theorem segments_prepend {line piece : Line P} (meet : piece.last = line.first) :
    (line.prepend piece).segments = line.segments + piece.segments := by
  have front : piece.points = piece.points.dropLast ++ [line.first] := by
    rw [← meet]
    exact (List.dropLast_append_getLast piece.nonempty).symm
  have back : line.points = line.first :: line.points.tail := (List.cons_head_tail line.nonempty).symm
  unfold segments
  show Map.segments (piece.points.dropLast ++ line.points) = _
  conv_lhs => rw [back, segments_append]
  rw [← front, ← back, add_comm]

end Line

def longPieces (pieces : List (K × List P)) : List (K × Line P) :=
  pieces.filterMap (fun piece => if long : 2 ≤ piece.2.length then some (piece.1, ⟨piece.2, long⟩) else none)

theorem map_longPieces {α : Type*} (of : K → List P → α) (pieces : List (K × List P)) :
    (longPieces pieces).map (fun piece => of piece.1 piece.2.points) =
      (pieces.filter (fun piece => 2 ≤ piece.2.length)).map (fun piece => of piece.1 piece.2) := by
  induction pieces with
  | nil => rfl
  | cons piece rest ih =>
    unfold longPieces at ih ⊢
    by_cases long : 2 ≤ piece.2.length
    · rw [List.filterMap_cons_some (dif_pos long), List.filter_cons_of_pos (by simpa using long), List.map_cons,
        List.map_cons, ih]
    · rw [List.filterMap_cons_none (dif_neg long), List.filter_cons_of_neg (by simpa using long), ih]

/-- Two lines that could not be joined: one is closed, or they share no end. -/
def Apart (one two : List P) : Prop :=
  one.head? ≠ one.getLast? → two.head? ≠ two.getLast? →
    one.head? ≠ two.head? ∧ one.head? ≠ two.getLast? ∧ one.getLast? ≠ two.head? ∧ one.getLast? ≠ two.getLast?

theorem head?_points (line : Line P) : line.points.head? = some line.first := List.head?_eq_some_head line.nonempty

theorem getLast?_points (line : Line P) : line.points.getLast? = some line.last :=
  List.getLast?_eq_some_getLast line.nonempty

theorem apart_of_ends {one two : Line P}
    (untouched : one.first ≠ one.last → ∀ point : P, point = two.first ∨ point = two.last →
      point ≠ one.first ∧ point ≠ one.last) : Apart one.points two.points := by
  unfold Apart
  rw [head?_points, getLast?_points, head?_points, getLast?_points]
  simp only [ne_eq, Option.some.injEq]
  intro isOpen _
  obtain ⟨first, first'⟩ := untouched isOpen two.first (.inl rfl)
  obtain ⟨last, last'⟩ := untouched isOpen two.last (.inr rfl)
  exact ⟨fun same => first same.symm, fun same => last same.symm, fun same => first' same.symm,
    fun same => last' same.symm⟩

theorem sum_segments_of_forall₂ {groups : List (List (K × List P))} {lines : List (K × List P)}
    (made : List.Forall₂ (fun group joined => segments joined.2 = (group.map (fun piece => segments piece.2)).sum)
      groups lines) :
    (lines.map (fun joined => segments joined.2)).sum = (groups.flatten.map (fun piece => segments piece.2)).sum := by
  induction made with
  | nil => rfl
  | cons here _ ih =>
    rw [List.map_cons, List.sum_cons, List.flatten_cons, List.map_append, List.sum_append, here, ih]

/-- What a line is made of: the pieces of `group`. -/
structure Joined [LinearOrder K] (group : List (K × Line P)) (joined : K × Line P) : Prop where
  segments : joined.2.segments = (group.map (·.2.segments)).sum
  least : IsLeast { key | ∃ piece ∈ group, piece.1 = key } joined.1
  first : ∃ piece ∈ group, joined.2.first = piece.2.first ∨ joined.2.first = piece.2.last
  last : ∃ piece ∈ group, joined.2.last = piece.2.first ∨ joined.2.last = piece.2.last

theorem joined_singleton [LinearOrder K] (piece : K × Line P) : Joined [piece] piece where
  segments := by simp
  least := ⟨⟨piece, List.mem_cons_self, rfl⟩, by
    rintro key ⟨other, member, rfl⟩
    rw [List.mem_singleton.mp member]⟩
  first := ⟨piece, List.mem_cons_self, .inl rfl⟩
  last := ⟨piece, List.mem_cons_self, .inr rfl⟩

section Join

variable [DecidableEq P]

/-- Whether a piece starts or ends at an end of the line. -/
def touches (line piece : Line P) : Bool :=
  piece.first = line.last || piece.last = line.last || piece.first = line.first || piece.last = line.first

/-- The line with a piece that touches it: behind it where it can, else before it. -/
def attach (line piece : Line P) : Line P :=
  if piece.first = line.last then line.extend piece
  else if piece.last = line.last then line.extend piece.reverse
  else line.prepend (if piece.first = line.first then piece.reverse else piece)

theorem attach_spec {line piece : Line P} (meet : touches line piece = true) :
    (attach line piece).segments = line.segments + piece.segments ∧
      (((attach line piece).first = line.first ∧
          ((attach line piece).last = piece.first ∨ (attach line piece).last = piece.last)) ∨
        ((attach line piece).last = line.last ∧
          ((attach line piece).first = piece.first ∨ (attach line piece).first = piece.last))) := by
  unfold attach
  split_ifs with one two three
  · exact ⟨Line.segments_extend one, .inl ⟨by simp, .inr (by simp)⟩⟩
  · refine ⟨?_, .inl ⟨by simp, .inl (by simp)⟩⟩
    rw [Line.segments_extend (by simpa using two), Line.segments_reverse]
  · refine ⟨?_, .inr ⟨by simp, .inr (by simp)⟩⟩
    rw [Line.segments_prepend (by simpa using three), Line.segments_reverse]
  · have four : piece.last = line.first := by simpa [touches, one, two, three] using meet
    exact ⟨Line.segments_prepend four, .inr ⟨by simp, .inl (by simp)⟩⟩

def removeFirst {α : Type*} (fits : α → Bool) : List α → Option (α × List α)
  | [] => none
  | item :: rest =>
    if fits item then some (item, rest)
    else (removeFirst fits rest).map (fun found => (found.1, item :: found.2))

theorem removeFirst_eq_none {α : Type*} {fits : α → Bool} {items : List α} :
    removeFirst fits items = none ↔ ∀ item ∈ items, fits item = false := by
  induction items with
  | nil => simp [removeFirst]
  | cons item rest ih =>
    unfold removeFirst
    by_cases here : fits item = true
    · simp [here]
    · simp [here, ih]

theorem removeFirst_eq_some {α : Type*} {fits : α → Bool} {items rest : List α} {item : α}
    (found : removeFirst fits items = some (item, rest)) : fits item = true ∧ items.Perm (item :: rest) := by
  induction items generalizing rest with
  | nil => cases found
  | cons first others ih =>
    unfold removeFirst at found
    split at found
    next here =>
      obtain ⟨rfl, rfl⟩ := Prod.mk.inj (Option.some.inj found)
      exact ⟨here, .refl _⟩
    next =>
      obtain ⟨⟨item', rest'⟩, inner, same⟩ := Option.map_eq_some_iff.mp found
      obtain ⟨rfl, rfl⟩ := Prod.mk.inj same
      obtain ⟨fit, perm⟩ := ih inner
      exact ⟨fit, (perm.cons first).trans (List.Perm.swap _ _ _)⟩

variable [LinearOrder K]

/-- The inner loop: pieces are taken from `left` until the line is closed or none touches it. The source keeps its
pool reversed and takes from the end; here the end comes first. -/
def growLine (key : K) (line : Line P) (left : List (K × Line P)) : (K × Line P) × List (K × Line P) :=
  if line.first = line.last then ((key, line), left)
  else
    match found : removeFirst (fun piece => touches line piece.2) left with
    | none => ((key, line), left)
    | some (piece, rest) =>
      have : rest.length < left.length := by
        rw [(removeFirst_eq_some found).2.length_eq]
        exact Nat.lt_succ_self _
      growLine (min key piece.1) (attach line piece.2) rest
  termination_by left.length

theorem Joined.attach {group : List (K × Line P)} {key : K} {line : Line P} (joined : Joined group (key, line))
    {piece : K × Line P} (meet : touches line piece.2 = true) :
    Joined (group ++ [piece]) (min key piece.1, Map.attach line piece.2) := by
  obtain ⟨segments, ends⟩ := attach_spec meet
  have lift : ∀ {property : K × Line P → Prop}, (∃ piece ∈ group, property piece) →
      ∃ member ∈ group ++ [piece], property member := by
    rintro property ⟨member, inside, holds⟩
    exact ⟨member, List.mem_append_left _ inside, holds⟩
  have new : piece ∈ group ++ [piece] := List.mem_append_right _ List.mem_cons_self
  refine ⟨?_, ⟨?_, ?_⟩, ?_, ?_⟩
  · rw [segments, List.map_append, List.sum_append, List.map_singleton, List.sum_singleton, ← joined.segments]
  · rcases min_choice key piece.1 with old | fresh
    · rw [old]
      exact lift joined.least.1
    · rw [fresh]
      exact ⟨piece, new, rfl⟩
  · rintro bound ⟨member, inside, rfl⟩
    rcases List.mem_append.mp inside with old | fresh
    · exact (min_le_left _ _).trans (joined.least.2 ⟨member, old, rfl⟩)
    · rw [List.mem_singleton.mp fresh]
      exact min_le_right _ _
  · rcases ends with ⟨first, -⟩ | ⟨-, first⟩
    · dsimp only
      rw [first]
      exact lift joined.first
    · exact ⟨piece, new, first⟩
  · rcases ends with ⟨-, last⟩ | ⟨last, -⟩
    · exact ⟨piece, new, last⟩
    · dsimp only
      rw [last]
      exact lift joined.last

theorem growLine_spec {group : List (K × Line P)} {key : K} {line : Line P} (joined : Joined group (key, line))
    (left : List (K × Line P)) :
    (∃ taken, left.Perm (taken ++ (growLine key line left).2) ∧
        Joined (group ++ taken) (growLine key line left).1) ∧
      ((growLine key line left).1.2.first ≠ (growLine key line left).1.2.last →
        ∀ piece ∈ (growLine key line left).2, touches (growLine key line left).1.2 piece.2 = false) := by
  fun_induction growLine key line left generalizing group with
  | case1 key line left closed =>
    refine ⟨⟨[], .refl _, by simpa using joined⟩, ?_⟩
    intro isOpen
    exact absurd closed isOpen
  | case2 key line left _ none =>
    exact ⟨⟨[], .refl _, by simpa using joined⟩, fun _ => removeFirst_eq_none.mp none⟩
  | case3 key line left _ piece rest found _ ih =>
    obtain ⟨meet, perm⟩ := removeFirst_eq_some found
    obtain ⟨⟨taken, others, whole⟩, maximal⟩ := ih (joined.attach meet)
    refine ⟨⟨piece :: taken, perm.trans (others.cons piece), ?_⟩, maximal⟩
    rw [List.append_assoc] at whole
    exact whole

theorem length_growLine_le (key : K) (line : Line P) (left : List (K × Line P)) :
    (growLine key line left).2.length ≤ left.length := by
  obtain ⟨taken, perm, -⟩ := (growLine_spec (joined_singleton (key, line)) left).1
  have length := perm.length_eq
  rw [List.length_append] at length
  omega

/-- The outer loop over pieces of at least two points. -/
def joinLines : List (K × Line P) → List (K × Line P)
  | [] => []
  | (key, line) :: left =>
    have : (growLine key line left).2.length < left.length + 1 := Nat.lt_succ_of_le (length_growLine_le key line left)
    (growLine key line left).1 :: joinLines (growLine key line left).2
  termination_by pieces => pieces.length

def joinPieces (pieces : List (K × List P)) : List (K × List P) :=
  (joinLines (longPieces pieces)).map (fun joined => (joined.1, joined.2.points))

theorem joinLines_spec (pieces : List (K × Line P)) :
    (∃ groups : List (List (K × Line P)), groups.flatten.Perm pieces ∧
        List.Forall₂ Joined groups (joinLines pieces)) ∧
      (joinLines pieces).Pairwise (fun one two => Apart one.2.points two.2.points) := by
  fun_induction joinLines pieces with
  | case1 => exact ⟨⟨[], .refl _, .nil⟩, .nil⟩
  | case2 key line left _ ih =>
    obtain ⟨⟨groups, perm, lines⟩, apart⟩ := ih
    obtain ⟨⟨taken, split, whole⟩, maximal⟩ := growLine_spec (joined_singleton (key, line)) left
    refine ⟨⟨([(key, line)] ++ taken) :: groups, ?_, .cons whole lines⟩, List.pairwise_cons.mpr ⟨?_, apart⟩⟩
    · rw [List.flatten_cons, List.append_assoc, List.singleton_append]
      exact ((perm.append_left taken).trans split.symm).cons _
    · intro later member
      apply apart_of_ends
      intro isOpen point atEnd
      -- the ends of a later line are ends of pieces that were left over
      obtain ⟨group, inside, made⟩ : ∃ group ∈ groups, Joined group later := by
        obtain ⟨place, below, rfl⟩ := List.mem_iff_getElem.mp member
        have lengths := lines.length_eq
        exact ⟨groups[place], List.getElem_mem _, lines.get (by omega) below⟩
      have leftOver : ∀ piece ∈ group, touches (growLine key line left).1.2 piece.2 = false := by
        intro piece here
        exact maximal isOpen piece (perm.mem_iff.mp (List.mem_flatten.mpr ⟨group, inside, here⟩))
      have pieceEnd : ∃ piece ∈ group, point = piece.2.first ∨ point = piece.2.last := by
        rcases atEnd with rfl | rfl
        · exact made.first
        · exact made.last
      obtain ⟨piece, here, same⟩ := pieceEnd
      have free := leftOver piece here
      simp only [touches, Bool.or_eq_false_iff, decide_eq_false_iff_not] at free
      rcases same with rfl | rfl
      · exact ⟨free.1.2, free.1.1.1⟩
      · exact ⟨free.2, free.1.1.2⟩

/-- Joining sorts the pieces of at least two points into groups, one for each line returned: the line has the
segments of its group and the least of its keys. So no segment is lost or made, and no two open lines could still
be joined. -/
theorem joinPieces_spec (pieces : List (K × List P)) :
    (∃ groups : List (List (K × List P)),
        groups.flatten.Perm (pieces.filter (fun piece => 2 ≤ piece.2.length)) ∧
        List.Forall₂ (fun group joined =>
          segments joined.2 = (group.map (fun piece => segments piece.2)).sum ∧
            IsLeast { key | ∃ piece ∈ group, piece.1 = key } joined.1) groups (joinPieces pieces)) ∧
      ((joinPieces pieces).map (fun joined => segments joined.2)).sum =
        ((pieces.filter (fun piece => 2 ≤ piece.2.length)).map (fun piece => segments piece.2)).sum ∧
      (joinPieces pieces).Pairwise (fun one two => Apart one.2 two.2) := by
  obtain ⟨⟨groups, perm, lines⟩, apart⟩ := joinLines_spec (longPieces pieces)
  let plain : K × Line P → K × List P := fun piece => (piece.1, piece.2.points)
  have kept : (longPieces pieces).map plain = pieces.filter (fun piece => 2 ≤ piece.2.length) := by
    rw [map_longPieces Prod.mk, List.map_id']
  have flat : (groups.map (List.map plain)).flatten.Perm (pieces.filter (fun piece => 2 ≤ piece.2.length)) := by
    rw [← List.map_flatten, ← kept]
    exact perm.map plain
  have joined : List.Forall₂ (fun group joined =>
      segments joined.2 = (group.map (fun piece => segments piece.2)).sum ∧
        IsLeast { key | ∃ piece ∈ group, piece.1 = key } joined.1) (groups.map (List.map plain)) (joinPieces pieces) := by
    unfold joinPieces
    rw [List.forall₂_map_left_iff, List.forall₂_map_right_iff]
    refine lines.imp ?_
    intro group line made
    refine ⟨?_, ?_⟩
    · rw [List.map_map]
      exact made.segments
    · have keys : { key | ∃ piece ∈ group.map plain, piece.1 = key } = { key | ∃ piece ∈ group, piece.1 = key } := by
        ext key
        simp [plain]
      rw [keys]
      exact made.least
  refine ⟨⟨_, flat, joined⟩, ?_, ?_⟩
  · rw [sum_segments_of_forall₂ (joined.imp fun _ _ made => made.1)]
    exact (flat.map _).sum_eq
  · unfold joinPieces
    rw [List.pairwise_map]
    exact apart

end Join

end Leviculum.Map
