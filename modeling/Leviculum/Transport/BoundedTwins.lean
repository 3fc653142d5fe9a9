import Leviculum.Transport.BoundedBoard
import Leviculum.Transport.BoundedHost
import Leviculum.Transport.BoundedTables
import Mathlib.Data.List.Induction

/-! The board's map as a vector of entries: new ones go to the end, and a removal moves the last entry
into the hole. -/

namespace Leviculum.BoundedTables

variable {K V : Type} [DecidableEq K] {key : K} {last : K × V} {entries : List (K × V)}

def swapIn (key : K) (last : K × V) : List (K × V) → List (K × V)
  | [] => []
  | e :: rest => if e.1 = key then last :: rest else e :: swapIn key last rest

def swapRemove (key : K) (entries : List (K × V)) : List (K × V) :=
  match entries.getLast? with
  | none => []
  | some last => if last.1 = key then entries.dropLast
    else if entries.any (fun e => e.1 = key) then swapIn key last entries.dropLast else entries

def overwrite (key : K) (value : V) (entries : List (K × V)) : List (K × V) :=
  entries.map (fun e => if e.1 = key then (key, value) else e)

theorem filter_key_of_absent (absent : key ∉ entries.map Prod.fst) : entries.filter (fun e => e.1 ≠ key) = entries := by
  apply List.filter_eq_self.mpr
  intro e member
  have apart : e.1 ≠ key := fun same => absent (same ▸ List.mem_map_of_mem member)
  simpa using apart

theorem swapIn_perm (distinct : (entries.map Prod.fst).Nodup) (listed : key ∈ entries.map Prod.fst) :
    (swapIn key last entries).Perm (last :: entries.filter (fun e => e.1 ≠ key)) := by
  induction entries with
  | nil => cases listed
  | cons e rest ih =>
    rw [List.map_cons, List.nodup_cons] at distinct
    unfold swapIn
    split
    next here =>
      subst here
      rw [List.filter_cons_of_neg (by simp), filter_key_of_absent distinct.1]
    next there =>
      rw [List.map_cons, List.mem_cons] at listed
      rw [List.filter_cons_of_pos (by simpa using there)]
      exact ((ih distinct.2 (listed.resolve_left (Ne.symm there))).cons e).trans (List.Perm.swap _ _ _)

theorem swapRemove_perm (distinct : (entries.map Prod.fst).Nodup) :
    (swapRemove key entries).Perm (entries.filter (fun e => e.1 ≠ key)) := by
  rcases List.eq_nil_or_concat entries with rfl | ⟨init, last, rfl⟩
  · exact .nil
  · simp only [List.concat_eq_append] at *
    rw [List.map_append, List.map_singleton, List.nodup_append'] at distinct
    simp only [swapRemove, List.getLast?_concat, List.dropLast_concat, List.filter_append]
    split
    next here =>
      subst here
      have absent : last.1 ∉ init.map Prod.fst := fun listed => distinct.2.2 listed (List.mem_singleton_self _)
      rw [filter_key_of_absent absent, List.filter_cons_of_neg (by simp), List.filter_nil, List.append_nil]
    next there =>
      rw [List.filter_cons_of_pos (by simpa using there), List.filter_nil]
      have listed : (init ++ [last]).any (fun e => e.1 = key) = true ↔ key ∈ init.map Prod.fst := by
        simp [there]
      split
      next any => exact (swapIn_perm distinct.1 (listed.mp any)).trans (List.perm_append_singleton _ _).symm
      next none => rw [filter_key_of_absent (fun inside => none (listed.mpr inside))]

theorem keys_overwrite (value : V) : (overwrite key value entries).map Prod.fst = entries.map Prod.fst := by
  rw [overwrite, List.map_map]
  apply List.map_congr_left
  intro e _
  by_cases here : e.1 = key <;> simp [here]

theorem overwrite_perm (distinct : (entries.map Prod.fst).Nodup) (listed : key ∈ entries.map Prod.fst) (value : V) :
    (overwrite key value entries).Perm ((key, value) :: entries.filter (fun e => e.1 ≠ key)) := by
  induction entries with
  | nil => cases listed
  | cons e rest ih =>
    rw [List.map_cons, List.nodup_cons] at distinct
    by_cases here : e.1 = key
    · subst here
      have others : overwrite e.1 value rest = rest := by
        refine (List.map_congr_left ?_).trans (List.map_id _)
        intro other member
        have apart : other.1 ≠ e.1 := fun same => distinct.1 (same ▸ List.mem_map_of_mem member)
        exact if_neg apart
      rw [List.filter_cons_of_neg (by simp), filter_key_of_absent distinct.1, overwrite, List.map_cons, if_pos rfl]
      exact .of_eq (congrArg _ others)
    · rw [List.map_cons, List.mem_cons] at listed
      rw [List.filter_cons_of_pos (by simpa using here), overwrite, List.map_cons, if_neg here]
      exact ((ih distinct.2 (listed.resolve_left (Ne.symm here))).cons e).trans (List.Perm.swap _ _ _)

/-- The map of capacity `N`. -/
def indexMap (K V : Type) [DecidableEq K] (N : Nat) : IndexMap K V where
  Carrier := { entries : List (K × V) // (entries.map Prod.fst).Nodup }
  entries := Subtype.val
  empty := ⟨[], List.nodup_nil⟩
  insert := fun m key value =>
    if fresh : key ∉ m.val.map Prod.fst ∧ m.val.length < N then
      ⟨m.val ++ [(key, value)], by
        rw [List.map_append, List.map_singleton, List.nodup_append']
        exact ⟨m.2, List.nodup_singleton _, by simpa using fresh.1⟩⟩
    else m
  set := fun m key value =>
    ⟨overwrite key value m.val, by
      rw [keys_overwrite]
      exact m.2⟩
  remove := fun m key =>
    ⟨swapRemove key m.val, by
      rw [((swapRemove_perm m.2).map Prod.fst).nodup_iff]
      exact m.2.sublist (List.filter_sublist.map _)⟩
  retain := fun m keep =>
    ⟨m.val.filter (fun e => keep e.1 e.2), m.2.sublist (List.filter_sublist.map _)⟩

theorem indexMap_correct (K V : Type) [DecidableEq K] (N : Nat) : (indexMap K V N).Correct N where
  nodup := fun m => m.2
  empty := rfl
  insert := by
    intro m key value absent space
    have fresh : key ∉ m.val.map Prod.fst ∧ m.val.length < N := ⟨absent, space⟩
    have appended : (indexMap K V N).entries ((indexMap K V N).insert m key value) = m.val ++ [(key, value)] :=
      congrArg Subtype.val (dif_pos fresh)
    rw [appended]
    exact List.perm_append_singleton _ _
  set := fun m key value listed => overwrite_perm m.2 listed value
  remove := fun m key => swapRemove_perm m.2
  retain := fun m keep => .refl _

end Leviculum.BoundedTables

/-! Runs of the two tables side by side. Both hold what one list holds, to whose back every insertion
moves or appends its key. -/

namespace Leviculum.BoundedTables

variable {K V : Type}

/-- What both tables offer. A lookup changes nothing, so it is no step of its own. -/
inductive Op (K V : Type) where
  | insert (key : K) (value : V)
  | remove (key : K)
  | modify (key : K) (change : V → V)
  | retain (keep : K → V → Bool)

/-- What only the host offers besides. -/
inductive Call (K V : Type) where
  | shared (op : Op K V)
  | insertPreferring (key : K) (value : V) (prefer : K → V → Bool)
  | insertIfAbsent (key : K) (value : V)
  | drainRejected (keep : K → V → Bool)
  | clear

section Lists

variable [DecidableEq K]

/-- The list's insertion under a preference, with the entry that makes room. -/
def preferBack (N : Nat) (key : K) (value : V) (prefer : K → V → Bool) (list : List (K × V)) :
    Option (K × V) × List (K × V) :=
  let leaving := if list.any (fun e => e.1 = key) then none
    else if N ≤ list.length then ((list.take 64).find? (fun e => prefer e.1 e.2)).or list.head?
    else none
  (leaving, list.filter (fun e => e.1 ≠ key ∧ ∀ out ∈ leaving, e.1 ≠ out.1) ++ [(key, value)])

def Op.list (N : Nat) (list : List (K × V)) : Op K V → List (K × V)
  | .insert key value => Fifo.pushBack N key value list
  | .remove key => list.filter (fun e => e.1 ≠ key)
  | .modify key change => list.map (fun e => if e.1 = key then (e.1, change e.2) else e)
  | .retain keep => list.filter (fun e => keep e.1 e.2)

def Call.list (N : Nat) (list : List (K × V)) : Call K V → List (K × V)
  | .shared op => op.list N list
  | .insertPreferring key value prefer => (preferBack N key value prefer list).2
  | .insertIfAbsent key value => if list.any (fun e => e.1 = key) then list else Fifo.pushBack N key value list
  | .drainRejected keep => list.filter (fun e => keep e.1 e.2)
  | .clear => []

def Op.fifo (N : Nat) (f : Fifo K V) : Op K V → Fifo K V
  | .insert key value => f.insert N key value
  | .remove key => f.erase key
  | .modify key change => f.modify key change
  | .retain keep => f.keep (fun e => keep e.key e.value)

def Call.fifo (N : Nat) (f : Fifo K V) : Call K V → Fifo K V
  | .shared op => op.fifo N f
  | .insertPreferring key value prefer => f.insertPreferring N key value prefer
  | .insertIfAbsent key value => if f.holds key then f else f.insert N key value
  | .drainRejected keep => f.keep (fun e => keep e.key e.value)
  | .clear => f.keep (fun _ => false)

def Op.board {H : IndexMap K (UInt32 × V)} (N : Nat) (m : OrderedMap H) : Op K V → OrderedMap H
  | .insert key value => m.insert N key value
  | .remove key => m.remove key
  | .modify key change => m.modify key change
  | .retain keep => m.retain keep

end Lists

def Op.host [LinearOrder K] (m : BoundedMap K V) : Op K V → BoundedMap K V
  | .insert key value => (m.insert key value).2
  | .remove key => m.remove key
  | .modify key change => m.modify key change
  | .retain keep => m.retain keep

def Call.host [LinearOrder K] (m : BoundedMap K V) : Call K V → BoundedMap K V
  | .shared op => op.host m
  | .insertPreferring key value prefer => (m.insertPreferring key value prefer).2
  | .insertIfAbsent key value => m.insertIfAbsent key value
  | .drainRejected keep => (m.drainRejected keep).2
  | .clear => m.clear

/-- The host's entries in the order of its index. -/
def BoundedMap.oldestFirst [LinearOrder K] (m : BoundedMap K V) : List (K × V) :=
  m.order.values.filterMap (fun key => (m.get key).map (fun value => (key, value)))

namespace Fifo

variable [DecidableEq K] {f : Fifo K V} {key : K} {value : V} {N : Nat}

theorem holds_contents : f.contents.any (fun e => e.1 = key) = f.holds key := by
  simp only [contents, holds, List.any_map]
  rfl

theorem leaving_contents (prefer : K → V → Bool) :
    (f.leaving N key prefer).map Entry.pair = (preferBack N key value prefer f.contents).1 := by
  have found : ∀ entries : List (Entry K V), (entries.find? (fun e => prefer e.key e.value)).map Entry.pair =
      (entries.map Entry.pair).find? (fun e => prefer e.1 e.2) := by
    intro entries
    rw [List.find?_map]
    rfl
  unfold leaving preferBack
  simp only [holds_contents]
  split
  · rfl
  · have long : f.contents.length = f.entries.length := List.length_map _
    rw [long]
    split
    · rw [victim, Option.map_or, found, List.map_take, contents, List.head?_map]
    · rfl

theorem contents_insertPreferring (prefer : K → V → Bool) :
    (f.insertPreferring N key value prefer).contents = (preferBack N key value prefer f.contents).2 := by
  have leaves : (f.leaving N key prefer).map Entry.pair = (preferBack N key value prefer f.contents).1 :=
    leaving_contents prefer
  unfold preferBack at leaves ⊢
  simp only at leaves
  simp only [← leaves]
  rw [insertPreferring, contents_push]
  cases f.leaving N key prefer with
  | none => simp [without]
  | some out => simp [without, contents_erase, List.filter_filter, Entry.pair]

theorem contents_modify (change : V → V) :
    (f.modify key change).contents = f.contents.map (fun e => if e.1 = key then (e.1, change e.2) else e) := by
  simp only [contents, modify, List.map_map]
  apply List.map_congr_left
  intro e _
  by_cases here : e.key = key <;> simp [changed, Entry.pair, here]

theorem contents_op (room : 0 < N) (fits : f.entries.length ≤ N) (op : Op K V) :
    (op.fifo N f).contents = op.list N f.contents ∧ (op.fifo N f).entries.length ≤ N := by
  cases op with
  | insert key value => exact ⟨contents_insert room fits, length_insertPreferring_le room fits⟩
  | remove key => exact ⟨contents_erase f key, (List.length_filter_le _ _).trans fits⟩
  | modify key change => exact ⟨contents_modify change, (List.length_map _).trans_le fits⟩
  | retain keep => exact ⟨contents_keep f (fun e => keep e.1 e.2), (List.length_filter_le _ _).trans fits⟩

theorem contents_call (room : 0 < N) (fits : f.entries.length ≤ N) (call : Call K V) :
    (call.fifo N f).contents = call.list N f.contents ∧ (call.fifo N f).entries.length ≤ N := by
  cases call with
  | shared op => exact contents_op room fits op
  | insertPreferring key value prefer => exact ⟨contents_insertPreferring prefer, length_insertPreferring_le room fits⟩
  | insertIfAbsent key value =>
    simp only [Call.fifo, Call.list, holds_contents]
    split
    · exact ⟨rfl, fits⟩
    · exact ⟨contents_insert room fits, length_insertPreferring_le room fits⟩
  | drainRejected keep => exact contents_op room fits (.retain keep)
  | clear => exact ⟨(contents_keep f (fun _ => false)).trans (by simp [Call.list]), (List.length_filter_le _ _).trans fits⟩

theorem contents_calls (room : 0 < N) (calls : List (Call K V)) :
    (calls.foldl (Call.fifo N) Fifo.empty).contents = calls.foldl (Call.list N) [] ∧
      (calls.foldl (Call.fifo N) Fifo.empty).entries.length ≤ N := by
  induction calls using List.reverseRecOn with
  | nil => exact ⟨rfl, Nat.zero_le _⟩
  | append_singleton before call ih =>
    simp only [List.foldl_append, List.foldl_cons, List.foldl_nil, ← ih.1]
    exact contents_call room ih.2 call

theorem contents_ops (room : 0 < N) (ops : List (Op K V)) :
    (ops.foldl (Op.fifo N) Fifo.empty).contents = ops.foldl (Op.list N) [] := by
  have run := (contents_calls room (ops.map Call.shared)).1
  rw [List.foldl_map, List.foldl_map] at run
  exact run

end Fifo

section Runs

variable [LinearOrder K] {N : Nat}

namespace BoundedMap

variable {m : BoundedMap K V} {f : Fifo K V}

theorem capacity_insertPreferring (key : K) (value : V) (prefer : K → V → Bool) :
    (m.insertPreferring key value prefer).2.capacity = m.capacity := by
  simp only [insertPreferring]
  split
  · rfl
  · split
    · simp only [evict]
      split <;> rfl
    · rfl

theorem linked_op (linked : m.Linked f) (op : Op K V) :
    (op.host m).Linked (op.fifo m.capacity f) ∧ (op.host m).capacity = m.capacity := by
  cases op with
  | insert key value => exact ⟨(linked_insertPreferring linked key value _).2, capacity_insertPreferring key value _⟩
  | remove key =>
    refine ⟨linked_remove linked key, ?_⟩
    simp only [Op.host, remove]
    split <;> rfl
  | modify key change =>
    refine ⟨linked_modify linked key change, ?_⟩
    simp only [Op.host, modify]
    split <;> rfl
  | retain keep => exact ⟨linked_retain linked keep, rfl⟩

theorem linked_call (linked : m.Linked f) (call : Call K V) :
    (call.host m).Linked (call.fifo m.capacity f) ∧ (call.host m).capacity = m.capacity := by
  cases call with
  | shared op => exact linked_op linked op
  | insertPreferring key value prefer =>
    exact ⟨(linked_insertPreferring linked key value prefer).2, capacity_insertPreferring key value prefer⟩
  | insertIfAbsent key value =>
    have known : m.map.contains key = f.holds key := by
      rw [Bool.eq_iff_iff, ← not_iff_not, ← linked.get?_eq_none, Bool.not_eq_true, OrdMap.contains_eq_false]
    simp only [Call.host, Call.fifo, insertIfAbsent, known]
    split
    · exact ⟨linked, rfl⟩
    · exact linked_op linked (.insert key value)
  | drainRejected keep => exact linked_op linked (.retain keep)
  | clear => exact ⟨linked_clear linked, rfl⟩

theorem linked_calls (room : 0 < N) (calls : List (Call K V)) :
    (calls.foldl Call.host (new N)).Linked (calls.foldl (Call.fifo N) Fifo.empty) ∧
      (calls.foldl Call.host (new N : BoundedMap K V)).capacity = N := by
  induction calls using List.reverseRecOn with
  | nil => exact ⟨linked_new N, Nat.max_eq_left room⟩
  | append_singleton before call ih =>
    simp only [List.foldl_append, List.foldl_cons, List.foldl_nil]
    obtain ⟨linked, same⟩ := linked_call ih.1 call
    rw [ih.2] at linked same
    exact ⟨linked, same⟩

theorem linked_ops (room : 0 < N) (ops : List (Op K V)) :
    (ops.foldl Op.host (new N)).Linked (ops.foldl (Op.fifo N) Fifo.empty) ∧
      (ops.foldl Op.host (new N : BoundedMap K V)).capacity = N := by
  have run := linked_calls room (ops.map Call.shared)
  rw [List.foldl_map, List.foldl_map] at run
  exact run

theorem Linked.oldestFirst_eq (linked : m.Linked f) : m.oldestFirst = f.contents := by
  have each : ∀ entries : List (Entry K V), (∀ e ∈ entries, e ∈ f.entries) →
      (entries.map (·.key)).filterMap (fun key => (m.get key).map (fun value => (key, value))) = entries.map Entry.pair := by
    intro entries inside
    induction entries with
    | nil => rfl
    | cons e rest ih =>
      obtain ⟨here, later⟩ := List.forall_mem_cons.mp inside
      have held : m.get e.key = some e.value := by rw [get, linked.slot_of_mem here, Option.map_some]
      rw [List.map_cons, List.filterMap_cons_some (by rw [held]; rfl), ih later]
      rfl
  have keys : m.order.values = f.entries.map (·.key) := by
    rw [OrdMap.values, linked.order_entries, List.map_map]
    rfl
  rw [oldestFirst, keys, each f.entries (fun _ inside => inside)]
  rfl

theorem Linked.get_eq_some (linked : m.Linked f) {key : K} {value : V} :
    m.get key = some value ↔ (key, value) ∈ f.contents := by
  rw [get, Option.map_eq_some_iff, Fifo.contents, List.mem_map]
  constructor
  · rintro ⟨slot, found, rfl⟩
    exact ⟨_, (linked.slots key slot).mp found, rfl⟩
  · rintro ⟨e, member, same⟩
    obtain ⟨rfl, rfl⟩ := Prod.mk.inj same
    exact ⟨_, linked.slot_of_mem member, rfl⟩

end BoundedMap

namespace OrderedMap

variable {H : IndexMap K (UInt32 × V)} {m : OrderedMap H} {f : Fifo K V}

theorem Stamped.get_eq_some (stamped : m.Stamped f) {key : K} {value : V} :
    m.get key = some value ↔ (key, value) ∈ f.contents := by
  rw [get, Option.map_eq_some_iff, Fifo.contents, List.mem_map]
  constructor
  · rintro ⟨⟨seq, held⟩, found, rfl⟩
    obtain ⟨e, member, same⟩ := stamped.slot_eq_some.mp found
    exact ⟨e, member, by rw [Prod.mk.injEq, Prod.mk.injEq] at same; exact Prod.ext same.1 same.2.2⟩
  · rintro ⟨e, member, same⟩
    obtain ⟨rfl, rfl⟩ := Prod.mk.inj same
    exact ⟨_, stamped.slot_eq_some.mpr ⟨e, member, rfl⟩, rfl⟩

/-- Before each insertion of a run no live entry is a full turn old. -/
def YoungRun (N : Nat) (ops : List (Op K V)) : Prop :=
  ∀ before key value rest, ops = before ++ .insert key value :: rest → (before.foldl (Op.fifo N) Fifo.empty).Young

theorem stamped_ops (correct : H.Correct N) (room : 0 < N) (ops : List (Op K V)) (young : YoungRun N ops) :
    (ops.foldl (Op.board N) (new H)).Stamped (ops.foldl (Op.fifo N) Fifo.empty) ∧
      (ops.foldl (Op.fifo N) Fifo.empty).entries.length ≤ N := by
  induction ops using List.reverseRecOn with
  | nil => exact ⟨stamped_new correct, Nat.zero_le _⟩
  | append_singleton before op ih =>
    have earlier : YoungRun N before := by
      intro first key value rest shape
      exact young first key value (rest ++ [op]) (by rw [shape, List.append_assoc, List.cons_append])
    obtain ⟨stamped, fits⟩ := ih earlier
    simp only [List.foldl_append, List.foldl_cons, List.foldl_nil]
    refine ⟨?_, (Fifo.contents_op room fits op).2⟩
    cases op with
    | insert key value => exact stamped_insert correct room stamped (young before key value [] rfl) fits key value
    | remove key => exact stamped_remove correct stamped key
    | modify key change => exact stamped_modify correct stamped key change
    | retain keep => exact stamped_retain correct stamped keep

theorem inserts_le_length (N : Nat) (ops : List (Op K V)) : (ops.foldl (Op.fifo N) Fifo.empty).inserts ≤ ops.length := by
  induction ops using List.reverseRecOn with
  | nil => exact Nat.le_refl 0
  | append_singleton before op ih =>
    simp only [List.foldl_append, List.foldl_cons, List.foldl_nil, List.length_append, List.length_singleton]
    cases op with
    | insert key value =>
      have counted : ((before.foldl (Op.fifo N) Fifo.empty).insert N key value).inserts =
          (before.foldl (Op.fifo N) Fifo.empty).inserts + 1 := by
        rw [Fifo.insert, Fifo.insertPreferring]
        cases (before.foldl (Op.fifo N) Fifo.empty).leaving N key (fun _ _ => false) <;> rfl
      exact counted.trans_le (Nat.succ_le_succ ih)
    | remove key => exact ih.trans (Nat.le_succ _)
    | modify key change => exact ih.trans (Nat.le_succ _)
    | retain keep => exact ih.trans (Nat.le_succ _)

theorem inserts_lt_of_insert {N : Nat} {ops before rest : List (Op K V)} {key : K} {value : V}
    (shape : ops = before ++ .insert key value :: rest) : (before.foldl (Op.fifo N) Fifo.empty).inserts < ops.length := by
  refine (inserts_le_length N before).trans_lt ?_
  rw [shape, List.length_append, List.length_cons]
  omega

theorem youngRun_of_length {ops : List (Op K V)} (short : ops.length < 2 ^ 32) : YoungRun N ops := by
  intro before key value rest shape e _
  have counted := inserts_lt_of_insert (N := N) shape
  omega

end OrderedMap

/-- The two tables hold the entries of one list after every run they share, whatever order the board's map
iterates in, and the host's index stays a bijection under everything it offers. -/
theorem tables_are_one_fifo (H : IndexMap K (UInt32 × V)) (N : Nat) (correct : H.Correct N) (room : 0 < N) :
    (∀ ops : List (Op K V), OrderedMap.YoungRun N ops →
      let list := ops.foldl (Op.list N) []
      let host : BoundedMap K V := ops.foldl Op.host (BoundedMap.new N)
      let board := ops.foldl (Op.board N) (OrderedMap.new H)
      (host.map.entries.map (fun entry => (entry.1, entry.2.value))).Perm list ∧
      ((H.entries board.map).map (fun entry => (entry.1, entry.2.2))).Perm list ∧
      (∀ key value, host.get key = some value ↔ (key, value) ∈ list) ∧
      (∀ key, board.get key = host.get key)) ∧
    (∀ calls : List (Call K V),
      let host : BoundedMap K V := calls.foldl Call.host (BoundedMap.new N)
      (∀ key seq, (∃ slot, host.map.get? key = some slot ∧ slot.seq = seq) ↔ host.order.get? seq = some key) ∧
      host.oldestFirst = calls.foldl (Call.list N) [] ∧
      ∀ key value prefer, (host.insertPreferring key value prefer).1 = (preferBack N key value prefer host.oldestFirst).1 ∧
        (host.insertPreferring key value prefer).2.oldestFirst = (preferBack N key value prefer host.oldestFirst).2) := by
  constructor
  · intro ops young list host board
    obtain ⟨linked, -⟩ := BoundedMap.linked_ops room ops
    have contents := Fifo.contents_ops room ops
    obtain ⟨stamped, -⟩ := OrderedMap.stamped_ops correct room ops young
    change host.Linked (ops.foldl (Op.fifo N) Fifo.empty) at linked
    change (ops.foldl (Op.fifo N) Fifo.empty).contents = list at contents
    change board.Stamped (ops.foldl (Op.fifo N) Fifo.empty) at stamped
    rw [← contents]
    refine ⟨?_, ?_, fun key value => linked.get_eq_some, ?_⟩
    · have perm := linked.map_entries.map Entry.pair
      rw [List.map_map] at perm
      exact perm
    · have perm := stamped.entries.map (fun entry => (entry.1, entry.2.2))
      rw [List.map_map] at perm
      exact perm
    · intro key
      apply Option.ext
      intro value
      rw [stamped.get_eq_some, linked.get_eq_some]
  · intro calls host
    obtain ⟨linked, capacity⟩ := BoundedMap.linked_calls room calls
    change host.Linked (calls.foldl (Call.fifo N) Fifo.empty) at linked
    change host.capacity = N at capacity
    have contents := (Fifo.contents_calls room calls).1
    refine ⟨?_, by rw [linked.oldestFirst_eq, contents], ?_⟩
    · intro key seq
      rw [linked.index]
      constructor
      · rintro ⟨slot, found, rfl⟩
        exact ⟨_, (linked.slots key slot).mp found⟩
      · rintro ⟨value, member⟩
        exact ⟨_, linked.slot_of_mem member, rfl⟩
    · intro key value prefer
      obtain ⟨left, after⟩ := BoundedMap.linked_insertPreferring linked key value prefer
      rw [capacity] at left after
      rw [left, after.oldestFirst_eq, linked.oldestFirst_eq, Fifo.leaving_contents, Fifo.contents_insertPreferring]
      exact ⟨rfl, rfl⟩

end Runs

/-- A run that fills two places, refreshes one and evicts the other. -/
theorem tables_are_one_fifo_refreshed :
    let ops : List (Op Nat Nat) := [.insert 1 10, .insert 2 20, .insert 1 11, .insert 3 30]
    let host : BoundedMap Nat Nat := ops.foldl Op.host (BoundedMap.new 2)
    let board := ops.foldl (Op.board 2) (OrderedMap.new (indexMap Nat (UInt32 × Nat) 2))
    OrderedMap.YoungRun 2 ops ∧ host.get 2 = none ∧ board.get 2 = host.get 2 ∧ board.get 1 = some 11 := by
  have young : OrderedMap.YoungRun 2 ([.insert 1 10, .insert 2 20, .insert 1 11, .insert 3 30] : List (Op Nat Nat)) := by
    exact OrderedMap.youngRun_of_length (by decide)
  exact ⟨young, rfl, ((tables_are_one_fifo (indexMap Nat (UInt32 × Nat) 2) 2 (indexMap_correct _ _ 2)
    Nat.two_pos).1 _ young).2.2.2 2, by decide⟩

/-! ### A full turn of the counter -/

/-- Two entries, the second refreshed `n` times. -/
def refreshed (n : Nat) : List (Op Nat Nat) := .insert 0 0 :: List.replicate (n + 1) (.insert 1 1)

theorem fifo_refreshed (n : Nat) :
    ((refreshed n).foldl (Op.fifo 2) Fifo.empty).entries = [⟨0, 0, 0⟩, ⟨n + 1, 1, 1⟩] ∧
      ((refreshed n).foldl (Op.fifo 2) Fifo.empty).inserts = n + 2 := by
  induction n with
  | zero => exact ⟨rfl, rfl⟩
  | succ n ih =>
    have longer : refreshed (n + 1) = refreshed n ++ [.insert 1 1] := by
      rw [refreshed, List.replicate_succ', ← List.cons_append]
      rfl
    rw [longer, List.foldl_append]
    generalize (refreshed n).foldl (Op.fifo 2) Fifo.empty = f at ih
    have held : f.holds 1 = true := by simp [Fifo.holds, ih.1]
    have stays : f.leaving 2 1 (fun _ _ => false) = none := if_pos held
    simp only [List.foldl_cons, List.foldl_nil, Op.fifo, Fifo.insert, Fifo.insertPreferring, stays, Fifo.without]
    simp [Fifo.push, Fifo.erase, Fifo.keep, ih.1, ih.2]

theorem stamped_full_turn {H : IndexMap Nat (UInt32 × Nat)} (correct : H.Correct 2) {m : OrderedMap H} {f : Fifo Nat Nat}
    (stamped : m.Stamped f) (entries : f.entries = [⟨0, 0, 0⟩, ⟨2 ^ 32 - 2, 1, 1⟩]) (inserts : f.inserts = 2 ^ 32 - 1) :
    (m.insert 2 2 2).Stamped ((f.erase 1).push 2 2) := by
  have missing : m.slot 2 = none := stamped.slot_eq_none.mpr (by simp [Fifo.holds, entries])
  have next : m.nextSeq + 1 = 0 := by
    rw [stamped.next, inserts]
    rfl
  have listed : ∀ item, item ∈ H.entries m.map ↔ item = (0, 0, 0) ∨ item = (1, UInt32.ofNat (2 ^ 32 - 2), 1) := by
    intro item
    rw [stamped.entries.mem_iff, entries]
    simp [Entry.stamped]
  have oldest : (⟨m.map, m.nextSeq + 1⟩ : OrderedMap H).oldestKey = some 1 := by
    rw [next]
    have best : Select.maxBy (fun a b => decide (((0 : UInt32) - b.2.1).toNat < ((0 : UInt32) - a.2.1).toNat)) (H.entries m.map) =
        some (1, UInt32.ofNat (2 ^ 32 - 2), 1) := by
      apply Select.maxBy_eq_of_greatest
      · exact (listed _).mpr (.inr rfl)
      · intro item inside apart
        obtain rfl := ((listed item).mp inside).resolve_right apart
        decide
      · intro item inside apart
        obtain rfl := ((listed item).mp inside).resolve_right apart
        decide
    exact congrArg (Option.map Prod.fst) best
  have full : 2 ≤ (H.entries m.map).length := by rw [stamped.length_eq, entries]; exact Nat.le_refl 2
  have step : m.insert 2 2 2 = ⟨H.insert (H.remove m.map 1) 2 (m.nextSeq, 2), m.nextSeq + 1⟩ := by
    have bumped : ({ m with nextSeq := m.nextSeq + 1 } : OrderedMap H).slot 2 = m.slot 2 := rfl
    simp only [OrderedMap.insert, bumped, missing, if_pos full, oldest]
  rw [step]
  refine OrderedMap.stamped_push correct (OrderedMap.stamped_remove correct stamped 1) ?_ ?_ 2
  · simp [Fifo.mem_erase, entries]
  · simp [Fifo.erase, Fifo.keep, entries]

theorem host_refreshed_gone (n : Nat) :
    ((refreshed n ++ [Op.insert 2 2]).foldl Op.host (BoundedMap.new 2 : BoundedMap Nat Nat)).get 0 = none := by
  obtain ⟨linked, capacity⟩ := BoundedMap.linked_ops Nat.two_pos (refreshed n)
  obtain ⟨entries, -⟩ := fifo_refreshed n
  have inserted := (BoundedMap.linked_op linked (.insert 2 2)).1
  have list : (((refreshed n).foldl (Op.fifo 2) Fifo.empty).insert 2 2 2).contents = [(1, 1), (2, 2)] := by
    rw [Fifo.contents_insert Nat.two_pos (by rw [entries]; exact Nat.le_refl 2), Fifo.contents, entries]
    rfl
  rw [List.foldl_append, Option.eq_none_iff_forall_ne_some]
  intro value found
  have member := inserted.get_eq_some.mp found
  rw [capacity] at member
  have short : (0, value) ∈ [(1, 1), (2, 2)] := list ▸ member
  simp at short

/-- An entry exactly a full turn old still counts as not older than that, and the two tables part. -/
theorem tables_part_at_full_turn :
    ¬ ∀ ops : List (Op Nat Nat),
      (∀ before key value rest, ops = before ++ .insert key value :: rest →
        ∀ e ∈ (before.foldl (Op.fifo 2) Fifo.empty).entries,
          (before.foldl (Op.fifo 2) Fifo.empty).inserts + 1 - e.stamp ≤ 2 ^ 32) →
      ∀ key, (ops.foldl (Op.board 2) (OrderedMap.new (indexMap Nat (UInt32 × Nat) 2))).get key =
        (ops.foldl Op.host (BoundedMap.new 2 : BoundedMap Nat Nat)).get key := by
  intro agree
  have correct := indexMap_correct Nat (UInt32 × Nat) 2
  obtain ⟨n, turn⟩ : ∃ n, n = 2 ^ 32 - 3 := ⟨_, rfl⟩
  have length : (refreshed n).length = 2 ^ 32 - 1 := by
    rw [refreshed, List.length_cons, List.length_replicate]
    omega
  obtain ⟨entries, inserts⟩ := fifo_refreshed n
  have front : (⟨0, 0, 0⟩ : Entry Nat Nat) ∈ ((refreshed n).foldl (Op.fifo 2) Fifo.empty).entries := by
    rw [entries]
    exact List.mem_cons_self
  have number : n + 1 = 2 ^ 32 - 2 := by omega
  have total : n + 2 = 2 ^ 32 - 1 := by omega
  rw [number] at entries
  rw [total] at inserts
  obtain ⟨stamped, -⟩ := OrderedMap.stamped_ops correct Nat.two_pos (refreshed n)
    (OrderedMap.youngRun_of_length (by omega))
  have kept : (((refreshed n).foldl (Op.board 2) (OrderedMap.new (indexMap Nat (UInt32 × Nat) 2))).insert 2 2 2).get 0 =
      some 0 := by
    rw [(stamped_full_turn correct stamped entries inserts).get_eq_some]
    refine List.mem_map.mpr ⟨⟨0, 0, 0⟩, Fifo.mem_push.mpr (.inl ⟨?_, Nat.zero_ne_add_one 1⟩), rfl⟩
    exact Fifo.mem_erase.mpr ⟨front, Nat.zero_ne_one⟩
  have same := agree (refreshed n ++ [.insert 2 2]) ?_ 0
  · rw [host_refreshed_gone, List.foldl_append] at same
    exact absurd (kept.symm.trans same) (Option.some_ne_none 0)
  · intro before key value rest shape e _
    have counted := OrderedMap.inserts_lt_of_insert (N := 2) shape
    rw [List.length_append, length, List.length_singleton] at counted
    omega

end Leviculum.BoundedTables
