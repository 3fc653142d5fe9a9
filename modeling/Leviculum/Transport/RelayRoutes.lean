import Leviculum.Lib.OrdMap
import Leviculum.Lib.Select
import Mathlib.Data.Finset.Card
import Mathlib.Data.Prod.Lex

/-! Every relay a destination was heard through, beside the path table: bounded per destination and in
destinations, with the rows that live links use pinned. -/

namespace Leviculum.Relay

open Select

abbrev Hash := FixedBytes 16

/-- One way to reach a destination. -/
structure RelayRoute where
  relay : Hash
  interfaceIndex : Nat
  hops : UInt8
  heardAtMs : Nat
  expiresMs : Nat
  deriving DecidableEq

inductive Recorded where
  | new
  | changed
  | refreshed
  | dropped
  deriving DecidableEq

structure RelayRoutes where
  rows : OrdMap Hash (List RelayRoute)
  /-- (destination, relay) pairs a live link is using, with how many. -/
  pinned : OrdMap (Hash ×ₗ Hash) UInt32
  perDestination : Nat
  maxDestinations : Nat

namespace RelayRoutes

def new (perDestination maxDestinations : Nat) : RelayRoutes := ⟨∅, ∅, perDestination, maxDestinations⟩

def isOn (t : RelayRoutes) : Bool := 0 < t.perDestination && 0 < t.maxDestinations

def isPinned (t : RelayRoutes) (dest relay : Hash) : Bool := t.pinned.contains (toLex (dest, relay))

def overwrite (route : RelayRoute) : List RelayRoute → List RelayRoute
  | [] => []
  | row :: rest => if row.relay = route.relay then route :: rest else row :: overwrite route rest

/-- How many rows share an interface, the new row counted. -/
def crowd (route : RelayRoute) (rows : List RelayRoute) (interfaceIndex : Nat) : Nat :=
  (rows.filter (fun row => row.interfaceIndex = interfaceIndex)).length +
    if interfaceIndex = route.interfaceIndex then 1 else 0

/-- More crowded, or as crowded and heard earlier. -/
def yields (route : RelayRoute) (rows : List RelayRoute) (a b : RelayRoute × Nat) : Bool :=
  let crowdA := crowd route rows a.1.interfaceIndex
  let crowdB := crowd route rows b.1.interfaceIndex
  crowdB < crowdA || (crowdA = crowdB && a.1.heardAtMs < b.1.heardAtMs)

/-- The row a full destination gives up first, with its position. -/
def victim (route : RelayRoute) (rows : List RelayRoute) (pinned : List Hash) : Option (RelayRoute × Nat) :=
  maxBy (yields route rows) (rows.zipIdx.filter (fun entry => !pinned.contains entry.1.relay))

/-- Make room for a new destination: drop the one heard from least recently that no link is using. -/
def evictDestination (t : RelayRoutes) (incoming : Hash) : Option RelayRoutes :=
  let idle := t.rows.entries.filter (fun entry =>
    entry.1 ≠ incoming && !t.pinned.keys.any (fun pair => (ofLex pair).1 = entry.1))
  (minByKey (fun entry => ((entry.2.map (·.heardAtMs)).max?).getD 0) idle).map
    (fun entry => { t with rows := t.rows.erase entry.1 })

def file (t : RelayRoutes) (dest : Hash) (route : RelayRoute) : Recorded × RelayRoutes :=
  let rows := (t.rows.get? dest).getD []
  let pinned := (t.pinned.keys.filter (fun pair => (ofLex pair).1 = dest)).map (fun pair => (ofLex pair).2)
  if rows.length < t.perDestination then (.new, { t with rows := t.rows.insert dest (rows ++ [route]) })
  else
    match victim route rows pinned with
    | some (row, index) =>
      if crowd route rows route.interfaceIndex ≤ crowd route rows row.interfaceIndex then
        (.new, { t with rows := t.rows.insert dest (rows.set index route) })
      else (.dropped, { t with rows := t.rows.insert dest rows })
    | none => (.dropped, { t with rows := t.rows.insert dest rows })

/-- Record that `dest` was heard through `route.relay`. -/
def record (t : RelayRoutes) (dest : Hash) (route : RelayRoute) : Recorded × RelayRoutes :=
  if !t.isOn then (.dropped, t)
  else
    match t.rows.get? dest with
    | some rows =>
      match rows.find? (fun row => row.relay = route.relay) with
      | some row =>
        let changed := row.interfaceIndex ≠ route.interfaceIndex || row.hops ≠ route.hops
        (if changed then .changed else .refreshed, { t with rows := t.rows.insert dest (overwrite route rows) })
      | none => t.file dest route
    | none =>
      if t.maxDestinations ≤ t.rows.size then
        match t.evictDestination dest with
        | some fewer => fewer.file dest route
        | none => (.dropped, t)
      else t.file dest route

/-- A link now routes through `relay` to `dest`. -/
def pin (t : RelayRoutes) (dest relay : Hash) : RelayRoutes :=
  { t with pinned := t.pinned.insert (toLex (dest, relay)) ((t.pinned.get? (toLex (dest, relay))).getD 0 + 1) }

/-- A link that routed through `relay` to `dest` is gone. -/
def unpin (t : RelayRoutes) (dest relay : Hash) : RelayRoutes :=
  match t.pinned.get? (toLex (dest, relay)) with
  | none => t
  | some count =>
    if count ≤ 1 then { t with pinned := t.pinned.erase (toLex (dest, relay)) }
    else { t with pinned := t.pinned.insert (toLex (dest, relay)) (count - 1) }

/-- Keep the rows that satisfy `p`, and the destinations that have any. -/
def keepRows (t : RelayRoutes) (p : Hash → RelayRoute → Bool) : RelayRoutes :=
  { t with rows := (t.rows.mapValues (fun dest rows => rows.filter (p dest))).retain (fun _ rows => !rows.isEmpty) }

/-- Drop expired rows nothing pins. -/
def expire (t : RelayRoutes) (nowMs : Nat) : RelayRoutes :=
  t.keepRows (fun dest row => nowMs < row.expiresMs || t.isPinned dest row.relay)

/-- An interface is gone: so is every route heard on it. -/
def interfaceDown (t : RelayRoutes) (interfaceIndex : Nat) : RelayRoutes :=
  t.keepRows (fun _ row => row.interfaceIndex ≠ interfaceIndex)

def rowsOf (t : RelayRoutes) (dest : Hash) : List RelayRoute := (t.rows.get? dest).getD []

variable {t : RelayRoutes} {dest relay : Hash} {route row : RelayRoute} {rows : List RelayRoute}

/-! ### Rows of one destination -/

theorem relays_overwrite (route : RelayRoute) (rows : List RelayRoute) :
    (overwrite route rows).map (·.relay) = rows.map (·.relay) := by
  induction rows with
  | nil => rfl
  | cons first rest ih =>
    unfold overwrite
    split
    next same => simp [same]
    next => simp [ih]

theorem mem_overwrite (member : row ∈ rows) (other : row.relay ≠ route.relay) : row ∈ overwrite route rows := by
  induction rows with
  | nil => cases member
  | cons first rest ih =>
    unfold overwrite
    rcases List.mem_cons.mp member with rfl | later
    · rw [if_neg other]
      exact List.mem_cons_self
    · split
      · exact List.mem_cons_of_mem _ later
      · exact List.mem_cons_of_mem _ (ih later)

theorem route_mem_overwrite (member : row ∈ rows) (same : row.relay = route.relay) : route ∈ overwrite route rows := by
  induction rows with
  | nil => cases member
  | cons first rest ih =>
    unfold overwrite
    by_cases here : first.relay = route.relay
    · rw [if_pos here]
      exact List.mem_cons_self
    · rw [if_neg here]
      rcases List.mem_cons.mp member with rfl | later
      · exact absurd same here
      · exact List.mem_cons_of_mem _ (ih later)

theorem victim_spec {index : Nat} {pinned : List Hash} (found : victim route rows pinned = some (row, index)) :
    row.relay ∉ pinned ∧ ∃ before after, rows = before ++ row :: after ∧
      rows.set index route = before ++ route :: after := by
  obtain ⟨place, free⟩ := List.mem_filter.mp (mem_of_maxBy found)
  have there : rows[index]? = some row := List.mem_zipIdx_iff_getElem?.mp place
  obtain ⟨inside, rfl⟩ := List.getElem?_eq_some_iff.mp there
  refine ⟨by simpa using free, rows.take index, rows.drop (index + 1), ?_, ?_⟩
  · rw [List.getElem_cons_drop, List.take_append_drop]
  · rw [List.set_eq_take_append_cons_drop, if_pos inside]

def interfaces (rows : List RelayRoute) : Finset Nat := (rows.map (·.interfaceIndex)).toFinset

theorem mem_interfaces {index : Nat} :
    index ∈ interfaces rows ↔ 0 < (rows.filter (fun row => row.interfaceIndex = index)).length := by
  simp [interfaces, List.length_pos_iff_exists_mem]

theorem interfaces_replace {before after : List RelayRoute}
    (crowded : crowd route (before ++ row :: after) route.interfaceIndex ≤
      crowd route (before ++ row :: after) row.interfaceIndex) :
    (interfaces (before ++ row :: after)).card ≤ (interfaces (before ++ route :: after)).card := by
  have around : ∀ other : RelayRoute, interfaces (before ++ other :: after) =
      insert other.interfaceIndex (interfaces (before ++ after)) := by
    intro other
    ext index
    simp [interfaces]
  rw [around, around]
  by_cases kept : route.interfaceIndex ∈ interfaces (before ++ after)
  · have stays : row.interfaceIndex ∈ interfaces (before ++ after) := by
      by_cases same : row.interfaceIndex = route.interfaceIndex
      · rwa [same]
      -- The newcomer makes two on its interface, so the victim's holds two as well.
      simp only [crowd, List.filter_append, List.filter_cons, List.length_append, same, decide_false,
        decide_true, if_true, if_false, Bool.false_eq_true, List.length_cons] at crowded
      rw [mem_interfaces, List.filter_append, List.length_append] at kept ⊢
      omega
    rw [Finset.insert_eq_of_mem stays]
    exact Finset.card_le_card (Finset.subset_insert _ _)
  · rw [Finset.card_insert_of_notMem kept]
    exact Finset.card_insert_le _ _

/-! ### The table -/

structure Filed (t : RelayRoutes) (dest : Hash) (rows rows' : List RelayRoute) : Prop where
  nonempty : rows' ≠ []
  length_le : rows'.length ≤ t.perDestination
  distinct : (rows'.map (·.relay)).Nodup
  keepsPinned : ∀ row ∈ rows, t.isPinned dest row.relay = true → row ∈ rows'
  diverse : (interfaces rows).card ≤ (interfaces rows').card

theorem mem_pinned : relay ∈ (t.pinned.keys.filter (fun pair => (ofLex pair).1 = dest)).map (fun pair => (ofLex pair).2) ↔
    t.isPinned dest relay = true := by
  rw [isPinned, OrdMap.contains, Option.isSome_iff_exists, ← OrdMap.mem_keys, List.mem_map]
  constructor
  · rintro ⟨pair, member, rfl⟩
    obtain ⟨held, same⟩ := List.mem_filter.mp member
    obtain rfl : (ofLex pair).1 = dest := by simpa using same
    exact held
  · intro held
    exact ⟨toLex (dest, relay), List.mem_filter.mpr ⟨held, by simp⟩, rfl⟩

theorem file_spec (on : t.isOn = true) (bound : (t.rowsOf dest).length ≤ t.perDestination)
    (distinct : ((t.rowsOf dest).map (·.relay)).Nodup) (fresh : route.relay ∉ (t.rowsOf dest).map (·.relay)) :
    ∃ rows', (t.file dest route).2 = { t with rows := t.rows.insert dest rows' } ∧
      t.Filed dest (t.rowsOf dest) rows' := by
  have some : 0 < t.perDestination := by
    simp only [isOn, Bool.and_eq_true, decide_eq_true_eq] at on
    exact on.1
  unfold file
  rw [← rowsOf]
  generalize t.rowsOf dest = rows at bound distinct fresh
  by_cases room : rows.length < t.perDestination
  · simp only [if_pos room]
    refine ⟨rows ++ [route], rfl, ?_⟩
    have length_le : (rows ++ [route]).length ≤ t.perDestination := by
      rw [List.length_append, List.length_singleton]
      exact room
    refine ⟨by simp, length_le, ?_, fun row member _ => List.mem_append_left _ member, ?_⟩
    · rw [List.map_append, List.map_singleton, List.nodup_append']
      exact ⟨distinct, List.nodup_singleton _, by simpa using fresh⟩
    · refine Finset.card_le_card ?_
      intro index
      simp only [interfaces, List.map_append, List.toFinset_append, Finset.mem_union]
      exact .inl
  · simp only [if_neg room]
    have full : rows ≠ [] := by
      rintro rfl
      exact room some
    have unchanged : t.Filed dest rows rows := ⟨full, bound, distinct, fun _ member _ => member, le_rfl⟩
    split
    next row index found =>
      obtain ⟨free, before, after, rfl, replaced⟩ := victim_spec found
      split
      next crowded =>
        refine ⟨_, rfl, ?_⟩
        rw [replaced]
        refine ⟨by simp, by simpa using bound, ?_, ?_, interfaces_replace crowded⟩
        · simp only [List.map_append, List.map_cons, List.nodup_middle, List.nodup_cons, List.mem_append,
            List.mem_cons, not_or] at distinct fresh ⊢
          exact ⟨⟨fresh.1, fresh.2.2⟩, distinct.2⟩
        · intro other member held
          rcases List.mem_append.mp member with early | rest
          · exact List.mem_append_left _ early
          · rcases List.mem_cons.mp rest with rfl | late
            · exact absurd (mem_pinned.mpr held) free
            · exact List.mem_append_right _ (List.mem_cons_of_mem _ late)
      next => exact ⟨_, rfl, unchanged⟩
    next => exact ⟨_, rfl, unchanged⟩

theorem evictDestination_spec {fewer : RelayRoutes} (made : t.evictDestination dest = some fewer) :
    ∃ gone rows, t.rows.get? gone = some rows ∧ gone ≠ dest ∧ (∀ relay, t.isPinned gone relay = false) ∧
      fewer = { t with rows := t.rows.erase gone } := by
  obtain ⟨entry, found, rfl⟩ := Option.map_eq_some_iff.mp made
  obtain ⟨member, idle⟩ := List.mem_filter.mp (mem_of_minByKey found)
  simp only [Bool.and_eq_true, decide_eq_true_eq, Bool.not_eq_true', List.any_eq_false] at idle
  refine ⟨entry.1, entry.2, OrdMap.get?_eq_some.mpr member, idle.1, ?_, rfl⟩
  intro relay
  by_contra held
  rw [Bool.not_eq_false, isPinned, OrdMap.contains, Option.isSome_iff_exists, ← OrdMap.mem_keys] at held
  exact idle.2 _ held rfl

/-- Bounded rows, one for each relay, and as many destinations as allowed. -/
structure Sound (t : RelayRoutes) : Prop where
  rows : ∀ {dest rows}, t.rows.get? dest = some rows →
    rows ≠ [] ∧ rows.length ≤ t.perDestination ∧ (rows.map (·.relay)).Nodup
  bounded : t.rows.size ≤ t.maxDestinations

theorem sound_new (perDestination maxDestinations : Nat) : (new perDestination maxDestinations).Sound where
  rows := nofun
  bounded := Nat.zero_le _

/-- What recording a route can make of a sound table. -/
inductive Records (t : RelayRoutes) (dest : Hash) (route : RelayRoute) : RelayRoutes → Prop
  | unchanged : Records t dest route t
  | overwritten {rows : List RelayRoute} {row : RelayRoute} (held : t.rows.get? dest = some rows) (member : row ∈ rows)
      (same : row.relay = route.relay) :
      Records t dest route { t with rows := t.rows.insert dest (overwrite route rows) }
  | filed {rows' : List RelayRoute} (room : t.rows.get? dest = none → t.rows.size < t.maxDestinations)
      (filed : t.Filed dest (t.rowsOf dest) rows') :
      Records t dest route { t with rows := t.rows.insert dest rows' }
  | displaced {gone : Hash} {rows rows' : List RelayRoute} (absent : t.rows.get? dest = none)
      (held : t.rows.get? gone = some rows) (other : gone ≠ dest) (idle : ∀ relay, t.isPinned gone relay = false)
      (filed : t.Filed dest [] rows') :
      Records t dest route { t with rows := (t.rows.erase gone).insert dest rows' }

theorem Sound.rowsOf_spec (sound : t.Sound) (dest : Hash) :
    (t.rowsOf dest).length ≤ t.perDestination ∧ ((t.rowsOf dest).map (·.relay)).Nodup := by
  unfold rowsOf
  cases held : t.rows.get? dest with
  | none => exact ⟨Nat.zero_le _, List.nodup_nil⟩
  | some rows => exact (sound.rows held).2

theorem Sound.record (sound : t.Sound) (dest : Hash) (route : RelayRoute) :
    t.Records dest route (t.record dest route).2 := by
  unfold RelayRoutes.record
  by_cases on : t.isOn = true
  swap
  · simp only [Bool.not_eq_true] at on
    simp only [on, Bool.not_false, if_true]
    exact .unchanged
  simp only [on, Bool.not_true, Bool.false_eq_true, if_false]
  obtain ⟨bound, distinct⟩ := sound.rowsOf_spec dest
  cases held : t.rows.get? dest with
  | some rows =>
    have current : t.rowsOf dest = rows := by simp [rowsOf, held]
    cases found : rows.find? (fun row => row.relay = route.relay) with
    | some row =>
      simp only [found]
      exact .overwritten held (List.mem_of_find?_eq_some found) (by simpa using List.find?_some found)
    | none =>
      have fresh : route.relay ∉ (t.rowsOf dest).map (·.relay) := by
        rw [current, List.mem_map]
        rintro ⟨row, member, same⟩
        exact absurd same (by simpa using List.find?_eq_none.mp found row member)
      obtain ⟨rows', result, filed⟩ := file_spec on bound distinct fresh
      simp only [found, result]
      exact .filed (fun absent => absurd held (by simp [absent])) filed
  | none =>
    have current : t.rowsOf dest = [] := by simp [rowsOf, held]
    have fresh : route.relay ∉ (t.rowsOf dest).map (·.relay) := by simp [current]
    simp only
    split
    next =>
      split
      next fewer made =>
        obtain ⟨gone, rows, goneHeld, other, idle, rfl⟩ := evictDestination_spec made
        have absent : (t.rows.erase gone).get? dest = none := by
          rw [OrdMap.get?_erase]
          split
          · rfl
          · exact held
        have emptied : RelayRoutes.rowsOf { t with rows := t.rows.erase gone } dest = [] := by simp [rowsOf, absent]
        obtain ⟨rows', result, filed⟩ := file_spec (t := { t with rows := t.rows.erase gone }) on
          (by rw [emptied]; exact Nat.zero_le _) (by rw [emptied]; exact List.nodup_nil) (by simp [emptied])
        rw [emptied] at filed
        rw [result]
        exact .displaced held goneHeld other idle
          ⟨filed.nonempty, filed.length_le, filed.distinct, filed.keepsPinned, filed.diverse⟩
      next => exact .unchanged
    next room =>
      obtain ⟨rows', result, filed⟩ := file_spec on bound distinct fresh
      rw [result]
      exact .filed (fun _ => Nat.lt_of_not_le room) filed

theorem Sound.insert_rows {rows' : List RelayRoute} (sound : t.Sound)
    (room : t.rows.get? dest = none → t.rows.size < t.maxDestinations)
    (kept : rows' ≠ [] ∧ rows'.length ≤ t.perDestination ∧ (rows'.map (·.relay)).Nodup) :
    RelayRoutes.Sound { t with rows := t.rows.insert dest rows' } where
  rows := by
    intro other rows held
    rw [OrdMap.get?_insert] at held
    split at held
    · obtain rfl := Option.some.inj held
      exact kept
    · exact sound.rows held
  bounded := by
    cases present : t.rows.get? dest with
    | none => exact (OrdMap.size_insert_le _ _ _).trans (room present)
    | some rows => exact (OrdMap.size_insert_of_get? present rows').trans_le sound.bounded

theorem Sound.erase_rows {gone : Hash} (sound : t.Sound) : RelayRoutes.Sound { t with rows := t.rows.erase gone } where
  rows := by
    intro dest rows held
    rw [OrdMap.get?_erase] at held
    split at held
    · cases held
    · exact sound.rows held
  bounded := (OrdMap.size_erase_le _ _).trans sound.bounded

theorem Records.sound {t' : RelayRoutes} (sound : t.Sound) (records : t.Records dest route t') : t'.Sound := by
  cases records with
  | unchanged => exact sound
  | @overwritten rows row held member same =>
    have kept := sound.rows held
    refine sound.insert_rows (fun absent => absurd held (by simp [absent])) ?_
    have relays := relays_overwrite route rows
    have length_eq : (overwrite route rows).length = rows.length := by
      simpa only [List.length_map] using congrArg List.length relays
    refine ⟨?_, length_eq.trans_le kept.2.1, relays ▸ kept.2.2⟩
    rw [← List.length_pos_iff, length_eq]
    exact List.length_pos_iff.mpr kept.1
  | filed room filed => exact sound.insert_rows room ⟨filed.nonempty, filed.length_le, filed.distinct⟩
  | @displaced gone rows rows' absent held other idle filed =>
    refine sound.erase_rows.insert_rows (fun _ => ?_) ⟨filed.nonempty, filed.length_le, filed.distinct⟩
    exact (OrdMap.size_erase_of_get? held).trans_le sound.bounded

theorem keepRows_get? (t : RelayRoutes) (p : Hash → RelayRoute → Bool) {dest : Hash} {rows : List RelayRoute} :
    (t.keepRows p).rows.get? dest = some rows ↔
      rows ≠ [] ∧ ∃ before, t.rows.get? dest = some before ∧ before.filter (p dest) = rows := by
  rw [keepRows, OrdMap.get?_retain, OrdMap.get?_mapValues, Option.map_eq_some_iff, and_comm]
  simp

theorem Sound.keepRows (sound : t.Sound) (p : Hash → RelayRoute → Bool) : (t.keepRows p).Sound where
  rows := by
    intro dest rows held
    obtain ⟨some, before, present, rfl⟩ := (keepRows_get? t p).mp held
    obtain ⟨-, bound, distinct⟩ := sound.rows present
    exact ⟨some, (List.length_filter_le _ _).trans bound, distinct.sublist (List.filter_sublist.map _)⟩
  bounded := (OrdMap.size_retain_le _ _).trans ((OrdMap.size_mapValues _ _).trans_le sound.bounded)

/-- One call on the table. -/
inductive Op where
  | record (dest : Hash) (route : RelayRoute)
  | pin (dest relay : Hash)
  | unpin (dest relay : Hash)
  | expire (nowMs : Nat)
  | interfaceDown (interfaceIndex : Nat)

def step (t : RelayRoutes) : Op → RelayRoutes
  | .record dest route => (t.record dest route).2
  | .pin dest relay => t.pin dest relay
  | .unpin dest relay => t.unpin dest relay
  | .expire nowMs => t.expire nowMs
  | .interfaceDown interfaceIndex => t.interfaceDown interfaceIndex

def run (t : RelayRoutes) (ops : List Op) : RelayRoutes := ops.foldl step t

theorem Sound.step (sound : t.Sound) (op : Op) : (t.step op).Sound := by
  cases op with
  | record dest route => exact (sound.record dest route).sound sound
  | pin dest relay => exact ⟨sound.rows, sound.bounded⟩
  | unpin dest relay =>
    show (t.unpin dest relay).Sound
    unfold unpin
    split
    · exact sound
    · split
      · exact ⟨sound.rows, sound.bounded⟩
      · exact ⟨sound.rows, sound.bounded⟩
  | expire nowMs => exact sound.keepRows _
  | interfaceDown interfaceIndex => exact sound.keepRows _

theorem Sound.run (sound : t.Sound) (ops : List Op) : (t.run ops).Sound := by
  induction ops generalizing t with
  | nil => exact sound
  | cons op rest ih => exact ih (sound.step op)

theorem Sound.bounds_step (sound : t.Sound) (op : Op) :
    (t.step op).perDestination = t.perDestination ∧ (t.step op).maxDestinations = t.maxDestinations := by
  cases op with
  | record dest route =>
    have records := sound.record dest route
    show (t.record dest route).2.perDestination = _ ∧ (t.record dest route).2.maxDestinations = _
    generalize (t.record dest route).2 = t' at records
    cases records <;> exact ⟨rfl, rfl⟩
  | pin dest relay => exact ⟨rfl, rfl⟩
  | unpin dest relay =>
    show (t.unpin dest relay).perDestination = _ ∧ (t.unpin dest relay).maxDestinations = _
    unfold unpin
    split
    · exact ⟨rfl, rfl⟩
    · split <;> exact ⟨rfl, rfl⟩
  | expire nowMs => exact ⟨rfl, rfl⟩
  | interfaceDown interfaceIndex => exact ⟨rfl, rfl⟩

theorem Sound.bounds_run (sound : t.Sound) (ops : List Op) :
    (t.run ops).perDestination = t.perDestination ∧ (t.run ops).maxDestinations = t.maxDestinations := by
  induction ops generalizing t with
  | nil => exact ⟨rfl, rfl⟩
  | cons op rest ih =>
    obtain ⟨per, most⟩ := ih (sound.step op)
    obtain ⟨per', most'⟩ := sound.bounds_step op
    exact ⟨per.trans per', most.trans most'⟩

theorem mem_rowsOf : row ∈ t.rowsOf dest ↔ ∃ rows, t.rows.get? dest = some rows ∧ row ∈ rows := by
  unfold rowsOf
  cases t.rows.get? dest <;> simp

theorem Records.keepsPinned {t' : RelayRoutes} {other : Hash} (records : t.Records dest route t')
    (member : row ∈ t.rowsOf other) (inUse : t.isPinned other row.relay = true) :
    row ∈ t'.rowsOf other ∨ (other = dest ∧ row.relay = route.relay ∧ route ∈ t'.rowsOf other) := by
  cases records with
  | unchanged => exact .inl member
  | @overwritten rows _ held _ _ =>
    by_cases here : other = dest
    · subst here
      have current : row ∈ rows := by simpa [rowsOf, held] using member
      have after : RelayRoutes.rowsOf { t with rows := t.rows.insert other (overwrite route rows) } other =
          overwrite route rows := by simp [rowsOf, OrdMap.get?_insert]
      rw [after]
      by_cases same : row.relay = route.relay
      · exact .inr ⟨rfl, same, route_mem_overwrite current same⟩
      · exact .inl (mem_overwrite current same)
    · left
      simpa [rowsOf, OrdMap.get?_insert, here] using member
  | filed room filed =>
    left
    by_cases here : other = dest
    · subst here
      simpa [rowsOf, OrdMap.get?_insert] using filed.keepsPinned row member inUse
    · simpa [rowsOf, OrdMap.get?_insert, here] using member
  | @displaced gone _ _ absent _ _ idle _ =>
    left
    have apart : other ≠ gone := by
      rintro rfl
      rw [idle] at inUse
      cases inUse
    have elsewhere : other ≠ dest := by
      rintro rfl
      rw [rowsOf, absent] at member
      cases member
    simpa [rowsOf, OrdMap.get?_insert, OrdMap.get?_erase, elsewhere, apart] using member

theorem expire_keepsPinned (nowMs : Nat) (member : row ∈ t.rowsOf dest) (inUse : t.isPinned dest row.relay = true) :
    row ∈ (t.expire nowMs).rowsOf dest := by
  obtain ⟨rows, held, there⟩ := mem_rowsOf.mp member
  have stays : row ∈ rows.filter (fun row => nowMs < row.expiresMs || t.isPinned dest row.relay) :=
    List.mem_filter.mpr ⟨there, by simp [inUse]⟩
  exact mem_rowsOf.mpr ⟨_, (keepRows_get? t _).mpr ⟨List.ne_nil_of_mem stays, rows, held, rfl⟩, stays⟩

theorem Records.diverse {t' : RelayRoutes} (records : t.Records dest route t')
    (fresh : route.relay ∉ (t.rowsOf dest).map (·.relay)) :
    (interfaces (t.rowsOf dest)).card ≤ (interfaces (t'.rowsOf dest)).card := by
  cases records with
  | unchanged => exact le_rfl
  | overwritten held member same =>
    exact absurd (List.mem_map.mpr ⟨_, mem_rowsOf.mpr ⟨_, held, member⟩, same⟩) fresh
  | filed room filed => simpa [rowsOf, OrdMap.get?_insert] using filed.diverse
  | displaced absent held other idle filed =>
    have none : t.rowsOf dest = [] := by simp [rowsOf, absent]
    rw [none]
    exact Nat.zero_le _

/-- In every reachable table rows and destinations are bounded, relays distinct and no destination is left
without a row; a row in use is neither removed nor given to another relay by recording or expiry; and a
relay not on file never lowers the number of interfaces of its destination. -/
theorem relay_rows_kept (perDestination maxDestinations : Nat) (ops : List Op) :
    let t := (new perDestination maxDestinations).run ops
    (∀ dest rows, t.rows.get? dest = some rows →
      rows ≠ [] ∧ rows.length ≤ perDestination ∧ (rows.map (·.relay)).Nodup) ∧
    t.rows.size ≤ maxDestinations ∧
    (∀ dest row, row ∈ t.rowsOf dest → t.isPinned dest row.relay = true →
      (∀ nowMs, row ∈ (t.expire nowMs).rowsOf dest) ∧
      ∀ heard route, row ∈ (t.record heard route).2.rowsOf dest ∨
        (dest = heard ∧ row.relay = route.relay ∧ route ∈ (t.record heard route).2.rowsOf dest)) ∧
    ∀ dest route, route.relay ∉ (t.rowsOf dest).map (·.relay) →
      (interfaces (t.rowsOf dest)).card ≤ (interfaces ((t.record dest route).2.rowsOf dest)).card := by
  intro t
  have sound : t.Sound := (sound_new perDestination maxDestinations).run ops
  obtain ⟨per, most⟩ : t.perDestination = perDestination ∧ t.maxDestinations = maxDestinations :=
    (sound_new perDestination maxDestinations).bounds_run ops
  refine ⟨?_, most ▸ sound.bounded, ?_, ?_⟩
  · intro dest rows held
    exact per ▸ sound.rows held
  · intro dest row member inUse
    exact ⟨fun nowMs => expire_keepsPinned nowMs member inUse,
      fun heard route => (sound.record heard route).keepsPinned member inUse⟩
  · intro dest route fresh
    exact (sound.record dest route).diverse fresh

end RelayRoutes

end Leviculum.Relay
