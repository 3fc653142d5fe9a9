import Leviculum.Propagation.Peering
import Mathlib.Algebra.GroupWithZero.Nat
import Mathlib.Algebra.Order.Field.Rat
import Mathlib.Tactic.FieldSimp
import Mathlib.Tactic.NormNum

/-! Rotation: a full table unpeers those that accept least of what they are offered, to keep a share of
its slots for newcomers. -/

namespace Leviculum.Peering

open Propagation (DestinationHash)

def rotationHeadroomPct : Nat := 10

def rotationArMaxPct : Nat := 50

/-- The counters of one peer that rotation reads. -/
structure PeerTraffic where
  offered : Nat
  outgoing : Nat
  /-- Unix seconds, 0 for never. -/
  lastSyncAttempt : Nat
  alive : Bool

namespace PeerTraffic

/-- `outgoing / offered` as numerator and denominator, 0 when nothing was offered. -/
def ratio (counters : PeerTraffic) : Nat × Nat :=
  if counters.offered = 0 then (0, 1) else (counters.outgoing, counters.offered)

/-- The comparison of the sort, by cross-multiplication. -/
def NotAbove (a b : PeerTraffic) : Prop := a.ratio.1 * b.ratio.2 ≤ b.ratio.1 * a.ratio.2

instance : DecidableRel NotAbove := fun _ _ => inferInstanceAs (Decidable (_ ≤ _))

/-- Whether a peer accepts too little to stay. -/
def belowMax (counters : PeerTraffic) : Bool := counters.ratio.1 * 100 < counters.ratio.2 * rotationArMaxPct

/-- The acceptance rate: the share of what was offered that the peer took. -/
def rate (counters : PeerTraffic) : ℚ := counters.outgoing / counters.offered

theorem ratio_den_pos (counters : PeerTraffic) : (0 : ℚ) < counters.ratio.2 := by
  unfold ratio
  split
  next => norm_num
  next offered => exact_mod_cast Nat.pos_of_ne_zero offered

theorem rate_eq_ratio (counters : PeerTraffic) : counters.rate = counters.ratio.1 / counters.ratio.2 := by
  unfold rate ratio
  split
  next none => simp [none]
  next => rfl

theorem notAbove_iff {a b : PeerTraffic} : NotAbove a b ↔ a.rate ≤ b.rate := by
  rw [rate_eq_ratio, rate_eq_ratio, div_le_div_iff₀ a.ratio_den_pos b.ratio_den_pos, NotAbove]
  exact_mod_cast Iff.rfl

theorem belowMax_iff {counters : PeerTraffic} : counters.belowMax = true ↔ counters.rate < 1 / 2 := by
  rw [rate_eq_ratio, div_lt_div_iff₀ counters.ratio_den_pos (by norm_num), belowMax, decide_eq_true_iff,
    rotationArMaxPct]
  norm_cast
  omega

end PeerTraffic

namespace PeerTable

/-- `max(1, max_peers * 10 / 100)` over `usize`. -/
def headroom (config : PeeringConfig) : Nat := max 1 (config.maxPeers * rotationHeadroomPct % 2 ^ 64 / 100)

/-- How many peers a pass may drop. -/
def required (t : PeerTable) : Nat := t.peers.size - (t.config.maxPeers - headroom t.config)

def untested (t : PeerTable) (traffic : DestinationHash → PeerTraffic) : Nat :=
  (t.peers.keys.filter (fun hash => (traffic hash).lastSyncAttempt = 0)).length

/-- The peers with nothing unhandled, or all of them where there are none such. -/
def pool (t : PeerTable) (unhandled : DestinationHash → Nat) : List Peer :=
  let fullySynced := t.peers.values.filter (fun peer => unhandled peer.destinationHash = 0)
  if fullySynced.isEmpty then t.peers.values else fullySynced

/-- The peers a pass judges, those that did not answer first. -/
def dropPool (t : PeerTable) (traffic : DestinationHash → PeerTraffic) (unhandled : DestinationHash → Nat) :
    List (DestinationHash × PeerTraffic) :=
  let judged := ((t.pool unhandled).filter (fun peer => !(peer.isStatic || peer.state ≠ .idle))).map
    (fun peer => (peer.destinationHash, traffic peer.destinationHash))
  judged.filter (fun entry => !entry.2.alive) ++ judged.filter (fun entry => entry.2.alive && 0 < entry.2.offered)

/-- The judged peers, those that accept least first. -/
def ranked (t : PeerTable) (traffic : DestinationHash → PeerTraffic) (unhandled : DestinationHash → Nat) :
    List (DestinationHash × PeerTraffic) :=
  (t.dropPool traffic unhandled).insertionSort (fun a b => a.2.NotAbove b.2)

def dropEach (now : Nat) : PeerTable → List (DestinationHash × PeerTraffic) → List DestinationHash × PeerTable
  | t, [] => ([], t)
  | t, (hash, counters) :: rest =>
    match if counters.belowMax then t.unpeer hash now else none with
    | some fewer => (hash :: (dropEach now fewer rest).1, (dropEach now fewer rest).2)
    | none => dropEach now t rest

def rotate (t : PeerTable) (now : Nat) (traffic : DestinationHash → PeerTraffic) (unhandled : DestinationHash → Nat) :
    List DestinationHash × PeerTable :=
  if t.required = 0 ∨ t.peers.size - t.required ≤ 1 then ([], t)
  else if headroom t.config ≤ t.untested traffic then ([], t)
  else dropEach now t ((t.ranked traffic unhandled).take t.required)

/-- The peers whose acceptance decides whether they stay: in the pool, neither static nor in the middle
of a round, and offered something unless they did not answer. -/
def Judged (t : PeerTable) (traffic : DestinationHash → PeerTraffic) (unhandled : DestinationHash → Nat)
    (hash : DestinationHash) (peer : Peer) : Prop :=
  t.peers.get? hash = some peer ∧
    (unhandled hash = 0 ∨ ∀ other ∈ t.peers.keys, unhandled other ≠ 0) ∧
    peer.isStatic = false ∧ peer.state = .idle ∧
    ((traffic hash).alive = false ∨ 0 < (traffic hash).offered)

variable {t : PeerTable} {traffic : DestinationHash → PeerTraffic} {unhandled : DestinationHash → Nat}
  {hash : DestinationHash} {now : Nat}

theorem mem_values_iff {peer : Peer} : peer ∈ t.peers.values ↔ t.peers.get? peer.destinationHash = some peer := by
  rw [OrdMap.mem_values]
  constructor
  · rintro ⟨key, held⟩
    rwa [t.keyed held]
  · intro held
    exact ⟨_, held⟩

theorem mem_pool {peer : Peer} :
    peer ∈ t.pool unhandled ↔ t.peers.get? peer.destinationHash = some peer ∧
      (unhandled peer.destinationHash = 0 ∨ ∀ other ∈ t.peers.keys, unhandled other ≠ 0) := by
  unfold pool
  simp only [List.isEmpty_iff, List.filter_eq_nil_iff, decide_eq_true_eq]
  split
  next none =>
    have everyone : ∀ other ∈ t.peers.keys, unhandled other ≠ 0 := by
      intro other member
      obtain ⟨found, held⟩ := OrdMap.mem_keys.mp member
      have filed := t.keyed held
      exact filed ▸ none found (OrdMap.mem_values.mpr ⟨other, held⟩)
    rw [mem_values_iff]
    exact ⟨fun held => ⟨held, .inr everyone⟩, fun judged => judged.1⟩
  next some =>
    push Not at some
    obtain ⟨found, member, handled⟩ := some
    rw [List.mem_filter, mem_values_iff, decide_eq_true_iff]
    constructor
    · rintro ⟨held, synced⟩
      exact ⟨held, .inl synced⟩
    · rintro ⟨held, synced | nobody⟩
      · exact ⟨held, synced⟩
      · exact absurd handled (nobody _ (OrdMap.mem_keys.mpr ⟨found, mem_values_iff.mp member⟩))

theorem mem_dropPool {counters : PeerTraffic} :
    (hash, counters) ∈ t.dropPool traffic unhandled ↔
      counters = traffic hash ∧ ∃ peer, t.Judged traffic unhandled hash peer := by
  unfold dropPool
  simp only [List.mem_append, List.mem_filter, List.mem_map, mem_pool]
  constructor
  · rintro (⟨⟨peer, ⟨⟨held, inPool⟩, free⟩, same⟩, judged⟩ | ⟨⟨peer, ⟨⟨held, inPool⟩, free⟩, same⟩, judged⟩)
    all_goals
      obtain ⟨rfl, rfl⟩ := Prod.mk.inj same
      refine ⟨rfl, peer, held, inPool, ?_⟩
      simp at free judged
      simp [free, judged]
  · rintro ⟨rfl, peer, held, inPool, free, idle, judged⟩
    obtain rfl := t.keyed held
    have entry : ∃ other, ((t.peers.get? other.destinationHash = some other ∧
        (unhandled other.destinationHash = 0 ∨ ∀ other ∈ t.peers.keys, unhandled other ≠ 0)) ∧
          (!(other.isStatic || other.state ≠ .idle)) = true) ∧
        (other.destinationHash, traffic other.destinationHash) = (peer.destinationHash, traffic peer.destinationHash) :=
      ⟨peer, ⟨⟨held, inPool⟩, by simp [free, idle]⟩, rfl⟩
    cases alive : (traffic peer.destinationHash).alive with
    | false => exact .inl ⟨entry, by simp⟩
    | true =>
      have offered := judged.resolve_left (by simp [alive])
      exact .inr ⟨entry, by simp [offered]⟩

theorem unpeer_eq_some {fewer : PeerTable} :
    t.unpeer hash now = some fewer ↔
      (∃ peer, t.peers.get? hash = some peer ∧ peer.peeringTimebase ≤ now) ∧ fewer = t.remove hash := by
  unfold unpeer
  cases held : t.peers.get? hash with
  | none => simp
  | some peer =>
    simp only [Option.ite_none_right_eq_some, Option.some.injEq, exists_eq_left']
    exact and_congr_right fun _ => eq_comm

/-- Whether the pass drops a peer of these counters when its turn comes. -/
def Drops (t : PeerTable) (now : Nat) (hash : DestinationHash) (counters : PeerTraffic) : Prop :=
  counters.belowMax = true ∧ ∃ peer, t.peers.get? hash = some peer ∧ peer.peeringTimebase ≤ now

theorem dropEach_cons_of_drops {counters : PeerTraffic} {rest : List (DestinationHash × PeerTraffic)}
    (drops : t.Drops now hash counters) :
    dropEach now t ((hash, counters) :: rest) =
      (hash :: (dropEach now (t.remove hash) rest).1, (dropEach now (t.remove hash) rest).2) := by
  have removed := unpeer_eq_some.mpr ⟨drops.2, rfl⟩
  simp only [dropEach, drops.1, if_true, removed]

theorem dropEach_cons_of_not_drops {counters : PeerTraffic} {rest : List (DestinationHash × PeerTraffic)}
    (stays : ¬ t.Drops now hash counters) : dropEach now t ((hash, counters) :: rest) = dropEach now t rest := by
  have skipped : (if counters.belowMax then t.unpeer hash now else none) = none := by
    rw [Option.eq_none_iff_forall_not_mem]
    intro fewer taken
    obtain ⟨below, removed⟩ := Option.ite_none_right_eq_some.mp taken
    exact stays ⟨below, (unpeer_eq_some.mp removed).1⟩
  simp only [dropEach, skipped]

theorem length_dropEach_le (t : PeerTable) (now : Nat) (entries : List (DestinationHash × PeerTraffic)) :
    (dropEach now t entries).1.length ≤ entries.length := by
  induction entries generalizing t with
  | nil => exact Nat.le_refl 0
  | cons entry rest ih =>
    obtain ⟨hash, counters⟩ := entry
    by_cases drops : t.Drops now hash counters
    · rw [dropEach_cons_of_drops drops]
      exact Nat.succ_le_succ (ih _)
    · rw [dropEach_cons_of_not_drops drops]
      exact Nat.le_succ_of_le (ih t)

theorem size_dropEach (t : PeerTable) (now : Nat) (entries : List (DestinationHash × PeerTraffic)) :
    (dropEach now t entries).2.peers.size + (dropEach now t entries).1.length = t.peers.size := by
  induction entries generalizing t with
  | nil => rfl
  | cons entry rest ih =>
    obtain ⟨hash, counters⟩ := entry
    by_cases drops : t.Drops now hash counters
    · obtain ⟨-, peer, held, -⟩ := id drops
      have one : (t.remove hash).peers.size + 1 = t.peers.size := OrdMap.size_erase_add_one held
      have rests := ih (t.remove hash)
      rw [dropEach_cons_of_drops drops, List.length_cons, ← Nat.add_assoc, rests, one]
    · rw [dropEach_cons_of_not_drops drops]
      exact ih t

theorem mem_dropEach {entries : List (DestinationHash × PeerTraffic)} :
    hash ∈ (dropEach now t entries).1 ↔ ∃ counters, (hash, counters) ∈ entries ∧ t.Drops now hash counters := by
  induction entries generalizing t with
  | nil => simp [dropEach]
  | cons entry rest ih =>
    obtain ⟨first, counters⟩ := entry
    by_cases drops : t.Drops now first counters
    · rw [dropEach_cons_of_drops drops, List.mem_cons, ih]
      by_cases same : hash = first
      · subst same
        exact ⟨fun _ => ⟨counters, List.mem_cons_self, drops⟩, fun _ => .inl rfl⟩
      · simp [Drops, same]
    · rw [dropEach_cons_of_not_drops drops, ih]
      constructor
      · rintro ⟨other, member, taken⟩
        exact ⟨other, List.mem_cons_of_mem _ member, taken⟩
      · rintro ⟨other, member, taken⟩
        rcases List.mem_cons.mp member with same | later
        · obtain ⟨rfl, rfl⟩ := Prod.mk.inj same
          exact absurd taken drops
        · exact ⟨other, later, taken⟩

theorem dropEach_get? {entries : List (DestinationHash × PeerTraffic)} (hash : DestinationHash) :
    (dropEach now t entries).2.peers.get? hash =
      if hash ∈ (dropEach now t entries).1 then none else t.peers.get? hash := by
  induction entries generalizing t with
  | nil => rfl
  | cons entry rest ih =>
    obtain ⟨first, counters⟩ := entry
    by_cases drops : t.Drops now first counters
    · rw [dropEach_cons_of_drops drops, ih, remove_get?]
      by_cases same : hash = first <;> simp [same]
    · rw [dropEach_cons_of_not_drops drops, ih]

theorem ranked_sorted (t : PeerTable) (traffic : DestinationHash → PeerTraffic) (unhandled : DestinationHash → Nat) :
    (t.ranked traffic unhandled).Pairwise (fun a b => a.2.rate ≤ b.2.rate) := by
  have total : Std.Total (fun a b : DestinationHash × PeerTraffic => a.2.NotAbove b.2) :=
    ⟨fun a b => by simpa only [PeerTraffic.notAbove_iff] using le_total a.2.rate b.2.rate⟩
  have trans : IsTrans (DestinationHash × PeerTraffic) (fun a b => a.2.NotAbove b.2) :=
    ⟨fun a b c => by simpa only [PeerTraffic.notAbove_iff] using le_trans⟩
  exact (List.pairwise_insertionSort _ _).imp PeerTraffic.notAbove_iff.mp

theorem rotate_cases (t : PeerTable) (now : Nat) (traffic : DestinationHash → PeerTraffic)
    (unhandled : DestinationHash → Nat) :
    t.rotate now traffic unhandled = ([], t) ∨
      1 < t.peers.size - t.required ∧
        t.rotate now traffic unhandled = dropEach now t ((t.ranked traffic unhandled).take t.required) := by
  unfold rotate
  split
  · exact .inl rfl
  next room =>
    split
    · exact .inl rfl
    · exact .inr ⟨by omega, rfl⟩

/-- What a pass may do, for a table before it and what it hands back. -/
structure SoundRotation (t : PeerTable) (now : Nat) (traffic : DestinationHash → PeerTraffic)
    (unhandled : DestinationHash → Nat) (dropped : List DestinationHash) (rest : PeerTable) : Prop where
  /-- The reported peers leave the table, and nothing else changes. -/
  leaves : ∀ hash, rest.peers.get? hash = if hash ∈ dropped then none else t.peers.get? hash
  atMostRequired : dropped.length ≤ t.required
  spares : ∀ hash ∈ dropped, ∃ peer, t.peers.get? hash = some peer ∧ peer.isStatic = false ∧ peer.state = .idle
  /-- Peers remain beside the dropped ones. -/
  keepsSome : dropped ≠ [] → 1 < rest.peers.size
  belowThreshold : ∀ hash ∈ dropped, (traffic hash).rate < 1 / 2
  /-- A judged peer that stays accepts at least as much as any that goes, unless its announce is dated
  after `now`. -/
  lowestFirst : ∀ hash ∈ dropped, ∀ kept peer, kept ∉ dropped → t.Judged traffic unhandled kept peer →
    peer.peeringTimebase ≤ now → (traffic hash).rate ≤ (traffic kept).rate

theorem SoundRotation.unchanged : SoundRotation t now traffic unhandled [] t where
  leaves := fun _ => rfl
  atMostRequired := Nat.zero_le _
  spares := nofun
  keepsSome := fun some => absurd rfl some
  belowThreshold := nofun
  lowestFirst := nofun

theorem mem_ranked_take {counters : PeerTraffic} {n : Nat}
    (member : (hash, counters) ∈ (t.ranked traffic unhandled).take n) :
    counters = traffic hash ∧ ∃ peer, t.Judged traffic unhandled hash peer :=
  mem_dropPool.mp (List.mem_insertionSort _ |>.mp (List.mem_of_mem_take member))

theorem ranked_cut {first second : DestinationHash × PeerTraffic} {n : Nat}
    (early : first ∈ (t.ranked traffic unhandled).take n) (late : second ∈ (t.ranked traffic unhandled).drop n) :
    first.2.rate ≤ second.2.rate := by
  have sorted := ranked_sorted t traffic unhandled
  rw [← List.take_append_drop n (t.ranked traffic unhandled)] at sorted
  exact (List.pairwise_append.mp sorted).2.2 first early second late

theorem rotate_drops_soundly (t : PeerTable) (now : Nat) (traffic : DestinationHash → PeerTraffic)
    (unhandled : DestinationHash → Nat) :
    SoundRotation t now traffic unhandled (t.rotate now traffic unhandled).1 (t.rotate now traffic unhandled).2 := by
  rcases rotate_cases t now traffic unhandled with still | ⟨room, passed⟩
  · rw [still]
    exact .unchanged
  rw [passed]
  have bound : (dropEach now t ((t.ranked traffic unhandled).take t.required)).1.length ≤ t.required :=
    (length_dropEach_le t now _).trans (List.length_take_le _ _)
  refine ⟨fun hash => dropEach_get? hash, bound, ?_, ?_, ?_, ?_⟩
  · intro hash gone
    obtain ⟨counters, member, -⟩ := mem_dropEach.mp gone
    obtain ⟨-, peer, held, -, free, idle, -⟩ := mem_ranked_take member
    exact ⟨peer, held, free, idle⟩
  · intro _
    have sizes := size_dropEach t now ((t.ranked traffic unhandled).take t.required)
    omega
  · intro hash gone
    obtain ⟨counters, member, below, -⟩ := mem_dropEach.mp gone
    obtain ⟨rfl, -⟩ := mem_ranked_take member
    exact PeerTraffic.belowMax_iff.mp below
  · intro hash gone kept peer stays judged dated
    obtain ⟨counters, member, below, -⟩ := mem_dropEach.mp gone
    obtain ⟨rfl, -⟩ := mem_ranked_take member
    have place : (kept, traffic kept) ∈ t.ranked traffic unhandled :=
      List.mem_insertionSort _ |>.mpr (mem_dropPool.mpr ⟨rfl, peer, judged⟩)
    rw [← List.take_append_drop t.required (t.ranked traffic unhandled)] at place
    rcases List.mem_append.mp place with early | late
    · -- Its turn came, and it stayed only because it accepts enough.
      have enough : ¬ (traffic kept).rate < 1 / 2 := by
        intro low
        exact stays (mem_dropEach.mpr ⟨_, early, PeerTraffic.belowMax_iff.mpr low, peer, judged.1, dated⟩)
      exact (PeerTraffic.belowMax_iff.mp below).le.trans (not_lt.mp enough)
    · have cut := ranked_cut member late
      exact cut

/-- Peers 1, 2 and 3 and the static peer 9 under a cap of three; peer 1 dates its announces ahead. -/
def fullTable : PeerTable :=
  [(1, 5000), (2, 100), (3, 100), (9, 100)].foldl (fun t heard =>
    (t.handleAnnounce (FixedBytes.replicate 16 heard.1) (sampleAnnounce heard.2 18) (some 1) 100 false).2)
    (new { defaultConfig with maxPeers := 3, staticPeers := [FixedBytes.replicate 16 9] })

/-- Peer 1 took nothing of what it was offered, peer 2 a quarter, the others all of it. -/
def sampleTraffic (hash : DestinationHash) : PeerTraffic where
  offered := 8
  outgoing := if hash = FixedBytes.replicate 16 1 then 0 else if hash = FixedBytes.replicate 16 2 then 2 else 8
  lastSyncAttempt := 500
  alive := true

/-- At second 1000 the pass drops peer 2 and keeps peer 1, which is judged too and accepted less. -/
theorem rotate_keeps_lower_rate :
    ((fullTable.rotate 1000 sampleTraffic (fun _ => 0)).1 = [FixedBytes.replicate 16 2] ∧
      (fullTable.rotate 1000 sampleTraffic (fun _ => 0)).2.peers.contains (FixedBytes.replicate 16 1) = true) ∧
    (∃ peer, fullTable.Judged sampleTraffic (fun _ => 0) (FixedBytes.replicate 16 1) peer) ∧
    (sampleTraffic (FixedBytes.replicate 16 1)).rate < (sampleTraffic (FixedBytes.replicate 16 2)).rate := by
  refine ⟨by decide, ⟨Peer.fromAnnounce (FixedBytes.replicate 16 1) (sampleAnnounce 5000 18) false 100,
    by decide, .inl rfl, rfl, rfl, .inr (by decide)⟩, ?_⟩
  have first : (sampleTraffic (FixedBytes.replicate 16 1)).outgoing = 0 := by decide
  have second : (sampleTraffic (FixedBytes.replicate 16 2)).outgoing = 2 := by decide
  unfold PeerTraffic.rate
  rw [first, second]
  norm_num [sampleTraffic]

end PeerTable

end Leviculum.Peering
