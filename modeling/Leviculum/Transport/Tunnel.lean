import Leviculum.Transport.Node
import Leviculum.Lib.OrdMap

/-! Tunnels: the paths learned over a connection, kept through its loss and put back into the path table when
the peer returns. -/

namespace Leviculum.Transport

abbrev TunnelId := FixedBytes 32

def tunnelTimeoutMs : Nat := 8 * 60 * 60 * 1000
def tunnelPathTimeoutMs : Nat := 8 * 60 * 60 * 1000
def tunnelCullIntervalMs : Nat := 60000
def roamingPathTimeMs : Nat := 60 * 60 * 6 * 1000

def saturatingAddU64 (a b : Nat) : Nat := min (a + b) (2 ^ 64 - 1)

structure TunnelPathEntry where
  hops : Nat
  expiresMs : Nat
  randomBlobs : List RandomHash
  nextHop : Option TruncatedHash
  timestampMs : Nat
  deriving DecidableEq

/-- The snapshot as a path over the interface the peer returned on. -/
def TunnelPathEntry.rehomed (path : TunnelPathEntry) (interfaceIndex : Nat) : PathEntry where
  hops := path.hops
  expiresMs := path.expiresMs
  interfaceIndex := interfaceIndex
  randomBlobs := path.randomBlobs
  nextHop := path.nextHop
  viaPeer := none

structure TunnelEntry where
  interfaceIndex : Option Nat
  paths : OrdMap TruncatedHash TunnelPathEntry
  expiresMs : Nat

def TunnelEntry.new (interfaceIndex : Option Nat) (expiresMs : Nat) : TunnelEntry := ⟨interfaceIndex, ∅, expiresMs⟩

structure TunnelTables where
  routing : Routing
  pathStates : Table PathState
  tunnels : OrdMap TunnelId TunnelEntry
  interfaceTunnelIds : OrdMap Nat TunnelId
  tunnelsLastCulledMs : Nat

namespace TunnelTables

abbrev paths (s : TunnelTables) : Table PathEntry := s.routing.paths

def shouldRestoreTunnelPath (s : TunnelTables) (dest : TruncatedHash) (path : TunnelPathEntry) (nowMs : Nat) : Bool :=
  match s.paths.get? dest with
  | some existing =>
    if path.hops ≤ existing.hops ∨ nowMs > existing.expiresMs then
      maxEmissionFromBlobs path.randomBlobs ≥ maxEmissionFromBlobs existing.randomBlobs
    else false
  | none => nowMs < path.expiresMs

def restorePath (s : TunnelTables) (dest : TruncatedHash) (path : TunnelPathEntry) (interfaceIndex : Nat) :
    TunnelTables :=
  { s with
    routing := { s.routing with paths := s.paths.insert dest (path.rehomed interfaceIndex) }
    pathStates := s.pathStates.insert dest .unknown }

/-- The loop of `handle_tunnel` over the snapshots, with the destinations it found no use for. -/
def restorePaths (nowMs interfaceIndex : Nat) :
    List (TruncatedHash × TunnelPathEntry) → TunnelTables → TunnelTables × List TruncatedHash
  | [], s => (s, [])
  | (dest, path) :: rest, s =>
    if s.shouldRestoreTunnelPath dest path nowMs then
      restorePaths nowMs interfaceIndex rest (s.restorePath dest path interfaceIndex)
    else
      let (s, deprecated) := restorePaths nowMs interfaceIndex rest s
      (s, dest :: deprecated)

def handleTunnel (s : TunnelTables) (nowMs interfaceIndex : Nat) (tunnelId : TunnelId) : TunnelTables :=
  let expires := saturatingAddU64 nowMs tunnelTimeoutMs
  let s := { s with interfaceTunnelIds := s.interfaceTunnelIds.insert interfaceIndex tunnelId }
  match s.tunnels.get? tunnelId with
  | none => { s with tunnels := s.tunnels.insert tunnelId (.new (some interfaceIndex) expires) }
  | some entry =>
    let entry := { entry with interfaceIndex := some interfaceIndex, expiresMs := expires }
    let (s, deprecated) := restorePaths nowMs interfaceIndex entry.paths.entries s
    { s with
      tunnels := s.tunnels.insert tunnelId
        { entry with paths := entry.paths.retain (fun dest _ => !deprecated.contains dest) } }

/-- A path learned on an interface with a tunnel is kept with the tunnel as well. -/
def associateTunnelPath (s : TunnelTables) (interfaceIndex : Nat) (dest : TruncatedHash) (entry : PathEntry)
    (nowMs : Nat) : TunnelTables :=
  match s.interfaceTunnelIds.get? interfaceIndex with
  | none => s
  | some tunnelId =>
    match s.tunnels.get? tunnelId with
    | some tunnel =>
      { s with
        tunnels := s.tunnels.insert tunnelId
          { tunnel with
            paths := tunnel.paths.insert dest
              { hops := entry.hops
                expiresMs := entry.expiresMs
                randomBlobs := entry.randomBlobs
                nextHop := entry.nextHop
                timestampMs := nowMs }
            expiresMs := saturatingAddU64 nowMs tunnelTimeoutMs } }
    | none => { s with interfaceTunnelIds := s.interfaceTunnelIds.erase interfaceIndex }

def cullTunnels (s : TunnelTables) (nowMs : Nat) : TunnelTables :=
  if nowMs < saturatingAddU64 s.tunnelsLastCulledMs tunnelCullIntervalMs then s
  else
    { s with
      tunnelsLastCulledMs := nowMs
      tunnels := (s.tunnels.retain (fun _ tunnel => !(nowMs > tunnel.expiresMs))).mapValues (fun _ tunnel =>
        { tunnel with
          paths := tunnel.paths.retain (fun _ path =>
            nowMs ≤ saturatingAddU64 path.timestampMs tunnelPathTimeoutMs) })
      interfaceTunnelIds := s.interfaceTunnelIds.retain (fun _ id =>
        !(s.tunnels.get? id).any (fun tunnel => nowMs > tunnel.expiresMs)) }

def forwarded (s : TunnelTables) (traffic : List (TruncatedHash × Nat)) : TunnelTables :=
  { s with routing := traffic.foldl (fun routing packet => routing.refreshPath packet.1 packet.2) s.routing }

/-! ### What a return restores -/

def newcomers (s : TunnelTables) (nowMs : Nat) (snapshots : List (TruncatedHash × TunnelPathEntry)) : Nat :=
  snapshots.countP (fun e => (s.paths.get? e.1).isNone && decide (nowMs < e.2.expiresMs))

def displaced (s : TunnelTables) (nowMs : Nat) (snapshots : List (TruncatedHash × TunnelPathEntry)) :
    List TruncatedHash :=
  (s.paths.dropped (s.newcomers nowMs snapshots)).map Prod.fst

theorem shouldRestore_congr {s s' : TunnelTables} {dest : TruncatedHash}
    (same : s'.paths.get? dest = s.paths.get? dest) (path : TunnelPathEntry) (nowMs : Nat) :
    s'.shouldRestoreTunnelPath dest path nowMs = s.shouldRestoreTunnelPath dest path nowMs := by
  unfold shouldRestoreTunnelPath
  rw [same]

theorem newcomers_congr {s s' : TunnelTables} {nowMs : Nat} {snapshots : List (TruncatedHash × TunnelPathEntry)}
    (same : ∀ dest ∈ snapshots.map Prod.fst, s'.paths.get? dest = s.paths.get? dest) :
    s'.newcomers nowMs snapshots = s.newcomers nowMs snapshots := by
  unfold newcomers
  apply List.countP_congr
  intro e member
  rw [same e.1 (List.mem_map_of_mem member)]

theorem newcomers_cons (s : TunnelTables) (nowMs : Nat) (dest : TruncatedHash) (path : TunnelPathEntry)
    (rest : List (TruncatedHash × TunnelPathEntry)) :
    s.newcomers nowMs ((dest, path) :: rest) =
      s.newcomers nowMs rest + if (s.paths.get? dest).isNone && decide (nowMs < path.expiresMs) then 1 else 0 :=
  List.countP_cons

def afterSnapshot (s : TunnelTables) (nowMs interfaceIndex : Nat) (dest : TruncatedHash) (path : TunnelPathEntry) :
    Option PathEntry :=
  if s.shouldRestoreTunnelPath dest path nowMs then some (path.rehomed interfaceIndex) else s.paths.get? dest

/-- The table is large enough for the destinations of the snapshots, and drops none of theirs for another. -/
structure Accommodates (s : TunnelTables) (nowMs : Nat) (snapshots : List (TruncatedHash × TunnelPathEntry)) :
    Prop where
  roomy : s.newcomers nowMs snapshots ≤ s.paths.capacity
  spared : ∀ dest ∈ snapshots.map Prod.fst, dest ∉ s.displaced nowMs snapshots

theorem Accommodates.tail {s : TunnelTables} {nowMs : Nat} {snapshot : TruncatedHash × TunnelPathEntry}
    {rest : List (TruncatedHash × TunnelPathEntry)} (able : s.Accommodates nowMs (snapshot :: rest)) :
    s.Accommodates nowMs rest ∧ s.displaced nowMs rest ⊆ s.displaced nowMs (snapshot :: rest) := by
  have fewer : s.newcomers nowMs rest ≤ s.newcomers nowMs (snapshot :: rest) :=
    (List.sublist_cons_self _ _).countP_le
  have subset : s.displaced nowMs rest ⊆ s.displaced nowMs (snapshot :: rest) :=
    List.map_subset _ (List.take_subset_take_left _ (by omega))
  exact ⟨⟨fewer.trans able.roomy, fun dest member gone =>
    able.spared dest (List.mem_cons_of_mem _ member) (subset gone)⟩, subset⟩

/-- The first snapshot costs nothing but what the table drops anyway, and leaves it able to take the others. -/
theorem Accommodates.restore {s : TunnelTables} {nowMs : Nat} {dest : TruncatedHash} {path : TunnelPathEntry}
    {rest : List (TruncatedHash × TunnelPathEntry)} (able : s.Accommodates nowMs ((dest, path) :: rest))
    (apart : dest ∉ rest.map Prod.fst) (restores : s.shouldRestoreTunnelPath dest path nowMs = true)
    (interfaceIndex : Nat) :
    (∀ other, other ≠ dest → other ∉ s.displaced nowMs ((dest, path) :: rest) →
      (s.restorePath dest path interfaceIndex).paths.get? other = s.paths.get? other) ∧
    (s.restorePath dest path interfaceIndex).Accommodates nowMs rest ∧
    (s.restorePath dest path interfaceIndex).displaced nowMs rest ⊆ s.displaced nowMs ((dest, path) :: rest) := by
  have counted := newcomers_cons s nowMs dest path rest
  have roomy := able.roomy
  have spared := able.spared dest List.mem_cons_self
  -- what one restored snapshot changes, from which the count of the others follows
  have others : ∀ other, other ≠ dest → other ∉ s.displaced nowMs ((dest, path) :: rest) →
      (s.restorePath dest path interfaceIndex).paths.get? other = s.paths.get? other := by
    intro other distinct kept
    cases known : s.paths.get? dest with
    | some existing =>
      refine (BoundedMap.get?_insert_of_room (.inl ?_) _ other).trans (if_neg distinct)
      rw [BoundedMap.contains, known, Option.isSome_some]
    | none =>
      have fresh : nowMs < path.expiresMs := by
        rw [shouldRestoreTunnelPath, known] at restores
        exact of_decide_eq_true restores
      simp only [known, Option.isNone_none, fresh, decide_true, Bool.and_self, if_true] at counted
      rw [displaced, counted] at kept
      exact BoundedMap.get?_insert_of_spared distinct kept _
  have same : (s.restorePath dest path interfaceIndex).newcomers nowMs rest = s.newcomers nowMs rest := by
    refine newcomers_congr fun other member => others other (fun here => apart (here ▸ member)) ?_
    exact able.spared other (List.mem_cons_of_mem _ member)
  have subset : (s.restorePath dest path interfaceIndex).displaced nowMs rest ⊆
      s.displaced nowMs ((dest, path) :: rest) := by
    refine List.map_subset _ ?_
    rw [same]
    cases known : s.paths.get? dest with
    | some existing =>
      simp only [known, Option.isNone_some, Bool.false_and, Bool.false_eq_true, if_false, Nat.add_zero] at counted
      rw [displaced, counted] at spared
      rw [counted]
      exact BoundedMap.dropped_insert_known (by rw [BoundedMap.contains, known, Option.isSome_some]) spared _
    | none =>
      have fresh : nowMs < path.expiresMs := by
        rw [shouldRestoreTunnelPath, known] at restores
        exact of_decide_eq_true restores
      simp only [known, Option.isNone_none, fresh, decide_true, Bool.and_self, if_true] at counted
      rw [counted] at roomy ⊢
      exact BoundedMap.dropped_insert_new (BoundedMap.contains_eq_false.mpr known) roomy _
  refine ⟨others, ⟨?_, fun other member gone => ?_⟩, subset⟩
  · rw [same]
    exact (Nat.le_add_right _ _).trans (counted ▸ roomy)
  · exact able.spared other (List.mem_cons_of_mem _ member) (subset gone)

theorem get?_restorePaths (nowMs interfaceIndex : Nat) (snapshots : List (TruncatedHash × TunnelPathEntry))
    {s : TunnelTables} (distinct : (snapshots.map Prod.fst).Nodup) (able : s.Accommodates nowMs snapshots) :
    (∀ dest, dest ∉ snapshots.map Prod.fst → dest ∉ s.displaced nowMs snapshots →
      (restorePaths nowMs interfaceIndex snapshots s).1.paths.get? dest = s.paths.get? dest) ∧
    ∀ dest path, (dest, path) ∈ snapshots →
      (restorePaths nowMs interfaceIndex snapshots s).1.paths.get? dest =
        s.afterSnapshot nowMs interfaceIndex dest path := by
  induction snapshots generalizing s with
  | nil => exact ⟨fun _ _ _ => rfl, fun _ _ member => nomatch member⟩
  | cons snapshot rest ih =>
    obtain ⟨first, taken⟩ := snapshot
    obtain ⟨apart, distinctRest⟩ := List.nodup_cons.mp distinct
    have spared := able.spared first List.mem_cons_self
    unfold restorePaths
    by_cases restores : s.shouldRestoreTunnelPath first taken nowMs = true
    · rw [if_pos restores]
      obtain ⟨unchanged, ableRest, subset⟩ := able.restore apart restores interfaceIndex
      obtain ⟨others, listed⟩ := ih (s := s.restorePath first taken interfaceIndex) distinctRest ableRest
      have installed : (s.restorePath first taken interfaceIndex).paths.get? first =
          some (taken.rehomed interfaceIndex) := BoundedMap.get?_insertPreferring_self _ _ _ _
      refine ⟨fun dest unlisted kept => ?_, fun dest path member => ?_⟩
      · have notFirst : dest ≠ first := fun same => unlisted (same ▸ List.mem_cons_self)
        have notRest : dest ∉ rest.map Prod.fst := fun later => unlisted (List.mem_cons_of_mem _ later)
        rw [others dest notRest (fun gone => kept (subset gone)), unchanged dest notFirst kept]
      · rcases List.mem_cons.mp member with here | later
        · cases here
          rw [others first apart (fun gone => spared (subset gone)), installed, afterSnapshot, if_pos restores]
        · have inRest : dest ∈ rest.map Prod.fst := List.mem_map.mpr ⟨(dest, path), later, rfl⟩
          have notFirst : dest ≠ first := fun same => apart (same ▸ inRest)
          have same := unchanged dest notFirst (able.spared dest (List.mem_cons_of_mem _ inRest))
          rw [listed dest path later, afterSnapshot, afterSnapshot, shouldRestore_congr same, same]
    · rw [if_neg restores]
      obtain ⟨ableRest, subset⟩ := able.tail
      obtain ⟨others, listed⟩ := ih distinctRest ableRest
      refine ⟨fun dest unlisted kept => ?_, fun dest path member => ?_⟩
      · exact others dest (List.not_mem_of_not_mem_cons unlisted) (fun gone => kept (subset gone))
      · rcases List.mem_cons.mp member with here | later
        · cases here
          rw [afterSnapshot, if_neg restores]
          exact others first apart (fun gone => spared (subset gone))
        · exact listed dest path later

theorem paths_handleTunnel_new {s : TunnelTables} {tunnelId : TunnelId} (unknown : s.tunnels.get? tunnelId = none)
    (nowMs interfaceIndex : Nat) : (s.handleTunnel nowMs interfaceIndex tunnelId).paths = s.paths := by
  unfold handleTunnel
  dsimp only
  rw [unknown]

theorem paths_handleTunnel {s : TunnelTables} {tunnelId : TunnelId} {entry : TunnelEntry}
    (known : s.tunnels.get? tunnelId = some entry) (nowMs interfaceIndex : Nat) :
    (s.handleTunnel nowMs interfaceIndex tunnelId).paths =
      (restorePaths nowMs interfaceIndex entry.paths.entries
        { s with interfaceTunnelIds := s.interfaceTunnelIds.insert interfaceIndex tunnelId }).1.paths := by
  unfold handleTunnel
  dsimp only
  rw [known]

/-- Every unexpired path is still there or has an unexpired successor, which expires no earlier and was emitted
no earlier. -/
def KeepsLiveRoutes (before after : Table PathEntry) (nowMs : Nat) : Prop :=
  ∀ dest path, before.get? dest = some path → nowMs ≤ path.expiresMs →
    ∃ path', after.get? dest = some path' ∧ nowMs ≤ path'.expiresMs ∧ path.expiresMs ≤ path'.expiresMs ∧
      maxEmissionFromBlobs path.randomBlobs ≤ maxEmissionFromBlobs path'.randomBlobs

/-- What the path table drops for the destinations a tunnel adds has expired and is none of the tunnel's. -/
def DropsExpired (s : TunnelTables) (nowMs : Nat) (tunnelId : TunnelId) : Prop :=
  ∀ entry, s.tunnels.get? tunnelId = some entry →
    ∀ e ∈ s.paths.dropped (s.newcomers nowMs entry.paths.entries),
      e.2.expiresMs < nowMs ∧ entry.paths.get? e.1 = none

/-- No snapshot that is put in an unexpired path's place expires before it. -/
def SnapshotsOutlive (s : TunnelTables) (nowMs : Nat) (tunnelId : TunnelId) : Prop :=
  ∀ entry dest snapshot path, s.tunnels.get? tunnelId = some entry → entry.paths.get? dest = some snapshot →
    s.paths.get? dest = some path → nowMs ≤ path.expiresMs → snapshot.hops ≤ path.hops →
    maxEmissionFromBlobs path.randomBlobs ≤ maxEmissionFromBlobs snapshot.randomBlobs →
    path.expiresMs ≤ snapshot.expiresMs

theorem shouldRestore_live_iff {s : TunnelTables} {dest : TruncatedHash} {path : PathEntry}
    {nowMs : Nat} (known : s.paths.get? dest = some path) (live : nowMs ≤ path.expiresMs)
    (snapshot : TunnelPathEntry) :
    s.shouldRestoreTunnelPath dest snapshot nowMs = true ↔
      snapshot.hops ≤ path.hops ∧
        maxEmissionFromBlobs path.randomBlobs ≤ maxEmissionFromBlobs snapshot.randomBlobs := by
  unfold shouldRestoreTunnelPath
  rw [known]
  have unexpired : ¬ nowMs > path.expiresMs := Nat.not_lt.mpr live
  by_cases short : snapshot.hops ≤ path.hops
  · simp [short]
  · simp [short, unexpired]

theorem expired_of_not_roomy {s : TunnelTables} {nowMs : Nat} {tunnelId : TunnelId} {entry : TunnelEntry}
    (expired : s.DropsExpired nowMs tunnelId) (found : s.tunnels.get? tunnelId = some entry)
    (small : ¬ s.newcomers nowMs entry.paths.entries ≤ s.paths.capacity) {dest : TruncatedHash} {path : PathEntry}
    (known : s.paths.get? dest = some path) : path.expiresMs < nowMs := by
  have all : s.paths.dropped (s.newcomers nowMs entry.paths.entries) = s.paths.entries :=
    List.take_of_length_le (by omega)
  have gone := expired entry found (dest, path)
  rw [all] at gone
  exact (gone (BoundedMap.get?_eq_some.mp known)).1

theorem DropsExpired.accommodates {s : TunnelTables} {nowMs : Nat} {tunnelId : TunnelId} {entry : TunnelEntry}
    (expired : s.DropsExpired nowMs tunnelId) (found : s.tunnels.get? tunnelId = some entry)
    (roomy : s.newcomers nowMs entry.paths.entries ≤ s.paths.capacity) :
    s.Accommodates nowMs entry.paths.entries := by
  refine ⟨roomy, fun dest member gone => ?_⟩
  obtain ⟨e, dropped, rfl⟩ := List.mem_map.mp gone
  obtain ⟨⟨dest, snapshot⟩, listed, same⟩ := List.mem_map.mp member
  dsimp only at same
  have absent := (expired entry found e dropped).2
  rw [← same, OrdMap.get?_eq_some.mpr listed] at absent
  cases absent

theorem DropsExpired.kept {s : TunnelTables} {nowMs : Nat} {tunnelId : TunnelId} {entry : TunnelEntry}
    (expired : s.DropsExpired nowMs tunnelId) (found : s.tunnels.get? tunnelId = some entry) {dest : TruncatedHash}
    {path : PathEntry} (known : s.paths.get? dest = some path) (live : nowMs ≤ path.expiresMs) :
    dest ∉ s.displaced nowMs entry.paths.entries := by
  intro gone
  obtain ⟨e, dropped, rfl⟩ := List.mem_map.mp gone
  have there := BoundedMap.get?_eq_some.mpr (List.mem_of_mem_take dropped)
  cases known.symm.trans there
  exact absurd (expired entry found e dropped).1 (Nat.not_lt.mpr live)

/-- After any traffic, a returning tunnel costs no live route exactly when its snapshots outlive the paths they
replace. -/
theorem handleTunnel_keeps_live_routes_iff {s : TunnelTables} {traffic : List (TruncatedHash × Nat)}
    {nowMs interfaceIndex : Nat} {tunnelId : TunnelId} (expired : (s.forwarded traffic).DropsExpired nowMs tunnelId) :
    KeepsLiveRoutes (s.forwarded traffic).paths
        ((s.forwarded traffic).handleTunnel nowMs interfaceIndex tunnelId).paths nowMs ↔
      (s.forwarded traffic).SnapshotsOutlive nowMs tunnelId := by
  generalize s.forwarded traffic = s at expired
  cases found : s.tunnels.get? tunnelId with
  | none =>
    rw [paths_handleTunnel_new found]
    constructor
    · intro _ entry _ _ _ known
      cases found.symm.trans known
    · exact fun _ dest path known live => ⟨path, known, live, Nat.le_refl _, Nat.le_refl _⟩
  | some entry =>
    by_cases roomy : s.newcomers nowMs entry.paths.entries ≤ s.paths.capacity
    case neg =>
      have dead (dest : TruncatedHash) (path : PathEntry) (known : s.paths.get? dest = some path) :
          path.expiresMs < nowMs := expired_of_not_roomy expired found roomy known
      constructor
      · intro _ entry' dest snapshot path _ _ known live
        exact absurd (dead dest path known) (Nat.not_lt.mpr live)
      · intro _ dest path known live
        exact absurd (dead dest path known) (Nat.not_lt.mpr live)
    have able := expired.accommodates found roomy
    rw [paths_handleTunnel found]
    obtain ⟨others, listed⟩ := get?_restorePaths nowMs interfaceIndex entry.paths.entries
      (s := { s with interfaceTunnelIds := s.interfaceTunnelIds.insert interfaceIndex tunnelId })
      entry.paths.nodup ⟨able.roomy, able.spared⟩
    constructor
    · intro keeps entry' dest snapshot path known' member known live short newer
      cases found.symm.trans known'
      have restores := (shouldRestore_live_iff known live snapshot).mpr ⟨short, newer⟩
      obtain ⟨path', after, -, later, -⟩ := keeps dest path known live
      rw [listed dest snapshot (OrdMap.get?_eq_some.mp member), afterSnapshot] at after
      cases (if_pos restores).symm.trans after
      exact later
    · intro outlive dest path known live
      by_cases inTunnel : dest ∈ entry.paths.entries.map Prod.fst
      · obtain ⟨⟨dest, snapshot⟩, member, rfl⟩ := List.mem_map.mp inTunnel
        rw [listed dest snapshot member]
        by_cases restores : s.shouldRestoreTunnelPath dest snapshot nowMs = true
        · obtain ⟨short, newer⟩ := (shouldRestore_live_iff known live snapshot).mp restores
          have later := outlive entry dest snapshot path found (OrdMap.get?_eq_some.mpr member) known live short newer
          exact ⟨snapshot.rehomed interfaceIndex, if_pos restores, live.trans later, later, newer⟩
        · exact ⟨path, (if_neg restores).trans known, live, Nat.le_refl _, Nat.le_refl _⟩
      · have unchanged := others dest inTunnel (expired.kept found known live)
        exact ⟨path, unchanged.trans known, live, Nat.le_refl _, Nat.le_refl _⟩

/-! A tunnel over a roaming interface, whose paths live for six hours. -/

def hourMs : Nat := 60 * 60 * 1000
def roamingTunnel : TunnelId := FixedBytes.replicate 32 7
def roamingDest : TruncatedHash := FixedBytes.replicate 16 3

def roamingPath : PathEntry where
  hops := 2
  expiresMs := roamingPathTimeMs
  interfaceIndex := 0
  randomBlobs := [(FixedBytes.replicate 10 1)]
  nextHop := some (FixedBytes.replicate 16 4)
  viaPeer := none

/-- The tunnel is up on the first interface and one path has been learned over it. -/
def roamingTables : TunnelTables :=
  let empty : TunnelTables :=
    { routing :=
        { localDestinations := []
          localClientInterfaces := []
          sharedInstanceInterface := none
          localClientKnownDests := []
          paths := (BoundedMap.withCapacity 8).insert roamingDest roamingPath
          reverse := BoundedMap.withCapacity 8
          announceCache := BoundedMap.withCapacity 8
          receipts := []
          interfaceTransit := fun _ => true
          pathExpiryMs := fun _ => roamingPathTimeMs
          interfaceHwMtus := fun _ => none
          ifac := fun _ => none }
      pathStates := BoundedMap.withCapacity 8
      tunnels := ∅
      interfaceTunnelIds := ∅
      tunnelsLastCulledMs := 0 }
  (empty.handleTunnel 0 0 roamingTunnel).associateTunnelPath 0 roamingDest roamingPath 0

def roamingSnapshot : TunnelPathEntry where
  hops := 2
  expiresMs := roamingPathTimeMs
  randomBlobs := roamingPath.randomBlobs
  nextHop := roamingPath.nextHop
  timestampMs := 0

theorem roamingTables_snapshots {entry : TunnelEntry}
    (known : roamingTables.tunnels.get? roamingTunnel = some entry) :
    entry.paths.entries = [(roamingDest, roamingSnapshot)] := by
  have entries : (roamingTables.tunnels.get? roamingTunnel).map (fun entry => entry.paths.entries) =
      some [(roamingDest, roamingSnapshot)] := by decide
  rw [known] at entries
  exact Option.some.inj entries

/-- A peer that returns after an hour without traffic. -/
theorem early_return_keeps_live_routes :
    KeepsLiveRoutes (roamingTables.forwarded []).paths
      ((roamingTables.forwarded []).handleTunnel hourMs 1 roamingTunnel).paths hourMs := by
  have expired : (roamingTables.forwarded []).DropsExpired hourMs roamingTunnel := by
    intro entry known
    rw [roamingTables_snapshots known]
    exact nofun
  refine (handleTunnel_keeps_live_routes_iff expired).mpr ?_
  intro entry dest snapshot path known member there _ _ _
  have here := OrdMap.get?_eq_some.mp member
  rw [roamingTables_snapshots known, List.mem_singleton] at here
  cases here
  have learned : roamingTables.paths.get? roamingDest = some roamingPath := by decide
  cases learned.symm.trans there
  exact Nat.le_refl _

/-- Traffic in the fifth hour keeps the path alive until the eleventh; a return in the seventh puts the snapshot
in its place, which has expired an hour ago. -/
theorem late_return_costs_live_route :
    ¬ KeepsLiveRoutes ((roamingTables.forwarded [(roamingDest, 5 * hourMs)]).cullTunnels (7 * hourMs)).paths
      (((roamingTables.forwarded [(roamingDest, 5 * hourMs)]).cullTunnels (7 * hourMs)).handleTunnel (7 * hourMs) 1
        roamingTunnel).paths (7 * hourMs) := by
  intro keeps
  have refreshed : ((roamingTables.forwarded [(roamingDest, 5 * hourMs)]).cullTunnels (7 * hourMs)).paths.get?
      roamingDest = some { roamingPath with expiresMs := 11 * hourMs } := by decide
  obtain ⟨path', after, live, -⟩ := keeps roamingDest _ refreshed (by decide)
  have replaced : (((roamingTables.forwarded [(roamingDest, 5 * hourMs)]).cullTunnels
      (7 * hourMs)).handleTunnel (7 * hourMs) 1 roamingTunnel).paths.get? roamingDest =
        some (roamingSnapshot.rehomed 1) := by decide
  cases replaced.symm.trans after
  exact absurd live (by decide)

end TunnelTables

end Leviculum.Transport
