import Leviculum.Transport.Announce
import Leviculum.Lib.Execution

/-! Runs of announces of one destination against its live path entry, and when an
older emission can take the route. -/

namespace Leviculum.Transport.Replay
open Execution

structure State where
  route : Route := {}
  /-- The newest emission the entry was installed from. -/
  newest : Nat := 0
  clockMs : Nat := 0

inductive Event where
  | announce (a : Announce)
  /-- Anything else the node does with the destination: every row but the path may
  change, and forwarding over the path extends its life. -/
  | elsewhere (rows : Route) (expiresMs : Nat)

/-- The entry is not there yet, or it is neither expired nor unresponsive. -/
def Live (r : Route) (nowMs : Nat) : Prop :=
  ∀ path ∈ r.path, nowMs < path.expiresMs ∧ r.pathIsUnresponsive = false

instance (r : Route) (nowMs : Nat) : Decidable (Live r nowMs) :=
  inferInstanceAs (Decidable (∀ path ∈ r.path, _))

def step (cfg : AnnounceConfig) (s : State) : Event → Option State
  | .announce a =>
    if s.clockMs ≤ a.nowMs ∧ Live s.route a.nowMs then
      let (outcome, route) := s.route.handleAnnounce cfg a
      let newest := match outcome with
        | .installed _ => max s.newest a.emitted
        | _ => s.newest
      some { route, newest, clockMs := a.nowMs }
    else none
  | .elsewhere rows expiresMs =>
    some { s with
      route := { rows with
        path := s.route.path.map fun path => { path with expiresMs }
        pathState := s.route.pathState } }

def forwarding (r : Route) : Option (Nat × Nat × Option TruncatedHash) :=
  r.path.map fun path => (path.hops, path.interfaceIndex, path.nextHop)

/-- The gates between an admitted announce and the acceptance rule, with the rate
window that keeps a refused one from being recorded. -/
def Passes (cfg : AnnounceConfig) (r : Route) (a : Announce) : Prop :=
  a.admitted = true ∧ a.hops ≤ cfg.maxHops ∧ r.isReplay cfg a = false ∧
    (r.refusesProvenLoop a).1 = false ∧ (r.rateWindow cfg a).1 = false

/-- After making room for one more blob the window still holds one of the newest
emission. -/
def RoomBesideNewest (cfg : AnnounceConfig) (s : State) : Prop :=
  ∀ path ∈ s.route.path, ∃ blob ∈ path.randomBlobs.drop
    (path.randomBlobs.length + 1 - cfg.maxRandomBlobs), s.newest ≤ emissionFromRandomHash blob

/-- No older announce that passes the gates finds the window full with its only blob
of the newest emission at the front. -/
def KeepsNewest (cfg : AnnounceConfig) (s : State) : Event → Prop
  | .announce a => Passes cfg s.route a → a.emitted < s.newest → RoomBesideNewest cfg s
  | .elsewhere _ _ => True

theorem rateWindow_congr (cfg : AnnounceConfig) {r r' : Route} (a : Announce)
    (same : r'.announce = r.announce) : (r'.rateWindow cfg a).1 = (r.rateWindow cfg a).1 := by
  unfold Route.rateWindow
  rw [same]
  split
  · rfl
  · split <;> rfl

theorem announce_noteDirectLinkEvidence (cfg : AnnounceConfig) (r : Route) (a : Announce) :
    (r.noteDirectLinkEvidence cfg a).announce = r.announce := by
  unfold Route.noteDirectLinkEvidence
  split <;> rfl

theorem path_rateWindow (cfg : AnnounceConfig) (r : Route) (a : Announce) :
    ((r.noteDirectLinkEvidence cfg a).rateWindow cfg a).2.path = r.path ∧
      ((r.noteDirectLinkEvidence cfg a).rateWindow cfg a).2.pathState = r.pathState := by
  have noted : (r.noteDirectLinkEvidence cfg a).path = r.path ∧
      (r.noteDirectLinkEvidence cfg a).pathState = r.pathState := by
    unfold Route.noteDirectLinkEvidence
    split <;> exact ⟨rfl, rfl⟩
  unfold Route.rateWindow
  split
  · exact noted
  · split <;> exact noted

theorem path_scheduleAnnounce (cfg : AnnounceConfig) (r : Route) (a : Announce)
    (rateLimited : Bool) : (r.scheduleAnnounce cfg a rateLimited).path = r.path := by
  have rate : (r.checkAnnounceRate cfg a).2.path = r.path := by
    unfold Route.checkAnnounceRate
    split
    · rfl
    · split
      · rfl
      · dsimp only
        split_ifs <;> rfl
  unfold Route.scheduleAnnounce
  dsimp only
  split_ifs <;> first | rfl | exact rate

/-- The rows the acceptance rule compares an announce with. -/
def SamePath (r r' : Route) : Prop := r'.path = r.path ∧ r'.pathState = r.pathState

/-- What an announce can do to the path entry: nothing, push its blob or install. -/
theorem handleAnnounce_cases (cfg : AnnounceConfig) (r : Route) (a : Announce) :
    ((r.handleAnnounce cfg a).2.path = r.path ∧
        ∀ reason, (r.handleAnnounce cfg a).1 ≠ .installed reason) ∨
      (Passes cfg r a ∧ (r.handleAnnounce cfg a).1 = .recorded ∧
        (r.handleAnnounce cfg a).2.path = (r.recordRandomBlob cfg a).path) ∨
      ∃ reason r', SamePath r r' ∧ r'.acceptReason cfg a = some reason ∧
        (r.handleAnnounce cfg a).1 = .installed reason ∧
        (r.handleAnnounce cfg a).2.path = (r.installPath cfg a).path := by
  unfold Route.handleAnnounce
  split
  next => exact .inl ⟨rfl, nofun⟩
  next admitted =>
  split
  next => exact .inl ⟨rfl, nofun⟩
  next hops =>
  split
  next => exact .inl ⟨rfl, nofun⟩
  next fresh =>
  have samePath := path_rateWindow cfg (r.refusesProvenLoop a).2 a
  have sameWindow : (((r.refusesProvenLoop a).2.noteDirectLinkEvidence cfg a).rateWindow cfg a).1 =
      (r.rateWindow cfg a).1 :=
    rateWindow_congr cfg a (announce_noteDirectLinkEvidence cfg _ a)
  dsimp only
  generalize ((r.refusesProvenLoop a).2.noteDirectLinkEvidence cfg a).rateWindow cfg a = window
    at samePath sameWindow ⊢
  obtain ⟨recent, noted⟩ := window
  simp only at samePath sameWindow ⊢
  have same : noted.path = r.path ∧ noted.pathState = r.pathState := samePath
  split
  next => exact .inl ⟨rfl, nofun⟩
  next open_ =>
  split
  next => exact .inl ⟨same.1, nofun⟩
  next =>
  split
  next refused =>
    split
    next =>
      refine .inl ⟨?_, nofun⟩
      dsimp only
      split <;> exact same.1
    next outside =>
      refine .inr (.inl ⟨⟨by simpa using admitted, by omega, by simpa using fresh,
        by simpa using open_, ?_⟩, rfl, ?_⟩)
      · exact sameWindow.symm.trans (by simpa using outside)
      · simp only [Route.recordRandomBlob]
        rw [← same.1]
        split <;> rfl
  next reason accepted =>
    refine .inr (.inr ⟨reason, noted, same, accepted, rfl, ?_⟩)
    rw [path_scheduleAnnounce]
    have kept : (noted.markAccepted reason).path = r.path := by
      unfold Route.markAccepted
      split <;> exact same.1
    simp only [Route.installPath]
    split <;> simp only [kept]

theorem timebase_le_of_accept {cfg : AnnounceConfig} {r : Route} {path : PathEntry} {a : Announce}
    {reason : AcceptReason} (live : a.nowMs < path.expiresMs)
    (accepted : r.acceptOver cfg path a = some reason) :
    maxEmissionFromBlobs path.randomBlobs ≤ a.emitted := by
  unfold Route.acceptOver at accepted
  dsimp only at accepted
  split_ifs at accepted <;> omega

structure Inv (s : State) : Prop where
  fresh : s.route.path = none → s.newest = 0
  window : ∀ path ∈ s.route.path,
    ∃ blob ∈ path.randomBlobs, s.newest ≤ emissionFromRandomHash blob

theorem newest_le_of_install {cfg : AnnounceConfig} {s : State} {r' : Route} {a : Announce}
    {reason : AcceptReason} (inv : Inv s) (live : Live s.route a.nowMs)
    (same : SamePath s.route r') (accepted : r'.acceptReason cfg a = some reason) :
    s.newest ≤ a.emitted := by
  cases found : s.route.path with
  | none =>
    rw [inv.fresh found]
    exact Nat.zero_le _
  | some path =>
    simp only [Route.acceptReason, same.1, found] at accepted
    obtain ⟨blob, member, newer⟩ := inv.window path found
    have timebase := timebase_le_of_accept (live path found).1 accepted
    exact Nat.le_trans newer (Nat.le_trans (emission_le_max member) timebase)

theorem mem_installPath {cfg : AnnounceConfig} (positive : 0 < cfg.maxRandomBlobs) (r : Route)
    (a : Announce) : ∀ path ∈ (r.installPath cfg a).path, a.randomHash ∈ path.randomBlobs := by
  intro path found
  cases found
  simp [PathEntry.appendedRandomBlobs, show cfg.maxRandomBlobs ≠ 0 by omega]

theorem mem_recordRandomBlob {cfg : AnnounceConfig} (positive : 0 < cfg.maxRandomBlobs)
    {r : Route} {a : Announce} {before after : PathEntry} (found : r.path = some before)
    (recorded : (r.recordRandomBlob cfg a).path = some after) :
    after.randomBlobs =
      before.randomBlobs.drop (before.randomBlobs.length + 1 - cfg.maxRandomBlobs) ++
        [a.randomHash] := by
  simp only [Route.recordRandomBlob, found, Option.map_some, Option.some.injEq] at recorded
  subst recorded
  simp only [List.length_append, List.length_singleton]
  rw [List.drop_append_of_le_length (by omega)]

theorem step_inv (cfg : AnnounceConfig) (positive : 0 < cfg.maxRandomBlobs) (s : State)
    (event : Event) (s' : State) (inv : Inv s) (kept : KeepsNewest cfg s event)
    (stepped : step cfg s event = some s') : Inv s' := by
  cases event with
  | elsewhere rows expiresMs =>
    obtain rfl := Option.some.inj stepped
    refine ⟨?_, ?_⟩
    · intro absent
      exact inv.fresh (Option.map_eq_none_iff.mp absent)
    · intro path member
      obtain ⟨before, found, rfl⟩ := Option.map_eq_some_iff.mp member
      exact inv.window before found
  | announce a =>
    simp only [step] at stepped
    split at stepped
    next enabled =>
      obtain rfl := Option.some.inj stepped
      rcases handleAnnounce_cases cfg s.route a with
        ⟨path, other⟩ | ⟨passes, outcome, path⟩ | ⟨reason, r', same, accepted, outcome, path⟩
      · have newest : (match (s.route.handleAnnounce cfg a).1 with
            | .installed _ => max s.newest a.emitted
            | _ => s.newest) = s.newest := by
          split
          next reason installed => exact absurd installed (other reason)
          next => rfl
        refine ⟨?_, ?_⟩ <;> rw [newest, path]
        · exact inv.fresh
        · exact inv.window
      · refine ⟨?_, ?_⟩ <;> simp only [outcome, path]
        · intro absent
          exact inv.fresh (Option.map_eq_none_iff.mp absent)
        · intro after recorded
          obtain ⟨before, found, -⟩ := Option.map_eq_some_iff.mp recorded
          rw [mem_recordRandomBlob positive found recorded]
          rcases Nat.lt_or_ge a.emitted s.newest with older | newer
          · obtain ⟨blob, member, newest⟩ := kept passes older before found
            exact ⟨blob, List.mem_append_left _ member, newest⟩
          · exact ⟨a.randomHash, List.mem_append_right _ (List.mem_singleton_self _), newer⟩
      · have newer := newest_le_of_install inv enabled.2 same accepted
        refine ⟨?_, ?_⟩ <;> simp only [outcome, path]
        · intro absent
          cases absent
        · intro after installed
          exact ⟨a.randomHash, mem_installPath positive s.route a after installed,
            Nat.max_le.mpr ⟨newer, Nat.le_refl _⟩⟩
    next => cases stepped

/-- As long as the newest emission is kept in the window, an older announce never
replaces what forwarding reads of the entry. -/
theorem older_announce_keeps_forwarding (cfg : AnnounceConfig) (positive : 0 < cfg.maxRandomBlobs)
    (events : List Event) (s s' : State) (a : Announce)
    (run : exec (step cfg) {} events = some s) (kept : Along (step cfg) (KeepsNewest cfg) {} events)
    (older : a.emitted < s.newest) (stepped : step cfg s (.announce a) = some s') :
    forwarding s'.route = forwarding s.route := by
  have start : Inv {} := ⟨fun _ => rfl, nofun⟩
  have inv := exec_invariant_along (step_inv cfg positive) start kept run
  simp only [step] at stepped
  split at stepped
  next enabled =>
    obtain rfl := Option.some.inj stepped
    rcases handleAnnounce_cases cfg s.route a with
      ⟨path, -⟩ | ⟨-, -, path⟩ | ⟨reason, r', same, accepted, -, -⟩
    · simp only [forwarding, path]
    · simp only [forwarding, path, Route.recordRandomBlob, Option.map_map]
      rfl
    · exact absurd (newest_le_of_install inv enabled.2 same accepted) (by omega)
  next => cases stepped

/-- A node with default limits, every interface a plain one. -/
def plainNode : AnnounceConfig where
  pathExpiryMs := fun _ => 604800000
  isLocalClient := fun _ => false
  interfaceTransit := fun _ => true
  effectiveAnnounceRate := fun _ => none
  announceWaitMs := fun _ _ => 0

/-- An announce emitted at second `emission`, heard directly on interface `iface`. -/
def heard (emission : UInt8) (iface nowMs : Nat) : Announce where
  randomHash := FixedBytes.of [0, 0, 0, 0, 0, 0, 0, 0, 0, emission]
  hops := 1
  interfaceIndex := iface
  transportId := none
  ingressPeer := none
  isPathResponse := false
  raw := []
  nowMs := nowMs

theorem older_announce_keeps_forwarding_once :
    ∃ s s', exec (step plainNode) {} [.announce (heard 200 0 0)] = some s ∧
      step plainNode s (.announce (heard 100 1 3000)) = some s' ∧
      forwarding s'.route = forwarding s.route :=
  ⟨_, _, rfl, rfl, older_announce_keeps_forwarding plainNode (by decide)
    [.announce (heard 200 0 0)] _ _ (heard 100 1 3000) rfl
    ⟨fun _ older => absurd older (Nat.not_lt_zero _), fun _ _ => trivial⟩ (by decide) rfl⟩

/-- The newest announce of a destination, then one older one per window slot. -/
def flood : List Event :=
  .announce (heard 200 0 0) ::
    (List.range 64).map fun i => .announce (heard (UInt8.ofNat (i + 1)) 0 (3000 + i))

theorem older_announce_takes_route :
    ∃ s s', exec (step plainNode) {} flood = some s ∧ (heard 100 1 5000).emitted < s.newest ∧
      step plainNode s (.announce (heard 100 1 5000)) = some s' ∧
      forwarding s'.route ≠ forwarding s.route := by
  have taken : (exec (step plainNode) {} flood).any (fun s =>
      decide ((heard 100 1 5000).emitted < s.newest) &&
        (step plainNode s (.announce (heard 100 1 5000))).any
          (fun s' => decide (forwarding s'.route ≠ forwarding s.route))) = true := by
    decide +kernel
  obtain ⟨s, run, rest⟩ := (Option.any_eq_true _ _).mp taken
  rw [Bool.and_eq_true, decide_eq_true_eq, Option.any_eq_true] at rest
  obtain ⟨older, s', stepped, changed⟩ := rest
  exact ⟨s, s', run, older, stepped, of_decide_eq_true changed⟩

end Leviculum.Transport.Replay
