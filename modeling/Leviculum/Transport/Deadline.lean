import Leviculum.Transport.PollSpec
import Leviculum.Transport.QueueFate

/-! Polling again and again at one time: when the node stops asking to be woken in the
past. -/

namespace Leviculum.Transport.Timers

/-- One turn of the driver at time `t`. -/
def round (cfg : TimerConfig) (calm : Nat → Bool) (t : Nat) (s : Timers) : Timers :=
  (s.poll cfg calm t).retryPendingDiscoveries t

def rounds (cfg : TimerConfig) (calm : Nat → Nat → Bool) (t : Nat) : Nat → Timers → Timers
  | 0, s => s
  | k + 1, s => rounds cfg (fun i => calm (i + 1)) t k (s.round cfg (calm 0) t)

def WakesLater (cfg : TimerConfig) (t : Nat) (s : Timers) : Prop :=
  ∀ due ∈ s.nextDeadline cfg t, t ≤ due

instance (cfg : TimerConfig) (t : Nat) (s : Timers) : Decidable (s.WakesLater cfg t) :=
  inferInstanceAs (Decidable (∀ due ∈ s.nextDeadline cfg t, t ≤ due))

instance (t : Nat) (s : Timers) : Decidable (Spins t s) :=
  inferInstanceAs (Decidable (∃ row ∈ s.caps,
    row.1 ∈ s.dutyHoldIfaces ∧ row.2.queue ≠ [] ∧ row.2.allowedAtMs < t))

theorem wakesLater_of_deadlines {cfg : TimerConfig} {t : Nat} {s : Timers}
    (ahead : ∀ due ∈ s.deadlines cfg t, t ≤ due) : s.WakesLater cfg t :=
  fun due found => ahead due (List.min?_eq_some_iff.mp found).1

theorem not_wakesLater_of_spins {cfg : TimerConfig} {t : Nat} {s : Timers} (spins : Spins t s) :
    ¬ s.WakesLater cfg t := by
  obtain ⟨row, member, -, nonempty, past⟩ := spins
  intro ahead
  have isDue : row.2.allowedAtMs ∈ s.deadlines cfg t := by
    have deadline : capDeadline row.2 = some row.2.allowedAtMs := by simp [capDeadline, nonempty]
    have inside : row.2.allowedAtMs ∈ s.caps.filterMap fun row => capDeadline row.2 :=
      List.mem_filterMap.mpr ⟨row, member, deadline⟩
    simp only [deadlines, List.mem_append]
    exact .inl (.inl (.inr inside))
  cases found : s.nextDeadline cfg t with
  | none =>
    rw [List.min?_eq_none_iff.mp found] at isDue
    cases isDue
  | some due =>
    have least := (List.min?_eq_some_iff.mp found).2 _ isDue
    have := ahead due found
    omega

/-- A round leaves only rows that were held until now and spinning queues late. -/
theorem round_spec (cfg : TimerConfig) (calm : Nat → Bool) (t : Nat) {s : Timers}
    (ok : s.WellFormed) :
    (s.round cfg calm t).WellFormed ∧ (Spins t (s.round cfg calm t) ↔ Spins t s) ∧
      (Spins t s ∨ (s.round cfg calm t).heldEntries.length < s.heldEntries.length ∨
        (s.round cfg calm t).WakesLater cfg t) := by
  have polled := poll_spec cfg calm t ok
  obtain ⟨last, shape, asked⟩ : ∃ last, s.round cfg calm t =
      { s.poll cfg calm t with lastDiscoveryRetryMs := last } ∧
      ((s.poll cfg calm t).discoveries.entries = [] ∨ t ≤ last + discoveryRetryIntervalMs) := by
    unfold round retryPendingDiscoveries
    split
    next early => exact ⟨(s.poll cfg calm t).lastDiscoveryRetryMs, rfl, .inr (Nat.le_of_lt early)⟩
    next =>
      split
      next none_ =>
        exact ⟨(s.poll cfg calm t).lastDiscoveryRetryMs, rfl, .inl (List.isEmpty_iff.mp none_)⟩
      next => exact ⟨t, rfl, .inr (Nat.le_add_right _ _)⟩
  rw [shape]
  generalize s.poll cfg calm t = after at polled asked
  refine ⟨⟨polled.wellFormed.announces, polled.wellFormed.held⟩, polled.spins, ?_⟩
  rcases Classical.em (Spins t s) with spins | calmed
  · exact .inl spins
  rcases polled.announces with fewer | punctual
  · exact .inr (.inl fewer)
  refine .inr (.inr (wakesLater_of_deadlines ?_))
  intro due isDue
  simp only [deadlines, List.mem_append] at isDue
  rcases isDue with (((((path | receipt) | announce) | link) | cap) | discovery) | cleanup
  · obtain ⟨row, member, rfl⟩ := List.mem_map.mp path
    exact polled.paths row member
  · obtain ⟨row, member, found⟩ := List.mem_filterMap.mp receipt
    exact polled.receipts row member due found
  · obtain ⟨row, member, found⟩ := List.mem_filterMap.mp announce
    by_contra past
    exact punctual row member ⟨due, found, by omega⟩
  · obtain ⟨row, member, rfl⟩ := List.mem_map.mp link
    exact polled.links row member
  · obtain ⟨row, member, found⟩ := List.mem_filterMap.mp cap
    by_cases held : row.1 ∈ after.dutyHoldIfaces
    · -- a held queue past its release would spin
      unfold capDeadline at found
      split at found
      next => cases found
      next nonempty =>
        obtain rfl := Option.some.inj found
        by_contra past
        exact calmed (polled.spins.mp ⟨row, member, held, by simpa using nonempty, by omega⟩)
    · exact polled.caps row member held due found
  · rcases asked with none_ | ahead
    · rw [none_] at discovery
      cases discovery
    · split at discovery
      · cases discovery
      · exact List.mem_singleton.mp discovery ▸ ahead
  · split at cleanup
    · exact List.mem_singleton.mp cleanup ▸ Nat.le_add_right _ _
    · cases cleanup

theorem spins_rounds (cfg : TimerConfig) (calm : Nat → Nat → Bool) (t k : Nat) {s : Timers}
    (ok : s.WellFormed) (spins : Spins t s) : Spins t (rounds cfg calm t k s) := by
  induction k generalizing s calm with
  | zero => exact spins
  | succ k ih =>
    obtain ⟨ok', same, -⟩ := round_spec cfg (calm 0) t ok
    exact ih _ ok' (same.mpr spins)

theorem wakes_of_not_spins (cfg : TimerConfig) (calm : Nat → Nat → Bool) (t : Nat) {s : Timers}
    (ok : s.WellFormed) (calmed : ¬ Spins t s) : ∃ k, (rounds cfg calm t k s).WakesLater cfg t := by
  -- each round that still leaves something late puts a held row back for good
  generalize bound : s.heldEntries.length = n
  induction n using Nat.strongRecOn generalizing s calm with
  | _ n ih =>
    obtain ⟨ok', same, spins | fewer | wakes⟩ := round_spec cfg (calm 0) t ok
    · exact absurd spins calmed
    · obtain ⟨k, wakes⟩ := ih _ (bound ▸ fewer) (fun i => calm (i + 1)) ok' (fun h => calmed (same.mp h)) rfl
      exact ⟨k + 1, wakes⟩
    · exact ⟨1, wakes⟩

/-! Reachable states. -/

/-- Everything that writes an announce row, and anything at all elsewhere: packets of
other kinds, receipts, links, interfaces that come, go or report a duty hold. -/
inductive Step (cfg : TimerConfig) : Timers → Timers → Prop
  | poll (s : Timers) (calm : Nat → Bool) (nowMs : Nat) : Step cfg s (s.poll cfg calm nowMs)
  | retry (s : Timers) (nowMs : Nat) : Step cfg s (s.retryPendingDiscoveries nowMs)
  | announce (s : Timers) (nowMs iface : Nat) (peer : Option TruncatedHash) (raw : Bytes)
    (packet : Packet) (parsed : Packet.unpack raw = .ok packet) (hops : UInt8) :
    Step cfg s (s.handleAnnounce cfg nowMs iface peer raw { packet with hops })
  | ownAnnounce (s : Timers) (nowMs : Nat) (packet : Packet) (raw : Bytes)
    (packed : packet.pack = some raw) :
    Step cfg s (s.scheduleOwnAnnounceRetry cfg nowMs packet.destinationHash raw)
  | pathRequest (s : Timers) (nowMs iface : Nat) (dest : TruncatedHash) :
    Step cfg s (s.answerPathRequest cfg nowMs iface dest)
  | ownPathRequest (s : Timers) (nowMs iface : Nat) (packet : Packet) (raw : Bytes)
    (packed : packet.pack = some raw) :
    Step cfg s (s.answerOwnPathRequest nowMs iface packet.destinationHash raw)
  | interfaceGone (s : Timers) (iface : Nat) : Step cfg s (s.removeTargetedAnnounces iface)
  | elsewhere (s s' : Timers) (announces : ∀ row ∈ s'.announces.entries, row ∈ s.announces.entries)
    (held : ∀ row ∈ s'.heldEntries, row ∈ s.heldEntries) : Step cfg s s'

inductive Reachable (cfg : TimerConfig) : Timers → Prop
  | start (s : Timers) (announces : s.announces.entries = []) (held : s.heldEntries = []) :
    Reachable cfg s
  | step {s s' : Timers} (reached : Reachable cfg s) (next : Step cfg s s') : Reachable cfg s'

theorem pack_ne_nil {packet : Packet} {raw : Bytes} (packed : packet.pack = some raw) : raw ≠ [] := by
  unfold Packet.pack at packed
  dsimp only at packed
  split at packed
  · exact Option.some.inj packed ▸ List.cons_ne_nil _ _
  · exact Option.some.inj packed ▸ List.cons_ne_nil _ _
  · cases packed

theorem wellFormed_insert {s : Timers} (ok : s.WellFormed) {dest : TruncatedHash}
    {entry : AnnounceEntry} (packet : entry.rawPacket ≠ []) :
    { s with announces := s.announces.insert dest entry }.WellFormed := by
  refine ⟨?_, ok.held⟩
  intro row member
  rcases BoundedMap.mem_insert member with ⟨old, -⟩ | rfl
  · exact ok.announces row old
  · exact packet

theorem wellFormed_holdDisplacedAnnounce {s : Timers} (ok : s.WellFormed) (dest : TruncatedHash) :
    (s.holdDisplacedAnnounce dest).WellFormed := by
  unfold holdDisplacedAnnounce
  split
  next => exact ok
  next existing found =>
    split
    next => exact ok
    next =>
      refine ⟨ok.announces, ?_⟩
      intro row member
      rcases List.mem_cons.mp member with rfl | old
      · exact ok.announces (dest, existing) (BoundedMap.get?_eq_some.mp found)
      · exact ok.held row (List.mem_filter.mp old).1

theorem wellFormed_step {cfg : TimerConfig} {s s' : Timers} (ok : s.WellFormed)
    (next : Step cfg s s') : s'.WellFormed := by
  cases next with
  | poll calm nowMs => exact (poll_spec cfg calm nowMs ok).wellFormed
  | retry nowMs =>
    unfold retryPendingDiscoveries
    split
    · exact ok
    · split
      · exact ok
      · exact ⟨ok.announces, ok.held⟩
  | announce nowMs iface peer raw packet parsed hops =>
    have quiet := quiet_handleAnnounce cfg nowMs iface peer (unpack_ne_nil parsed)
      { packet with hops } s
    exact ⟨quiet.wellFormed ok.announces, quiet.heldEntries ▸ ok.held⟩
  | ownAnnounce nowMs packet raw packed => exact wellFormed_insert ok (pack_ne_nil packed)
  | pathRequest nowMs iface dest =>
    unfold answerPathRequest
    split
    next =>
      dsimp only
      split
      next => exact ok
      next =>
        split
        next => exact ok
        next parsed =>
          exact wellFormed_insert (wellFormed_holdDisplacedAnnounce ok dest) (unpack_ne_nil parsed)
    next => exact ok
  | ownPathRequest nowMs iface packet raw packed =>
    have cached : { s with announceCache := s.announceCache.insert packet.destinationHash raw }.WellFormed :=
      ⟨ok.announces, ok.held⟩
    exact wellFormed_insert (wellFormed_holdDisplacedAnnounce cached packet.destinationHash) (pack_ne_nil packed)
  | interfaceGone iface =>
    have kept : ∀ (dests : List TruncatedHash) {s : Timers}, s.WellFormed →
        (dests.foldl removeAnnounce s).WellFormed := by
      intro dests
      induction dests with
      | nil => exact id
      | cons dest rest ih =>
        intro s ok
        exact ih ((rebroadcasts_removeAnnounce 0 s dest).wellFormed ok)
    exact kept _ ⟨ok.announces, fun row member => ok.held row (List.mem_filter.mp member).1⟩
  | elsewhere _ announces held =>
    exact ⟨fun row member => ok.announces row (announces row member),
      fun row member => ok.held row (held row member)⟩

theorem wellFormed_of_reachable {cfg : TimerConfig} {s : Timers} (reached : Reachable cfg s) :
    s.WellFormed := by
  induction reached with
  | start s announces held => exact ⟨by rw [announces]; nofun, by rw [held]; nofun⟩
  | step _ next ih => exact wellFormed_step ih next

/-- Polling at `t` again and again ends with no deadline before `t` exactly when no
interface in duty hold has a queue whose release lies before `t`. -/
theorem wakes_later_iff (cfg : TimerConfig) (s : Timers) (reached : Reachable cfg s) (t : Nat)
    (calm : Nat → Nat → Bool) :
    (∃ k, (rounds cfg calm t k s).WakesLater cfg t) ↔ ¬ Spins t s := by
  have ok := wellFormed_of_reachable reached
  constructor
  · rintro ⟨k, wakes⟩ spins
    exact not_wakesLater_of_spins (spins_rounds cfg calm t k ok spins) wakes
  · exact wakes_of_not_spins cfg calm t ok

/-! A slow interface with a backlog. -/

open RelayedLink (hash16 relayConfig wire)
open Pacing (announceOf)

def relayTimers : TimerConfig where
  node := relayConfig
  announce :=
    { pathExpiryMs := fun _ => 604800000
      isLocalClient := fun _ => false
      interfaceTransit := fun _ => true
      effectiveAnnounceRate := fun _ => none
      announceWaitMs := fun _ _ => 0 }
  maxQueuedAnnounces := 8
  releaseDraw := fun _ _ => 0
  retryWaitMs := fun _ _ _ _ => 0
  admits := fun _ _ => true
  housekeeping := fun _ rest => rest

def booted : Timers where
  paths := BoundedMap.withCapacity 8
  receipts := BoundedMap.withCapacity 8
  announces := BoundedMap.withCapacity 8
  heldEntries := []
  links := BoundedMap.withCapacity 8
  caps := [(0, ⟨1000, 2, 0, []⟩)]
  discoveries := BoundedMap.withCapacity 8
  lastDiscoveryRetryMs := 0
  heldAnnounces := []
  pathRequestTimes := fun _ => none
  announceCache := BoundedMap.withCapacity 8
  rest := fun _ => {}
  localDestinations := []
  interfaceModes := fun _ => none
  interfaceTransit := fun _ => none
  dutyHoldIfaces := []
  linkSparing := fun _ => false
  interfaceOnline := fun _ => true
  interfaces := [0, 5]
  interfaceNextSlotMs := fun _ => none

def hear (raw : Bytes) (s : Timers) : Timers :=
  match Packet.unpack raw with
  | .ok packet => s.handleAnnounce relayTimers 0 5 none raw { packet with hops := 1 }
  | .error _ => s

theorem reachable_hear {s : Timers} (reached : Reachable relayTimers s) (raw : Bytes) :
    Reachable relayTimers (hear raw s) := by
  unfold hear
  split
  next packet parsed => exact .step reached (.announce s 0 5 none raw packet parsed 1)
  next => exact reached

/-- Two announces are due at once: one is sent, one waits for airtime. -/
def backlogged : Timers :=
  poll relayTimers (fun _ => false) 10000
    (hear (wire (announceOf 4 1)) (hear (wire (announceOf 3 1)) booted))

theorem reachable_backlogged : Reachable relayTimers backlogged :=
  .step (reachable_hear (reachable_hear (.start booted rfl rfl) _) _) (.poll _ _ _)

theorem wakes_later_backlogged :
    ¬ backlogged.WakesLater relayTimers 100000 ∧
      ∃ k, (rounds relayTimers (fun _ _ => false) 100000 k backlogged).WakesLater relayTimers 100000 :=
  ⟨by decide +kernel,
    (wakes_later_iff relayTimers backlogged reachable_backlogged 100000 (fun _ _ => false)).mpr
      (by decide +kernel)⟩

/-- `set_interface_duty_hold`. -/
def setInterfaceDutyHold (iface : Nat) (s : Timers) : Timers :=
  { s with dutyHoldIfaces := iface :: s.dutyHoldIfaces }

theorem reachable_dutyHold {cfg : TimerConfig} {s : Timers} (reached : Reachable cfg s) (iface : Nat) :
    Reachable cfg (s.setInterfaceDutyHold iface) :=
  .step reached (.elsewhere s _ (fun _ member => member) (fun _ member => member))

/-- No number of polls gets past the queue of the held interface. -/
theorem held_queue_spins :
    Reachable relayTimers (backlogged.setInterfaceDutyHold 0) ∧
      ∀ calm k, ¬ (rounds relayTimers calm 100000 k (backlogged.setInterfaceDutyHold 0)).WakesLater
        relayTimers 100000 := by
  have spins : Spins 100000 (backlogged.setInterfaceDutyHold 0) := by decide +kernel
  have reached := reachable_dutyHold reachable_backlogged 0
  refine ⟨reached, fun calm k => ?_⟩
  exact not_wakesLater_of_spins
    (spins_rounds relayTimers calm 100000 k (wellFormed_of_reachable reached) spins)

end Leviculum.Transport.Timers
