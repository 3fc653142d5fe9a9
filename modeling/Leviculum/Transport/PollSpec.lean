import Leviculum.Transport.Rebroadcast

/-! What a poll leaves behind: which deadlines can still lie in the past. -/

namespace Leviculum.Transport.Timers
open InterfaceAnnounceCap

/-! Queues. -/

theorem drain_deadline {env : Surroundings} {iface : Nat} (free : env.dutyHold iface = false)
    (cap : InterfaceAnnounceCap) :
    ∀ due ∈ capDeadline (cap.drain env iface).2, env.nowMs ≤ due := by
  intro due isDue
  unfold capDeadline at isDue
  split at isDue
  next => cases isDue
  next nonempty =>
    obtain rfl := Option.some.inj isDue
    unfold InterfaceAnnounceCap.drain at nonempty ⊢
    by_cases skipped : cap.queue.isEmpty ∨ env.nowMs < cap.allowedAtMs ∨ env.dutyHold iface
    · rw [if_pos skipped] at nonempty ⊢
      rcases skipped with empty | early | held
      · exact absurd empty nonempty
      · exact Nat.le_of_lt early
      · rw [free] at held
        cases held
    · rw [if_neg skipped] at nonempty ⊢
      dsimp only at nonempty ⊢
      split at nonempty
      next none_ =>
        rw [best_eq_none none_] at nonempty
        exact absurd rfl nonempty
      next slot found =>
        simp only [transmit]
        omega

theorem drain_of_held {env : Surroundings} {iface : Nat} (held : env.dutyHold iface = true)
    (cap : InterfaceAnnounceCap) : cap.drain env iface = ([], cap) := by
  simp [InterfaceAnnounceCap.drain, held]

theorem drainAnnounceQueues_spins (cfg : TimerConfig) (t : Nat) (s : Timers) :
    Spins t (s.drainAnnounceQueues cfg t) ↔ Spins t s := by
  refine spins_mapCaps (f := fun iface cap => (cap.drain (s.surroundings cfg t) iface).2) ?_
  intro iface held cap
  have isHeld : (s.surroundings cfg t).dutyHold iface = true := by
    simpa [Surroundings.dutyHold, surroundings] using held
  rw [drain_of_held isHeld cap]

/-! Announces and links after the drain. -/

/-- A step that makes no deadline late and keeps out of queues and held rows. -/
structure Quiet (t : Nat) (s s' : Timers) : Prop where
  receipts : s'.receipts = s.receipts
  links : s'.links = s.links
  caps : s'.caps = s.caps
  dutyHoldIfaces : s'.dutyHoldIfaces = s.dutyHoldIfaces
  heldEntries : s'.heldEntries = s.heldEntries
  paths : (∀ row ∈ s.paths.entries, t ≤ row.2.expiresMs) →
    ∀ row ∈ s'.paths.entries, t ≤ row.2.expiresMs
  announces : (∀ row ∈ s.announces.entries, ¬ Late t row.2) →
    ∀ row ∈ s'.announces.entries, ¬ Late t row.2
  wellFormed : (∀ row ∈ s.announces.entries, row.2.rawPacket ≠ []) →
    ∀ row ∈ s'.announces.entries, row.2.rawPacket ≠ []

theorem Quiet.refl (t : Nat) (s : Timers) : Quiet t s s := ⟨rfl, rfl, rfl, rfl, rfl, id, id, id⟩

theorem Quiet.trans {t : Nat} {s s' s'' : Timers} (first : Quiet t s s') (second : Quiet t s' s'') :
    Quiet t s s'' where
  receipts := second.receipts.trans first.receipts
  links := second.links.trans first.links
  caps := second.caps.trans first.caps
  dutyHoldIfaces := second.dutyHoldIfaces.trans first.dutyHoldIfaces
  heldEntries := second.heldEntries.trans first.heldEntries
  paths := fun fresh => second.paths (first.paths fresh)
  announces := fun fresh => second.announces (first.announces fresh)
  wellFormed := fun ok => second.wellFormed (first.wellFormed ok)

theorem Quiet.foldl {t : Nat} {α : Type} {f : Timers → α → Timers} (each : ∀ s a, Quiet t s (f s a))
    (items : List α) (s : Timers) : Quiet t s (items.foldl f s) := by
  induction items generalizing s with
  | nil => exact .refl t s
  | cons item rest ih => exact (each s item).trans (ih (f s item))

theorem quiet_requestPath (t : Nat) (dest : TruncatedHash) (s : Timers) :
    Quiet t s (s.requestPath t dest) := by
  unfold requestPath
  dsimp only
  split <;> split <;> exact ⟨rfl, rfl, rfl, rfl, rfl, id, id, id⟩

theorem quiet_rediscover (cfg : TimerConfig) (t : Nat) (s : Timers) (entry : LinkEntry) :
    Quiet t s (s.rediscover cfg t entry) := by
  have erased : ∀ (s : Timers) (dest : TruncatedHash), Quiet t s { s with paths := s.paths.erase dest } :=
    fun s dest => ⟨rfl, rfl, rfl, rfl, rfl,
      fun fresh row member => fresh row (BoundedMap.mem_erase member).1, id, id⟩
  have marked : Quiet t s (s.markPathUnresponsive entry.destinationHash) :=
    ⟨rfl, rfl, rfl, rfl, rfl, id, id, id⟩
  unfold rediscover
  dsimp only
  split
  next => exact .refl t s
  next =>
    split
    next =>
      refine Quiet.trans ?_ (quiet_requestPath t entry.destinationHash _)
      split
      next =>
        split
        · exact marked
        · exact .refl t s
      next =>
        refine Quiet.trans ?_ (erased _ _)
        split
        · exact marked
        · exact .refl t s
    next =>
      split
      · exact marked
      · exact .refl t s

/-- Where the rows of a destination come from after an announce: a path keeps its expiry
or gets one ahead, a rebroadcast keeps its time, loses it or gets one ahead. -/
structure RowsFrom (a : Announce) (r r' : Route) : Prop where
  path : ∀ path ∈ r'.path, (∃ before ∈ r.path, before.expiresMs = path.expiresMs) ∨
    a.nowMs ≤ path.expiresMs
  announce : ∀ entry ∈ r'.announce,
    (∃ before ∈ r.announce, before.rawPacket = entry.rawPacket ∧
      ∀ due ∈ entry.retransmitAtMs, due ∈ before.retransmitAtMs) ∨
    (entry.rawPacket = a.raw ∧ ∀ due ∈ entry.retransmitAtMs, a.nowMs ≤ due)

theorem RowsFrom.of_same {a : Announce} {r r' : Route} (path : r'.path = r.path)
    (announce : r'.announce = r.announce) : RowsFrom a r r' where
  path := fun p member => .inl ⟨p, path ▸ member, rfl⟩
  announce := fun entry member => .inl ⟨entry, announce ▸ member, rfl, fun _ => id⟩

theorem RowsFrom.trans {a : Announce} {r r' r'' : Route} (first : RowsFrom a r r')
    (second : RowsFrom a r' r'') : RowsFrom a r r'' where
  path := by
    intro path member
    rcases second.path path member with ⟨middle, inside, same⟩ | ahead
    · rcases first.path middle inside with ⟨before, inside', same'⟩ | ahead
      · exact .inl ⟨before, inside', same'.trans same⟩
      · exact .inr (same ▸ ahead)
    · exact .inr ahead
  announce := by
    intro entry member
    rcases second.announce entry member with ⟨middle, inside, raw, times⟩ | fresh
    · rcases first.announce middle inside with ⟨before, inside', raw', times'⟩ | ⟨raw', ahead⟩
      · exact .inl ⟨before, inside', raw'.trans raw, fun due isDue => times' due (times due isDue)⟩
      · exact .inr ⟨raw ▸ raw', fun due isDue => ahead due (times due isDue)⟩
    · exact .inr fresh

theorem rowsFrom_rateWindow (cfg : AnnounceConfig) (r : Route) (a : Announce) :
    RowsFrom a r (r.rateWindow cfg a).2 := by
  unfold Route.rateWindow
  split
  next => exact .of_same rfl rfl
  next entry found =>
    split
    next =>
      refine ⟨fun p member => .inl ⟨p, member, rfl⟩, ?_⟩
      intro counted member
      obtain rfl := Option.some.inj member
      refine .inl ⟨entry, found, ?_, ?_⟩
      · unfold Route.countRebroadcast
        split
        · rfl
        · split <;> rfl
      · intro due isDue
        unfold Route.countRebroadcast at isDue
        split at isDue
        · dsimp only at isDue
          split at isDue
          · cases isDue
          · exact isDue
        · split at isDue
          · cases isDue
          · exact isDue
    next => exact .of_same rfl rfl

theorem rowsFrom_noteDirectLinkEvidence (cfg : AnnounceConfig) (r : Route) (a : Announce) :
    RowsFrom a r (r.noteDirectLinkEvidence cfg a) := by
  unfold Route.noteDirectLinkEvidence
  split <;> exact .of_same rfl rfl

theorem rowsFrom_markAccepted (r : Route) (a : Announce) (reason : AcceptReason) :
    RowsFrom a r (r.markAccepted reason) := by
  unfold Route.markAccepted
  split <;> exact .of_same rfl rfl

theorem rowsFrom_installPath (cfg : AnnounceConfig) (r : Route) (a : Announce) :
    RowsFrom a r (r.installPath cfg a) := by
  refine ⟨?_, fun entry member => .inl ⟨entry, member, rfl, fun _ => id⟩⟩
  intro path member
  obtain rfl := Option.some.inj member
  exact .inr (Nat.le_add_right _ _)

theorem rowsFrom_checkAnnounceRate (cfg : AnnounceConfig) (r : Route) (a : Announce) :
    RowsFrom a r (r.checkAnnounceRate cfg a).2 := by
  unfold Route.checkAnnounceRate
  split
  · exact .of_same rfl rfl
  · split
    · exact .of_same rfl rfl
    · dsimp only
      split_ifs <;> exact .of_same rfl rfl

theorem rowsFrom_scheduleAnnounce (cfg : AnnounceConfig) (r : Route) (a : Announce)
    (rateLimited : Bool) : RowsFrom a r (r.scheduleAnnounce cfg a rateLimited) := by
  unfold Route.scheduleAnnounce
  dsimp only
  have rated : RowsFrom a r (if a.isPathResponse then (false, r) else r.checkAnnounceRate cfg a).2 := by
    split
    · exact .of_same rfl rfl
    · exact rowsFrom_checkAnnounceRate cfg r a
  generalize (if a.isPathResponse then (false, r) else r.checkAnnounceRate cfg a) = checked at rated ⊢
  obtain ⟨blocked, middle⟩ := checked
  dsimp only at rated ⊢
  have cleared : RowsFrom a middle (if a.isPathResponse && cfg.isLocalClient a.interfaceIndex then
      { middle with pendingLocalPathRequest := false } else middle) := by
    split <;> exact .of_same rfl rfl
  generalize (if a.isPathResponse && cfg.isLocalClient a.interfaceIndex then
    { middle with pendingLocalPathRequest := false } else middle) = pruned at cleared ⊢
  refine rated.trans (cleared.trans ?_)
  split
  next =>
    refine ⟨fun p member => .inl ⟨p, member, rfl⟩, ?_⟩
    intro entry member
    obtain rfl := Option.some.inj member
    refine .inr ⟨rfl, ?_⟩
    intro due isDue
    dsimp only at isDue
    split at isDue
    · exact Nat.le_of_eq (Option.some.inj isDue)
    · split at isDue
      · exact Option.some.inj isDue ▸ Nat.le_add_right _ _
      · cases isDue
  next => exact .of_same rfl rfl

theorem rowsFrom_recordRandomBlob (cfg : AnnounceConfig) (r : Route) (a : Announce) :
    RowsFrom a r (r.recordRandomBlob cfg a) := by
  refine ⟨?_, fun entry member => .inl ⟨entry, member, rfl, fun _ => id⟩⟩
  intro path member
  obtain ⟨before, found, rfl⟩ := Option.map_eq_some_iff.mp member
  exact .inl ⟨before, found, rfl⟩

theorem rowsFrom_handleAnnounce (cfg : AnnounceConfig) (r : Route) (a : Announce) :
    RowsFrom a r (r.handleAnnounce cfg a).2 := by
  have looped : RowsFrom a r (r.refusesProvenLoop a).2 := .of_same rfl rfl
  have noted := looped.trans ((rowsFrom_noteDirectLinkEvidence cfg _ a).trans
    (rowsFrom_rateWindow cfg _ a))
  have refreshed : ∀ r : Route, RowsFrom a r
      (if cfg.isLocalClient a.interfaceIndex then { r with localClientKnownDest := true } else r) := by
    intro r
    split <;> exact .of_same rfl rfl
  unfold Route.handleAnnounce
  split
  next => exact .of_same rfl rfl
  next =>
  split
  next => exact .of_same rfl rfl
  next =>
  split
  next => exact .of_same rfl rfl
  next =>
  dsimp only
  split
  next => exact .of_same rfl rfl
  next =>
  split
  next => exact noted
  next =>
  split
  next =>
    split
    · exact noted.trans (refreshed _)
    · exact noted.trans ((refreshed _).trans (rowsFrom_recordRandomBlob cfg _ a))
  next reason _ =>
    exact noted.trans ((rowsFrom_markAccepted _ a reason).trans ((refreshed _).trans
      ((rowsFrom_installPath cfg _ a).trans (rowsFrom_scheduleAnnounce cfg _ a _))))

theorem mem_setRoute_paths {s : Timers} {dest : TruncatedHash} {r : Route}
    {row : TruncatedHash × PathEntry} (member : row ∈ (s.setRoute dest r).paths.entries) :
    row ∈ s.paths.entries ∨ row.2 ∈ r.path := by
  simp only [setRoute] at member
  split at member
  next path found =>
    split at member
    next => exact .inl member
    next =>
      rcases BoundedMap.mem_insert member with ⟨old, -⟩ | rfl
      · exact .inl old
      · exact .inr found
  next => exact .inl member

theorem mem_setRoute_announces {s : Timers} {dest : TruncatedHash} {r : Route}
    {row : TruncatedHash × AnnounceEntry} (member : row ∈ (s.setRoute dest r).announces.entries) :
    row ∈ s.announces.entries ∨ row.2 ∈ r.announce := by
  simp only [setRoute] at member
  split at member
  next entry found =>
    split at member
    next => exact .inl member
    next =>
      rcases BoundedMap.mem_insert member with ⟨old, -⟩ | rfl
      · exact .inl old
      · exact .inr found
  next => exact .inl member

theorem quiet_setRoute {s : Timers} {dest : TruncatedHash} {a : Announce} {r : Route}
    (rows : RowsFrom a (s.route dest) r) (packet : a.raw ≠ []) :
    Quiet a.nowMs s (s.setRoute dest r) := by
  have stored : ∀ before ∈ (s.route dest).path, (dest, before) ∈ s.paths.entries :=
    fun before found => BoundedMap.get?_eq_some.mp found
  have scheduled : ∀ before ∈ (s.route dest).announce, (dest, before) ∈ s.announces.entries :=
    fun before found => BoundedMap.get?_eq_some.mp found
  refine ⟨rfl, rfl, rfl, rfl, rfl, ?_, ?_, ?_⟩
  · intro fresh row member
    rcases mem_setRoute_paths member with old | new
    · exact fresh row old
    · rcases rows.path row.2 new with ⟨before, found, same⟩ | ahead
      · exact same ▸ fresh _ (stored before found)
      · exact ahead
  · intro fresh row member late
    rcases mem_setRoute_announces member with old | new
    · exact fresh row old late
    · obtain ⟨due, isDue, past⟩ := late
      rcases rows.announce row.2 new with ⟨before, found, -, times⟩ | ⟨-, ahead⟩
      · exact fresh _ (scheduled before found) ⟨due, times due isDue, past⟩
      · have := ahead due isDue
        omega
  · intro ok row member
    rcases mem_setRoute_announces member with old | new
    · exact ok row old
    · rcases rows.announce row.2 new with ⟨before, found, same, -⟩ | ⟨same, -⟩
      · exact same ▸ ok _ (scheduled before found)
      · exact same ▸ packet

theorem quiet_handleAnnounce (cfg : TimerConfig) (t iface : Nat) (peer : Option TruncatedHash)
    {raw : Bytes} (nonempty : raw ≠ []) (packet : Packet) (s : Timers) :
    Quiet t s (s.handleAnnounce cfg t iface peer raw packet) := by
  unfold handleAnnounce
  split
  next => exact .refl t s
  next a received =>
    obtain ⟨randomHash, -, rfl⟩ := Option.map_eq_some_iff.mp received
    have rows := rowsFrom_handleAnnounce cfg.announce (s.route packet.destinationHash)
      { randomHash
        hops := packet.hops.toNat
        interfaceIndex := iface
        transportId := packet.transportId
        ingressPeer := peer
        isPathResponse := packet.context = .pathResponse
        raw
        nowMs := t
        admitted := cfg.admits packet iface }
    have quiet := quiet_setRoute rows nonempty
    dsimp only
    split
    · exact ⟨quiet.receipts, quiet.links, quiet.caps, quiet.dutyHoldIfaces, quiet.heldEntries,
        quiet.paths, quiet.announces, quiet.wellFormed⟩
    · exact quiet

theorem unpack_ne_nil {raw : Bytes} {packet : Packet} (parsed : Packet.unpack raw = .ok packet) :
    raw ≠ [] := by
  rintro rfl
  cases parsed

theorem quiet_releaseHeld (cfg : TimerConfig) (t : Nat) (s : Timers) (iface : Nat) :
    Quiet t s (s.releaseHeld cfg t iface) := by
  unfold releaseHeld
  split
  next => exact .refl t s
  next dest held _ =>
    dsimp only
    split
    next => exact ⟨rfl, rfl, rfl, rfl, rfl, id, id, id⟩
    next packet parsed =>
      have handled := quiet_handleAnnounce cfg t iface held.peer (unpack_ne_nil parsed)
        { packet with hops := UInt8.ofNat held.hops }
        { s with
          heldAnnounces := s.heldAnnounces.map fun queue =>
            if queue.1 = iface then (queue.1, queue.2.filter fun other => other.1 ≠ dest) else queue }
      exact ⟨handled.receipts, handled.links, handled.caps, handled.dutyHoldIfaces,
        handled.heldEntries, handled.paths, handled.announces, handled.wellFormed⟩

/-- What a poll at `t` leaves behind: nothing late but rows that were held until now and
queues under a duty hold, which stay as they were. -/
structure Polled (t : Nat) (s s' : Timers) : Prop where
  paths : ∀ row ∈ s'.paths.entries, t ≤ row.2.expiresMs
  receipts : ∀ row ∈ s'.receipts.entries, ∀ due ∈ receiptDeadline row.2, t ≤ due
  links : ∀ row ∈ s'.links.entries, t ≤ linkDeadline row.2
  caps : ∀ row ∈ s'.caps, row.1 ∉ s'.dutyHoldIfaces → ∀ due ∈ capDeadline row.2, t ≤ due
  spins : Spins t s' ↔ Spins t s
  wellFormed : s'.WellFormed
  announces : s'.heldEntries.length < s.heldEntries.length ∨
    ∀ row ∈ s'.announces.entries, ¬ Late t row.2

theorem linkDeadline_of_kept {t : Nat} {entry : LinkEntry} (kept : linkExpired t entry = false) :
    t ≤ linkDeadline entry := by
  unfold linkExpired at kept
  unfold linkDeadline
  split
  next validated =>
    simp only [validated, if_true, decide_eq_false_iff_not] at kept
    omega
  next pending =>
    simpa [pending] using kept

theorem receiptDeadline_of_kept {t : Nat} {r : PacketReceipt} (kept : receiptExpired t r = false) :
    ∀ due ∈ receiptDeadline r, t ≤ due := by
  intro due isDue
  unfold receiptDeadline at isDue
  split at isDue
  next sent =>
    obtain rfl := Option.some.inj isDue
    simp only [receiptExpired, sent, if_true, decide_eq_false_iff_not] at kept
    omega
  next => cases isDue

theorem quiet_cleanPathStates (cfg : TimerConfig) (t : Nat) (s : Timers) : Quiet t s (s.cleanPathStates cfg t) :=
  ⟨rfl, rfl, rfl, rfl, rfl, id, id, id⟩

theorem poll_spec (cfg : TimerConfig) (calm : Nat → Bool) (t : Nat) {s : Timers}
    (ok : s.WellFormed) : Polled t s (s.poll cfg calm t) := by
  let expired := (s.expirePaths t).checkReceiptTimeouts t
  have ready : expired.WellFormed := ⟨ok.announces, ok.held⟩
  obtain ⟨paths, receipts, spins, fired, progress⟩ := checkAnnounceRebroadcasts_spec cfg t ready
  let drained := (expired.checkAnnounceRebroadcasts cfg t).drainAnnounceQueues cfg t
  let unlinked := { drained with links := drained.links.keep fun row => !linkExpired t row.2 }
  have linked : Quiet t unlinked (drained.cleanLinkTable cfg t) := .foldl (quiet_rediscover cfg t) _ _
  have quiet : Quiet t unlinked (s.poll cfg calm t) :=
    linked.trans ((quiet_cleanPathStates cfg t _).trans (.foldl (quiet_releaseHeld cfg t) _ _))
  refine ⟨quiet.paths ?_, ?_, ?_, ?_, ?_, ⟨quiet.wellFormed fired.announces, ?_⟩, ?_⟩
  · intro row member
    have kept : row ∈ expired.paths.entries := paths ▸ member
    exact of_decide_eq_true (BoundedMap.mem_keep.mp kept).2
  · intro row member
    rw [quiet.receipts] at member
    have kept : row ∈ expired.receipts.entries := receipts ▸ member
    exact receiptDeadline_of_kept (by simpa using (BoundedMap.mem_keep.mp kept).2)
  · intro row member
    rw [quiet.links] at member
    exact linkDeadline_of_kept (by simpa using (BoundedMap.mem_keep.mp member).2)
  · intro row member free
    rw [quiet.caps] at member
    rw [quiet.dutyHoldIfaces] at free
    obtain ⟨before, -, rfl⟩ := List.mem_map.mp member
    have open_ : before.1 ∉ (expired.checkAnnounceRebroadcasts cfg t).dutyHoldIfaces := free
    exact drain_deadline (by simpa [Surroundings.dutyHold, surroundings] using open_) before.2
  · exact (spins_congr quiet.caps quiet.dutyHoldIfaces).trans
      ((drainAnnounceQueues_spins cfg t _).trans spins)
  · rw [quiet.heldEntries]
    exact fired.held
  · rw [quiet.heldEntries]
    rcases progress with fewer | ⟨-, late⟩
    · exact .inl fewer
    · refine .inr (quiet.announces ?_)
      intro row member isLate
      cases late row member isLate

end Leviculum.Transport.Timers
