import Leviculum.Transport.Poll

/-! The rebroadcast loops of a poll: a row that was due is late no more, or it gave way
to the row it had displaced. -/

namespace Leviculum.Transport.Timers
open InterfaceAnnounceCap

/-- Every row that may be rebroadcast has its packet. -/
structure WellFormed (s : Timers) : Prop where
  announces : ∀ row ∈ s.announces.entries, row.2.rawPacket ≠ []
  held : ∀ row ∈ s.heldEntries, row.2.rawPacket ≠ []

def Late (t : Nat) (entry : AnnounceEntry) : Prop := ∃ due ∈ entry.retransmitAtMs, due < t

/-- A queue a duty hold keeps from being drained although its release has passed. -/
def Spins (t : Nat) (s : Timers) : Prop :=
  ∃ row ∈ s.caps, row.1 ∈ s.dutyHoldIfaces ∧ row.2.queue ≠ [] ∧ row.2.allowedAtMs < t

/-- The step for one destination: its row is late no more, or it gave way to a held one. -/
structure Rebroadcasts (t : Nat) (dest : TruncatedHash) (s s' : Timers) : Prop where
  paths : s'.paths = s.paths
  receipts : s'.receipts = s.receipts
  spins : Spins t s' ↔ Spins t s
  wellFormed : s.WellFormed → s'.WellFormed
  settled : s'.heldEntries.length < s.heldEntries.length ∨
    (s'.heldEntries = s.heldEntries ∧
      ∀ row ∈ s'.announces.entries, Late t row.2 → row ∈ s.announces.entries ∧ row.1 ≠ dest)

theorem mem_of_lookup {held : List (TruncatedHash × AnnounceEntry)} {dest : TruncatedHash}
    {entry : AnnounceEntry} (found : held.lookup dest = some entry) : (dest, entry) ∈ held := by
  obtain ⟨before, after, rfl, -⟩ := List.lookup_eq_some_iff.mp found
  exact List.mem_append_right _ List.mem_cons_self

theorem wellFormed_restoreHeld {s : Timers} (ok : s.WellFormed) (dest : TruncatedHash) :
    (s.restoreHeld dest).WellFormed := by
  unfold restoreHeld
  split
  next => exact ok
  next entry found =>
    refine ⟨?_, ?_⟩
    · intro row member
      rcases BoundedMap.mem_insert member with ⟨old, -⟩ | rfl
      · exact ok.announces row old
      · exact ok.held (dest, entry) (mem_of_lookup found)
    · intro row member
      exact ok.held row (List.mem_filter.mp member).1

theorem heldEntries_restoreHeld {s : Timers} {dest : TruncatedHash}
    (held : (s.heldEntries.lookup dest).isSome = true) :
    (s.restoreHeld dest).heldEntries.length < s.heldEntries.length := by
  obtain ⟨entry, found⟩ := Option.isSome_iff_exists.mp held
  simp only [restoreHeld, found]
  apply List.length_filter_lt_length_iff_exists.mpr
  exact ⟨(dest, entry), mem_of_lookup found, by simp⟩

theorem restoreHeld_of_none {s : Timers} {dest : TruncatedHash}
    (held : (s.heldEntries.lookup dest).isSome = false) : s.restoreHeld dest = s := by
  rw [Option.isSome_eq_false_iff, Option.isNone_iff_eq_none] at held
  simp only [restoreHeld, held]

theorem restoreHeld_frame (s : Timers) (dest : TruncatedHash) :
    (s.restoreHeld dest).paths = s.paths ∧ (s.restoreHeld dest).receipts = s.receipts ∧
      (s.restoreHeld dest).caps = s.caps ∧ (s.restoreHeld dest).dutyHoldIfaces = s.dutyHoldIfaces := by
  unfold restoreHeld
  split <;> exact ⟨rfl, rfl, rfl, rfl⟩

theorem spins_congr {t : Nat} {s s' : Timers} (caps : s'.caps = s.caps)
    (hold : s'.dutyHoldIfaces = s.dutyHoldIfaces) : Spins t s' ↔ Spins t s := by
  rw [Spins, Spins, caps, hold]

theorem rebroadcasts_removeAnnounce (t : Nat) (s : Timers) (dest : TruncatedHash) :
    Rebroadcasts t dest s (s.removeAnnounce dest) := by
  obtain ⟨paths, receipts, caps, hold⟩ :=
    restoreHeld_frame { s with announces := s.announces.erase dest } dest
  refine ⟨paths, receipts, spins_congr caps hold, ?_, ?_⟩
  · intro ok
    have erased : { s with announces := s.announces.erase dest }.WellFormed :=
      ⟨fun row member => ok.announces row (BoundedMap.mem_erase member).1, ok.held⟩
    exact wellFormed_restoreHeld erased dest
  · unfold removeAnnounce
    cases held : (s.heldEntries.lookup dest).isSome with
    | true => exact .inl (heldEntries_restoreHeld (s := { s with announces := s.announces.erase dest }) held)
    | false =>
      rw [restoreHeld_of_none (s := { s with announces := s.announces.erase dest }) held]
      exact .inr ⟨rfl, fun row member _ => BoundedMap.mem_erase member⟩

theorem deferTo_gt {s : Timers} {nowMs slot : Nat} {target : Option Nat}
    (found : s.deferTo nowMs target = some slot) : nowMs < slot := by
  unfold deferTo at found
  split at found
  · split at found
    next future => exact Option.some.inj found ▸ future
    next => cases found
  · dsimp only at found
    split at found
    next future =>
      have inside := (List.min?_eq_some_iff.mp found).1
      exact of_decide_eq_true (List.all_eq_true.mp future slot inside)
    next => cases found

theorem rebroadcasts_deferAnnounce {t slot : Nat} (later : t < slot) (s : Timers)
    (dest : TruncatedHash) : Rebroadcasts t dest s (s.deferAnnounce dest slot) := by
  unfold deferAnnounce
  split
  next absent =>
    refine ⟨rfl, rfl, Iff.rfl, id, .inr ⟨rfl, fun row member _ => ⟨member, ?_⟩⟩⟩
    rintro rfl
    rw [BoundedMap.get?_eq_some.mpr member] at absent
    cases absent
  next entry found =>
    refine ⟨rfl, rfl, Iff.rfl, ?_, .inr ⟨rfl, ?_⟩⟩
    · intro ok
      refine ⟨?_, ok.held⟩
      intro row member
      rcases BoundedMap.mem_insert member with ⟨old, -⟩ | rfl
      · exact ok.announces row old
      · exact ok.announces (dest, entry) (BoundedMap.get?_eq_some.mp found)
    · intro row member late
      rcases BoundedMap.mem_insert member with old | rfl
      · exact old
      · obtain ⟨due, isDue, past⟩ := late
        obtain rfl := Option.some.inj isDue
        omega

theorem broadcast_spinning {t maxQueued iface : Nat} {env : Surroundings} (now : env.nowMs = t)
    (cap : InterfaceAnnounceCap) (a : QueuedAnnounce) :
    ((cap.broadcast maxQueued env iface a).2.queue ≠ [] ∧
        (cap.broadcast maxQueued env iface a).2.allowedAtMs < t) ↔
      (cap.queue ≠ [] ∧ cap.allowedAtMs < t) := by
  unfold InterfaceAnnounceCap.broadcast
  split
  next => exact Iff.rfl
  next =>
  split
  next due =>
    have empty : cap.queue = [] := List.isEmpty_iff.mp due.2
    simp [transmit, empty]
  next notNow =>
  split
  next => exact Iff.rfl
  next =>
  split
  next taken =>
    have nonempty : cap.queue ≠ [] := by
      rintro empty
      simp [hasSlot, empty] at taken
    have updated : updateSlot cap.queue a ≠ [] := by
      obtain ⟨slot, rest, shape⟩ := List.exists_cons_of_ne_nil nonempty
      rw [shape, updateSlot]
      split <;> exact List.cons_ne_nil _ _
    simp [nonempty, updated]
  next =>
    by_cases empty : cap.queue = []
    · have future : t < cap.allowedAtMs := by
        rw [now] at notNow
        simp only [empty, List.isEmpty_nil, and_true] at notNow
        omega
      simp [empty]
      omega
    · simp [empty]

theorem spins_mapCaps {t : Nat} {s : Timers} {f : Nat → InterfaceAnnounceCap → InterfaceAnnounceCap}
    (same : ∀ iface ∈ s.dutyHoldIfaces, ∀ cap, ((f iface cap).queue ≠ [] ∧ (f iface cap).allowedAtMs < t) ↔
      (cap.queue ≠ [] ∧ cap.allowedAtMs < t)) :
    Spins t { s with caps := s.caps.map fun row => (row.1, f row.1 row.2) } ↔ Spins t s := by
  constructor
  · rintro ⟨row, member, held, spinning⟩
    obtain ⟨before, inside, rfl⟩ := List.mem_map.mp member
    exact ⟨before, inside, held, (same before.1 held before.2).mp spinning⟩
  · rintro ⟨row, member, held, spinning⟩
    exact ⟨_, List.mem_map_of_mem member, held, (same row.1 held row.2).mpr spinning⟩

theorem spins_emit (cfg : TimerConfig) (t : Nat) (entry : AnnounceEntry) (packet : Packet)
    (s : Timers) : Spins t (s.emit cfg t entry packet) ↔ Spins t s := by
  unfold emit
  split
  · exact Iff.rfl
  · split
    · exact Iff.rfl
    · unfold broadcastAnnounceWithCaps
      split
      · exact Iff.rfl
      next a _ =>
        exact spins_mapCaps (f := fun iface cap => (cap.broadcast cfg.maxQueuedAnnounces
          (s.surroundings cfg t) iface a).2) fun iface _ cap => broadcast_spinning rfl cap a

theorem emit_frame (cfg : TimerConfig) (t : Nat) (entry : AnnounceEntry) (packet : Packet)
    (s : Timers) :
    ∃ caps, s.emit cfg t entry packet = { s with caps } := by
  unfold emit
  split
  · exact ⟨s.caps, rfl⟩
  · split
    · exact ⟨s.caps, rfl⟩
    · unfold broadcastAnnounceWithCaps
      split
      · exact ⟨s.caps, rfl⟩
      · exact ⟨_, rfl⟩

theorem rebroadcasts_reschedule (cfg : TimerConfig) (t : Nat) (s : Timers) (dest : TruncatedHash)
    (raw : Bytes) : Rebroadcasts t dest s (s.reschedule cfg t dest raw) := by
  refine ⟨rfl, rfl, Iff.rfl, ?_, .inr ⟨rfl, ?_⟩⟩
  · intro ok
    refine ⟨?_, ok.held⟩
    intro row member
    rcases BoundedMap.mem_modify member with ⟨old, -⟩ | ⟨entry, old, rfl⟩
    · exact ok.announces row old
    · exact ok.announces (dest, entry) old
  · intro row member late
    rcases BoundedMap.mem_modify member with old | ⟨entry, -, rfl⟩
    · exact old
    · obtain ⟨due, isDue, past⟩ := late
      obtain rfl := Option.some.inj isDue
      omega

theorem rebroadcasts_restoreHeld {t : Nat} {s : Timers} {dest : TruncatedHash}
    (held : (s.heldEntries.lookup dest).isSome = true) :
    Rebroadcasts t dest s (s.restoreHeld dest) := by
  obtain ⟨paths, receipts, caps, hold⟩ := restoreHeld_frame s dest
  exact ⟨paths, receipts, spins_congr caps hold, fun ok => wellFormed_restoreHeld ok dest,
    .inl (heldEntries_restoreHeld held)⟩

theorem Rebroadcasts.after_emit {t : Nat} {dest : TruncatedHash} {s s' : Timers} (cfg : TimerConfig)
    (entry : AnnounceEntry) (packet : Packet)
    (done : Rebroadcasts t dest (s.emit cfg t entry packet) s') : Rebroadcasts t dest s s' := by
  have spins := spins_emit cfg t entry packet s
  obtain ⟨caps, shape⟩ := emit_frame cfg t entry packet s
  rw [shape] at done spins
  exact ⟨done.paths, done.receipts, done.spins.trans spins,
    fun ok => done.wellFormed ⟨ok.announces, ok.held⟩, done.settled⟩

theorem rebroadcasts_fireAnnounce (cfg : TimerConfig) (t : Nat) (s : Timers)
    (row : TruncatedHash × AnnounceEntry) : Rebroadcasts t row.1 s (s.fireAnnounce cfg t row) := by
  have again : ∀ s : Timers, Rebroadcasts t row.1 s
      (if (s.heldEntries.lookup row.1).isSome then s.restoreHeld row.1
        else s.reschedule cfg t row.1 row.2.rawPacket) := by
    intro s
    split
    next held => exact rebroadcasts_restoreHeld held
    next => exact rebroadcasts_reschedule cfg t s row.1 row.2.rawPacket
  unfold fireAnnounce
  dsimp only
  split
  next => exact again s
  next parsed _ =>
    split
    next => exact .after_emit cfg row.2 _ (rebroadcasts_removeAnnounce t _ row.1)
    next => exact .after_emit cfg row.2 _ (again _)

/-- Late rows are only of the destinations still to be looked at, or a held row was
put back. -/
def Progress (t count : Nat) (left : List TruncatedHash) (s : Timers) : Prop :=
  s.heldEntries.length < count ∨
    (s.heldEntries.length = count ∧ ∀ row ∈ s.announces.entries, Late t row.2 → row.1 ∈ left)

theorem Rebroadcasts.progress {t count : Nat} {dest : TruncatedHash} {left : List TruncatedHash}
    {s s' : Timers} (done : Rebroadcasts t dest s s') (before : Progress t count (dest :: left) s) :
    Progress t count left s' := by
  rcases done.settled with fewer | ⟨same, rows⟩
  · rcases before with already | ⟨all, -⟩
    · exact .inl (by omega)
    · exact .inl (by omega)
  · rcases before with already | ⟨all, late⟩
    · exact .inl (by rw [same]; exact already)
    · refine .inr ⟨by rw [same]; exact all, ?_⟩
      intro row member isLate
      obtain ⟨old, apart⟩ := rows row member isLate
      exact (List.mem_cons.mp (late row old isLate)).resolve_left apart

theorem foldl_rebroadcasts {t count : Nat} {α : Type} {f : Timers → α → Timers}
    {key : α → TruncatedHash} {rows : List α}
    (each : ∀ row ∈ rows, ∀ s, Rebroadcasts t (key row) s (f s row)) (left : List TruncatedHash)
    {s : Timers} (before : Progress t count (rows.map key ++ left) s) :
    (rows.foldl f s).paths = s.paths ∧ (rows.foldl f s).receipts = s.receipts ∧
      (Spins t (rows.foldl f s) ↔ Spins t s) ∧ (s.WellFormed → (rows.foldl f s).WellFormed) ∧
      Progress t count left (rows.foldl f s) := by
  induction rows generalizing s with
  | nil => exact ⟨rfl, rfl, Iff.rfl, id, before⟩
  | cons row rest ih =>
    have done := each row List.mem_cons_self s
    obtain ⟨paths, receipts, spins, ok, after⟩ :=
      ih (fun row member => each row (List.mem_cons_of_mem _ member)) (done.progress before)
    exact ⟨paths.trans done.paths, receipts.trans done.receipts, spins.trans done.spins,
      fun ready => ok (done.wellFormed ready), after⟩

theorem dueOf_late {cfg : TimerConfig} {s : Timers} {t : Nat} {entry : AnnounceEntry}
    (late : Late t entry) (packet : entry.rawPacket ≠ []) : s.dueOf cfg t entry ≠ .keep := by
  obtain ⟨due, isDue, past⟩ := late
  rw [Option.mem_def] at isDue
  have ready : due ≤ t ∧ (!entry.rawPacket.isEmpty) = true := ⟨by omega, by simpa using packet⟩
  unfold dueOf
  split
  · nofun
  · simp only [isDue]
    rw [if_pos ready]
    split <;> nofun

theorem dueOf_defer {cfg : TimerConfig} {s : Timers} {t slot : Nat} {entry : AnnounceEntry}
    (isDefer : s.dueOf cfg t entry = .defer slot) : t < slot := by
  unfold dueOf at isDefer
  split at isDefer
  · cases isDefer
  · split at isDefer
    · split at isDefer <;> cases isDefer
    · split at isDefer
      · split at isDefer
        next found =>
          cases isDefer
          exact deferTo_gt found
        next => cases isDefer
      · cases isDefer

theorem passes_spec (cfg : TimerConfig) {t : Nat} {s : Timers} {removed : List
    ((TruncatedHash × AnnounceEntry) × Due)} {slots : List (TruncatedHash × Nat)}
    {fired : List (TruncatedHash × AnnounceEntry)} (ok : s.WellFormed)
    (later : ∀ row ∈ slots, t < row.2)
    (covers : ∀ row ∈ s.announces.entries, Late t row.2 →
      row.1 ∈ removed.map (fun row => row.1.1) ∨ row.1 ∈ slots.map Prod.fst ∨
        row.1 ∈ fired.map Prod.fst) :
    let after := fired.foldl (fireAnnounce cfg t) (slots.foldl (fun s row => s.deferAnnounce row.1 row.2)
      (removed.foldl (fun s row => s.removeAnnounce row.1.1) s))
    after.paths = s.paths ∧ after.receipts = s.receipts ∧ (Spins t after ↔ Spins t s) ∧
      after.WellFormed ∧ Progress t s.heldEntries.length [] after := by
  have start : Progress t s.heldEntries.length
      (removed.map (fun row => row.1.1) ++ (slots.map Prod.fst ++ (fired.map Prod.fst ++ []))) s := by
    refine .inr ⟨rfl, ?_⟩
    intro row member late
    rw [List.append_nil, List.mem_append, List.mem_append]
    exact covers row member late
  obtain ⟨paths, receipts, spins, ready, after⟩ :=
    foldl_rebroadcasts (fun row _ s => rebroadcasts_removeAnnounce t s row.1.1) _ start
  obtain ⟨paths', receipts', spins', ready', after'⟩ := foldl_rebroadcasts
    (fun row member s => rebroadcasts_deferAnnounce (later row member) s row.1) _ after
  obtain ⟨paths'', receipts'', spins'', ready'', after''⟩ :=
    foldl_rebroadcasts (fun row _ s => rebroadcasts_fireAnnounce cfg t s row) _ after'
  exact ⟨paths''.trans (paths'.trans paths), receipts''.trans (receipts'.trans receipts),
    spins''.trans (spins'.trans spins), ready'' (ready' (ready ok)), after''⟩

theorem checkAnnounceRebroadcasts_spec (cfg : TimerConfig) (t : Nat) {s : Timers} (ok : s.WellFormed) :
    (s.checkAnnounceRebroadcasts cfg t).paths = s.paths ∧
      (s.checkAnnounceRebroadcasts cfg t).receipts = s.receipts ∧
      (Spins t (s.checkAnnounceRebroadcasts cfg t) ↔ Spins t s) ∧
      (s.checkAnnounceRebroadcasts cfg t).WellFormed ∧
      Progress t s.heldEntries.length [] (s.checkAnnounceRebroadcasts cfg t) := by
  unfold checkAnnounceRebroadcasts
  refine passes_spec cfg ok ?_ ?_
  · intro row member
    obtain ⟨before, inside, chosen⟩ := List.mem_filterMap.mp member
    obtain ⟨original, -, rfl⟩ := List.mem_map.mp inside
    dsimp only at chosen
    split at chosen
    next slot isDefer =>
      obtain rfl := Option.some.inj chosen
      exact dueOf_defer isDefer
    next => cases chosen
  · intro row member late
    have inside : (row, s.dueOf cfg t row.2) ∈
        s.announces.entries.map (fun row => (row, s.dueOf cfg t row.2)) := List.mem_map_of_mem member
    have acts : s.dueOf cfg t row.2 ≠ .keep := dueOf_late late (ok.announces row member)
    generalize s.announces.entries.map (fun row => (row, s.dueOf cfg t row.2)) = rows at inside
    generalize s.dueOf cfg t row.2 = due at inside acts
    cases due with
    | keep => exact absurd rfl acts
    | remove =>
      exact .inl (List.mem_map.mpr ⟨_, List.mem_filter.mpr ⟨inside, by simp⟩, rfl⟩)
    | defer slot =>
      refine .inr (.inl (List.mem_map.mpr ⟨(row.1, slot), ?_, rfl⟩))
      exact List.mem_filterMap.mpr ⟨_, inside, rfl⟩
    | fire =>
      refine .inr (.inr (List.mem_map.mpr ⟨row, List.mem_map.mpr ⟨(row, .fire), ?_, rfl⟩, rfl⟩))
      exact List.mem_filter.mpr ⟨inside, by simp⟩

end Leviculum.Transport.Timers
