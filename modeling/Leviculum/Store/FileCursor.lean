import Leviculum.Store.FilePeer

/-! No message that a file store holds is hidden from a peer by a cursor of the past, as long as every opening
finds a sequence as high as all that were given. -/

namespace Leviculum.Store

open Leviculum.Propagation Leviculum.Execution

/-- At most as high as a sequence that was given. -/
def Below (given : Given) (value : Nat) : Prop := value = 0 ∨ ∃ row ∈ given, value ≤ row.1

theorem Below.mono {given later : Given} {value : Nat} (below : Below given value) : Below (given ++ later) value :=
  below.imp_right fun ⟨row, member, le⟩ => ⟨row, List.mem_append_left _ member, le⟩

theorem Below.le {given : Given} {value lower : Nat} (below : Below given value) (le : lower ≤ value) :
    Below given lower := by
  rcases below with zero | ⟨row, member, bound⟩
  · exact .inl (by omega)
  · exact .inr ⟨row, member, le.trans bound⟩

theorem Below.lt {given : Given} {value bound : Nat} (below : Below given value) (positive : 0 < bound)
    (above : ∀ row ∈ given, row.1 < bound) : value < bound := by
  rcases below with zero | ⟨row, member, le⟩
  · omega
  · exact Nat.lt_of_le_of_lt le (above row member)

namespace Sync

/-- What is known of an append whose message was held ever since. -/
structure Kept (s : Sync) (row : Nat × TransientId) : Prop where
  given : row ∈ s.given
  latest : ∀ other ∈ s.given, other.2 = row.2 → other.1 ≤ row.1
  alone : ∀ other ∈ s.given, other.1 = row.1 → other = row
  held : s.host.holds row = true
  stored : ∀ store, s.host.store = some store → store.sequenceOf row.2 = some row.1
  ahead : s.cursor < row.1 ∨ row ∈ s.covered
  planned : ∀ offer, s.pending = some offer → offer.target < row.1 ∨ row ∈ offer.rows ∨ row ∈ s.covered

structure Fair (s : Sync) : Prop where
  traced : Traced (s.host, s.given)
  ordered : Ordered s.host
  ranked : ∀ store, s.host.store = some store → store.Ranked
  cursor : Below s.given s.cursor
  pending : ∀ offer, s.pending = some offer → Below s.given offer.target
  kept : ∀ row ∈ s.kept, s.Kept row

theorem fair_start (files : Files FileName Bytes) : (start files).Fair where
  traced := traced_start files
  ordered := .stopped _
  ranked _ here := by cases here
  cursor := .inl rfl
  pending _ here := by cases here
  kept _ member := by cases member

end Sync

section Appends

variable {h h' : Host} {given : Given} {e : Host.Event}

theorem appends_sublist (h : Host) (e : Host.Event) : ∀ row ∈ h.appends e, row ∈ h.gives e := by
  intro row member
  unfold Host.appends at member
  split at member
  · exact member
  · exact member
  · cases member

theorem appends_single (now : Traced (h, given)) (moved : Stepped h e h') (good : Host.sound (h, given) e = true)
    {row : Nat × TransientId} (member : row ∈ h.appends e) : 0 < row.1 ∧ ∀ other ∈ h.gives e, other = row := by
  unfold Host.appends at member
  split at member
  next a outcome removed =>
    unfold Host.gives at member ⊢
    cases was : h.store with
    | none =>
      rw [was] at member
      cases member
    | some store =>
      rw [was] at member
      rw [Host.sound, was] at good
      dsimp only at member ⊢
      obtain ⟨sequence, -, -⟩ := now.next was (of_decide_eq_true good) a
      split at member
      next reply =>
        cases List.mem_singleton.mp member
        refine ⟨by rw [sequence]; exact Nat.succ_pos _, ?_⟩
        intro other inside
        exact List.mem_singleton.mp inside
      next => cases member
  next a count mask =>
    have placed : ∀ row ∈ h.survived (.append a) count mask, ∃ store, h.store = some store ∧
        row = (((h.collected store).pathOf a).sequence, a.id) := by
      intro row inside
      obtain ⟨c, name, body, within, here, rfl⟩ := mem_placedIn.mp (List.mem_of_mem_filter inside)
      obtain ⟨store, was, -, -, steps⟩ := mem_interrupted_append within
      refine ⟨store, was, ?_⟩
      rcases change_mem_appendSteps steps with rfl | ⟨entry, -, rfl⟩
      · cases here
        rfl
      · cases here
    obtain ⟨store, was, rfl⟩ := placed row member
    rw [Host.sound, was] at good
    obtain ⟨sequence, -, -⟩ := now.next was (of_decide_eq_true good) a
    refine ⟨by rw [sequence]; exact Nat.succ_pos _, ?_⟩
    intro other inside
    obtain ⟨store', was', rfl⟩ := placed other inside
    cases was.symm.trans was'
    rfl
  next => cases member

theorem opened_of_none (moved : Stepped h e h') (closed : h.store = none) {store : FilePropagationStore}
    (later : h'.store = some store) : ∃ capacity listing renamed, e = .open capacity listing renamed ∧
      listing.Perm h.folder.live.entries ∧
      store = (FilePropagationStore.openWith capacity listing h.folder.live renamed).1 := by
  cases moved with
  | opened capacity listing renamed closed listed =>
    cases later
    exact ⟨capacity, listing, renamed, rfl, listed, rfl⟩
  | began store was => cases closed.symm.trans was
  | appended a outcome removed store was => cases closed.symm.trans was
  | unknown id removed => cases closed.symm.trans later
  | purgedBehind id removed store store' path was => cases closed.symm.trans was
  | purged id store store' path was => cases closed.symm.trans was
  | purgeFailed id store store' path was => cases closed.symm.trans was
  | repriced id value renamed synced store was => cases closed.symm.trans was
  | settled store was => cases closed.symm.trans was
  | removal outcome removed path rest next => cases closed.symm.trans later
  | writeFailed removed ticket path body supersedes rest next => cases closed.symm.trans later
  | written synced removed ticket path body supersedes rest next => cases closed.symm.trans later
  | died count store writer was => cases closed.symm.trans was
  | closed store was drained => cases later
  | cut progress count mask opening => cases later

theorem holds_open {store : FilePropagationStore} {row : Nat × TransientId} (was : h.store = some store)
    (held : h.holds row = true) : (store.previous row.2).isSome := by
  unfold Host.holds at held
  rw [was] at held
  exact held

theorem holds_closed {row : Nat × TransientId} (closed : h.store = none) (held : h.holds row = true) :
    ∃ file ∈ h.folder.live.entries, scanned file = true ∧ file.1.id = row.2 ∧ file.1.sequence = row.1 := by
  unfold Host.holds at held
  rw [closed] at held
  dsimp only at held
  rw [List.any_eq_true] at held
  obtain ⟨file, there, held⟩ := held
  rw [Bool.and_eq_true, Bool.and_eq_true, decide_eq_true_iff, decide_eq_true_iff] at held
  exact ⟨file, there, held.1.1, held.1.2, held.2⟩

end Appends

namespace Sync

variable {s : Sync} {host : Host} {e : Host.Event}

theorem Fair.still_stored (fair : s.Fair) (moved : Stepped s.host e host) (good : Host.sound (s.host, s.given) e = true)
    {row : Nat × TransientId} (kept : s.Kept row) (absent : ∀ sequence, (sequence, row.2) ∉ s.host.gives e)
    (held : host.holds row = true) {store' : FilePropagationStore} (later : host.store = some store') :
    store'.sequenceOf row.2 = some row.1 := by
  have known := holds_open later held
  cases was : s.host.store with
  | some store =>
    have follows := (ranked_step fair.ordered fair.traced moved good fair.ranked later).2 store was
    rcases follows.kept row.2 absent with gone | same
    · rw [FilePropagationStore.sequenceOf, Option.map_eq_none_iff] at gone
      rw [gone] at known
      cases known
    · rw [same]
      exact kept.stored store was
  | none =>
    obtain ⟨capacity, listing, renamed, rfl, listed, rfl⟩ := opened_of_none moved was later
    rw [Host.sound, Bool.and_eq_true] at good
    obtain ⟨file, there, scan, own, same⟩ := holds_closed was kept.held
    exact sequenceOf_opened fair.traced listed good.1 good.2 kept.latest there scan own same absent known

theorem Fair.store (fair : s.Fair) (moved : Stepped s.host e host) (good : Host.sound (s.host, s.given) e = true) :
    Fair { s with host := host, given := s.given ++ s.host.gives e, kept := s.keptAfter e host } where
  traced := fair.traced.step moved good
  ordered := fair.ordered.step moved
  ranked _ later := (ranked_step fair.ordered fair.traced moved good fair.ranked later).1
  cursor := fair.cursor.mono
  pending offer here := (fair.pending offer here).mono
  kept := by
    intro row member
    obtain ⟨inside, held⟩ := List.mem_filter.mp member
    have fresh := gives_fresh fair.traced moved good
    rcases List.mem_append.mp inside with old | new
    · obtain ⟨was, unnamed⟩ := List.mem_filter.mp old
      have kept := fair.kept row was
      have absent : ∀ sequence, (sequence, row.2) ∉ s.host.gives e := by
        intro sequence named
        exact of_decide_eq_true unnamed (List.mem_map.mpr ⟨(sequence, row.2), named, rfl⟩)
      refine ⟨List.mem_append_left _ kept.given, ?_, ?_, held, ?_, kept.ahead, kept.planned⟩
      · intro other named same
        rcases List.mem_append.mp named with before | now
        · exact kept.latest other before same
        · exact absurd (same ▸ now) (absent other.1)
      · intro other named same
        rcases List.mem_append.mp named with before | now
        · exact kept.alone other before same
        · exact absurd same (Nat.ne_of_gt (fresh row kept.given other now))
      · intro store later
        exact fair.still_stored moved good kept absent held later
    · have giving := appends_sublist s.host e row new
      obtain ⟨positive, single⟩ := appends_single fair.traced moved good new
      have above : ∀ other ∈ s.given, other.1 < row.1 := fun other before => fresh other before row giving
      refine ⟨List.mem_append_right _ giving, ?_, ?_, held, ?_, .inl (fair.cursor.lt positive above), ?_⟩
      · intro other named _
        rcases List.mem_append.mp named with before | now
        · exact Nat.le_of_lt (above other before)
        · rw [single other now]
      · intro other named same
        rcases List.mem_append.mp named with before | now
        · exact absurd same (Nat.ne_of_lt (above other before))
        · exact single other now
      · intro store later
        cases was : s.host.store with
        | some before =>
          have follows := (ranked_step fair.ordered fair.traced moved good fair.ranked later).2 before was
          exact follows.fresh row.1 row.2 giving
        | none =>
          obtain ⟨capacity, listing, renamed, rfl, -, -⟩ := opened_of_none moved was later
          cases new
      · intro offer here
        exact .inl ((fair.pending offer here).lt positive above)

theorem mem_forEach {store : FilePropagationStore} {entry : StoredMessage} :
    entry ∈ store.forEach ↔ ∃ id row, store.index.lookup id = some row ∧ row.info = entry := by
  unfold FilePropagationStore.forEach
  rw [List.mem_map]
  constructor
  · rintro ⟨row, member, rfl⟩
    obtain ⟨id, found⟩ := mem_entries.mp member
    exact ⟨id, row, found, rfl⟩
  · rintro ⟨id, row, found, rfl⟩
    exact ⟨row, mem_entries.mpr ⟨id, found⟩, rfl⟩

theorem Fair.build (fair : s.Fair) {store : FilePropagationStore} (was : s.host.store = some store) {peer : Peer}
    {entries : List StoredMessage} {budget : Nat} {plan : OfferPlan} (at_ : peer.cursor = s.cursor)
    (listed : entries.Perm store.forEach)
    (sorted : entries.Pairwise (fun entry later => entry.sequence ≤ later.sequence))
    (built : buildOffer peer entries budget = some plan) {row : Nat × TransientId} (kept : s.Kept row) :
    plan.cursorTarget < row.1 ∨ row ∈ offerRows peer entries plan ∨ row ∈ s.covered := by
  rcases kept.ahead with ahead | covered
  · by_cases short : plan.cursorTarget < row.1
    · exact .inl short
    · have reached : row.1 ≤ plan.cursorTarget := Nat.le_of_not_lt short
      have known := fair.traced.store store was
      have stored := kept.stored store was
      refine .inr (.inl ?_)
      cases waiting : store.queued.lookup row.2 with
      | some q =>
        rw [FilePropagationStore.sequenceOf_queued waiting, Option.some.injEq] at stored
        rcases offer_target built with same | ⟨entry, member, same⟩
        · omega
        · obtain ⟨id, listing, found, rfl⟩ := mem_forEach.mp (listed.mem_iff.mp member)
          have order := (fair.ranked store was).behind id listing row.2 q found waiting
          omega
      | none =>
        rw [FilePropagationStore.sequenceOf_unqueued waiting] at stored
        obtain ⟨entry, found, same⟩ := Option.map_eq_some_iff.mp stored
        have member : entry.info ∈ entries := listed.mem_iff.mpr (mem_forEach.mpr ⟨row.2, entry, found, rfl⟩)
        have named := (known.index row.2 entry found).1
        have covers := offer_covers built sorted member (by omega) (by omega) (by
          intro other inside equal
          obtain ⟨id, entry', found', rfl⟩ := mem_forEach.mp (listed.mem_iff.mp inside)
          rcases (known.index id entry' found').2 with zero | given
          · omega
          · have own := kept.alone _ given (equal.trans same)
            have id_ : id = row.2 := congrArg Prod.snd own
            subst id_
            cases found.symm.trans found'
            rfl)
        rw [same, named] at covers
        exact covers
  · exact .inr (.inr covered)

theorem Fair.step (fair : s.Fair) {event : Event} {s' : Sync} (good : s.sound event = true)
    (moved : s.step event = some s') : s'.Fair := by
  cases event with
  | store e =>
    obtain ⟨host, stepped, rfl⟩ := Option.map_eq_some_iff.mp moved
    exact fair.store (step_stepped stepped) good
  | build peer entries budget =>
    rw [Sync.step] at moved
    split at moved
    · cases moved
    next store was =>
      split at moved
      next shape =>
        obtain ⟨at_, listed, sorted⟩ := shape
        cases moved
        refine ⟨fair.traced, fair.ordered, fair.ranked, fair.cursor, ?_, ?_⟩
        · intro offer here
          obtain ⟨plan, built, rfl⟩ := Option.map_eq_some_iff.mp here
          rcases offer_target built with same | ⟨entry, member, same⟩
          · show Below s.given plan.cursorTarget
            rw [same, at_]
            exact fair.cursor
          · obtain ⟨id, listing, found, rfl⟩ := mem_forEach.mp (listed.mem_iff.mp member)
            rcases ((fair.traced.store store was).index id listing found).2 with zero | given
            · exact .inl (same.trans zero)
            · exact .inr ⟨_, given, Nat.le_of_eq same⟩
        · intro row member
          have kept := fair.kept row member
          refine ⟨kept.given, kept.latest, kept.alone, kept.held, kept.stored, kept.ahead, ?_⟩
          intro offer here
          obtain ⟨plan, built, rfl⟩ := Option.map_eq_some_iff.mp here
          exact fair.build was at_ listed sorted built kept
      · cases moved
  | conclude =>
    obtain ⟨offer, here, rfl⟩ := Option.map_eq_some_iff.mp moved
    refine ⟨fair.traced, fair.ordered, fair.ranked, fair.pending offer here, nofun, ?_⟩
    intro row member
    have kept := fair.kept row member
    refine ⟨kept.given, kept.latest, kept.alone, kept.held, kept.stored, ?_, nofun⟩
    rcases kept.planned offer here with ahead | offered | covered
    · exact .inl ahead
    · exact .inr (List.mem_append_right _ offered)
    · exact .inr (List.mem_append_left _ covered)
  | abandon =>
    cases moved
    refine ⟨fair.traced, fair.ordered, fair.ranked, fair.cursor, nofun, ?_⟩
    intro row member
    have kept := fair.kept row member
    exact ⟨kept.given, kept.latest, kept.alone, kept.held, kept.stored, kept.ahead, nofun⟩
  | restore cursor =>
    rw [Sync.step] at moved
    split at moved
    next lower =>
      cases moved
      refine ⟨fair.traced, fair.ordered, fair.ranked, fair.cursor.le lower, fair.pending, ?_⟩
      intro row member
      have kept := fair.kept row member
      refine ⟨kept.given, kept.latest, kept.alone, kept.held, kept.stored, ?_, kept.planned⟩
      exact kept.ahead.imp_left (Nat.lt_of_le_of_lt lower)
    · cases moved

/-- Along a run whose openings find a sequence as high as every one given, each sequence is above all before it,
and no append that the store still holds is hidden from the peer: the cursor is below it until an offer that
concluded has offered or skipped it. -/
theorem sequences_hide_nothing {files : Files FileName Bytes} {events : List Event} {s : Sync}
    (good : Along step (fun s event => s.sound event = true) (start files) events)
    (run : exec step (start files) events = some s) :
    (∀ e s', s.sound (.store e) = true → s.step (.store e) = some s' →
      ∀ row ∈ s.given, ∀ new ∈ s.host.gives e, row.1 < new.1) ∧
    ∀ row ∈ s.kept, (s.cursor < row.1 ∨ row ∈ s.covered) ∧
      ∀ store, s.host.store = some store → store.sequenceOf row.2 = some row.1 := by
  have fair : s.Fair := exec_invariant_along (fun _ _ _ before ok moved => Fair.step before ok moved)
    (fair_start files) good run
  refine ⟨?_, ?_⟩
  · intro e s' sound moved
    obtain ⟨host, stepped, -⟩ := Option.map_eq_some_iff.mp moved
    exact gives_fresh fair.traced (step_stepped stepped) sound
  · intro row member
    have kept := fair.kept row member
    exact ⟨kept.ahead, kept.stored⟩

def lenientPeer (cursor : Nat) : Peer := ⟨cursor, 0, 0, 1000, 1000⟩

def plainAppend (name : UInt8) : Append := ⟨FixedBytes.replicate 32 name, 0, 0, List.replicate 200 name⟩

def listedAs (name : UInt8) (sequence : Nat) : StoredMessage where
  transientId := FixedBytes.replicate 32 name
  destinationHash := FixedBytes.replicate 16 name
  size := 200
  receivedAt := 0
  stampValue := 0
  sequence := sequence

/-- One message stored, offered and acknowledged. -/
def offeredOnce : List Event :=
  [.store (.open 1000 [] fun _ => true), .store (.append (plainAppend 1) (.placed true) true),
    .build (lenientPeer 0) [listedAs 1 1] 1000, .conclude]

theorem sequences_hide_nothing_offered :
    ∃ s, exec step (start ∅) (offeredOnce ++ [.store (.append (plainAppend 2) (.placed true) true)]) = some s ∧
      (2, FixedBytes.replicate 32 2) ∈ s.kept ∧ s.cursor = 1 ∧ (s.cursor < 2 ∨ (2, FixedBytes.replicate 32 2) ∈ s.covered) ∧
      ∀ store, s.host.store = some store → store.sequenceOf (FixedBytes.replicate 32 2) = some 2 := by
  have ran : (exec step (start ∅) (offeredOnce ++ [.store (.append (plainAppend 2) (.placed true) true)])).any
      (fun s => decide ((2, FixedBytes.replicate 32 2) ∈ s.kept ∧ s.cursor = 1)) = true := by decide +kernel
  obtain ⟨s, run, facts⟩ := (Option.any_eq_true _ _).mp ran
  obtain ⟨kept, cursor⟩ := of_decide_eq_true facts
  exact ⟨s, run, kept, cursor, (sequences_hide_nothing (by decide +kernel) run).2 _ kept⟩

/-- The message is purged and the store opened again: the next append gets its sequence once more, and the peer's
cursor hides it. -/
theorem reused_sequence_hides_message :
    ∃ s, exec step (start ∅) (offeredOnce ++ [.store (.purge (FixedBytes.replicate 32 1) true), .store .close,
        .store (.open 1000 [] fun _ => true), .store (.append (plainAppend 2) (.placed true) true)]) = some s ∧
      (1, FixedBytes.replicate 32 1) ∈ s.given ∧ (1, FixedBytes.replicate 32 2) ∈ s.kept ∧ s.cursor = 1 ∧
      (1, FixedBytes.replicate 32 2) ∉ s.covered := by
  have ran : (exec step (start ∅) (offeredOnce ++ [.store (.purge (FixedBytes.replicate 32 1) true), .store .close,
        .store (.open 1000 [] fun _ => true), .store (.append (plainAppend 2) (.placed true) true)])).any
      (fun s => decide ((1, FixedBytes.replicate 32 1) ∈ s.given ∧ (1, FixedBytes.replicate 32 2) ∈ s.kept ∧
        s.cursor = 1 ∧ (1, FixedBytes.replicate 32 2) ∉ s.covered)) = true := by decide +kernel
  obtain ⟨s, run, facts⟩ := (Option.any_eq_true _ _).mp ran
  exact ⟨s, run, of_decide_eq_true facts⟩

end Sync

end Leviculum.Store
