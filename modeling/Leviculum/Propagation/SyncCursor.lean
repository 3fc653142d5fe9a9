import Leviculum.Propagation.OfferSpec
import Mathlib.Data.List.Nodup

/-! When the sync cursor passes only what was delivered, declined or skipped. The offer names ids;
the answer is planned over a store that has moved on. -/

namespace Leviculum.Propagation

/-- What a store holds, in append order, one entry for an id. -/
structure Directory where
  entries : List StoredMessage
  ascending : entries.Pairwise (fun entry later => entry.sequence < later.sequence)
  keyed : (entries.map StoredMessage.transientId).Nodup

theorem Directory.entry_unique (directory : Directory) {entry other : StoredMessage}
    (member : entry ∈ directory.entries) (member' : other ∈ directory.entries)
    (same : entry.transientId = other.transientId) : entry = other :=
  List.inj_on_of_nodup_map directory.keyed member member' same

/-- Since the offer, messages were purged, or appended behind everything it looked at. -/
def Since (directory : Directory) (entries : List StoredMessage) : Prop :=
  ∀ entry ∈ entries, entry ∈ directory.entries ∨ ∀ old ∈ directory.entries, old.sequence < entry.sequence

def sentIds (entries : List StoredMessage) (plan : OfferPlan) (wanted : WantedIds) (batch : SyncBatch) :
    List TransientId := (plan.ids.take batch.stop).filter (serves entries wanted)

/-- The cursor of a batch stays within the plan, and everything stored below it was sent, declined
or skipped for good. -/
structure CursorSound (peer : Peer) (directory : Directory) (plan : OfferPlan) (entries : List StoredMessage)
    (wanted : WantedIds) (batch : SyncBatch) : Prop where
  within : batch.cursorTarget ≤ plan.cursorTarget
  accounted : ∀ entry ∈ entries, peer.cursor < entry.sequence → entry.sequence ≤ batch.cursorTarget →
    entry.transientId ∈ sentIds entries plan wanted batch ∨
      (entry.transientId ∈ plan.ids ∧ wanted.wants entry.transientId = false) ∨
      (entry ∈ directory.entries ∧ peer.skips entry = true)

/-- Every offered id still stored is stored as it was offered, or was appended again right behind
the plan, when it and the ids offered after it are gone from their old places. -/
def Steady (directory : Directory) (plan : OfferPlan) (entries : List StoredMessage) : Prop :=
  ∀ (index : Nat) (id : TransientId), plan.ids[index]? = some id → ∀ found, metaOf entries id = some found →
    found ∈ directory.entries ∨
      (found.sequence = plan.cursorTarget + 1 ∧
        ∀ entry ∈ entries, entry ∈ directory.entries → entry.transientId ∉ plan.ids.drop index)

theorem prefix_eq_of_count {α : Type*} {mark : α → Bool} {first second rest rest' : List α} {x y : α}
    (same : first ++ x :: rest = second ++ y :: rest') (marked : mark x = true) (marked' : mark y = true)
    (count : (first.filter mark).length = (second.filter mark).length) : first = second := by
  induction first generalizing second with
  | nil =>
    cases second with
    | nil => rfl
    | cons head tail =>
      obtain ⟨rfl, -⟩ := List.cons_eq_cons.mp same
      rw [List.filter_cons_of_pos marked] at count
      cases count
  | cons head tail ih =>
    cases second with
    | nil =>
      obtain ⟨rfl, -⟩ := List.cons_eq_cons.mp same
      rw [List.filter_cons_of_pos marked'] at count
      cases count
    | cons head' tail' =>
      obtain ⟨rfl, same'⟩ := List.cons_eq_cons.mp same
      rw [ih same']
      by_cases here : mark head = true
      · rw [List.filter_cons_of_pos here, List.filter_cons_of_pos here] at count
        exact Nat.succ.inj count
      · rw [List.filter_cons_of_neg here, List.filter_cons_of_neg here] at count
        exact count

/-- What a plan says about the directory it was built from. -/
structure Planned (peer : Peer) (directory : Directory) (plan : OfferPlan) (offered : List StoredMessage) :
    Prop where
  ids : plan.ids = offered.map StoredMessage.transientId
  sublist : offered.Sublist directory.entries
  /-- Everything up to the target was offered or skipped. -/
  covers : ∀ entry ∈ directory.entries, peer.cursor < entry.sequence → entry.sequence ≤ plan.cursorTarget →
    entry ∈ offered ∨ peer.skips entry = true
  offer : ∀ entry ∈ offered, peer.cursor < entry.sequence ∧ entry.sequence ≤ plan.cursorTarget ∧
    peer.skips entry = false
  room : ∀ entry ∈ offered, offerBaseSize + entry.transferSize < peer.syncLimitBytes
  reached : plan.cursorTarget = peer.cursor ∨
    ∃ entry ∈ directory.entries, peer.cursor < entry.sequence ∧ plan.cursorTarget = entry.sequence

theorem target_of_ascending {peer : Peer} {taken : List StoredMessage}
    (ascending : taken.Pairwise (fun entry later => entry.sequence < later.sequence)) {target : Nat}
    (final : target = (taken.filter peer.above).getLast?.elim peer.cursor StoredMessage.sequence) :
    (target = peer.cursor ∧ ∀ entry ∈ taken, peer.above entry = false) ∨
    ∃ last ∈ taken, peer.cursor < last.sequence ∧ target = last.sequence ∧
      ∀ entry ∈ taken, peer.cursor < entry.sequence → entry.sequence ≤ target := by
  cases found : (taken.filter peer.above).getLast? with
  | none =>
    rw [found] at final
    rw [List.getLast?_eq_none_iff, List.filter_eq_nil_iff] at found
    exact .inl ⟨final, fun entry member => Bool.eq_false_iff.mpr (found entry member)⟩
  | some last =>
    rw [found] at final
    obtain ⟨earlier, shape⟩ := List.getLast?_eq_some_iff.mp found
    have member : last ∈ taken.filter peer.above := by
      rw [shape]
      exact List.mem_append_right _ List.mem_cons_self
    have sorted := ascending.sublist (List.filter_sublist (p := peer.above))
    rw [shape, List.pairwise_append] at sorted
    refine .inr ⟨last, (List.mem_filter.mp member).1, of_decide_eq_true (List.mem_filter.mp member).2,
      final, ?_⟩
    intro entry here isAbove
    have kept : entry ∈ taken.filter peer.above := List.mem_filter.mpr ⟨here, decide_eq_true isAbove⟩
    rw [shape, List.mem_append, List.mem_singleton] at kept
    rw [final]
    rcases kept with before | rfl
    · exact Nat.le_of_lt (sorted.2.2 entry before last List.mem_cons_self)
    · exact Nat.le_refl _

theorem planned_of_build {peer : Peer} {directory : Directory} {budget : Nat} {plan : OfferPlan}
    (built : buildOffer peer directory.entries budget = some plan) :
    ∃ offered, Planned peer directory plan offered := by
  obtain ⟨taken, rest, same, ids, target, room⟩ := buildOffer_eq_some built
  have ascending := directory.ascending
  rw [same, List.pairwise_append] at ascending
  obtain ⟨inside, -, across⟩ := ascending
  have offered_iff : ∀ entry, entry ∈ taken.filter peer.offers ↔
      entry ∈ taken ∧ peer.cursor < entry.sequence ∧ peer.skips entry = false := by
    intro entry
    rw [List.mem_filter, Peer.offers, Bool.and_eq_true, Bool.not_eq_true', Peer.above, decide_eq_true_eq]
  have split := target_of_ascending inside target
  refine ⟨taken.filter peer.offers, ids, ?_, ?_, ?_, ?_, ?_⟩
  · rw [same]
    exact List.filter_sublist.trans (List.sublist_append_left taken rest)
  · intro entry member isAbove below
    rw [same, List.mem_append] at member
    rcases member with here | later
    · cases skipped : peer.skips entry with
      | true => exact .inr rfl
      | false => exact .inl ((offered_iff entry).mpr ⟨here, isAbove, skipped⟩)
    · rcases split with ⟨atCursor, -⟩ | ⟨last, here, -, reached, -⟩
      · omega
      · have order := across last here entry later
        omega
  · intro entry member
    obtain ⟨here, isAbove, kept⟩ := (offered_iff entry).mp member
    rcases split with ⟨-, none⟩ | ⟨last, -, -, -, highest⟩
    · exact absurd isAbove (of_decide_eq_false (none entry here))
    · exact ⟨isAbove, highest entry here isAbove, kept⟩
  · intro entry member
    exact room entry (List.mem_filter.mp member).1 (List.mem_filter.mp member).2
  · rcases split with ⟨atCursor, -⟩ | ⟨last, here, isAbove, reached, -⟩
    · exact .inl atCursor
    · refine .inr ⟨last, ?_, isAbove, reached⟩
      rw [same]
      exact List.mem_append_left _ here

section Answer

variable {peer : Peer} {directory : Directory} {plan : OfferPlan} {offered entries : List StoredMessage}

theorem Planned.stored_before (planned : Planned peer directory plan offered) (since : Since directory entries)
    {entry : StoredMessage} (member : entry ∈ entries) (isAbove : peer.cursor < entry.sequence)
    (below : entry.sequence ≤ plan.cursorTarget) : entry ∈ directory.entries := by
  rcases since entry member with old | later
  · exact old
  · rcases planned.reached with atCursor | ⟨last, here, -, reached⟩
    · omega
    · have order := later last here
      omega

theorem mem_metaOf {id : TransientId} {found : StoredMessage} (held : metaOf entries id = some found) :
    found ∈ entries ∧ found.transientId = id := by
  have named := List.find?_some held
  exact ⟨List.mem_of_find?_eq_some held, beq_iff_eq.mp named⟩

theorem serves_of_mem {wanted : WantedIds} {entry : StoredMessage} (member : entry ∈ entries)
    (wants : wanted.wants entry.transientId = true) : serves entries wanted entry.transientId = true := by
  rw [serves, wants, Bool.true_and, metaOf, List.find?_isSome]
  exact ⟨entry, member, beq_self_eq_true _⟩

theorem sent_or_declined {wanted : WantedIds} {batch : SyncBatch} {before later : List TransientId}
    (place : plan.ids = before ++ later) (stop : batch.stop ≤ before.length)
    (sent : (before.take batch.stop).filter (serves entries wanted) = before.filter (serves entries wanted))
    {entry : StoredMessage} (member : entry ∈ entries) (walked : entry.transientId ∈ before) :
    entry.transientId ∈ sentIds entries plan wanted batch ∨
      (entry.transientId ∈ plan.ids ∧ wanted.wants entry.transientId = false) := by
  cases wants : wanted.wants entry.transientId with
  | true =>
    left
    rw [sentIds, place, List.take_append_of_le_length stop, sent]
    exact List.mem_filter.mpr ⟨walked, serves_of_mem member wants⟩
  | false =>
    right
    rw [place]
    exact ⟨List.mem_append_left _ walked, rfl⟩

theorem Planned.split (planned : Planned peer directory plan offered) {before later : List TransientId}
    {id : TransientId} (place : plan.ids = before ++ id :: later) :
    ∃ front entry back, offered = front ++ entry :: back ∧ front.map StoredMessage.transientId = before ∧
      entry.transientId = id ∧ back.map StoredMessage.transientId = later := by
  rw [planned.ids, List.map_eq_append_iff] at place
  obtain ⟨front, tail, shape, first, second⟩ := place
  obtain ⟨entry, back, tailShape, named, rest⟩ := List.map_eq_cons_iff.mp second
  exact ⟨front, entry, back, by rw [shape, tailShape], first, named, rest⟩

theorem Planned.mem (planned : Planned peer directory plan offered) {entry : StoredMessage}
    (member : entry ∈ offered) : entry ∈ directory.entries := planned.sublist.subset member

theorem Planned.nodup (planned : Planned peer directory plan offered) : plan.ids.Nodup := by
  rw [planned.ids]
  exact directory.keyed.sublist (planned.sublist.map _)

theorem Planned.closed_at (planned : Planned peer directory plan offered) {before later : List TransientId}
    {id : TransientId} {found : StoredMessage} (place : plan.ids = before ++ id :: later)
    (held : metaOf entries id = some found) (old : found ∈ directory.entries) :
    ∃ front back, offered = front ++ found :: back ∧ front.map StoredMessage.transientId = before := by
  obtain ⟨front, entry, back, shape, first, named, -⟩ := planned.split place
  have member : entry ∈ offered := by
    rw [shape]
    exact List.mem_append_right _ List.mem_cons_self
  have same : found = entry :=
    directory.entry_unique old (planned.mem member) ((mem_metaOf held).2.trans named.symm)
  exact ⟨front, back, by rw [same, shape], first⟩

/-- A batch is sound when the id it stopped at is steady. -/
theorem Planned.closed_sound (planned : Planned peer directory plan offered) (since : Since directory entries)
    (steady : Steady directory plan entries) {wanted : WantedIds} {fits : Nat → Nat → Nat → Bool}
    {batch : SyncBatch} {before : List TransientId} {id : TransientId} {found : StoredMessage}
    (closed : ClosedBatch entries wanted fits plan.ids batch before id found) :
    CursorSound peer directory plan entries wanted batch := by
  obtain ⟨later, place⟩ := closed.place
  have here : plan.ids[before.length]? = some id := by
    rw [place, List.getElem?_append_right (Nat.le_refl _), Nat.sub_self]
    rfl
  have walked_sound : ∀ stored ∈ entries, stored.transientId ∈ before →
      stored.transientId ∈ sentIds entries plan wanted batch ∨
        (stored.transientId ∈ plan.ids ∧ wanted.wants stored.transientId = false) ∨
        (stored ∈ directory.entries ∧ peer.skips stored = true) := by
    intro stored storedHere walked
    exact (sent_or_declined place closed.stop closed.sent storedHere walked).imp_right .inl
  rcases steady _ _ here found closed.held with old | ⟨next, gone⟩
  · obtain ⟨front, back, shape, first⟩ := planned.closed_at place closed.held old
    have member : found ∈ offered := by
      rw [shape]
      exact List.mem_append_right _ List.mem_cons_self
    have bounds := planned.offer found member
    have order := directory.ascending.sublist planned.sublist
    rw [shape, List.pairwise_append, List.pairwise_cons] at order
    have target := closed.target
    refine ⟨by omega, ?_⟩
    intro stored storedHere isAbove below
    have inDirectory := planned.stored_before since storedHere isAbove (by omega)
    rcases planned.covers stored inDirectory isAbove (by omega) with wasOffered | skipped
    · rw [shape, List.mem_append, List.mem_cons] at wasOffered
      rcases wasOffered with inFront | rfl | inBack
      · apply walked_sound stored storedHere
        rw [← first]
        exact List.mem_map_of_mem inFront
      · omega
      · have after := order.2.1.1 stored inBack
        omega
    · exact .inr (.inr ⟨inDirectory, skipped⟩)
  · have target : batch.cursorTarget = plan.cursorTarget := by rw [closed.target, next]; rfl
    refine ⟨Nat.le_of_eq target, ?_⟩
    intro stored storedHere isAbove below
    have inDirectory := planned.stored_before since storedHere isAbove (by omega)
    rcases planned.covers stored inDirectory isAbove (by omega) with wasOffered | skipped
    · have listed : stored.transientId ∈ plan.ids := by
        rw [planned.ids]
        exact List.mem_map_of_mem wasOffered
      have early := gone stored storedHere inDirectory
      rw [place, List.drop_left] at early
      rw [place, List.mem_append] at listed
      exact walked_sound stored storedHere (listed.resolve_right early)
    · exact .inr (.inr ⟨inDirectory, skipped⟩)

theorem Planned.open_sound (planned : Planned peer directory plan offered) (since : Since directory entries)
    {wanted : WantedIds} {batch : SyncBatch}
    (isOpen : OpenBatch entries wanted plan.cursorTarget plan.ids batch) :
    CursorSound peer directory plan entries wanted batch := by
  refine ⟨Nat.le_of_eq isOpen.target, ?_⟩
  intro stored storedHere isAbove below
  rw [isOpen.target] at below
  have inDirectory := planned.stored_before since storedHere isAbove below
  rcases planned.covers stored inDirectory isAbove below with wasOffered | skipped
  · have listed : stored.transientId ∈ plan.ids := by
      rw [planned.ids]
      exact List.mem_map_of_mem wasOffered
    exact (sent_or_declined (List.append_nil _).symm isOpen.stop isOpen.sent storedHere listed).imp_right .inl
  · exact .inr (.inr ⟨inDirectory, skipped⟩)

/-- The answer that asks for everything and stops at a given id. -/
def fitsBefore (entries : List StoredMessage) (before : List TransientId) : Nat → Nat → Nat → Bool :=
  fun count _ _ => decide (count ≤ (before.filter (serves entries .all)).length)

theorem closes_at {before later : List TransientId} {id : TransientId} {found : StoredMessage}
    (place : plan.ids = before ++ id :: later) (held : metaOf entries id = some found) {batch : SyncBatch}
    (planned : planSyncBatch (.ok entries) plan .all (fitsBefore entries before) = .ok batch) :
    ClosedBatch entries .all (fitsBefore entries before) plan.ids batch before id found := by
  obtain ⟨shape, counted⟩ := planSyncBatch_ok planned
  have served : serves entries .all id = true := by
    rw [serves, held]
    rfl
  have small : batch.count ≤ (before.filter (serves entries .all)).length := by
    by_contra large
    obtain ⟨_, _, fitted⟩ := counted (before.filter (serves entries .all)).length (by omega)
    have bound := of_decide_eq_true fitted
    omega
  rcases shape with isOpen | ⟨before', id', found', closed⟩
  · have more : batch.count = (plan.ids.filter (serves entries .all)).length := isOpen.count
    rw [place, List.filter_append, List.filter_cons_of_pos served, List.length_append, List.length_cons] at more
    omega
  · obtain ⟨_, unfit⟩ := closed.full
    have tight := of_decide_eq_false unfit
    obtain ⟨later', place'⟩ := closed.place
    have served' : serves entries .all id' = true := by
      rw [serves, closed.held]
      rfl
    have count := closed.count
    have same : before' = before :=
      prefix_eq_of_count (place'.symm.trans place) served' served (by omega)
    subst same
    rw [place'] at place
    obtain ⟨rfl, -⟩ := List.cons_eq_cons.mp (List.append_cancel_left place)
    obtain rfl : found' = found := Option.some.inj (closed.held.symm.trans held)
    exact closed

theorem Planned.steady_of_sound (planned : Planned peer directory plan offered) (since : Since directory entries)
    (sound : ∀ fits batch, planSyncBatch (.ok entries) plan .all fits = .ok batch →
      CursorSound peer directory plan entries .all batch) : Steady directory plan entries := by
  intro index id here found held
  obtain ⟨bound, value⟩ := List.getElem?_eq_some_iff.mp here
  have place : plan.ids = plan.ids.take index ++ id :: plan.ids.drop (index + 1) := by
    rw [← value, List.getElem_cons_drop, List.take_append_drop]
  obtain ⟨batch, answer⟩ : ∃ batch, planSyncBatch (.ok entries) plan .all
      (fitsBefore entries (plan.ids.take index)) = .ok batch := ⟨_, rfl⟩
  have closed := closes_at place held answer
  obtain ⟨within, accounted⟩ := sound _ _ answer
  obtain ⟨foundHere, foundId⟩ := mem_metaOf held
  rcases since found foundHere with old | later
  · exact .inl old
  · right
    obtain ⟨front, entry, back, shape, -, -, -⟩ := planned.split place
    have member : entry ∈ offered := by
      rw [shape]
      exact List.mem_append_right _ List.mem_cons_self
    have bounds := planned.offer entry member
    have beyond : plan.cursorTarget < found.sequence := by
      rcases planned.reached with atCursor | ⟨last, lastHere, -, reached⟩
      · omega
      · rw [reached]
        exact later last lastHere
    have target := closed.target
    refine ⟨by omega, ?_⟩
    intro stored storedHere inDirectory dropped
    have listed : stored.transientId ∈ plan.ids := List.mem_of_mem_drop dropped
    rw [planned.ids] at listed
    obtain ⟨original, wasOffered, sameId⟩ := List.mem_map.mp listed
    obtain rfl := directory.entry_unique (planned.mem wasOffered) inDirectory sameId
    have storedBounds := planned.offer original wasOffered
    rcases accounted original storedHere storedBounds.1 (by omega) with sent | ⟨-, declined⟩ | ⟨-, skipped⟩
    · have early : original.transientId ∈ plan.ids.take index := by
        have inPrefix := (List.mem_filter.mp sent).1
        have short : batch.stop ≤ index := Nat.le_trans closed.stop (List.length_take_le _ _)
        exact List.take_subset_take_left plan.ids short inPrefix
      exact (List.disjoint_take_drop planned.nodup (Nat.le_refl index)) early dropped
    · cases declined
    · rw [storedBounds.2.2] at skipped
      cases skipped

theorem Planned.unread_sound (planned : Planned peer directory plan offered) (since : Since directory entries)
    {wanted : WantedIds} {fits : Nat → Nat → Nat → Bool} {batch : SyncBatch} {error : StorageError}
    (answer : planSyncBatch (.error error) plan wanted fits = .ok batch) :
    CursorSound peer directory plan entries wanted batch := by
  unfold planSyncBatch at answer
  dsimp only at answer
  split at answer
  · cases answer
  next unasked =>
    obtain rfl := Except.ok.inj answer
    rw [Bool.not_eq_true, List.any_eq_false] at unasked
    refine ⟨Nat.le_refl _, ?_⟩
    intro stored storedHere isAbove below
    have inDirectory := planned.stored_before since storedHere isAbove below
    rcases planned.covers stored inDirectory isAbove below with wasOffered | skipped
    · have listed : stored.transientId ∈ plan.ids := by
        rw [planned.ids]
        exact List.mem_map_of_mem wasOffered
      exact .inr (.inl ⟨listed, Bool.eq_false_iff.mpr (unasked _ listed)⟩)
    · exact .inr (.inr ⟨inDirectory, skipped⟩)

end Answer

/-- A pass over the store: its entries, or the failure to read them. -/
def Reads (read : Except StorageError (List StoredMessage)) (entries : List StoredMessage) : Prop :=
  ∀ listed, read = .ok listed → listed = entries

/-- The cursor passes only what was sent, declined or skipped, whatever the answer and its budget,
exactly when every offered id that is still stored is steady. -/
theorem sync_cursor_sound_iff {peer : Peer} {directory : Directory} {budget : Nat} {plan : OfferPlan}
    (built : buildOffer peer directory.entries budget = some plan) {entries : List StoredMessage}
    (since : Since directory entries) :
    (∀ read wanted fits batch, Reads read entries → planSyncBatch read plan wanted fits = .ok batch →
      CursorSound peer directory plan entries wanted batch) ↔ Steady directory plan entries := by
  obtain ⟨offered, planned⟩ := planned_of_build built
  constructor
  · intro sound
    refine planned.steady_of_sound since (fun fits batch => sound (.ok entries) .all fits batch ?_)
    intro listed same
    exact (Except.ok.inj same).symm
  · intro steady read wanted fits batch reads answer
    cases read with
    | error error => exact planned.unread_sound since answer
    | ok listed =>
      obtain rfl := reads listed rfl
      rcases (planSyncBatch_ok answer).1 with isOpen | ⟨before, id, found, closed⟩
      · exact planned.open_sound since isOpen
      · exact planned.closed_sound since steady closed

def namedMessage (name : UInt8) (sequence : Nat) : StoredMessage where
  transientId := FixedBytes.replicate 32 name
  destinationHash := FixedBytes.replicate 16 0
  size := 100
  receivedAt := 0
  stampValue := 16
  sequence := sequence

def freshPeer : Peer := ⟨0, 16, 3, 256, 10240⟩

def offeredPair : Directory := ⟨[namedMessage 1 1, namedMessage 2 2], by decide, by decide⟩

/-- The second message was appended again, behind one the offer never named; a batch of one passes it. -/
theorem repriced_message_passes_unnamed :
    ∃ plan batch, buildOffer freshPeer offeredPair.entries 431 = some plan ∧
      Since offeredPair [namedMessage 1 1, namedMessage 3 3, namedMessage 2 4] ∧
      planSyncBatch (.ok [namedMessage 1 1, namedMessage 3 3, namedMessage 2 4]) plan .all
        (fun count _ _ => count ≤ 1) = .ok batch ∧
      plan.cursorTarget < batch.cursorTarget ∧ (namedMessage 3 3).transientId ∉ plan.ids ∧
      (namedMessage 3 3).sequence ≤ batch.cursorTarget ∧
      ¬ CursorSound freshPeer offeredPair plan [namedMessage 1 1, namedMessage 3 3, namedMessage 2 4] .all
        batch := by
  have since : Since offeredPair [namedMessage 1 1, namedMessage 3 3, namedMessage 2 4] := by
    unfold Since
    decide
  refine ⟨⟨[⟨List.replicate 32 1, rfl⟩, ⟨List.replicate 32 2, rfl⟩], 2, 0, 0⟩, ⟨1, 1, 100, 113, 1, 3⟩,
    by decide, since, by decide, by decide, by decide, by decide, ?_⟩
  intro sound
  have within := sound.within
  revert within
  decide

/-- A store that did not change in between is sound. -/
theorem unchanged_store_sound :
    ∃ plan, buildOffer freshPeer offeredPair.entries 431 = some plan ∧
      ∀ read wanted fits batch, Reads read offeredPair.entries → planSyncBatch read plan wanted fits = .ok batch →
        CursorSound freshPeer offeredPair plan offeredPair.entries wanted batch := by
  have built : buildOffer freshPeer offeredPair.entries 431 =
      some ⟨[⟨List.replicate 32 1, rfl⟩, ⟨List.replicate 32 2, rfl⟩], 2, 0, 0⟩ := by decide
  refine ⟨_, built, (sync_cursor_sound_iff built (fun entry member => .inl member)).mpr ?_⟩
  intro index id here found held
  exact .inl (mem_metaOf held).1

end Leviculum.Propagation
